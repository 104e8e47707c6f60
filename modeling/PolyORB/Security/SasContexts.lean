import PolyORB.Lib.Checked
import PolyORB.Giop.Encapsulations
import PolyORB.Security.ExportedNames

/-!
# SAS contexts

`To_SASContext_Service_Context` and `To_QoS_Security_Context_Parameter` of
PolyORB.QoS.Security_Contexts.  A null access is an absent option; so is an absent identity.
-/

namespace PolyORB

open Buffer

/-- `Authorization_Element_Type'Class`; `E` has the elements of registered types. -/
inductive AuthorizationElement (E : Type) where
  | registered (e : E)
  | unknown (theType : BitVec 32) (theData : List UInt8)

/-- `Identity_Type'Class`; `I` has the identities that are not anonymous. -/
inductive Identity (I : Type) where
  | anonymous
  | named (i : I)

/-- `QoS_Security_Context_Parameter` -/
inductive SasContext (E I : Type) where
  | establishContext (clientContextId : BitVec 64)
      (authorizationToken : List (AuthorizationElement E)) (identityToken : Option (Identity I))
      (clientAuthenticationToken : Option (List UInt8))
  | completeEstablishContext (clientContextId : BitVec 64) (contextStateful : Bool)
      (finalContextToken : Option (List UInt8))
  | contextError (clientContextId : BitVec 64) (majorStatus minorStatus : BitVec 32)
      (errorToken : Option (List UInt8))
  | messageInContext (clientContextId : BitVec 64) (discardContext : Bool)

/-- The registries of authorization elements and of identities, in the order of registration, and
what each value tells of its type and of its encoding. -/
structure SasRegistries (E I : Type) where
  elements : List (BitVec 32 × (List UInt8 → E))
  elementType : E → BitVec 32
  encodeElement : E → List UInt8
  identities : List (BitVec 32 × (List UInt8 → Except ErrorId (Identity I)))
  tokenType : I → BitVec 32
  encodeIdentity : I → List UInt8

variable {E I : Type}

/-- `Decode` of an anonymous identity. -/
def Identity.decodeAnonymous (item : List UInt8) : Except ErrorId (Identity I) :=
  if item.length ≠ 0 then .error .marshalE else .ok .anonymous

namespace SasRegistries
variable (R : SasRegistries E I)

def getAuthorizationElementType : AuthorizationElement E → BitVec 32
  | .registered e => R.elementType e
  | .unknown theType _ => theType

def encodeAuthorizationElement : AuthorizationElement E → List UInt8
  | .registered e => R.encodeElement e
  | .unknown _ theData => theData

/-- `Create` of PolyORB.Security.Authorization_Elements. -/
def createElement (theType : BitVec 32) (contents : List UInt8) : AuthorizationElement E :=
  match R.elements.find? (·.1 = theType) with
  | some r => .registered (r.2 contents)
  | none => .unknown theType contents

def getTokenType : Identity I → BitVec 32
  | .anonymous => 1
  | .named i => R.tokenType i

def encode : Identity I → List UInt8
  | .anonymous => []
  | .named i => R.encodeIdentity i

/-- `Create` of PolyORB.Security.Identities. -/
def createIdentity (kind : BitVec 32) (item : List UInt8) : Except ErrorId (Option (Identity I)) :=
  if kind = 0 then .ok none
  else
    match R.identities.find? (·.1 = kind) with
    | some r => (r.2 item).map some
    | none => .ok none

end SasRegistries

/-- Registries where the values of registered types are created anew from their types and encodings,
and where anonymous identities are registered. -/
structure SasTypes (E I : Type) extends SasRegistries E I where
  element_inverse : ∀ e, toSasRegistries.createElement (elementType e) (encodeElement e) =
    .registered e
  identity_inverse : ∀ i, toSasRegistries.createIdentity (tokenType i) (encodeIdentity i) =
    .ok (some (.named i))
  anonymous_registered : identities.find? (·.1 = 1) = some (1, Identity.decodeAnonymous)

variable (types : SasTypes E I) (host : Endianness)

namespace SasTypes

/-! ## Writing -/

def marshallElement (e : AuthorizationElement E) : BufferProg Unit := do
  marshallElementary host 4 (types.getAuthorizationElementType e).toNat
  marshallOctetArray host (types.encodeAuthorizationElement e)

def marshallIdentity : Option (Identity I) → BufferProg Unit
  | none => do
    marshallElementary host 4 0
    marshallBoolean host true
  | some i => do
    marshallElementary host 4 (types.getTokenType i).toNat
    if types.getTokenType i = 1 then marshallBoolean host true
    else marshallOctetArray host (types.encode i)

/-- Of the client authentication token, `Unsigned_Long (0)` if there is none. -/
def marshallAuthentication : Option (List UInt8) → BufferProg Unit
  | none => marshallElementary host 4 0
  | some xs => marshallOctetArray host xs

def marshallContext : SasContext E I → BufferProg Unit
  | .establishContext id elements identity token => do
    marshallElementary host 2 0
    marshallElementary host 8 id.toNat
    marshallElementary host 4 elements.length
    marshallAll (types.marshallElement host) elements
    types.marshallIdentity host identity
    marshallAuthentication host token
  | .completeEstablishContext id stateful token => do
    marshallElementary host 2 1
    marshallElementary host 8 id.toNat
    marshallBoolean host stateful
    marshallOctetArray host (token.getD [])
  | .contextError id major minor token => do
    marshallElementary host 2 4
    marshallElementary host 8 id.toNat
    marshallElementary host 4 major.toNat
    marshallElementary host 4 minor.toNat
    marshallOctetArray host (token.getD [])
  | .messageInContext id discard => do
    marshallElementary host 2 5
    marshallElementary host 8 id.toNat
    marshallBoolean host discard

/-- `To_SASContext_Service_Context`: the octets of the context. -/
def toServiceContext (c : SasContext E I) : Except Exn (List UInt8) :=
  encapsulate host (types.marshallContext host c)

/-! ## Reading -/

def unmarshallBits (size : Nat) : BufferProg (BitVec (8 * size)) := do
  return BitVec.ofNat _ (← unmarshallElementary host size)

def unmarshallElement : BufferProg (AuthorizationElement E) := do
  let theType ← unmarshallBits host 4
  return types.createElement theType (← unmarshallOctetArray host)

def unmarshallContents (identityType : BitVec 32) : BufferProg (List UInt8) := do
  if identityType = 0 ∨ identityType = 1 then
    let _ ← unmarshallBoolean host
    return []
  else unmarshallOctetArray host

def unmarshallIdentity : BufferProg (Option (Identity I)) := do
  let identityType ← unmarshallBits host 4
  let contents ← unmarshallContents host identityType
  match types.createIdentity identityType contents with
  | .error _ => throw .programError
  | .ok identity => return identity

/-- A token without octets is none. -/
def unmarshallToken : BufferProg (Option (List UInt8)) := do
  let aux ← unmarshallOctetArray host
  return if aux = [] then none else some aux

/-! The branches of the case statement, and the statement. -/

def unmarshallEstablish : BufferProg (SasContext E I) := do
  let id ← unmarshallBits host 8
  let length ← unmarshallElementary host 4
  let elements ← unmarshallTimes (types.unmarshallElement host) length
  let identity ← types.unmarshallIdentity host
  return .establishContext id elements identity (← unmarshallToken host)

def unmarshallComplete : BufferProg (SasContext E I) := do
  let id ← unmarshallBits host 8
  let stateful ← unmarshallBoolean host
  return .completeEstablishContext id stateful (← unmarshallToken host)

def unmarshallError : BufferProg (SasContext E I) := do
  let id ← unmarshallBits host 8
  let major ← unmarshallBits host 4
  let minor ← unmarshallBits host 4
  return .contextError id major minor (← unmarshallToken host)

def unmarshallMessage : BufferProg (SasContext E I) := do
  let id ← unmarshallBits host 8
  return .messageInContext id (← unmarshallBoolean host)

def unmarshallKind : Nat → BufferProg (SasContext E I)
  | 0 => types.unmarshallEstablish host
  | 1 => unmarshallComplete host
  | 4 => unmarshallError host
  | 5 => unmarshallMessage host
  | _ => throw .programError

def unmarshallContext : BufferProg (SasContext E I) := do
  types.unmarshallKind host (← unmarshallElementary host 2)

/-- `To_QoS_Security_Context_Parameter`, and the number of octets that are left. -/
def toQoSSecurityContextParameter (octets : List UInt8) : Except Exn (SasContext E I × Nat) := do
  let b ← decapsulate octets
  match types.unmarshallContext host b with
  | .ok c b' => return (c, b'.remaining)
  | .error e _ => .error e

end SasTypes

/-! ## Round trip -/

/-- Sequences hold the elements, the identity and the token, and no element is unknown whose type is
registered. -/
def SasContext.Fits : SasContext E I → Prop
  | .establishContext _ es identity token =>
    es.length < unsignedLongModulus ∧
    (∀ e ∈ es, (types.encodeAuthorizationElement e).length < unsignedLongModulus ∧
      ∀ t xs, e = .unknown t xs → types.elements.find? (·.1 = t) = none) ∧
    (∀ i ∈ identity, (types.encode i).length < unsignedLongModulus) ∧
    ∀ xs ∈ token, xs.length < unsignedLongModulus
  | .completeEstablishContext _ _ token | .contextError _ _ _ token =>
    ∀ xs ∈ token, xs.length < unsignedLongModulus
  | .messageInContext _ _ => True

structure SentContext (types : SasTypes E I) where
  context : SasContext E I
  fits : context.Fits types

/-- An empty token reads back as none. -/
def SasContext.normal : SasContext E I → SasContext E I
  | .establishContext id es i token => .establishContext id es i (token.filter (· ≠ []))
  | .completeEstablishContext id b token => .completeEstablishContext id b (token.filter (· ≠ []))
  | .contextError id major minor token => .contextError id major minor (token.filter (· ≠ []))
  | .messageInContext id b => .messageInContext id b

/-- What is written is read, from a position that is not before. -/
def Relays {α : Type} (sender : Endianness) (m : BufferProg Unit) (u : BufferProg α) (a : α) :
    Prop :=
  ∃ f, Conveys sender m u a f ∧ ∀ p, p ≤ f p

namespace Relays

variable {α β : Type} {sender receiver : Endianness} {m m' : BufferProg Unit} {u : BufferProg α}
  {k : α → BufferProg β} {a : α} {c : β} {types : SasTypes E I}

theorem bind (h : Relays sender m u a) (h' : Relays sender m' (k a) c) :
    Relays sender (m >>= fun _ => m') (u >>= k) c := by
  obtain ⟨f, hf, hle⟩ := h
  obtain ⟨g, hg, hle'⟩ := h'
  exact ⟨g ∘ f, hf.bind hg, fun p => (hle p).trans (hle' _)⟩

theorem map (h : Relays sender m u a) (hk : ∀ r, k a r = .ok c r) :
    Relays sender m (u >>= k) c := by
  obtain ⟨f, hf, hle⟩ := h
  exact ⟨f, hf.map hk, hle⟩

theorem elementary {size v : Nat} (hs : 0 < size) (hv : v < 256 ^ size) :
    Relays sender (marshallElementary sender size v) (unmarshallElementary receiver size) v :=
  ⟨_, .elementary sender receiver hs hv, fun p => by unfold advanceElementary; omega⟩

theorem boolean (v : Bool) :
    Relays sender (marshallBoolean sender v) (unmarshallBoolean receiver) v :=
  ⟨_, .boolean sender receiver v, fun p => by unfold advanceElementary; omega⟩

theorem octetArray {xs : List UInt8} (h : xs.length < unsignedLongModulus) :
    Relays sender (marshallOctetArray sender xs) (unmarshallOctetArray receiver) xs :=
  ⟨_, .octetArray sender receiver h, fun p => by unfold advanceOctetArray advanceElementary; omega⟩

theorem bits (size : Nat) (hs : 0 < size) (v : BitVec (8 * size)) :
    Relays sender (marshallElementary sender size v.toNat) (SasTypes.unmarshallBits receiver size)
      v := by
  refine (elementary hs ?_).map fun r => ?_
  · exact v.isLt.trans_eq (Nat.pow_mul 2 8 size)
  · rw [BitVec.ofNat_toNat, BitVec.setWidth_eq]
    rfl

theorem all {marshall : α → BufferProg Unit} {xs : List α}
    (h : ∀ x ∈ xs, Relays sender (marshall x) u x) :
    Relays sender (marshallAll marshall xs) (unmarshallTimes u xs.length) xs := by
  induction xs with
  | nil => exact ⟨id, .pure [], fun _ => le_rfl⟩
  | cons x xs ih =>
    have hrest := ih fun y hy => h y (List.mem_cons_of_mem x hy)
    exact (h x List.mem_cons_self).bind (hrest.map fun _ => rfl)

end Relays

namespace SasTypes

variable {types : SasTypes E I} {sender receiver : Endianness}

/-- Each element is created anew, an unknown one if its type is not registered. -/
theorem create_element {e : AuthorizationElement E}
    (h : ∀ t xs, e = .unknown t xs → types.elements.find? (·.1 = t) = none) :
    types.createElement (types.getAuthorizationElementType e)
      (types.encodeAuthorizationElement e) = e := by
  cases e with
  | registered e => exact types.element_inverse e
  | unknown t xs =>
    unfold SasRegistries.createElement
    rw [show types.getAuthorizationElementType (.unknown t xs) = t from rfl, h t xs rfl]
    rfl

theorem create_identity (types : SasTypes E I) (i : Identity I) :
    types.createIdentity (types.getTokenType i) (types.encode i) = .ok (some i) := by
  cases i with
  | named i => exact types.identity_inverse i
  | anonymous =>
    unfold SasRegistries.createIdentity
    rw [show types.getTokenType .anonymous = 1 from rfl, if_neg (by decide),
      types.anonymous_registered]
    rfl

theorem named_tokenType_ne_one (types : SasTypes E I) (i : I) : types.tokenType i ≠ 1 := by
  intro h1
  have hinverse := types.identity_inverse i
  unfold SasRegistries.createIdentity at hinverse
  rw [h1, if_neg (by decide), types.anonymous_registered] at hinverse
  dsimp only at hinverse
  unfold Identity.decodeAnonymous at hinverse
  split at hinverse <;> cases hinverse

theorem relays_element {e : AuthorizationElement E}
    (hfits : (types.encodeAuthorizationElement e).length < unsignedLongModulus)
    (h : ∀ t xs, e = .unknown t xs → types.elements.find? (·.1 = t) = none) :
    Relays sender (types.marshallElement sender e) (types.unmarshallElement receiver) e :=
  (Relays.bits 4 four_pos _).bind ((Relays.octetArray hfits).map fun _ => by
    rw [create_element h]
    rfl)

theorem relays_identity {identity : Option (Identity I)}
    (hfits : ∀ i ∈ identity, (types.encode i).length < unsignedLongModulus) : Relays sender
    (types.marshallIdentity sender identity) (types.unmarshallIdentity receiver) identity := by
  cases identity with
  | none =>
    have hcontents : Relays sender (marshallBoolean sender true) (unmarshallContents receiver 0)
      [] := (Relays.boolean true).map fun _ => rfl
    exact (Relays.bits 4 four_pos (0 : BitVec 32)).bind (hcontents.map fun r => rfl)
  | some i =>
    have hcontents : Relays sender
        (if types.getTokenType i = 1 then marshallBoolean sender true
          else marshallOctetArray sender (types.encode i))
        (unmarshallContents receiver (types.getTokenType i)) (types.encode i) := by
      unfold unmarshallContents
      cases i with
      | anonymous => exact (Relays.boolean true).map fun _ => rfl
      | named i =>
        have h1 : types.getTokenType (.named i) ≠ 1 := types.named_tokenType_ne_one i
        have h0 : types.getTokenType (.named i) ≠ 0 := by
          intro (h0 : types.tokenType i = 0)
          have hinverse := types.identity_inverse i
          unfold SasRegistries.createIdentity at hinverse
          rw [if_pos h0] at hinverse
          cases hinverse
        rw [if_neg h1, if_neg (not_or.2 ⟨h0, h1⟩)]
        exact Relays.octetArray (hfits _ rfl)
    exact (Relays.bits 4 four_pos (types.getTokenType i)).bind
      (hcontents.map fun r => by simp only [create_identity]; rfl)

/-- What is read of a token that is none or empty is none. -/
theorem relays_token {token : Option (List UInt8)}
    (h : ∀ xs ∈ token, xs.length < unsignedLongModulus) :
    Relays sender (marshallOctetArray sender (token.getD [])) (unmarshallToken receiver)
      (token.filter (· ≠ [])) := by
  cases token with
  | none => exact (Relays.octetArray (by decide)).map fun _ => rfl
  | some xs =>
    refine (Relays.octetArray (h xs rfl)).map fun _ => ?_
    cases xs <;> rfl

theorem relays_authentication {token : Option (List UInt8)}
    (h : ∀ xs ∈ token, xs.length < unsignedLongModulus) :
    Relays sender (marshallAuthentication sender token) (unmarshallToken receiver)
      (token.filter (· ≠ [])) := by
  cases token with
  | none =>
    have hzero : Relays sender (marshallElementary sender 4 0) (unmarshallOctetArray receiver)
      [] := (Relays.elementary four_pos (by decide)).map fun _ => rfl
    exact hzero.map fun _ => rfl
  | some xs =>
    show Relays _ (marshallOctetArray sender ((some xs).getD [])) _ _
    exact relays_token h

theorem conveys_context (c : SentContext types) : ∃ f, Conveys sender
    (types.marshallContext sender c.context) (types.unmarshallContext receiver) c.context.normal f ∧
      ∀ p, p < f p := by
  obtain ⟨c, hc⟩ := c
  have hkind {v : Nat} (hv : v < 256 ^ 2) {m : BufferProg Unit} {a : SasContext E I}
      (h : Relays sender m (types.unmarshallKind receiver v) a) : ∃ f,
      Conveys sender (marshallElementary sender 2 v >>= fun _ => m)
        (types.unmarshallContext receiver) a f ∧ ∀ p, p < f p := by
    obtain ⟨f, hf, hle⟩ := h
    refine ⟨_, (Conveys.elementary sender receiver two_pos hv).bind hf, fun p => ?_⟩
    refine Nat.lt_of_lt_of_le ?_ (hle _)
    unfold advanceElementary
    omega
  cases c with
  | establishContext id es i token =>
    have hlen : es.length < 256 ^ 4 := hc.1
    refine hkind (by decide) ?_
    show Relays _ _ (types.unmarshallEstablish receiver) _
    refine (Relays.bits 8 (by decide) id).bind ?_
    refine (Relays.elementary four_pos hlen).bind ?_
    refine (Relays.all fun e he => relays_element (hc.2.1 e he).1 (hc.2.1 e he).2).bind ?_
    refine (relays_identity hc.2.2.1).bind ?_
    exact (relays_authentication hc.2.2.2).map fun _ => rfl
  | completeEstablishContext id b token =>
    have htoken : ∀ xs ∈ token, xs.length < unsignedLongModulus := hc
    refine hkind (by decide) ?_
    show Relays _ _ (unmarshallComplete receiver) _
    exact (Relays.bits 8 (by decide) id).bind
      ((Relays.boolean b).bind ((relays_token htoken).map fun _ => rfl))
  | contextError id major minor token =>
    have htoken : ∀ xs ∈ token, xs.length < unsignedLongModulus := hc
    refine hkind (by decide) ?_
    show Relays _ _ (unmarshallError receiver) _
    exact (Relays.bits 8 (by decide) id).bind ((Relays.bits 4 four_pos major).bind
      ((Relays.bits 4 four_pos minor).bind ((relays_token htoken).map fun _ => rfl)))
  | messageInContext id b =>
    refine hkind (by decide) ?_
    show Relays _ _ (unmarshallMessage receiver) _
    exact (Relays.bits 8 (by decide) id).bind ((Relays.boolean b).map fun _ => rfl)

/-! ## The second conversion -/

/-- What a buffer holds after a program. -/
def written (m : BufferProg Unit) (b : Buffer) : Except Exn (List UInt8) :=
  match m b with
  | .ok _ b' => .ok b'.octets
  | .error e _ => .error e

theorem written_after {m m' : BufferProg Unit} (p : BufferProg Unit)
    (h : ∀ b, written m b = written m' b) (b : Buffer) :
    written (p >>= fun _ => m) b = written (p >>= fun _ => m') b := by
  unfold written
  cases hp : p b with
  | error e b' => rw [Program.bind_error hp, Program.bind_error hp]
  | ok _ b' =>
    rw [Program.bind_ok hp, Program.bind_ok hp]
    exact h b'

theorem written_empty (host : Endianness) (b : Buffer) :
    written (marshallOctetArray host []) b = written (marshallElementary host 4 0) b := by
  unfold written marshallOctetArray
  rw [List.length_nil, Nat.zero_mod]
  cases hm : marshallElementary host 4 0 b with
  | error e b' => rw [Program.bind_error hm]
  | ok _ b' =>
    rw [Program.bind_ok hm, alignMarshallCopy, Program.bind_ok (padAlign_one b')]
    exact congrArg Except.ok ((flatten_growOrAppend ..).trans (List.append_nil _))

/-- An empty token is written like none. -/
theorem toServiceContext_normal (c : SasContext E I) :
    types.toServiceContext sender c.normal = types.toServiceContext sender c := by
  have hgetD (token : Option (List UInt8)) : (token.filter (· ≠ [])).getD [] = token.getD [] := by
    rcases token with _ | _ | _ <;> rfl
  cases c with
  | establishContext id es i token =>
    have hauthentication (b : Buffer) : written (marshallAuthentication sender
        (token.filter (· ≠ []))) b = written (marshallAuthentication sender token) b := by
      rcases token with _ | _ | _
      · rfl
      · exact (written_empty sender b).symm
      · rfl
    refine written_after (startEncapsulation sender) (fun b => ?_) (Buffer.new sender)
    repeat refine written_after _ (fun b => ?_) b
    exact hauthentication b
  | completeEstablishContext id b token =>
    simp only [toServiceContext, SasContext.normal, marshallContext, hgetD]
  | contextError id major minor token =>
    simp only [toServiceContext, SasContext.normal, marshallContext, hgetD]
  | messageInContext id b => rfl

/-- Every SAS context comes back, whatever the byte orders, and fills the encapsulation; it is
written the same again. -/
theorem context_comes_back (types : SasTypes E I) (sender receiver : Endianness)
    (c : SentContext types) :
    ∃ octets, types.toServiceContext sender c.context = .ok octets ∧
      types.toQoSSecurityContextParameter receiver octets = .ok (c.context.normal, 0) ∧
      types.toServiceContext sender c.context.normal = .ok octets := by
  obtain ⟨f, hf, hlt⟩ : ∃ f, Conveys sender (types.marshallContext sender c.context)
      (types.unmarshallContext receiver) c.context.normal f ∧ ∀ p, p < f p := conveys_context c
  obtain ⟨octets, hwrite, -, hread⟩ := hf.encapsulated (hlt 1)
  refine ⟨octets, hwrite, ?_, (toServiceContext_normal c.context).trans hwrite⟩
  unfold unmarshallEncapsulated at hread
  unfold toQoSSecurityContextParameter
  split at hread
  · nomatch hread
  · next b hb =>
    rw [hb, Checked.bind_ok]
    split at hread
    · next a b' hu =>
      split at hread
      · next hzero =>
        obtain rfl := Except.ok.inj hread
        simp only [hu, hzero]
        rfl
      · nomatch hread
    · nomatch hread

/-- The principal names that are decoded from their encoding. -/
abbrev PrincipalName {Oid : Type} (m : ExportedNames.Mechanisms Oid) :=
  { n : ExportedNames.ExportedName Oid // m.decode (m.encode n) = .ok (some n) }

/-- The registries with anonymous identities and principal names, and no authorization elements. -/
def principalNames {Oid : Type} [DecidableEq Oid] (m : ExportedNames.Mechanisms Oid) :
    SasTypes Empty (PrincipalName m) where
  elements := []
  elementType := Empty.elim
  encodeElement := Empty.elim
  identities := [(1, Identity.decodeAnonymous), (2, fun item =>
    match m.decode item with
    | .ok (some n) =>
      if h : m.decode (m.encode n) = .ok (some n) then .ok (.named ⟨n, h⟩) else .error .marshalE
    | _ => .error .marshalE)]
  tokenType _ := 2
  encodeIdentity n := m.encode n.1
  element_inverse e := e.elim
  identity_inverse n := by
    unfold SasRegistries.createIdentity
    simp [n.2, Except.map]
  anonymous_registered := rfl

/-- An unknown authorization element, and an anonymous identity or a principal name. -/
theorem context_comes_back_principalNames :
    let m : ExportedNames.Mechanisms (List UInt8) := ⟨id, some, fun _ => rfl, [[6]]⟩
    ∀ identity ∈ [Identity.anonymous, .named ⟨⟨true, [6], [65]⟩, by decide⟩],
      let c : SasContext Empty (PrincipalName m) :=
        .establishContext 1 [.unknown 3 [1, 2]] (some identity) (some [])
      ∃ octets, (principalNames m).toServiceContext .bigEndian c = .ok octets ∧
        (principalNames m).toQoSSecurityContextParameter .littleEndian octets =
          .ok (c.normal, 0) ∧
        (principalNames m).toServiceContext .bigEndian c.normal = .ok octets := by
  intro m identity hidentity c
  refine context_comes_back (principalNames m) .bigEndian .littleEndian ⟨c, by decide, ?_, ?_,
    by rintro _ ⟨⟩; decide⟩
  · intro e he
    obtain rfl := List.mem_singleton.1 he
    exact ⟨by decide, fun _ _ _ => rfl⟩
  · rintro i ⟨⟩
    simp only [List.mem_cons, List.not_mem_nil, or_false] at hidentity
    rcases hidentity with rfl | rfl <;> decide

end SasTypes

end PolyORB
