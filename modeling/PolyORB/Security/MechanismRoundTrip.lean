import PolyORB.Security.MechanismList

/-!
# Round trips of security mechanisms

What `Fits` its fields is conveyed: exported names, the transport mechanisms, the mechanisms and the
component.
-/

namespace PolyORB

open Buffer

namespace SecurityNames

variable {O : Type} {env : SecurityNames O}

/-- What the library guarantees: an encoding is decoded again, and has a tag at least. -/
structure Lawful (env : SecurityNames O) : Prop where
  decode_encode : ∀ o, env.decode (env.encode o) = some o
  encode_ne_nil : ∀ o, env.encode o ≠ []

/-! ## Exported names -/

/-- The lengths can be encoded, and the decoder for GSSUP wants a name. -/
structure NameFits (env : SecurityNames O) (n : ExportedName O) : Prop where
  oid : (env.encode n.mechanismOid).length < 2 ^ 16
  nameBlob : n.nameBlob.length < 2 ^ 32
  scopedName : env.registered n.mechanismOid = true → n.nameBlob ≠ []

theorem octetAt_cons_succ (o : UInt8) (xs : List UInt8) (i : Nat) :
    octetAt (o :: xs) (i + 1) = octetAt xs i := by
  rw [octetAt, octetAt, List.getElem?_cons_succ]

theorem octetAt_append (xs ys : List UInt8) (i : Nat) :
    octetAt (xs ++ ys) (xs.length + i) = octetAt ys i := by
  rw [octetAt, octetAt, List.getElem?_append_right (Nat.le_add_right _ _), Nat.add_sub_cancel_left]

theorem decodeName_parts {oid blob : List UInt8} {a₁ a₀ b₃ b₂ b₁ b₀ : UInt8}
    (hoid : a₁.toNat * 2 ^ 8 + a₀.toNat = oid.length)
    (hblob : b₃.toNat * 2 ^ 24 + b₂.toNat * 2 ^ 16 + b₁.toNat * 2 ^ 8 + b₀.toNat = blob.length)
    {o : O} (ho : env.decode oid = some o) (hb : ¬(env.registered o = true ∧ blob = [])) :
    env.decodeName (4 :: 1 :: a₁ :: a₀ :: (oid ++ b₃ :: b₂ :: b₁ :: b₀ :: blob)) =
      .ok (some ⟨o, blob⟩) := by
  obtain ⟨item, hitem⟩ : ∃ item,
      item = 4 :: 1 :: a₁ :: a₀ :: (oid ++ b₃ :: b₂ :: b₁ :: b₀ :: blob) := ⟨_, rfl⟩
  have hlen : item.length = 8 + oid.length + blob.length := by
    rw [hitem]
    simp
    omega
  have hat : ∀ i, octetAt item (oid.length + (i + 4)) =
      octetAt (b₃ :: b₂ :: b₁ :: b₀ :: blob) i := by
    intro i
    rw [hitem, ← Nat.add_assoc, octetAt_cons_succ, octetAt_cons_succ, octetAt_cons_succ,
      octetAt_cons_succ, octetAt_append]
  have hdrop : item.drop (oid.length + 8) = blob := by
    have hsplit : item = ([4, 1, a₁, a₀] ++ oid ++ [b₃, b₂, b₁, b₀]) ++ blob := by simp [hitem]
    rw [hsplit]
    exact List.drop_left' (by simp)
  have htake : (item.drop 4).take oid.length = oid := by
    rw [hitem]
    simp
  rw [← hitem, decodeName]
  have h0 : octetAt item 0 = .ok 4 := hitem ▸ rfl
  have h1 : octetAt item 1 = .ok 1 := hitem ▸ rfl
  have h2 : octetAt item 2 = .ok a₁.toNat := hitem ▸ rfl
  have h3 : octetAt item 3 = .ok a₀.toNat := hitem ▸ rfl
  have h4 : octetAt item (oid.length + 4) = .ok b₃.toNat := hat 0
  have h5 : octetAt item (oid.length + 5) = .ok b₂.toNat := hat 1
  have h6 : octetAt item (oid.length + 6) = .ok b₁.toNat := hat 2
  have h7 : octetAt item (oid.length + 7) = .ok b₀.toNat := hat 3
  have hshort : ¬item.length < 8 := by omega
  have hoidShort : ¬item.length < 2 + 2 + oid.length + 4 - 1 := by omega
  have hsame : ¬2 + 2 + oid.length + 4 + blob.length ≠ item.length := by omega
  simp only [h0, h1, h2, h3, hoid, h4, h5, h6, h7, hblob, hdrop, htake, ho, bind, Except.bind, pure,
    Except.pure, if_neg hshort, if_neg hoidShort, if_neg hsame, if_neg hb, ne_eq, not_true_eq_false,
    or_self, if_false]

theorem decodeName_encodeName (h : env.Lawful) {n : ExportedName O} (hn : env.NameFits n) :
    env.decodeName (env.encodeName n) = .ok (some n) := by
  have hoid := hn.oid
  have hblob := hn.nameBlob
  have hitem : env.encodeName n = 4 :: 1 ::
      UInt8.ofNat ((env.encode n.mechanismOid).length / 2 ^ 8) ::
      UInt8.ofNat (env.encode n.mechanismOid).length :: (env.encode n.mechanismOid ++
        UInt8.ofNat (n.nameBlob.length / 2 ^ 24) :: UInt8.ofNat (n.nameBlob.length / 2 ^ 16) ::
        UInt8.ofNat (n.nameBlob.length / 2 ^ 8) :: UInt8.ofNat n.nameBlob.length ::
        n.nameBlob) := by
    simp [encodeName]
  rw [hitem]
  refine decodeName_parts ?_ ?_ (h.decode_encode _) fun hb => hn.scopedName hb.1 hb.2
  · simp only [UInt8.toNat_ofNat']
    omega
  · simp only [UInt8.toNat_ofNat']
    omega

theorem length_encodeName (n : ExportedName O) : (env.encodeName n).length =
    8 + (env.encode n.mechanismOid).length + n.nameBlob.length := by
  simp [encodeName]
  omega

end SecurityNames

/-! ## Transport mechanisms -/

section Transport

variable (sender receiver : Endianness)

theorem Conveys.uint16 (x : UInt16) : Conveys sender (marshallElementary sender 2 x.toNat)
    (unmarshallElementary receiver 2) x.toNat (advanceElementary 2) :=
  .elementary sender receiver two_pos (by simpa using x.toNat_lt)

theorem Conveys.uint32 (x : UInt32) : Conveys sender (marshallElementary sender 4 x.toNat)
    (unmarshallElementary receiver 4) x.toNat (advanceElementary 4) :=
  .elementary sender receiver four_pos (by simpa using x.toNat_lt)

theorem Conveys.count {α : Type} {xs : List α} (h : xs.length < unsignedLongModulus) :
    Conveys sender (marshallElementary sender 4 (xs.length % unsignedLongModulus))
      (unmarshallElementary receiver 4) xs.length (advanceElementary 4) := by
  rw [Nat.mod_eq_of_lt h]
  exact .elementary sender receiver four_pos h

def SocketName.advance (a : SocketName) (p : Nat) : Nat :=
  advanceElementary 2 (advanceString a.hostName.length p)

theorem conveys_socket {a : SocketName} (h : a.hostName.length + 1 < 2 ^ 31) :
    Conveys sender (marshallSocket sender a) (unmarshallSocket receiver) a a.advance := by
  apply Conveys.congr
  · exact (Conveys.latin1String sender receiver h).bind <|
      (Conveys.uint16 sender receiver a.port).map fun r => by rw [UInt16.ofNat_toNat]; rfl
  · exact fun p => rfl

def advanceTls (addresses : List SocketName) (p : Nat) : Nat :=
  advanceAll SocketName.advance addresses
    (advanceElementary 4 (advanceElementary 2 (advanceElementary 2 p)))

theorem conveys_tls (supports requires : UInt16) {addresses : List SocketName}
    (hlen : addresses.length < unsignedLongModulus)
    (h : ∀ a ∈ addresses, a.hostName.length + 1 < 2 ^ 31) :
    Conveys sender (marshallTls sender supports requires addresses) (unmarshallTls receiver)
      (.tls supports requires addresses) (advanceTls addresses) := by
  have hall := Conveys.all fun a ha => conveys_socket sender receiver (h a ha)
  apply Conveys.congr
  · exact (Conveys.uint16 sender receiver supports).bind <|
      (Conveys.uint16 sender receiver requires).bind <|
      (Conveys.count sender receiver hlen).bind <|
      hall.map fun r => by rw [UInt16.ofNat_toNat, UInt16.ofNat_toNat]; rfl
  · exact fun p => rfl

theorem le_advanceElementary (size p : Nat) : p ≤ advanceElementary size p := by
  rw [advanceElementary]
  omega

theorem le_advanceOctetArray (n p : Nat) : p ≤ advanceOctetArray n p :=
  (le_advanceElementary 4 p).trans (Nat.le_add_right _ _)

theorem le_advanceAll {α : Type} {advance : α → Nat → Nat} (h : ∀ x p, p ≤ advance x p)
    (xs : List α) (p : Nat) : p ≤ advanceAll advance xs p := by
  induction xs generalizing p with
  | nil => exact le_refl p
  | cons x xs ih => exact (h x p).trans (ih _)

theorem conveys_encapsulation {α β : Type} {m : BufferProg Unit} {u : BufferProg α} {a : α}
    {c : β} {advance : Nat → Nat} {k : List UInt8 → BufferProg β}
    (h : Conveys sender m u a advance) (hne : 1 < advance 1)
    (hlt : advance 1 < unsignedLongModulus)
    (hk : ∀ octets r, unmarshallEncapsulated u octets = .ok a → k octets r = .ok c r) :
    Conveys sender (marshallEncapsulation sender m) (unmarshallOctetArray receiver >>= k) c
      (advanceOctetArray (advance 1)) := by
  obtain ⟨octets, hm, hlen, hu⟩ := h.encapsulated hne
  rw [marshallEncapsulation, hm, ← hlen]
  exact (Conveys.octetArray sender receiver (hlen ▸ hlt)).map fun r => hk octets r hu

/-- What a component can carry. -/
def TransportTag.Fits : TransportTag → Prop
  | .null => True
  | .tls _ _ addresses => addresses.length < unsignedLongModulus ∧
      (∀ a ∈ addresses, a.hostName.length + 1 < 2 ^ 31) ∧
      advanceTls addresses 1 < unsignedLongModulus
  | .unknown tag data => tag < unsignedLongModulus ∧ tag ≠ tagNullTag ∧ tag ≠ tagTlsSecTrans ∧
      data.length < unsignedLongModulus

instance (c : TransportTag) : Decidable c.Fits := by
  cases c <;> unfold TransportTag.Fits <;> infer_instance

/-- The position after the data of a component. -/
def TransportTag.advanceData : TransportTag → Nat → Nat
  | .null, p => advanceElementary 4 p
  | .tls _ _ addresses, p => advanceOctetArray (advanceTls addresses 1) p
  | .unknown _ data, p => advanceOctetArray data.length p

def TransportTag.advance (c : TransportTag) (p : Nat) : Nat := c.advanceData (advanceElementary 4 p)

theorem SocketName.le_advance (a : SocketName) (p : Nat) : p ≤ a.advance p := by
  rw [SocketName.advance, advanceString]
  have h₁ := le_advanceElementary 4 p
  have h₂ := le_advanceElementary 2 (advanceElementary 4 p + a.hostName.length + 1)
  omega

theorem one_lt_advanceTls (addresses : List SocketName) : 1 < advanceTls addresses 1 := by
  refine lt_of_lt_of_le ?_ (le_advanceAll SocketName.le_advance addresses _)
  decide

theorem TransportTag.le_advance (c : TransportTag) (p : Nat) : p ≤ c.advance p := by
  refine (le_advanceElementary 4 p).trans ?_
  cases c with
  | null => exact le_advanceElementary 4 _
  | tls supports requires addresses => exact le_advanceOctetArray _ _
  | unknown tag data => exact le_advanceOctetArray _ _

theorem conveys_tagData {c : TransportTag} (h : c.Fits) :
    Conveys sender (marshallTagData sender c) (unmarshallTagData receiver c.tag) c
      c.advanceData := by
  cases c with
  | null =>
    exact (Conveys.elementary sender receiver four_pos (by decide)).map fun r => rfl
  | tls supports requires addresses =>
    obtain ⟨hlen, hhost, hlt⟩ := h
    refine conveys_encapsulation sender receiver
      (conveys_tls sender receiver supports requires hlen hhost) (one_lt_advanceTls addresses) hlt
      fun octets r hu => ?_
    simp only [hu]
    rfl
  | unknown tag data =>
    obtain ⟨-, hnull, htls, hlen⟩ := h
    rw [TransportTag.tag, unmarshallTagData, if_neg hnull, if_neg htls]
    exact (Conveys.octetArray sender receiver hlen).map fun r => rfl

theorem TransportTag.Fits.tag_lt {c : TransportTag} (h : c.Fits) : c.tag < 256 ^ 4 := by
  cases c with
  | null => decide
  | tls supports requires addresses =>
    show tagTlsSecTrans < 256 ^ 4
    decide
  | unknown tag data => exact h.1

theorem conveys_transportTag {c : TransportTag} (h : c.Fits) :
    Conveys sender (marshallTransportTag sender c) (unmarshallTransportTag receiver) c c.advance :=
  (Conveys.elementary sender receiver four_pos h.tag_lt).bind (conveys_tagData sender receiver h)

end Transport

/-! ## Mechanisms -/

section Mechanisms

variable {O : Type} {env : SecurityNames O} (sender receiver : Endianness)

structure CsiMechanism.Fits (env : SecurityNames O) (m : CsiMechanism O) : Prop where
  transportMechanismTag : m.transportMechanismTag.Fits
  authenticationMechanism : ∀ o ∈ m.authenticationMechanism,
    (env.encode o).length < unsignedLongModulus
  authenticationTargetName : ∀ n ∈ m.authenticationTargetName,
    env.NameFits n ∧ (env.encodeName n).length < unsignedLongModulus
  authorities : m.attributePrivilegeAuthorities.length < unsignedLongModulus ∧
    ∀ a ∈ m.attributePrivilegeAuthorities, a.name.length < unsignedLongModulus
  namingMechanisms : m.attributeNamingMechanisms.length < unsignedLongModulus ∧
    ∀ o ∈ m.attributeNamingMechanisms, (env.encode o).length < unsignedLongModulus

def ServiceConfiguration.advance (a : ServiceConfiguration) (p : Nat) : Nat :=
  advanceOctetArray a.name.length (advanceElementary 4 p)

theorem ServiceConfiguration.le_advance (a : ServiceConfiguration) (p : Nat) :
    p ≤ a.advance p :=
  (le_advanceElementary 4 p).trans (le_advanceOctetArray _ _)

/-- The position after a mechanism. -/
def CsiMechanism.advance (env : SecurityNames O) (m : CsiMechanism O) (p : Nat) : Nat :=
  let p₁ := advanceElementary 2 (advanceElementary 2
    (m.transportMechanismTag.advance (advanceElementary 2 p)))
  let p₂ := advanceOctetArray ((m.authenticationMechanism.map env.encode).getD []).length p₁
  let p₃ := advanceOctetArray ((m.authenticationTargetName.map env.encodeName).getD []).length p₂
  let p₄ := advanceElementary 4 (advanceElementary 2 (advanceElementary 2 p₃))
  let p₅ := advanceElementary 4
    (advanceAll ServiceConfiguration.advance m.attributePrivilegeAuthorities p₄)
  advanceElementary 4
    (advanceAll (fun o => advanceOctetArray (env.encode o).length) m.attributeNamingMechanisms p₅)

theorem CsiMechanism.le_advance (env : SecurityNames O) (m : CsiMechanism O) (p : Nat) :
    p ≤ m.advance env p := by
  have hauthorities := le_advanceAll ServiceConfiguration.le_advance
    m.attributePrivilegeAuthorities
  have hnaming := le_advanceAll (fun o => le_advanceOctetArray (env.encode o).length)
    m.attributeNamingMechanisms
  calc p ≤ advanceElementary 2 p := le_advanceElementary 2 p
    _ ≤ m.transportMechanismTag.advance _ := m.transportMechanismTag.le_advance _
    _ ≤ advanceElementary 2 _ := le_advanceElementary 2 _
    _ ≤ advanceElementary 2 _ := le_advanceElementary 2 _
    _ ≤ advanceOctetArray _ _ := le_advanceOctetArray _ _
    _ ≤ advanceOctetArray _ _ := le_advanceOctetArray _ _
    _ ≤ advanceElementary 2 _ := le_advanceElementary 2 _
    _ ≤ advanceElementary 2 _ := le_advanceElementary 2 _
    _ ≤ advanceElementary 4 _ := le_advanceElementary 4 _
    _ ≤ advanceAll _ _ _ := hauthorities _
    _ ≤ advanceElementary 4 _ := le_advanceElementary 4 _
    _ ≤ advanceAll _ _ _ := hnaming _
    _ ≤ advanceElementary 4 _ := le_advanceElementary 4 _

theorem nil_length_lt : ([] : List UInt8).length < unsignedLongModulus := by decide

theorem conveys_serviceConfiguration {a : ServiceConfiguration}
    (h : a.name.length < unsignedLongModulus) : Conveys sender
      (marshallServiceConfiguration sender a) (unmarshallServiceConfiguration receiver) a
      a.advance :=
  (Conveys.uint32 sender receiver a.syntaxNumber).bind <|
    (Conveys.octetArray sender receiver h).map fun r => by rw [UInt32.ofNat_toNat]; rfl

theorem conveys_oid (hl : env.Lawful) {o : O} (h : (env.encode o).length < unsignedLongModulus) :
    Conveys sender (marshallOctetArray sender (env.encode o)) (unmarshallOid env receiver) o
      (advanceOctetArray (env.encode o).length) :=
  (Conveys.octetArray sender receiver h).map fun r => by simp only [hl.decode_encode]; rfl

theorem conveys_optionalOid (hl : env.Lawful) {o : Option O}
    (h : ∀ x ∈ o, (env.encode x).length < unsignedLongModulus) :
    Conveys sender (marshallOctetArray sender ((o.map env.encode).getD []))
      (unmarshallOptionalOid env receiver) o
      (advanceOctetArray ((o.map env.encode).getD []).length) := by
  cases o with
  | none => exact (Conveys.octetArray sender receiver nil_length_lt).map fun r => rfl
  | some o =>
    refine (Conveys.octetArray sender receiver (h o rfl)).map fun r => ?_
    have hne : (env.encode o).length ≠ 0 := fun hz =>
      hl.encode_ne_nil o (List.length_eq_zero_iff.1 hz)
    rw [if_pos hne]
    simp only [hl.decode_encode]
    rfl

theorem conveys_optionalName (hl : env.Lawful) {n : Option (ExportedName O)}
    (h : ∀ x ∈ n, env.NameFits x ∧ (env.encodeName x).length < unsignedLongModulus) :
    Conveys sender (marshallOctetArray sender ((n.map env.encodeName).getD []))
      (unmarshallOptionalName env receiver) n
      (advanceOctetArray ((n.map env.encodeName).getD []).length) := by
  cases n with
  | none => exact (Conveys.octetArray sender receiver nil_length_lt).map fun r => rfl
  | some n =>
    obtain ⟨hn, hlt⟩ := h n rfl
    refine (Conveys.octetArray sender receiver hlt).map fun r => ?_
    have hne : (env.encodeName n).length ≠ 0 := by
      rw [SecurityNames.length_encodeName]
      omega
    simp only [SecurityNames.decodeName_encodeName hl hn]
    rfl

theorem conveys_mechanism (hl : env.Lawful) {m : CsiMechanism O} (h : m.Fits env) :
    Conveys sender (marshallMechanism env sender m) (unmarshallMechanism env receiver) m
      (m.advance env) := by
  have hauthorities := Conveys.all fun a ha =>
    conveys_serviceConfiguration sender receiver (h.authorities.2 a ha)
  have hnaming := Conveys.all fun o ho =>
    conveys_oid sender receiver hl (h.namingMechanisms.2 o ho)
  apply Conveys.congr
  · exact (Conveys.uint16 sender receiver m.targetRequires).bind <|
      (conveys_transportTag sender receiver h.transportMechanismTag).bind <|
      (Conveys.uint16 sender receiver m.authenticationTargetSupports).bind <|
      (Conveys.uint16 sender receiver m.authenticationTargetRequires).bind <|
      (conveys_optionalOid sender receiver hl h.authenticationMechanism).bind <|
      (conveys_optionalName sender receiver hl h.authenticationTargetName).bind <|
      (Conveys.uint16 sender receiver m.attributeTargetSupports).bind <|
      (Conveys.uint16 sender receiver m.attributeTargetRequires).bind <|
      (Conveys.count sender receiver h.authorities.1).bind <| hauthorities.bind <|
      (Conveys.count sender receiver h.namingMechanisms.1).bind <| hnaming.bind <|
      (Conveys.uint32 sender receiver m.attributeIdentityTypes).map fun r => by
        simp only [UInt16.ofNat_toNat, UInt32.ofNat_toNat]
        rfl
  · exact fun p => rfl

/-! ## The component -/

/-- The end of the encapsulation of the component. -/
def CsiSecMechList.extent (env : SecurityNames O) (c : CsiSecMechList O) : Nat :=
  advanceAll (CsiMechanism.advance env) c.mechanisms
    (advanceElementary 4 (advanceElementary 1 1))

structure CsiSecMechList.Fits (env : SecurityNames O) (c : CsiSecMechList O) : Prop where
  length : c.mechanisms.length < unsignedLongModulus
  mechanisms : ∀ m ∈ c.mechanisms, m.Fits env
  extent : c.extent env < unsignedLongModulus

theorem conveys_componentData (hl : env.Lawful) {c : CsiSecMechList O} (h : c.Fits env) :
    Conveys sender (marshallComponentData env sender c) (unmarshallComponentData env receiver)
      (.ok c) (advanceOctetArray (c.extent env)) := by
  have hall := Conveys.all fun m hm => conveys_mechanism sender receiver hl (h.mechanisms m hm)
  have hbody : Conveys sender (marshallMechanisms env sender c)
      (unmarshallMechanisms env receiver) c fun p =>
        advanceAll (CsiMechanism.advance env) c.mechanisms
          (advanceElementary 4 (advanceElementary 1 p)) := by
    apply Conveys.congr
    · exact (Conveys.boolean sender receiver c.stateful).bind <|
        (Conveys.count sender receiver h.length).bind <| hall.map fun r => rfl
    · exact fun p => rfl
  refine conveys_encapsulation sender receiver hbody ?_ h.extent fun octets r hu => ?_
  · refine lt_of_lt_of_le ?_ (le_advanceAll (CsiMechanism.le_advance env) c.mechanisms _)
    decide
  · simp only [hu]
    rfl

end Mechanisms

end PolyORB
