import PolyORB.Security.MechanismRoundTrip

/-!
# Publication of security mechanisms

What a component says of one target mechanism when it says nothing of the others, what a client
makes of it, and the lists of target mechanisms that are published so.
-/

namespace PolyORB

open Buffer

variable {O : Type}

/-! ## One target mechanism -/

variable {t t' : TargetMechanism O}

namespace TargetMechanism

def trusts (t : TargetMechanism O) : Bool := t.backwardTrustEvaluator || t.forwardTrustEvaluator

def delegates (t : TargetMechanism O) : Bool := !t.authorities.isEmpty && t.forwardTrustEvaluator

def compound (t : TargetMechanism O) : CsiMechanism O where
  targetRequires := t.targetRequires
  transportMechanismTag := t.transportTag
  authenticationTargetSupports :=
    if t.authenticationMechanism.isSome = true then establishTrustInClient else 0
  authenticationTargetRequires :=
    if t.authenticationMechanism.isSome = true ∧ t.authenticationRequired = true then
      establishTrustInClient else 0
  authenticationMechanism := t.authenticationMechanism.map TargetAuthentication.mechanismOid
  authenticationTargetName := t.authenticationMechanism.map TargetAuthentication.targetName
  attributeTargetSupports := (if t.trusts = true then identityAssertionOption else 0) |||
    (if t.delegates = true then delegationByClient else 0)
  attributeTargetRequires :=
    if t.delegates = true ∧ t.delegationRequired = true then delegationByClient else 0
  attributePrivilegeAuthorities := t.authorities
  attributeNamingMechanisms := if t.trusts = true then t.namingMechanisms else []
  attributeIdentityTypes := if t.trusts = true then t.identityTypes else 0

theorem fetch_eq (m : CsiMechanism O) (t : TargetMechanism O) : m.fetch t = { t.compound with
    attributePrivilegeAuthorities := m.attributePrivilegeAuthorities ++ t.authorities
    attributeNamingMechanisms :=
      if t.trusts = true then t.namingMechanisms else m.attributeNamingMechanisms } := by
  have htrusts : (t.backwardTrustEvaluator = true ∨ t.forwardTrustEvaluator = true) ↔
      t.trusts = true := by rw [trusts, Bool.or_eq_true]
  have hdelegates : (t.authorities ≠ [] ∧ t.forwardTrustEvaluator = true) ↔
      t.delegates = true := by simp [delegates]
  have hrequired : (t.authorities ≠ [] ∧ t.forwardTrustEvaluator = true ∧
      t.delegationRequired = true) ↔ (t.delegates = true ∧ t.delegationRequired = true) := by
    rw [← and_assoc, hdelegates]
  simp [CsiMechanism.fetch, compound, htrusts, hdelegates, hrequired]

theorem fetch_new (t : TargetMechanism O) : CsiMechanism.new.fetch t = t.compound := by
  rw [fetch_eq]
  rfl

@[simp] theorem fetch_authorities (m : CsiMechanism O) (t : TargetMechanism O) :
    (m.fetch t).attributePrivilegeAuthorities =
      m.attributePrivilegeAuthorities ++ t.authorities := rfl

/-- Two target mechanisms, neither with authorities, that a client cannot tell apart. -/
structure Alike (t t' : TargetMechanism O) : Prop where
  transport : t.transport = t'.transport
  authenticationMechanism : t.authenticationMechanism = t'.authenticationMechanism
  authenticationRequired : t.authenticationMechanism.isSome = true →
    t.authenticationRequired = t'.authenticationRequired
  trusts : t.trusts = t'.trusts
  namingMechanisms : t.trusts = true → t.namingMechanisms = t'.namingMechanisms
  identityTypes : t.trusts = true → t.identityTypes = t'.identityTypes

theorem fetch_compound (h : t.compound = t'.compound)
    (hnone : t.authorities = []) : t.compound.fetch t' = t'.compound := by
  have hauthorities : t.compound.attributePrivilegeAuthorities = [] := hnone
  have hnaming : t.compound.attributeNamingMechanisms = t'.compound.attributeNamingMechanisms := by
    rw [h]
  rw [fetch_eq, hauthorities, hnaming, List.nil_append]
  simp only [compound]
  congr 1
  split <;> rfl

theorem if_congr_of_imp {α : Type} {p : Prop} [Decidable p] {x y z : α} (h : p → x = y) :
    (if p then x else z) = if p then y else z := by
  split
  · exact h ‹p›
  · rfl

theorem compound_eq_iff (h : t.authorities = [])
    (h' : t'.authorities = []) : t.compound = t'.compound ↔ t.Alike t' := by
  have hd : t.delegates = false := by simp [delegates, h]
  have hd' : t'.delegates = false := by simp [delegates, h']
  refine ⟨fun heq => ?_, fun ha => ?_⟩
  · have htransport := congrArg CsiMechanism.transportMechanismTag heq
    have hoid := congrArg CsiMechanism.authenticationMechanism heq
    have hname := congrArg CsiMechanism.authenticationTargetName heq
    have hrequired := congrArg CsiMechanism.authenticationTargetRequires heq
    have hsupports := congrArg CsiMechanism.attributeTargetSupports heq
    have hnaming := congrArg CsiMechanism.attributeNamingMechanisms heq
    have htypes := congrArg CsiMechanism.attributeIdentityTypes heq
    simp only [compound, transportTag, hd, hd'] at htransport hoid hname hrequired hsupports hnaming htypes
    have hauthentication : t.authenticationMechanism = t'.authenticationMechanism := by
      cases ht : t.authenticationMechanism with
      | none =>
        rw [ht] at hoid
        exact (Option.map_eq_none_iff.1 hoid.symm).symm
      | some a =>
        cases ht' : t'.authenticationMechanism with
        | none => simp [ht, ht'] at hoid
        | some a' =>
          simp only [ht, ht', Option.map_some, Option.some.injEq] at hoid hname
          cases a
          cases a'
          simp only at hoid hname
          rw [hoid, hname]
    have htrusts : t.trusts = t'.trusts := by
      cases ht : t.trusts <;> cases ht' : t'.trusts <;> simp [ht, ht'] at hsupports <;>
        first | rfl | exact absurd hsupports (by decide)
    refine ⟨?_, hauthentication, fun hsome => ?_, htrusts, fun ht => ?_, fun ht => ?_⟩
    · cases ht : t.transport <;> cases ht' : t'.transport <;> simp_all
      rename_i a a'
      cases a
      cases a'
      simp_all
    · rw [← hauthentication] at hrequired
      simp only [hsome, true_and] at hrequired
      cases ht : t.authenticationRequired <;> cases ht' : t'.authenticationRequired <;>
        simp [ht, ht'] at hrequired <;> first | rfl | exact absurd hrequired (by decide)
    · simpa only [← htrusts, ht, if_true] using hnaming
    · simpa only [← htrusts, ht, if_true] using htypes
  · have hrequired : (t.authenticationMechanism.isSome = true ∧ t.authenticationRequired = true) ↔
        (t'.authenticationMechanism.isSome = true ∧ t'.authenticationRequired = true) := by
      rw [← ha.authenticationMechanism]
      exact and_congr_right fun hsome => by rw [ha.authenticationRequired hsome]
    have hnaming : (if t.trusts = true then t.namingMechanisms else []) =
        if t'.trusts = true then t'.namingMechanisms else [] := by
      rw [← ha.trusts]
      exact if_congr_of_imp fun ht => ha.namingMechanisms ht
    have htypes : (if t.trusts = true then t.identityTypes else 0) =
        if t'.trusts = true then t'.identityTypes else 0 := by
      rw [← ha.trusts]
      exact if_congr_of_imp fun ht => ha.identityTypes ht
    simp only [compound, transportTag, targetRequires, hd, hd', h, h', hrequired, hnaming,
      htypes]
    simp [ha.transport, ha.authenticationMechanism, ha.trusts]

end TargetMechanism

/-! ## Clients -/

section Clients

variable {A P : Type}

/-- The mechanism that a client creates for the authentication layer. -/
def CsiClient.presentedAuthentication (client : CsiClient O A P) (t : TargetMechanism O) :
    Except Exn (Option A) :=
  match t.authenticationMechanism with
  | none => .ok none
  | some a => client.createClientMechanism (some a.mechanismOid) a.targetName

/-- What a client makes of a target mechanism, when it supports it. -/
def CsiClient.presented (client : CsiClient O A P) (stateful : Bool) (t : TargetMechanism O) :
    Except Exn (Option (ClientMechanism O A P)) := do
  let authentication ← client.presentedAuthentication t
  let named := t.trusts && isSetIdentityType ittPrincipalName t.identityTypes
  let created := t.authorities.map fun a =>
    client.createClientAuthorityMechanism a.syntaxNumber a.name
  let supported := (!t.authenticationMechanism.isSome || authentication.isSome) &&
    (!named || t.namingMechanisms.length != 0) && created.all Option.isSome
  if supported = true then
    return some {
      stateful := stateful
      transport := some (match t.transport with
        | none => .unprotected
        | some transport => .tls transport.targetSupports transport.targetRequires)
      authenticationMechanism := authentication
      authenticationRequired := t.authenticationMechanism.isSome && t.authenticationRequired
      identityAssertion := t.trusts
      authorities := created.filterMap id
      delegationSupported := t.delegates
      delegationRequired := t.delegates && t.delegationRequired
      namingMechanisms := if named = true then t.namingMechanisms else []
      identityTypes := if t.trusts = true then t.identityTypes else 0
      note := t.compound }
  else return none

/-! The options of a compound mechanism are those that a client finds set. -/

theorem isSetOption_establish :
    ∀ a : Bool, isSetOption establishTrustInClient
      (if a = true then establishTrustInClient else 0) = a := by
  decide

theorem isSetOption_establish_and :
    ∀ a b : Bool, (a && isSetOption establishTrustInClient
      (if a = true ∧ b = true then establishTrustInClient else 0)) = (a && b) := by
  decide

theorem isSetOption_identityAssertion :
    ∀ a b : Bool, isSetOption identityAssertionOption
      ((if a = true then identityAssertionOption else 0) |||
        (if b = true then delegationByClient else 0)) = a := by
  decide

theorem isSetOption_delegation :
    ∀ a b : Bool, isSetOption delegationByClient
      ((if a = true then identityAssertionOption else 0) |||
        (if b = true then delegationByClient else 0)) = b := by
  decide

theorem isSetOption_delegation_and :
    ∀ a b : Bool, (a && isSetOption delegationByClient
      (if a = true ∧ b = true then delegationByClient else 0)) = (a && b) := by
  decide

theorem isSetIdentityType_zero : isSetIdentityType ittPrincipalName 0 = false := by decide

theorem TargetMechanism.delegates_and (t : TargetMechanism O) :
    (t.delegates && t.authorities.length != 0) = t.delegates := by
  rw [TargetMechanism.delegates]
  cases t.authorities <;> simp

/-- A client that is given the compound mechanism presents the target mechanism. -/
theorem CsiClient.clientMechanism_compound (client : CsiClient O A P) (stateful : Bool)
    (t : TargetMechanism O) :
    client.clientMechanism stateful t.compound = client.presented stateful t := by
  have htransport : createTransport t.compound.transportMechanismTag =
      some (match t.transport with
        | none => .unprotected
        | some transport => .tls transport.targetSupports transport.targetRequires) := by
    rw [TargetMechanism.compound, TargetMechanism.transportTag]
    cases t.transport <;> rfl
  have hauthenticated : isSetOption establishTrustInClient
      t.compound.authenticationTargetSupports = t.authenticationMechanism.isSome :=
    isSetOption_establish _
  have hrequired : (t.authenticationMechanism.isSome &&
      isSetOption establishTrustInClient t.compound.authenticationTargetRequires) =
      (t.authenticationMechanism.isSome && t.authenticationRequired) :=
    isSetOption_establish_and _ _
  have hidentity : isSetOption identityAssertionOption t.compound.attributeTargetSupports =
      t.trusts := isSetOption_identityAssertion _ _
  have hset : isSetOption delegationByClient t.compound.attributeTargetSupports =
      t.delegates := isSetOption_delegation _ _
  have hdelegationRequired : (t.delegates &&
      isSetOption delegationByClient t.compound.attributeTargetRequires) =
      (t.delegates && t.delegationRequired) := isSetOption_delegation_and _ _
  have hauthorities : t.compound.attributePrivilegeAuthorities = t.authorities := rfl
  have hdelegates := t.delegates_and
  have htypes : (if t.trusts = true then t.compound.attributeIdentityTypes else 0) =
      if t.trusts = true then t.identityTypes else 0 := by
    rw [TargetMechanism.compound]
    split <;> rfl
  have hnamed : isSetIdentityType ittPrincipalName
      (if t.trusts = true then t.identityTypes else 0) =
      (t.trusts && isSetIdentityType ittPrincipalName t.identityTypes) := by
    cases t.trusts with
    | false => exact isSetIdentityType_zero
    | true => rfl
  have hnaming : (if (t.trusts && isSetIdentityType ittPrincipalName t.identityTypes) = true then
      t.compound.attributeNamingMechanisms else []) =
      if (t.trusts && isSetIdentityType ittPrincipalName t.identityTypes) = true then
        t.namingMechanisms else [] := by
    rw [TargetMechanism.compound]
    cases t.trusts <;> rfl
  have hauthentication : client.clientAuthentication t.compound =
      client.presentedAuthentication t := by
    rw [clientAuthentication, hauthenticated, presentedAuthentication, TargetMechanism.compound]
    cases t.authenticationMechanism <;> rfl
  have hnames : (!(t.trusts && isSetIdentityType ittPrincipalName t.identityTypes) ||
      (if (t.trusts && isSetIdentityType ittPrincipalName t.identityTypes) = true then
        t.namingMechanisms else []).length != 0) =
      (!(t.trusts && isSetIdentityType ittPrincipalName t.identityTypes) ||
        t.namingMechanisms.length != 0) := by
    cases t.trusts && isSetIdentityType ittPrincipalName t.identityTypes <;> rfl
  simp only [clientMechanism, htransport, hauthenticated, hidentity, htypes, hnamed, hnaming, hset,
    hauthorities, hdelegates, hrequired, hdelegationRequired, hauthentication, hnames,
    Option.isSome_some, Bool.true_and]
  rfl

end Clients

/-! ## Lists of target mechanisms -/

section Lists

variable (stateful : Bool) (ts : List (TargetMechanism O))

/-- At most one mechanism, or none with authorities and all alike. -/
def Shareable : Prop :=
  ts.length ≤ 1 ∨ (∀ t ∈ ts, t.authorities = []) ∧ ∀ t ∈ ts, ∀ t' ∈ ts, t.Alike t'

variable {ts}

theorem foldl_fetch_authorities (m : CsiMechanism O) :
    (ts.foldl CsiMechanism.fetch m).attributePrivilegeAuthorities =
      m.attributePrivilegeAuthorities ++ ts.flatMap TargetMechanism.authorities := by
  induction ts generalizing m with
  | nil => simp
  | cons t ts ih => simp [ih]

theorem foldl_fetch_compound (hnone : t.authorities = [])
    (h : ∀ u ∈ ts, t.compound = u.compound) : ts.foldl CsiMechanism.fetch t.compound =
      t.compound := by
  induction ts with
  | nil => rfl
  | cons u ts ih =>
    rw [List.foldl_cons, TargetMechanism.fetch_compound (h u List.mem_cons_self) hnone,
      ← h u List.mem_cons_self]
    exact ih fun v hv => h v (List.mem_cons_of_mem u hv)

theorem authorities_of_shared {m : CsiMechanism O}
    (hm : m = (t :: t' :: ts).foldl CsiMechanism.fetch .new)
    (h : ∀ u ∈ t :: t' :: ts, m = u.compound) :
    ∀ u ∈ t :: t' :: ts, u.authorities = [] := by
  have hall := @foldl_fetch_authorities _ (t :: t' :: ts) CsiMechanism.new
  rw [← hm] at hall
  have hlen : ∀ u ∈ t :: t' :: ts, u.authorities.length = t.authorities.length +
      (t'.authorities.length + (ts.flatMap TargetMechanism.authorities).length) := by
    intro u hu
    have hcompound : m.attributePrivilegeAuthorities = u.authorities := by
      rw [h u hu]
      rfl
    rw [← hcompound, hall]
    simp [CsiMechanism.new]
  have ht := hlen t (by simp)
  have ht' := hlen t' (by simp)
  intro u hu
  rw [← List.length_eq_zero_iff, hlen u hu]
  omega

theorem mechanisms_fetchTaggedComponent_eq : (fetchTaggedComponent stateful ts).mechanisms =
    ts.map fun _ => ts.foldl CsiMechanism.fetch .new := rfl

theorem mechanisms_fetchTaggedComponent_iff : (fetchTaggedComponent stateful ts).mechanisms =
    ts.map TargetMechanism.compound ↔ Shareable ts := by
  rw [mechanisms_fetchTaggedComponent_eq, List.map_inj_left]
  constructor
  · intro h
    match ts, h with
    | [], _ => exact .inl (Nat.zero_le 1)
    | [t], _ => exact .inl (le_refl 1)
    | t :: t' :: ts, h =>
      have hnone := authorities_of_shared rfl h
      refine .inr ⟨hnone, fun u hu v hv => ?_⟩
      rw [← TargetMechanism.compound_eq_iff (hnone u hu) (hnone v hv), ← h u hu, ← h v hv]
  · rintro (h | ⟨hnone, halike⟩) u hu
    · match ts, h with
      | [t], _ =>
        rw [List.mem_singleton.1 hu]
        exact t.fetch_new
    · match ts with
      | t :: ts =>
        have ht := hnone t List.mem_cons_self
        have hsame : ∀ v ∈ t :: ts, t.compound = v.compound := fun v hv =>
          (TargetMechanism.compound_eq_iff ht (hnone v hv)).2 (halike t List.mem_cons_self v hv)
        rw [List.foldl_cons, TargetMechanism.fetch_new, ← hsame u hu]
        exact foldl_fetch_compound ht fun v hv => hsame v (List.mem_cons_of_mem t hv)

end Lists

/-! ## Publication -/

section Publication

variable (env : SecurityNames O) (stateful : Bool) (ts : List (TargetMechanism O))

/-- The component of an object adapter is conveyed to a client of any byte order as one whose
mechanisms are the compound mechanisms of the target ones, in order; a client presents those that it
supports; and the host marshals what it has unmarshalled to the same octets. -/
def Publishes : Prop :=
  ∃ (c : CsiSecMechList O) (advance : Nat → Nat),
    (∀ sender receiver, Conveys sender
      (marshallComponentData env sender (fetchTaggedComponent stateful ts))
      (unmarshallComponentData env receiver) (.ok c) advance) ∧
    c.stateful = stateful ∧ c.mechanisms = ts.map TargetMechanism.compound ∧
    (∀ (A P : Type) (client : CsiClient O A P), client.fetchQos c = do
      let mechanisms ← ts.mapM (client.presented stateful)
      return mechanisms.filterMap id) ∧
    ∀ host, marshallComponentData env host c =
      marshallComponentData env host (fetchTaggedComponent stateful ts)

variable {env} {stateful} {ts}

theorem fetchQos_of_mechanisms {A P : Type} (client : CsiClient O A P) {c : CsiSecMechList O}
    (hs : c.stateful = stateful) (hm : c.mechanisms = ts.map TargetMechanism.compound) :
    client.fetchQos c = do
      let mechanisms ← ts.mapM (client.presented stateful)
      return mechanisms.filterMap id := by
  have hround : client.clientMechanism stateful ∘ TargetMechanism.compound =
      client.presented stateful := funext fun t => client.clientMechanism_compound stateful t
  rw [CsiClient.fetchQos, hs, hm, List.mapM_map]
  simp [← hround]

theorem Publishes.shareable (hl : env.Lawful) (hfits : (fetchTaggedComponent stateful ts).Fits env)
    (h : Publishes env stateful ts) : Shareable ts := by
  obtain ⟨c, advance, hc, -, hm, -⟩ := h
  have hsame := (hc .bigEndian .bigEndian).unique
    (conveys_componentData .bigEndian .bigEndian hl hfits)
  injection hsame with hsame
  rw [← mechanisms_fetchTaggedComponent_iff stateful, ← hsame, hm]

theorem Shareable.publishes (hl : env.Lawful)
    (hfits : (fetchTaggedComponent stateful ts).Fits env) (h : Shareable ts) :
    Publishes env stateful ts := by
  have hm := (mechanisms_fetchTaggedComponent_iff stateful).2 h
  exact ⟨_, _, fun sender receiver => conveys_componentData sender receiver hl hfits, rfl, hm,
    fun A P client => fetchQos_of_mechanisms client rfl hm, fun host => rfl⟩

theorem publishes_iff_shareable (hl : env.Lawful)
    (hfits : (fetchTaggedComponent stateful ts).Fits env) :
    Publishes env stateful ts ↔ Shareable ts :=
  ⟨fun h => h.shareable hl hfits, fun h => h.publishes hl hfits⟩

end Publication

/-! ## Two configurations -/

/-- Object identifiers by the content of their encoding, in the short form. -/
def ShortOid : Type := { content : List UInt8 // content.length < 128 }

def ShortOid.decode : List UInt8 → Option ShortOid
  | 6 :: n :: content =>
    if h : n.toNat = content.length ∧ content.length < 128 then some ⟨content, h.2⟩ else none
  | _ => none

def gssupMechOid : ShortOid := ⟨[0x67, 0x81, 0x02, 0x01, 0x01, 0x01], by decide⟩

def shortNames : SecurityNames ShortOid where
  encode o := 6 :: UInt8.ofNat o.1.length :: o.1
  decode := ShortOid.decode
  registry := [gssupMechOid]

theorem lawful_shortNames : shortNames.Lawful where
  decode_encode o := by
    have hn : (UInt8.ofNat o.1.length).toNat = o.1.length := by
      exact Nat.mod_eq_of_lt (o.2.trans (by decide))
    exact dif_pos ⟨hn, o.2⟩
  encode_ne_nil o := List.cons_ne_nil _ _

/-- Over TLS, with a name and a password. -/
def passwordTarget : TargetMechanism ShortOid where
  transport := some ⟨102, 6, [⟨[104, 111, 115, 116], 2810⟩]⟩
  authenticationMechanism := some ⟨gssupMechOid, ⟨gssupMechOid, [64, 104, 111, 115, 116]⟩⟩
  authenticationRequired := true
  authorities := []
  forwardTrustEvaluator := false
  backwardTrustEvaluator := false
  namingMechanisms := [gssupMechOid]
  identityTypes := ittPrincipalName
  delegationRequired := false

/-- With neither a protected transport nor authentication. -/
def plainTarget : TargetMechanism ShortOid where
  transport := none
  authenticationMechanism := none
  authenticationRequired := false
  authorities := []
  forwardTrustEvaluator := false
  backwardTrustEvaluator := false
  namingMechanisms := []
  identityTypes := 0
  delegationRequired := false

theorem fits_passwordTarget :
    (fetchTaggedComponent false [passwordTarget]).Fits shortNames where
  length := by decide
  mechanisms := by
    intro m hm
    rw [List.mem_singleton.1 hm]
    exact {
      transportMechanismTag := by decide
      authenticationMechanism := by
        rintro o ⟨⟩
        decide
      authenticationTargetName := by
        rintro n ⟨⟩
        exact ⟨⟨by decide, by decide, fun _ => by decide⟩, by decide⟩
      authorities := ⟨by decide, fun a ha => by cases ha⟩
      namingMechanisms := ⟨by decide, fun o ho => by cases ho⟩ }
  extent := by decide

theorem publishes_passwordTarget : Publishes shortNames false [passwordTarget] :=
  (publishes_iff_shareable lawful_shortNames fits_passwordTarget).2 (.inl (le_refl 1))

theorem fits_plainTarget :
    (fetchTaggedComponent false [passwordTarget, plainTarget]).Fits shortNames where
  length := by decide
  mechanisms := by
    have hfits : (plainTarget.compound).Fits shortNames := {
      transportMechanismTag := trivial
      authenticationMechanism := fun o ho => by cases ho
      authenticationTargetName := fun n hn => by cases hn
      authorities := ⟨by decide, fun a ha => by cases ha⟩
      namingMechanisms := ⟨by decide, fun o ho => by cases ho⟩ }
    intro m hm
    obtain ⟨t, -, rfl⟩ := List.mem_map.1 hm
    exact hfits
  extent := by decide

/-- The first of two mechanisms is published as the second, without authentication. -/
theorem not_publishes_passwordTarget_plainTarget :
    ¬Publishes shortNames false [passwordTarget, plainTarget] := by
  intro h
  obtain hle | ⟨-, halike⟩ := h.shareable lawful_shortNames fits_plainTarget
  · exact absurd hle (by decide)
  · have hsame := (halike passwordTarget (by simp) plainTarget (by simp)).authenticationMechanism
    cases hsame

end PolyORB
