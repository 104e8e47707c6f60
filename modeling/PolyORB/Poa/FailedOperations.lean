import PolyORB.Poa.Deactivation
import PolyORB.Poa.RelativeUriReading

/-!
# Operations that fail

An operation that ends with an error should leave the map, the servant manager and every lookup as
they were.  Two operations do not always: an activation whose slot is reserved when it is refused,
and the setting of a servant manager.
-/

namespace PolyORB

open Program Literals Character

inductive PoaOperation where
  | activateObject (p : Servant) (hint : Option ObjectId)
  | deactivateObject (oid : ObjectId)
  | servantToId (p : Servant)
  | setServantManager (manager : ServantManager)
  deriving DecidableEq

/-- The error that an outcome is. -/
def failure {α : Type} : PoaOutcome α → Option ErrorId
  | .ok _ => none
  | .error e => some e

section

variable (host : Endianness)

def PoaOperation.run : PoaOperation → PoaM (Option ErrorId)
  | activateObject p hint => do return failure (← PolyORB.activateObject host p hint)
  | deactivateObject oid => PolyORB.deactivateObject host oid
  | servantToId p => do return failure (← PolyORB.servantToId host p)
  | setServantManager manager => PolyORB.setServantManager manager

/-- What `Id_To_Servant` answers. -/
def Adapter.lookup (a : Adapter) (oid : ObjectId) : Except Exn (PoaOutcome (Option Servant)) :=
  match idToServant host oid a with
  | .ok r _ => .ok r
  | .error e _ => .error e

/-- An operation that ends with an error changes nothing that the clients of the POA see, and none
goes on with a null identifier. -/
structure Harmless (a : Adapter) (op : PoaOperation) : Prop where
  map : ∀ e a', op.run host a = .ok (some e) a' → a'.activeObjectMap = a.activeObjectMap
  manager : ∀ e a', op.run host a = .ok (some e) a' → a'.servantManager = a.servantManager
  lookups : ∀ e a', op.run host a = .ok (some e) a' → ∀ oid, a'.lookup host oid = a.lookup host oid
  returns : ∀ p, op = .servantToId p →
    ∀ a', (retainedServantToId host p >>= activateAgain host p) a ≠ .ok (.ok none) a'

/-- A reservation for the hint leaves a trace in the map. -/
def LeavesSlot (a : Adapter) (m : SystemObjectMap) (hint : Option ObjectId) : Prop :=
  Reservable host m hint ∧
    (hint = none ∨ ∀ j ∈ slotFor host m hint, m.entryAt j ≠ some ⟨a.systemOid j, none⟩)

/-- No map is created for a hint that is refused, and no slot is reserved for a servant that is
active already. -/
def SafeActivation (a : Adapter) (p : Servant) (hint : Option ObjectId) : Prop :=
  a.idAssignment = .systemId → a.mapLock = false → ∀ m, a.map = .system m →
    (a.activeObjectMap = none → ¬RefusesHint host hint) ∧
      (a.servantRetention = .retain → a.idUniqueness = .uniqueId →
        (m.getByServant p).isSome = true → ¬LeavesSlot host a m hint)

/-- A servant manager of the wrong type is the one that is set already. -/
def SafeManager (a : Adapter) (manager : ServantManager) : Prop :=
  a.requestProcessing.ensureServantManager = none →
    a.servantRetention.ensureServantManagerType manager ≠ none → a.servantManager = some manager

def SafeOperation (a : Adapter) : PoaOperation → Prop
  | .activateObject p hint => SafeActivation host a p hint
  | .setServantManager manager => SafeManager a manager
  | .deactivateObject _ | .servantToId _ => True

end

/-- An operation that ends with an error leaves the POA as it was. -/
def Steady {α : Type} (p : PoaM (PoaOutcome α)) (a : Adapter) : Prop :=
  ∀ e a', p a = .ok (.error e) a' → a' = a

/-! ## Retention -/

section Retain

variable {a a' : Adapter} {p : Servant} {uOid : UnmarshalledOid} {e : ErrorId}

theorem storeEntry_fresh (assignment : IdAssignment) :
    storeEntry p uOid (createObjectMap assignment) ≠ .ok (.error e) := by
  cases assignment with
  | userId => rintro ⟨⟩
  | systemId =>
    intro h
    obtain ⟨o, hget, h⟩ := Checked.bind_eq_ok.1 h
    have ho : o = none := by
      change SystemObjectMap.initialMap.getById uOid = .ok o at hget
      unfold SystemObjectMap.getById at hget
      split_ifs at hget
      obtain ⟨j, -, hj⟩ := Checked.bind_eq_ok.1 hget
      rw [SystemObjectMap.entryAt_initialMap] at hj
      exact (Except.ok.inj hj).symm
    subst ho
    obtain ⟨index, -, h⟩ := Checked.bind_eq_ok.1 h
    obtain ⟨m, -, h⟩ := Checked.bind_eq_ok.1 h
    cases h

theorem retainAssociation_error
    (hfits : a.activeObjectMap = none → fitsId (createObjectMap a.idAssignment) uOid = true)
    (h : retainAssociation p uOid a = .ok (some e) a') : a' = a := by
  obtain ⟨error, b, hunique, h⟩ := bind_eq_ok.1 h
  have hquiet := quiet_ensureServantUniqueness p a
  rw [hunique] at hquiet
  obtain rfl : b = a := hquiet
  cases error with
  | some e' =>
    cases h
    rfl
  | none =>
    rw [if_neg (by simp)] at h
    cases hl : b.mapLock with
    | true =>
      rw [bind_error (enterMap_locked hl)] at h
      cases h
    | false =>
      rw [bind_ok (enterMap_apply hl), bind_ok (createMapIfNull_apply _), bind_get] at h
      dsimp only at h
      cases hm : b.activeObjectMap with
      | none =>
        have hmap : Adapter.map { b with mapLock := true } = createObjectMap b.idAssignment := by
          simp [Adapter.map, hm]
        rw [hmap, hfits hm, if_neg (by simp)] at h
        obtain ⟨r, c, hstore, h⟩ := bind_eq_ok.1 h
        cases r with
        | error e' => exact absurd (evaluate_eq_ok.1 hstore).1 (storeEntry_fresh b.idAssignment)
        | ok m => cases h
      | some om =>
        have hmap : Adapter.map { b with mapLock := true } = om := by
          simp [Adapter.map, hm]
        have hback : ({ b with activeObjectMap := some om, mapLock := false } : Adapter) = b := by
          rw [← hm, ← hl]
        rw [hmap] at h
        split_ifs at h
        · cases h
          exact hback
        · obtain ⟨r, c, hstore, h⟩ := bind_eq_ok.1 h
          obtain ⟨-, rfl⟩ := evaluate_eq_ok.1 hstore
          cases r with
          | error e' =>
            cases h
            exact hback
          | ok m => cases h

end Retain

/-! ## Activation -/

variable {e : ErrorId}

section Activate

variable {host : Endianness} {a a' : Adapter} {m : SystemObjectMap} {p : Servant}
  {hint : Option ObjectId}

theorem not_refusesHint_of_slot {j : Nat} (h : slotFor host m hint = some j) :
    ¬RefusesHint host hint := by
  rintro ⟨oid, rfl, u, error, hu, hbad⟩
  rw [slotFor, named, hu] at h
  cases error with
  | some e => cases h
  | none =>
    rw [Option.bind_some] at h
    split_ifs at h with hsys
    simp [hsys] at hbad

theorem Reservable.not_refusesHint (h : Reservable host m hint) : ¬RefusesHint host hint := by
  cases hint with
  | none => rintro ⟨oid, ⟨⟩, -⟩
  | some oid =>
    obtain ⟨j, hslot, -⟩ := h
    exact not_refusesHint_of_slot hslot

theorem Reserves.getByServant {m' : SystemObjectMap} {j : Nat}
    (h : Reserves host a m m' hint j) (p : Servant) :
    (m'.getByServant p).isSome = true ↔ (m.getByServant p).isSome = true := by
  refine h.takes.getByServant (fun hle => ?_) rfl p
  by_cases hh : hint = none
  · subst hh
    obtain rfl : m.nextIndex = j := Option.some.inj h.slot
    exact SystemObjectMap.vacant_nextIndex hle
  · exact (h.hinted hh).2

theorem activateObject_assign_error (h : assignObjectIdentifier host hint a = .ok (.error e) a') :
    activateObject host p hint a = .ok (.error e) a' := by
  rw [activateObject, bind_ok h]
  rfl

theorem activeObjectMap_of_getByServant (hm : a.map = .system m) (ha : a.idAssignment = .systemId)
    (hp : (m.getByServant p).isSome = true) : a.activeObjectMap = some (.system m) := by
  rw [Adapter.map] at hm
  cases hmap : a.activeObjectMap with
  | some om =>
    rw [hmap] at hm
    exact congrArg some hm
  | none =>
    rw [hmap, ha] at hm
    obtain rfl := ObjectMap.system.inj hm
    cases hp

theorem withMap_self {om : ObjectMap} (hl : a.mapLock = false)
    (hm : a.activeObjectMap = some om) : a.withMap om false = a := by
  rw [Adapter.withMap, ← hm, ← hl]

theorem steady_systemId_user {um : UserObjectMap} (hl : a.mapLock = false)
    (hm : a.map = .user um) (ha : a.idAssignment = .systemId) :
    Steady (activateObject host p hint) a := by
  have hmap : a.activeObjectMap = some (.user um) := by
    rw [Adapter.map] at hm
    cases hmap : a.activeObjectMap with
    | some om =>
      rw [hmap] at hm
      exact congrArg some hm
    | none =>
      rw [hmap, ha] at hm
      cases hm
  have hassign : assignObjectIdentifier host hint a = .ok (.error .internalE) a := by
    have hlocked : Adapter.map { a with mapLock := true } = .user um := hm
    have hback := withMap_self hl hmap
    rw [assignObjectIdentifier_system host ha, assignSystemId, bind_ok (enterMap_apply hl),
      bind_ok (createMapIfNull_apply _), bind_get, hlocked]
    exact congrArg (EStateM.Result.ok (Except.error ErrorId.internalE)) hback
  intro e a' h
  rw [activateObject_assign_error hassign] at h
  cases h
  rfl

theorem steady_userId (ha : a.idAssignment = .userId) : Steady (activateObject host p hint) a := by
  intro e a' h
  rw [activateObject, assignObjectIdentifier, bind_apply, bind_get, ha] at h
  cases hint with
  | none =>
    cases h
    rfl
  | some oid =>
    dsimp only [assignUserId] at h
    cases hname : oidToHexString oid with
    | error e' =>
      rw [hname] at h
      cases h
    | ok name =>
      rw [hname, bind_evaluate rfl, bind_get] at h
      dsimp only [pure_apply] at h
      rw [retainServantAssociation, bind_apply, bind_get] at h
      cases hr : a.servantRetention with
      | nonRetain =>
        rw [hr] at h
        cases h
      | retain =>
        rw [hr] at h
        dsimp only at h
        cases hretain : retainAssociation p (a.createId name false) a with
        | error e' b =>
          rw [hretain] at h
          cases h
        | ok error b =>
          rw [hretain] at h
          cases error with
          | none => cases h
          | some e' =>
            cases h
            refine retainAssociation_error (fun _ => ?_) hretain
            rw [ha]
            rfl

theorem steady_activateObject (hsafe : SafeActivation host a p hint) :
    Steady (activateObject host p hint) a := by
  cases ha : a.idAssignment with
  | userId => exact steady_userId ha
  | systemId =>
    cases hl : a.mapLock with
    | true =>
      intro e a' h
      rw [activateObject_locked host hl ha] at h
      cases h
    | false =>
      cases hm : a.map with
      | user um => exact steady_systemId_user hl hm ha
      | system m =>
        obtain ⟨hrefused, hactive⟩ := hsafe ha hl m hm
        have hcreated : RefusesHint host hint → a.withMap (.system m) false = a := by
          intro hhint
          refine withMap_self hl ?_
          cases hmap : a.activeObjectMap with
          | none => exact absurd hhint (hrefused hmap)
          | some om =>
            rw [Adapter.map, hmap] at hm
            exact congrArg some hm
        intro e a' h
        cases hr : a.servantRetention with
        | nonRetain =>
          have hassign := assignSystemId_assigns host hl hm hint
          rw [← assignObjectIdentifier_system host ha] at hassign
          cases hres : assignObjectIdentifier host hint a with
          | error e' b =>
            rw [activateObject, bind_error hres] at h
            cases h
          | ok r b =>
            rw [hres] at hassign
            cases hassign with
            | refused hhint =>
              rw [activateObject_assign_error hres] at h
              cases h
              exact hcreated hhint
            | @reserved m' j hreserves =>
              rw [activateObject, bind_ok hres] at h
              dsimp only at h
              simp only [Adapter.withMap, hr] at h
              cases h
        | retain =>
          have hact := activateObject_activates host hl hm ha hr p hint
          rw [h] at hact
          cases hact with
          | refused hhint => exact hcreated hhint
          | @alreadyActive m' j hreserves hunique hp =>
            rw [hreserves.getByServant] at hp
            have hnot := hactive hr hunique hp
            have hsame : hint ≠ none ∧ m.entryAt j = some ⟨a.systemOid j, none⟩ := by
              rw [LeavesSlot, not_and, not_or] at hnot
              obtain ⟨hne, hall⟩ := hnot hreserves.reservable
              refine ⟨hne, ?_⟩
              by_contra hentry
              refine hall fun i hi => ?_
              obtain rfl : j = i := Option.some.inj (hreserves.slot.symm.trans hi)
              exact hentry
            obtain ⟨hm', -⟩ := hreserves.hinted hsame.1
            have hget : m.table[j - 1]? = some (some ⟨a.systemOid j, none⟩) :=
              Option.join_eq_some_iff.1 hsame.2
            rw [SystemObjectMap.setEntry_some hget] at hm'
            rw [hm']
            exact withMap_self hl (activeObjectMap_of_getByServant hm ha hp)

theorem safeActivation_of_map
    (h : ∀ e a', activateObject host p hint a = .ok (.error e) a' →
      a'.activeObjectMap = a.activeObjectMap) : SafeActivation host a p hint := by
  intro ha hl m hm
  constructor
  · intro hmap hrefuses
    have hassign := assignSystemId_assigns host hl hm hint
    rw [← assignObjectIdentifier_system host ha] at hassign
    cases hres : assignObjectIdentifier host hint a with
    | error e b =>
      rw [hres] at hassign
      cases hassign with
      | raised hnot _ => exact hnot hrefuses
    | ok r b =>
      rw [hres] at hassign
      cases hassign with
      | reserved hreserves => exact not_refusesHint_of_slot hreserves.slot hrefuses
      | refused _ =>
        have hsame := h _ _ (activateObject_assign_error hres)
        rw [hmap] at hsame
        cases hsame
  · rintro hr hunique hp ⟨hreservable, htrace⟩
    have hact := activateObject_activates host hl hm ha hr p hint
    cases hres : activateObject host p hint a with
    | error e b =>
      rw [hres] at hact
      cases hact with
      | raised _ hnot => exact hnot hreservable
    | ok r b =>
      rw [hres] at hact
      cases hact with
      | activated hreserves hnot => exact hnot ⟨hunique, (hreserves.getByServant p).2 hp⟩
      | refused hrefuses => exact hreservable.not_refusesHint hrefuses
      | @alreadyActive m' j hreserves _ _ =>
        have hsame : some (ObjectMap.system m') = a.activeObjectMap := h _ _ hres
        rw [activeObjectMap_of_getByServant hm ha hp] at hsame
        obtain rfl := ObjectMap.system.inj (Option.some.inj hsame)
        rcases htrace with hnone | hother
        · exact hreserves.next hnone rfl
        · exact hother j hreserves.slot hreserves.takes.entry

end Activate

/-! ## Deactivation -/

theorem forgetServantAssociation_error {a a' : Adapter} {uOid : UnmarshalledOid}
    (h : forgetServantAssociation uOid a = .ok (some e) a') : a' = a := by
  rw [forgetServantAssociation, bind_get] at h
  cases hr : a.servantRetention with
  | nonRetain =>
    rw [hr] at h
    cases h
  | retain =>
    rw [hr] at h
    dsimp only at h
    cases hl : a.mapLock with
    | true =>
      rw [bind_error (enterMap_locked hl)] at h
      cases h
    | false =>
      rw [bind_ok (enterMap_apply hl), bind_get] at h
      obtain ⟨om, b, hread, h1⟩ := bind_eq_ok.1 h
      obtain ⟨hom, rfl⟩ := evaluate_eq_ok.1 hread
      obtain ⟨⟨om', entry⟩, c, hremove, h2⟩ := bind_eq_ok.1 h1
      obtain ⟨hrem, rfl⟩ := evaluate_eq_ok.1 hremove
      cases entry with
      | some entry => cases h2
      | none =>
        rw [ObjectMap.removeById_eq_none hrem] at h2
        cases h2
        have hm : a.activeObjectMap = some om := by
          cases hmap : a.activeObjectMap with
          | none =>
            simp only [hmap] at hom
            cases hom
          | some om' =>
            simp only [hmap] at hom
            exact congrArg some (Except.ok.inj hom)
        exact withMap_self hl hm

theorem deactivateObject_error {host : Endianness} {a a' : Adapter} {oid : ObjectId}
    (h : deactivateObject host oid a = .ok (some e) a') : a' = a := by
  obtain ⟨r, b, hrec, h⟩ := bind_eq_ok.1 h
  have hquiet := quiet_reconstructObjectIdentifier host oid a
  rw [hrec] at hquiet
  obtain rfl : b = a := hquiet
  cases r with
  | error e' =>
    cases h
    rfl
  | ok uOid =>
    obtain ⟨error, c, heth, h⟩ := bind_eq_ok.1 h
    have hquiet' := quiet_etherealize host uOid b
    rw [heth] at hquiet'
    obtain rfl : c = b := hquiet'
    cases error with
    | some e' =>
      cases h
      rfl
    | none => exact forgetServantAssociation_error h

/-! ## Servant_To_Id -/

section ServantToId

variable {host : Endianness} {a a' : Adapter} {p : Servant}

theorem slash_not_mem_seaToHexString (oid : ObjectId) : slash ∉ seaToHexString oid := by
  intro h
  obtain ⟨b, -, hb⟩ := List.mem_flatMap.1 h
  simp only [List.mem_cons, List.not_mem_nil, or_false] at hb
  rcases hb with hb | hb
  · exact hex_ne_of_reserved (.inr rfl) (by simp; have := b.toNat_lt; omega) hb.symm
  · exact hex_ne_of_reserved (.inr rfl) (by simp; omega) hb.symm

theorem oidToUOid_uOidToOid {u v : UnmarshalledOid} (h : slash ∉ u.id) :
    oidToUOid host none (uOidToOid host u) .fresh ≠ .ok (v, some e) := by
  by_cases hlen : (uOidToOid host u).length ≤ integerLast
  · rw [(roundTrip_iff h).2 ⟨hlen, fun _ => rfl⟩]
    rintro ⟨⟩
  · rw [oidToUOid, getCreator_long (not_le.1 hlen), Checked.bind_error]
    rintro ⟨⟩

/-- What `Retained_Servant_To_Id` finds. -/
def Adapter.retainedOid (host : Endianness) (a : Adapter) (p : Servant) : Option ObjectId :=
  match a.servantRetention, a.activeObjectMap with
  | .retain, some m => (m.getByServant p).map fun e => uOidToOid host e.oid
  | _, _ => none

theorem retainedServantToId_eq_ok {oid : Option ObjectId}
    (h : retainedServantToId host p a = .ok oid a') : a' = a ∧ oid = a.retainedOid host p := by
  rw [retainedServantToId, bind_get] at h
  rw [Adapter.retainedOid]
  cases hr : a.servantRetention with
  | nonRetain =>
    rw [hr] at h
    cases h
    exact ⟨rfl, rfl⟩
  | retain =>
    cases hm : a.activeObjectMap with
    | none =>
      rw [hr, hm] at h
      cases h
      exact ⟨rfl, rfl⟩
    | some m =>
      rw [hr, hm] at h
      dsimp only at h
      cases hl : a.mapLock with
      | true =>
        rw [bind_error (enterMap_locked hl)] at h
        cases h
      | false =>
        rw [bind_ok (enterMap_apply hl)] at h
        cases h
        exact ⟨by rw [← hl], rfl⟩

theorem slash_not_mem_id {u : UnmarshalledOid} {hint : Option ObjectId}
    (ha : a.idAssignment = .userId) (h : activateObject host p hint a = .ok (.ok u) a') :
    slash ∉ u.id := by
  obtain ⟨r, b, hassign, h1⟩ := bind_eq_ok.1 h
  rw [assignObjectIdentifier, bind_get, ha] at hassign
  cases hint with
  | none =>
    cases hassign
    cases h1
  | some oid =>
    obtain ⟨name, c, hname, h2⟩ := bind_eq_ok.1 hassign
    obtain ⟨hname', rfl⟩ := evaluate_eq_ok.1 hname
    rw [oidToHexString] at hname'
    split_ifs at hname'
    obtain rfl := Except.ok.inj hname'
    cases h2
    obtain ⟨error, d, -, h3⟩ := bind_eq_ok.1 h1
    cases error with
    | some e => cases h3
    | none =>
      cases h3
      exact slash_not_mem_seaToHexString oid

theorem safeActivation_retainedOid
    (h : a.idUniqueness = .uniqueId → a.retainedOid host p = none) :
    SafeActivation host a p (a.retainedOid host p) := by
  intro ha hl m hm
  constructor
  · intro hmap
    have hnone : a.retainedOid host p = none := by
      rw [Adapter.retainedOid, hmap]
      cases a.servantRetention <;> rfl
    rw [hnone]
    rintro ⟨oid, ⟨⟩, -⟩
  · intro hr hunique hp
    have hmap := activeObjectMap_of_getByServant hm ha hp
    have hnone := h hunique
    obtain ⟨e, he⟩ := Option.isSome_iff_exists.1 hp
    rw [Adapter.retainedOid, hr, hmap] at hnone
    change (m.getByServant p).map _ = none at hnone
    rw [he] at hnone
    cases hnone

/-- What `Activate_Again` does: it returns the id it is given, or activates the servant. -/
inductive ActivatesAgain (host : Endianness) (a : Adapter) (p : Servant) (oid : Option ObjectId) :
    EStateM.Result Exn Adapter (PoaOutcome (Option ObjectId)) → Prop where
  | kept : oid ≠ none → ActivatesAgain host a p oid (.ok (.ok oid) a)
  | activated {u : UnmarshalledOid} {a' : Adapter} :
      activateObject host p oid a = .ok (.ok u) a' →
      ActivatesAgain host a p oid (.ok (.ok (some (uOidToOid host u))) a')
  | failed {e : ErrorId} {a' : Adapter} : (a.idUniqueness = .uniqueId → oid = none) →
      activateObject host p oid a = .ok (.error e) a' →
      ActivatesAgain host a p oid (.ok (.error e) a')
  | raised {e : Exn} {a' : Adapter} : ActivatesAgain host a p oid (.error e a')

theorem activateAgain_spec (host : Endianness) (a : Adapter) (p : Servant)
    (oid : Option ObjectId) : ActivatesAgain host a p oid (activateAgain host p oid a) := by
  have hagain (k) (herror : ∀ e, k (.error e) = pure (.error e))
      (hok : ∀ uOid, k (.ok uOid) = pure (.ok (some (uOidToOid host uOid))))
      (hnone : a.idUniqueness = .uniqueId → oid = none) :
      ActivatesAgain host a p oid ((activateObject host p oid >>= k) a) := by
    rw [bind_apply]
    cases hres : activateObject host p oid a with
    | error e b => exact .raised
    | ok r b =>
      cases r with
      | error e =>
        simp only [herror]
        exact .failed hnone hres
      | ok u =>
        simp only [hok]
        exact .activated hres
  rw [activateAgain, bind_get]
  cases hu : a.idUniqueness with
  | multipleId => exact hagain _ (fun _ => rfl) (fun _ => rfl) fun h => by rw [hu] at h; cases h
  | uniqueId =>
    cases oid with
    | none => exact hagain _ (fun _ => rfl) (fun _ => rfl) fun _ => rfl
    | some oid => exact .kept (by simp)

theorem activateAgain_ne_none {oid : Option ObjectId} :
    activateAgain host p oid a ≠ .ok (.ok none) a' := by
  intro h
  have hspec := activateAgain_spec host a p oid
  rw [h] at hspec
  cases hspec with
  | kept hne => exact hne rfl

/-- An object identifier that is given without an error is returned, or an exception is raised, for
a servant that was just activated. -/
theorem objectIdentifier_activated {a b c : Adapter} {u : UnmarshalledOid} {hint : Option ObjectId}
    (h : activateObject host p hint a = .ok (.ok u) b) :
    objectIdentifier host (some (uOidToOid host u)) none b ≠ .ok (.error e) c := by
  obtain ⟨om, lock, hframe⟩ := frame_activateObject host p hint a
  rw [stateAfter_ok h] at hframe
  have hsame : b.idAssignment = a.idAssignment := by rw [hframe]
  intro hobj
  obtain ⟨oid, d, hoid, h1⟩ := bind_eq_ok.1 hobj
  obtain ⟨hoid', rfl⟩ := evaluate_eq_ok.1 hoid
  obtain rfl := Except.ok.inj hoid'
  rw [bind_get, hsame] at h1
  cases ha : a.idAssignment with
  | systemId =>
    rw [ha] at h1
    cases h1
  | userId =>
    rw [ha] at h1
    obtain ⟨⟨v, error⟩, d', hdec, h2⟩ := bind_eq_ok.1 h1
    obtain ⟨hdec', rfl⟩ := evaluate_eq_ok.1 hdec
    cases error with
    | some e' => exact oidToUOid_uOidToOid (slash_not_mem_id ha h) hdec'
    | none =>
      obtain ⟨result, d'', -, h3⟩ := bind_eq_ok.1 h2
      cases h3

theorem steady_servantToId (host : Endianness) (a : Adapter) (p : Servant) :
    Steady (servantToId host p) a := by
  intro e a' h
  obtain ⟨oid, b, hretained, h1⟩ := bind_eq_ok.1 h
  obtain ⟨rfl, rfl⟩ := retainedServantToId_eq_ok hretained
  obtain ⟨r, c, hagain, h2⟩ := bind_eq_ok.1 h1
  have hspec := activateAgain_spec host b p (b.retainedOid host p)
  rw [hagain] at hspec
  cases hspec with
  | kept hne =>
    have hquiet : Quiet (objectIdentifier host (b.retainedOid host p)
        (if (b.retainedOid host p).isNone = true then some .servantNotActiveE else none)) :=
      quiet_objectIdentifier _ _
    have hb := hquiet b
    change objectIdentifier host _ _ b = _ at h2
    rw [h2] at hb
    exact hb
  | activated hact => exact absurd h2 (objectIdentifier_activated hact)
  | failed hnone hact =>
    cases h2
    exact steady_activateObject (safeActivation_retainedOid hnone) _ _ hact

end ServantToId

/-! ## The operations -/

section Operations

variable {host : Endianness} {a : Adapter}

theorem run_steady {op : PoaOperation} (hsafe : SafeOperation host a op)
    {a' : Adapter} (h : op.run host a = .ok (some e) a') : a' = a := by
  cases op with
  | activateObject p hint =>
    obtain ⟨r, b, hact, h1⟩ := bind_eq_ok.1 h
    cases r with
    | ok u => cases h1
    | error e' =>
      cases h1
      exact steady_activateObject hsafe _ _ hact
  | deactivateObject oid => exact deactivateObject_error h
  | servantToId p =>
    obtain ⟨r, b, hid, h1⟩ := bind_eq_ok.1 h
    cases r with
    | ok oid => cases h1
    | error e' =>
      cases h1
      exact steady_servantToId host a p _ _ hid
  | setServantManager manager =>
    change setServantManager manager a = _ at h
    rw [setServantManager, bind_get] at h
    cases hp : a.requestProcessing.ensureServantManager with
    | some e' =>
      rw [hp] at h
      cases h
      rfl
    | none =>
      rw [hp] at h
      cases ht : a.servantRetention.ensureServantManagerType manager with
      | none =>
        rw [ht] at h
        cases h
      | some e' =>
        have hsame := hsafe hp (by simp [ht])
        rw [ht] at h
        cases h
        rw [← hsame]

theorem setServantManager_stores {manager : ServantManager}
    (hp : a.requestProcessing.ensureServantManager = none)
    (ht : a.servantRetention.ensureServantManagerType manager = some e) :
    setServantManager manager a = .ok (some e) { a with servantManager := some manager } := by
  rw [setServantManager, bind_get, hp]
  exact congrArg (EStateM.Result.ok · _) ht

/-- An operation that fails changes nothing exactly if it is safe. -/
theorem failedOperation_harmless_iff (host : Endianness) (a : Adapter) (op : PoaOperation) :
    Harmless host a op ↔ SafeOperation host a op := by
  constructor
  · intro h
    cases op with
    | activateObject p hint =>
      refine safeActivation_of_map fun e a' hact => h.map e a' ?_
      rw [PoaOperation.run, bind_ok hact]
      rfl
    | deactivateObject oid => trivial
    | servantToId p => trivial
    | setServantManager manager =>
      intro hp ht
      obtain ⟨e, he⟩ := Option.ne_none_iff_exists'.1 ht
      exact (h.manager e _ (setServantManager_stores hp he)).symm
  · intro hsafe
    refine ⟨fun e a' h => ?_, fun e a' h => ?_, fun e a' h oid => ?_, ?_⟩
    · rw [run_steady hsafe h]
    · rw [run_steady hsafe h]
    · rw [run_steady hsafe h]
    · rintro p rfl a' h
      obtain ⟨oid, b, -, h1⟩ := bind_eq_ok.1 h
      exact activateAgain_ne_none h1

end Operations

/-- A POA with one servant active. -/
def activeRoot : Adapter :=
  stateAfter (activateObject .littleEndian 0 none) (persistentRoot .uniqueId)

/-- A servant that is active already gets a slot, and a locator is stored where it is refused. -/
theorem not_harmless_activeRoot :
    ¬Harmless .littleEndian activeRoot (.activateObject 0 none) ∧
      ¬Harmless .littleEndian activeRoot (.setServantManager ⟨1, .servantLocator⟩) := by
  constructor
  · intro h
    have hmap := h.map .servantAlreadyActiveE _ rfl
    exact absurd hmap (by decide)
  · intro h
    have hmanager := h.manager .objAdapterE _ rfl
    exact absurd hmanager (by decide)

end PolyORB
