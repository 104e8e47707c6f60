import PolyORB.Poa.Adapter
import PolyORB.Poa.SystemMaps

/-!
# Activation with system ids

An activation first reserves an index of the map, by an entry without a servant, and then gives the
entry its servant.  Whatever happens, no entry changes but the one at that index.
-/

namespace PolyORB

open Program Literals

namespace Adapter

/-- The map that an operation works on, once it is created. -/
def map (a : Adapter) : ObjectMap := a.activeObjectMap.getD (createObjectMap a.idAssignment)

/-- The state that an operation leaves: the map is there. -/
def withMap (a : Adapter) (m : ObjectMap) (lock : Bool) : Adapter :=
  { a with activeObjectMap := some m, mapLock := lock }

@[simp] theorem createId_withMap (a : Adapter) (m : ObjectMap) (lock : Bool) (name : Text)
    (sys : Bool) : (a.withMap m lock).createId name sys = a.createId name sys := rfl

/-- The id of the object at an index. -/
def systemOid (a : Adapter) (j : Nat) : UnmarshalledOid := a.createId (decimal j) true

theorem systemOid_inj {a : Adapter} {i j : Nat} (hi : i ≤ integerLast) (hj : j ≤ integerLast)
    (h : a.systemOid i = a.systemOid j) : i = j := by
  have hid : decimal i = decimal j := congrArg UnmarshalledOid.id h
  have hval := integerValue_decimal (n := i) (by simpa [integerLast] using hi)
  rw [hid, integerValue_decimal (by simpa [integerLast] using hj)] at hval
  exact (Int.ofNat.inj (Option.some.inj hval)).symm

end Adapter

/-- The id that a client names. -/
def named (host : Endianness) (oid : ObjectId) : Option UnmarshalledOid :=
  match oidToUOid host none oid .fresh with
  | .ok (u, none) => some u
  | _ => none

/-- The index that an activation reserves. -/
def slotFor (host : Endianness) (m : SystemObjectMap) : Option ObjectId → Option Nat
  | none => some m.nextIndex
  | some oid => (named host oid).bind fun u =>
      if u.systemGenerated = true then (integerValue u.id).map Int.toNat else none

/-- The hint is answered with BAD_PARAM. -/
def RefusesHint (host : Endianness) (hint : Option ObjectId) : Prop :=
  ∃ oid ∈ hint, ∃ u error, oidToUOid host none oid .fresh = .ok (u, error) ∧
    (u.systemGenerated = false ∨ error.isSome = true)

/-- There is an index to reserve. -/
def Reservable (host : Endianness) (m : SystemObjectMap) : Option ObjectId → Prop
  | none => m.HasRoom
  | some oid =>
    ∃ j ∈ slotFor host m (some oid), 0 < j ∧ j ≤ m.table.length ∧ m.Vacant j

/-- The map `m'` is `m` with the index `j` reserved for the id of a POA. -/
structure Reserves (host : Endianness) (a : Adapter) (m m' : SystemObjectMap)
    (hint : Option ObjectId) (j : Nat) : Prop where
  takes : m.Takes m' j ⟨a.systemOid j, none⟩
  slot : slotFor host m hint = some j
  reservable : Reservable host m hint
  next : hint = none → m' ≠ m
  hinted : hint ≠ none → m' = m.setEntry j (some ⟨a.systemOid j, none⟩) ∧ m.Vacant j

/-- What `Assign_Object_Identifier` does with the lock free and a system map. -/
inductive Assigns (host : Endianness) (a : Adapter) (m : SystemObjectMap) (hint : Option ObjectId) :
    EStateM.Result Exn Adapter (PoaOutcome UnmarshalledOid) → Prop where
  | reserved {m' j} : Reserves host a m m' hint j →
      Assigns host a m hint (.ok (.ok (a.systemOid j)) (a.withMap (.system m') false))
  | refused : RefusesHint host hint →
      Assigns host a m hint (.ok (.error .badParamE) (a.withMap (.system m) false))
  | raised {e} : ¬RefusesHint host hint → ¬Reservable host m hint →
      Assigns host a m hint (.error e (a.withMap (.system m) true))

section Assign

variable (host : Endianness) {a : Adapter} {m : SystemObjectMap}

theorem enterMap_apply (hl : a.mapLock = false) :
    enterMap a = .ok ⟨⟩ { a with mapLock := true } := by
  simp [enterMap, bind_apply, hl, raiseIf]

theorem enterMap_locked (hl : a.mapLock = true) : enterMap a = .error .blocked a := by
  rw [enterMap, bind_get, bind_error (raiseIf_true hl _ _)]

theorem createMapIfNull_apply (a : Adapter) :
    createMapIfNull a = .ok ⟨⟩ { a with activeObjectMap := some a.map } := rfl

theorem not_reservable {hint : ObjectId} {u : UnmarshalledOid}
    (hdec : oidToUOid host none hint .fresh = .ok (u, none)) (hsys : u.systemGenerated = true)
    (hj : ∀ j : Nat, integerValue u.id = some (j : Int) → 0 < j → j ≤ m.table.length →
      ¬m.Vacant j) : ¬Reservable host m (some hint) := by
  rintro ⟨j, hslot, h0, hle, hv⟩
  have hnamed : named host hint = some u := by rw [named, hdec]
  rw [slotFor, hnamed, Option.bind_some, if_pos hsys] at hslot
  obtain ⟨i, hi, rfl⟩ := Option.map_eq_some_iff.1 hslot
  refine hj i.toNat ?_ h0 hle hv
  rw [hi, Int.toNat_of_nonneg (by omega)]

theorem reserveSlot_assigns (hint : ObjectId) :
    Assigns host a m (some hint) (reserveSlot host m hint (a.withMap (.system m) true)) := by
  unfold reserveSlot
  cases hdec : oidToUOid host none hint .fresh with
  | error e =>
    refine .raised ?_ ?_
    · rintro ⟨oid, ⟨⟩, u, error, hu, -⟩
      rw [hdec] at hu
      cases hu
    · rintro ⟨j, hslot, -⟩
      have hnamed : named host hint = none := by rw [named, hdec]
      rw [slotFor, hnamed] at hslot
      cases hslot
  | ok r =>
    obtain ⟨uHint, error⟩ := r
    rw [bind_evaluate rfl]
    dsimp only
    split_ifs with hbad
    · exact .refused ⟨hint, rfl, uHint, error, hdec, hbad⟩
    · have hnot : ¬RefusesHint host (some hint) := by
        rintro ⟨oid, ⟨⟩, u, error', hu, hbad'⟩
        rw [hdec] at hu
        cases hu
        exact hbad hbad'
      rw [not_or, Bool.not_eq_false, Bool.not_eq_true, Option.isSome_eq_false_iff,
        Option.isNone_iff_eq_none] at hbad
      obtain ⟨hsys, rfl⟩ := hbad
      cases hval : integerValue uHint.id with
      | none =>
        refine .raised hnot (not_reservable host hdec hsys fun j hj => ?_)
        rw [hval] at hj
        cases hj
      | some index =>
        rw [Option.elim_some, bind_evaluate rfl, bind_get]
        have hadd : ∀ m', m.addAt ⟨a.systemOid index.toNat, none⟩ index = .ok m' ↔ _ :=
          fun _ => SystemObjectMap.addAt_eq_ok rfl
        cases hres : m.addAt ⟨a.systemOid index.toNat, none⟩ index with
        | error e =>
          have hres' : m.addAt ⟨a.createId (decimal index.toNat) true, none⟩ index = .error e :=
            hres
          simp only [Adapter.createId_withMap, hres']
          refine .raised hnot (not_reservable host hdec hsys fun j hj h0 hle hv => ?_)
          obtain rfl : index = j := Option.some.inj (hval.symm.trans hj)
          have hok := (hadd (m.setEntry j (some ⟨a.systemOid j, none⟩))).2
            ⟨j, rfl, h0, hle, hv, rfl⟩
          rw [hres] at hok
          cases hok
        | ok m' =>
          have hres' : m.addAt ⟨a.createId (decimal index.toNat) true, none⟩ index = .ok m' := hres
          simp only [Adapter.createId_withMap, hres']
          obtain ⟨j, rfl, h0, hle, hv, rfl⟩ := (hadd m').1 hres
          have hslot : slotFor host m (some hint) = some j := by
            have hnamed : named host hint = some uHint := by rw [named, hdec]
            rw [slotFor, hnamed, Option.bind_some, if_pos hsys, hval]
            rfl
          have hreserves : Reserves host a m (m.setEntry j (some ⟨a.systemOid j, none⟩)) (some hint) j :=
            { takes := SystemObjectMap.takes_setEntry h0 hle _
              slot := hslot
              reservable := ⟨j, hslot, h0, hle, hv⟩
              next := by rintro ⟨⟩
              hinted := fun _ => ⟨rfl, hv⟩ }
          exact .reserved hreserves

theorem assignSystemId_assigns (hl : a.mapLock = false) (hm : a.map = .system m)
    (hint : Option ObjectId) : Assigns host a m hint (assignSystemId host hint a) := by
  have hstart : ({ a with mapLock := true, activeObjectMap := some a.map } : Adapter) =
      a.withMap (.system m) true := by rw [hm]; rfl
  have hmap : ({ a with mapLock := true } : Adapter).map = a.map := rfl
  rw [assignSystemId, bind_ok (enterMap_apply hl), bind_ok (createMapIfNull_apply _), hmap, hstart,
    bind_get]
  cases hint with
  | some hint => exact reserveSlot_assigns host hint
  | none =>
    dsimp only [Adapter.withMap]
    rw [bind_get]
    cases hadd : m.add fun j => a.createId (decimal j) true with
    | error e =>
      have hadd' : m.add (fun j => (a.withMap (.system m) true).createId (decimal j) true) =
          .error e := hadd
      dsimp only [Adapter.withMap] at hadd'
      rw [hadd']
      refine .raised (by rintro ⟨oid, ⟨⟩, -⟩) fun hroom => ?_
      obtain ⟨r, hr⟩ := SystemObjectMap.add_hasRoom.2 hroom
      rw [hadd] at hr
      cases hr
    | ok r =>
      have hadd' : m.add (fun j => (a.withMap (.system m) true).createId (decimal j) true) =
          .ok r := hadd
      have hroom := SystemObjectMap.add_hasRoom.1 ⟨r, hadd⟩
      obtain ⟨m', j⟩ := r
      obtain ⟨htakes, hj, hne⟩ := SystemObjectMap.add_eq_ok hadd
      dsimp only [Adapter.withMap] at hadd'
      rw [hadd', bind_evaluate rfl]
      have hreserves : Reserves host a m m' none j :=
        { takes := htakes
          slot := congrArg some hj.symm
          reservable := hroom
          next := fun _ => hne
          hinted := fun h => absurd rfl h }
      exact .reserved hreserves

end Assign

/-! ## Giving the entry its servant -/

section Retain

variable {a : Adapter} {m : SystemObjectMap} {p : Servant}

theorem ensureServantUniqueness_apply {om : ObjectMap} (hl : a.mapLock = false)
    (hm : a.activeObjectMap = some om) (p : Servant) :
    ensureServantUniqueness p a =
      .ok (if a.idUniqueness = .uniqueId ∧ (om.getByServant p).isSome = true then
        some .servantAlreadyActiveE else none) a := by
  have hback : ({ a with mapLock := false } : Adapter) = a := by rw [← hl]
  rw [ensureServantUniqueness, bind_get, hm]
  cases hu : a.idUniqueness with
  | multipleId =>
    rfl
  | uniqueId =>
    dsimp only
    rw [bind_ok (enterMap_apply hl)]
    simp [leaveMap, bind_apply, hback]

theorem storeEntry_reserved {j : Nat} (h0 : 0 < j) (hle : j ≤ m.table.length)
    (hentry : m.entryAt j = some ⟨a.systemOid j, none⟩) :
    storeEntry p (a.systemOid j) (.system m) =
      .ok (.ok (.system (m.setEntry j (some ⟨a.systemOid j, some p⟩)))) := by
  have hget : ObjectMap.getById (.system m) (a.systemOid j) =
      .ok (some ⟨a.systemOid j, none⟩) := by
    rw [← hentry]
    exact SystemObjectMap.getById_decimal rfl rfl h0 hle
  have hindex : m.indexOf (a.systemOid j) = .ok j :=
    SystemObjectMap.indexOf_decimal rfl h0 hle
  rw [storeEntry, hget, Checked.bind_ok]
  dsimp only
  rw [if_neg (by simp), hindex]
  rfl

theorem retainAssociation_reserved {j : Nat} (hl : a.mapLock = false)
    (hm : a.activeObjectMap = some (.system m)) (h0 : 0 < j) (hle : j ≤ m.table.length)
    (hentry : m.entryAt j = some ⟨a.systemOid j, none⟩) :
    retainAssociation p (a.systemOid j) a =
      if a.idUniqueness = .uniqueId ∧ (m.getByServant p).isSome = true then
        .ok (some .servantAlreadyActiveE) a
      else .ok none (a.withMap (.system (m.setEntry j (some ⟨a.systemOid j, some p⟩))) false) := by
  have hby : (ObjectMap.system m).getByServant p = m.getByServant p := rfl
  rw [retainAssociation, bind_ok (ensureServantUniqueness_apply hl hm p), hby]
  by_cases hactive : a.idUniqueness = .uniqueId ∧ (m.getByServant p).isSome = true
  · rw [if_pos hactive, if_pos hactive]
    rfl
  · rw [if_neg hactive, if_neg hactive]
    rw [if_neg (by simp), bind_ok (enterMap_apply hl), bind_ok (createMapIfNull_apply _), bind_get]
    simp only [Adapter.map, hm, Option.getD_some]
    rw [if_neg (by simp [fitsId, Adapter.systemOid, Adapter.createId]),
      bind_evaluate (storeEntry_reserved h0 hle hentry)]
    rfl

end Retain

/-! ## Activation -/

/-- What `Activate_Object` does under the SYSTEM_ID and RETAIN policies, with the lock free. -/
inductive Activates (host : Endianness) (a : Adapter) (m : SystemObjectMap) (p : Servant)
    (hint : Option ObjectId) : EStateM.Result Exn Adapter (PoaOutcome UnmarshalledOid) → Prop where
  | activated {m' j} : Reserves host a m m' hint j →
      ¬(a.idUniqueness = .uniqueId ∧ (m'.getByServant p).isSome = true) →
      Activates host a m p hint (.ok (.ok (a.systemOid j))
        (a.withMap (.system (m'.setEntry j (some ⟨a.systemOid j, some p⟩))) false))
  | alreadyActive {m' j} : Reserves host a m m' hint j → a.idUniqueness = .uniqueId →
      (m'.getByServant p).isSome = true →
      Activates host a m p hint (.ok (.error .servantAlreadyActiveE) (a.withMap (.system m') false))
  | refused : RefusesHint host hint →
      Activates host a m p hint (.ok (.error .badParamE) (a.withMap (.system m) false))
  | raised {e} : ¬RefusesHint host hint → ¬Reservable host m hint →
      Activates host a m p hint (.error e (a.withMap (.system m) true))

section Activate

variable (host : Endianness) {a : Adapter} {m : SystemObjectMap}

theorem assignObjectIdentifier_system (ha : a.idAssignment = .systemId) (hint : Option ObjectId) :
    assignObjectIdentifier host hint a = assignSystemId host hint a := by
  rw [assignObjectIdentifier, bind_get, ha]

theorem activateObject_locked (hl : a.mapLock = true) (ha : a.idAssignment = .systemId) (p : Servant)
    (hint : Option ObjectId) : activateObject host p hint a = .error .blocked a := by
  rw [activateObject, bind_error]
  rw [assignObjectIdentifier_system host ha, assignSystemId, bind_error (enterMap_locked hl)]

theorem activateObject_activates (hl : a.mapLock = false) (hm : a.map = .system m)
    (ha : a.idAssignment = .systemId) (hr : a.servantRetention = .retain)
    (p : Servant) (hint : Option ObjectId) :
    Activates host a m p hint (activateObject host p hint a) := by
  have hassign := assignSystemId_assigns host hl hm hint
  rw [← assignObjectIdentifier_system host ha] at hassign
  rw [activateObject, bind_apply]
  cases hres : assignObjectIdentifier host hint a with
  | error e b =>
    rw [hres] at hassign
    cases hassign with
    | raised hrefuses hreservable => exact .raised hrefuses hreservable
  | ok r b =>
    rw [hres] at hassign
    cases hassign with
    | refused h => exact .refused h
    | @reserved m' j h =>
      have hretain : retainServantAssociation p (a.systemOid j) (a.withMap (.system m') false) =
          retainAssociation p (a.systemOid j) (a.withMap (.system m') false) := by
        rw [retainServantAssociation, bind_get]
        simp [Adapter.withMap, hr]
      have hstore : retainAssociation p (a.systemOid j) (a.withMap (.system m') false) =
          if a.idUniqueness = .uniqueId ∧ (m'.getByServant p).isSome = true then
            .ok (some .servantAlreadyActiveE) (a.withMap (.system m') false)
          else .ok none
            (a.withMap (.system (m'.setEntry j (some ⟨a.systemOid j, some p⟩))) false) :=
        retainAssociation_reserved (a := a.withMap (.system m') false) rfl rfl h.takes.pos
          h.takes.le h.takes.entry
      dsimp only
      rw [bind_apply, hretain, hstore]
      by_cases hactive : a.idUniqueness = .uniqueId ∧ (m'.getByServant p).isSome = true
      · rw [if_pos hactive]
        exact .alreadyActive h hactive.1 hactive.2
      · rw [if_neg hactive]
        exact .activated h hactive

end Activate

end PolyORB
