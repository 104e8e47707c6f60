import PolyORB.Poa.Deactivation
import PolyORB.Lib.Runs

/-!
# Runs of a POA with system ids

The clients of a POA with the SYSTEM_ID and RETAIN policies activate servants, with and without a
hint, deactivate objects and look them up.  The history records which ids were given out and have not
been deactivated since, and which ids were, each with its servant.
-/

namespace PolyORB

open Program Literals

inductive PoaAction where
  | activate (p : Servant) (hint : Option ObjectId)
  | deactivate (oid : ObjectId)
  | lookup (oid : ObjectId)
  deriving DecidableEq

structure History where
  adapter : Adapter
  active : List (UnmarshalledOid × Servant)
  former : List (UnmarshalledOid × Servant)
  deriving DecidableEq

namespace History

def ofAdapter (a : Adapter) : History := ⟨a, [], []⟩

section Step

variable (host : Endianness)

def perform (h : History) : PoaAction → History
  | .activate p hint =>
    match activateObject host p hint h.adapter with
    | .ok (.ok u) a => { h with adapter := a, active := (u, p) :: h.active }
    | .ok (.error _) a | .error _ a => { h with adapter := a }
  | .deactivate oid =>
    match deactivateObject host oid h.adapter with
    | .ok none a =>
      { adapter := a
        active := h.active.filter fun x => some x.1 ≠ named host oid
        former := (h.active.filter fun x => some x.1 = named host oid) ++ h.former }
    | .ok (some _) a | .error _ a => { h with adapter := a }
  | .lookup oid => { h with adapter := stateAfter (idToServant host oid) h.adapter }

/-! ## Ids that identify one activation -/

/-- The entry that `Get_By_Id` finds in the map of the POA. -/
def entryOf (h : History) (u : UnmarshalledOid) : Option MapEntry :=
  match h.adapter.activeObjectMap with
  | some (.system m) => (m.getById u).toOption.join
  | _ => none

structure Sound (h : History) : Prop where
  /-- `Get_By_Id` returns the servant activated under an active id. -/
  resolves : ∀ u p, (u, p) ∈ h.active → h.entryOf u = some ⟨u, some p⟩
  /-- An id that was deactivated is not resolved to another servant. -/
  former : ∀ u p, (u, p) ∈ h.former → ∀ e q, h.entryOf u = some e → e.servant = some q → q = p
  nodup : (h.active.map Prod.fst).Nodup
  /-- The slot of an id is the one that its text names. -/
  slots : ∀ m, h.adapter.activeObjectMap = some (.system m) → ∀ j e, 0 < j →
    m.entryAt j = some e → integerValue e.oid.id = some (j : Int)

/-! ## What keeps the ids apart -/

/-- The id that `Etherealize` looks up is refused by the lifespan policy. -/
def RefusedByLifespan (a : Adapter) (u : UnmarshalledOid) : Prop :=
  match a.servantManager with
  | some ⟨_, .servantActivator⟩ =>
    ∀ v ∈ named host (uOidToOid host u), (a.ensureLifespan v).isSome = true
  | _ => False

instance (a : Adapter) (u : UnmarshalledOid) : Decidable (RefusedByLifespan host a u) := by
  unfold RefusedByLifespan
  split <;> infer_instance

/-- The next index after those in use has no object, an index is not used again for another servant,
and an object is deactivated through its own id only. -/
def Allowed (h : History) (act : PoaAction) : Prop :=
  match h.adapter.map with
  | .user _ => True
  | .system m =>
    h.adapter.mapLock = false →
      match act with
      | .activate p hint =>
        ∀ j ∈ slotFor host m hint,
          (hint = none → m.Vacant j) ∧
            (m.Vacant j → ¬(h.adapter.idUniqueness = .uniqueId ∧ (m.getByServant p).isSome = true) →
              ∀ x ∈ h.former, x.1 = h.adapter.systemOid j → x.2 = p)
      | .deactivate oid =>
        ∀ u ∈ named host oid, ∀ e ∈ (m.getById u).toOption.join,
          e.servant = none ∨ e.oid = u ∨ RefusedByLifespan host h.adapter u
      | .lookup _ => True

instance (h : History) (act : PoaAction) : Decidable (Allowed host h act) := by
  unfold Allowed
  split
  · infer_instance
  · cases act <;> infer_instance

end Step

/-! ## The map of a run -/

/-- The entries of the map that have a servant are the active ids. -/
structure Tracks (h : History) (m : SystemObjectMap) : Prop where
  oids : ∀ j e, 0 < j → m.entryAt j = some e → e.oid = h.adapter.systemOid j
  active_iff : ∀ u p, (u, p) ∈ h.active ↔
    ∃ j, 0 < j ∧ u = h.adapter.systemOid j ∧ m.entryAt j = some ⟨u, some p⟩
  former : ∀ u p, (u, p) ∈ h.former → ∃ j, 0 < j ∧ j ≤ m.table.length ∧
    u = h.adapter.systemOid j ∧ ∀ e ∈ m.entryAt j, e.servant = none ∨ e.servant = some p
  nodup : (h.active.map Prod.fst).Nodup

structure SystemRetained (h : History) : Prop where
  assignment : h.adapter.idAssignment = .systemId
  retention : h.adapter.servantRetention = .retain
  tracks : ∃ m, h.adapter.map = .system m ∧ Tracks h m

variable {m : SystemObjectMap} {h : History}

theorem Tracks.withMap (ht : Tracks h m) (om : ObjectMap)
    (lock : Bool) : Tracks { h with adapter := h.adapter.withMap om lock } m :=
  ⟨ht.oids, ht.active_iff, ht.former, ht.nodup⟩

theorem getById_systemOid (h : History) {j : Nat} (h0 : 0 < j) (hle : j ≤ m.table.length) :
    m.getById (h.adapter.systemOid j) = .ok (m.entryAt j) :=
  SystemObjectMap.getById_decimal rfl rfl h0 hle

theorem map_eq (hm : h.adapter.map = .system m) (ha : h.adapter.idAssignment = .systemId) :
    h.adapter.activeObjectMap = some (.system m) ∨
      h.adapter.activeObjectMap = none ∧ m = SystemObjectMap.initialMap := by
  rw [Adapter.map] at hm
  cases hmap : h.adapter.activeObjectMap with
  | some om =>
    rw [hmap] at hm
    exact .inl (congrArg some hm)
  | none =>
    rw [hmap, ha] at hm
    exact .inr ⟨rfl, (ObjectMap.system.inj hm).symm⟩

theorem SystemRetained.entryOf_systemOid
    (hs : SystemRetained h) (hm : h.adapter.map = .system m) (ht : Tracks h m) {j : Nat}
    (h0 : 0 < j) (hle : j ≤ m.table.length) :
    h.entryOf (h.adapter.systemOid j) = m.entryAt j := by
  rw [entryOf]
  rcases map_eq hm hs.assignment with hmap | ⟨hmap, rfl⟩
  · simp only [hmap, getById_systemOid h h0 hle]
    cases m.entryAt j <;> rfl
  · simp [hmap, SystemObjectMap.entryAt_initialMap]

theorem SystemRetained.sound (hs : SystemRetained h) : Sound h := by
  obtain ⟨m, hm, ht⟩ := hs.tracks
  refine ⟨fun u p hmem => ?_, fun u p hmem e q he hq => ?_, ht.nodup, fun m' hm' j e h0 he => ?_⟩
  · obtain ⟨j, h0, rfl, he⟩ := (ht.active_iff u p).1 hmem
    rw [hs.entryOf_systemOid hm ht h0 (SystemObjectMap.le_length_of_entryAt he), he]
  · obtain ⟨j, h0, hle, rfl, hp⟩ := ht.former u p hmem
    rw [hs.entryOf_systemOid hm ht h0 hle] at he
    rcases hp e he with hnone | hsome
    · rw [hnone] at hq
      cases hq
    · rw [hsome] at hq
      exact (Option.some.inj hq).symm
  · rcases map_eq hm hs.assignment with hmap | ⟨hmap, -⟩
    · rw [hmap] at hm'
      obtain rfl := ObjectMap.system.inj (Option.some.inj hm')
      rw [ht.oids j e h0 he]
      exact integerValue_decimal (by simpa [integerLast] using SystemObjectMap.index_le he)
    · rw [hmap] at hm'
      cases hm'

theorem systemRetained_ofAdapter (absoluteAddress : Text) (bootTime : TimeStamp)
    (idUniqueness : IdUniqueness) (requestProcessing : RequestProcessing) (lifespan : Lifespan)
    (servantManager : Option ServantManager) (defaultServant : Option Servant) :
    SystemRetained (ofAdapter (.systemRetained absoluteAddress bootTime idUniqueness
      requestProcessing lifespan servantManager defaultServant)) := by
  refine ⟨rfl, rfl, .initialMap, rfl, ?_, ?_, by rintro u p ⟨⟩, List.nodup_nil⟩
  · intro j e h0 he
    rw [SystemObjectMap.entryAt_initialMap] at he
    cases he
  · intro u p
    refine iff_of_false (by rintro ⟨⟩) ?_
    rintro ⟨j, -, -, he⟩
    rw [SystemObjectMap.entryAt_initialMap] at he
    cases he

/-! ## Activations -/

section Activate

variable {host : Endianness} {h : History} {m m' : SystemObjectMap} {hint : Option ObjectId}
  {j : Nat} {p : Servant}

theorem vacant_of_reserves (hr : Reserves host h.adapter m m' hint j)
    (hnone : hint = none → m.Vacant j) : m.Vacant j := by
  by_cases hh : hint = none
  · exact hnone hh
  · exact (hr.hinted hh).2

theorem Tracks.reserve (ht : Tracks h m) (hr : Reserves host h.adapter m m' hint j)
    (hv : m.Vacant j) :
    Tracks { h with adapter := h.adapter.withMap (.system m') false } m' := by
  have hnot : ∀ u p, m.entryAt j ≠ some ⟨u, some p⟩ := fun u p he => by cases hv _ he
  refine ⟨fun i e h0 he => ?_, fun u p => ?_, fun u p hmem => ?_, ht.nodup⟩
  · by_cases hij : i = j
    · subst hij
      rw [hr.takes.entry] at he
      cases he
      rfl
    · rw [hr.takes.others i h0 hij] at he
      exact ht.oids i e h0 he
  · rw [ht.active_iff]
    refine exists_congr fun i => and_congr_right fun h0 => and_congr_right fun hu => ?_
    by_cases hij : i = j
    · subst hij
      refine iff_of_false (hnot u p) fun he => ?_
      rw [hr.takes.entry] at he
      cases he
    · rw [hr.takes.others i h0 hij]
  · obtain ⟨i, h0, hle, hu, hp⟩ := ht.former u p hmem
    refine ⟨i, h0, hle.trans hr.takes.grows, hu, fun e he => ?_⟩
    by_cases hij : i = j
    · subst hij
      rw [hr.takes.entry] at he
      cases he
      exact .inl rfl
    · rw [hr.takes.others i h0 hij] at he
      exact hp e he

theorem Tracks.activate (ht : Tracks h m) (h0 : 0 < j)
    (hentry : m.entryAt j = some ⟨h.adapter.systemOid j, none⟩)
    (hformer : ∀ x ∈ h.former, x.1 = h.adapter.systemOid j → x.2 = p) (lock : Bool) :
    Tracks
      { h with
        adapter := h.adapter.withMap
          (.system (m.setEntry j (some ⟨h.adapter.systemOid j, some p⟩))) lock
        active := (h.adapter.systemOid j, p) :: h.active }
      (m.setEntry j (some ⟨h.adapter.systemOid j, some p⟩)) := by
  have hle := SystemObjectMap.le_length_of_entryAt hentry
  have hself := SystemObjectMap.entryAt_setEntry_self h0 hle
    (some (⟨h.adapter.systemOid j, some p⟩ : MapEntry))
  have hother : ∀ i, 0 < i → i ≠ j →
      (m.setEntry j (some ⟨h.adapter.systemOid j, some p⟩)).entryAt i = m.entryAt i :=
    fun i hi hij => SystemObjectMap.entryAt_setEntry_of_ne hi h0 hij _
  have hinactive : ∀ q, (h.adapter.systemOid j, q) ∉ h.active := by
    intro q hmem
    obtain ⟨i, -, hu, he⟩ := (ht.active_iff _ q).1 hmem
    obtain rfl := Adapter.systemOid_inj (SystemObjectMap.index_le he)
      (SystemObjectMap.index_le hentry) hu.symm
    rw [hentry] at he
    cases he
  refine ⟨fun i e hi he => ?_, fun u q => ?_, fun u q hmem => ?_, ?_⟩
  · by_cases hij : i = j
    · subst hij
      rw [hself] at he
      cases he
      rfl
    · rw [hother i hi hij] at he
      exact ht.oids i e hi he
  · rw [List.mem_cons, ht.active_iff]
    constructor
    · rintro (hnew | ⟨i, hi, hu, he⟩)
      · cases hnew
        exact ⟨j, h0, rfl, hself⟩
      · have hij : i ≠ j := by
          rintro rfl
          rw [hentry] at he
          cases he
        exact ⟨i, hi, hu, (hother i hi hij).trans he⟩
    · rintro ⟨i, hi, hu, he⟩
      by_cases hij : i = j
      · subst hij
        rw [hself] at he
        cases he
        exact .inl rfl
      · rw [hother i hi hij] at he
        exact .inr ⟨i, hi, hu, he⟩
  · obtain ⟨i, hi, hilen, hu, hp⟩ := ht.former u q hmem
    refine ⟨i, hi, by simpa using hilen, hu, fun e he => ?_⟩
    by_cases hij : i = j
    · subst hij
      rw [hself] at he
      cases he
      exact .inr (congrArg some (hformer (u, q) hmem hu).symm)
    · rw [hother i hi hij] at he
      exact hp e he
  · rw [List.map_cons, List.nodup_cons]
    refine ⟨fun hmem => ?_, ht.nodup⟩
    obtain ⟨⟨u, q⟩, hx, hu⟩ := List.mem_map.1 hmem
    cases hu
    exact hinactive q hx

theorem SystemRetained.activate (hs : SystemRetained h)
    (hal : Allowed host h (.activate p hint)) : SystemRetained (h.perform host (.activate p hint)) := by
  obtain ⟨m, hm, ht⟩ := hs.tracks
  cases hl : h.adapter.mapLock with
  | true =>
    rw [perform, activateObject_locked host hl hs.assignment]
    exact hs
  | false =>
    rw [Allowed, hm] at hal
    have hal' := hal hl
    have hact := activateObject_activates host hl hm hs.assignment hs.retention p hint
    rw [perform]
    cases hres : activateObject host p hint h.adapter with
    | error e a =>
      rw [hres] at hact
      cases hact
      exact ⟨hs.assignment, hs.retention, m, rfl, ht.withMap _ _⟩
    | ok r a =>
      rw [hres] at hact
      cases hact with
      | refused _ => exact ⟨hs.assignment, hs.retention, m, rfl, ht.withMap _ _⟩
      | @alreadyActive m' j hr _ _ =>
        obtain ⟨hnone, -⟩ := hal' j (hr.slot)
        exact ⟨hs.assignment, hs.retention, m', rfl, ht.reserve hr (vacant_of_reserves hr hnone)⟩
      | @activated m' j hr hunique =>
        obtain ⟨hnone, hformer⟩ := hal' j (hr.slot)
        have hv := vacant_of_reserves hr hnone
        have hnot : ¬(h.adapter.idUniqueness = .uniqueId ∧ (m.getByServant p).isSome = true) :=
          fun hu => hunique ⟨hu.1, (hr.takes.getByServant (fun _ => hv) rfl p).2 hu.2⟩
        exact ⟨hs.assignment, hs.retention, _, rfl,
          (ht.reserve hr hv).activate hr.takes.pos hr.takes.entry (hformer hv hnot) false⟩

end Activate

/-! ## Deactivations and lookups -/

section Deactivate

variable {host : Endianness} {h : History} {m : SystemObjectMap} {j : Nat}

theorem SystemRetained.withLock (hs : SystemRetained h) (lock : Bool) :
    SystemRetained { h with adapter := { h.adapter with mapLock := lock } } := by
  obtain ⟨m, hm, ht⟩ := hs.tracks
  exact ⟨hs.assignment, hs.retention, m, hm,
    ht.oids, ht.active_iff, ht.former, ht.nodup⟩

theorem SystemRetained.quiet {α : Type} {q : PoaM α} (hs : SystemRetained h) (hq : Quiet q) :
    SystemRetained { h with adapter := stateAfter q h.adapter } := by
  have hquiet := hq h.adapter
  rw [stateAfter]
  cases hres : q h.adapter with
  | ok x a =>
    rw [hres] at hquiet
    obtain rfl : a = h.adapter := hquiet
    exact hs
  | error e a =>
    rw [hres] at hquiet
    obtain ⟨lock, rfl⟩ := hquiet
    exact hs.withLock lock

theorem etherealize_refused {a : Adapter} {u : UnmarshalledOid} (hr : RefusedByLifespan host a u) :
    etherealize host u a ≠ .ok none a := by
  unfold RefusedByLifespan at hr
  split at hr
  · rename_i i hmanager
    rw [etherealize, bind_get, hmanager]
    dsimp only
    rw [bind_apply, idToServant, bind_apply]
    cases hdec : oidToUOid host none (uOidToOid host u) .fresh with
    | error e => rintro ⟨⟩
    | ok r =>
      obtain ⟨v, error⟩ := r
      cases error with
      | some e => rintro ⟨⟩
      | none =>
        have hv := hr v (by rw [named, hdec]; rfl)
        obtain ⟨e, he⟩ := Option.isSome_iff_exists.1 hv
        rw [evaluate_ok]
        dsimp only
        rw [bind_get, he]
        rintro ⟨⟩
  · exact hr.elim

theorem Tracks.deactivate (ht : Tracks h m) (h0 : 0 < j) {e : MapEntry}
    (hentry : m.entryAt j = some e) {oid : ObjectId} {u : UnmarshalledOid}
    (hu : named host oid = some u) (hindex : m.indexOf u = .ok j)
    (hown : e.servant = none ∨ e.oid = u) (lock : Bool) :
    Tracks
      { adapter := h.adapter.withMap (.system (m.setEntry j none)) lock
        active := h.active.filter fun x => some x.1 ≠ named host oid
        former := (h.active.filter fun x => some x.1 = named host oid) ++ h.former }
      (m.setEntry j none) := by
  have hle := SystemObjectMap.le_length_of_entryAt hentry
  have hself := SystemObjectMap.entryAt_setEntry_self h0 hle (none : Option MapEntry)
  have hother : ∀ i, 0 < i → i ≠ j → (m.setEntry j none).entryAt i = m.entryAt i :=
    fun i hi hij => SystemObjectMap.entryAt_setEntry_of_ne hi h0 hij _
  -- the index of an active id is the one that is cleared if and only if it is the id named
  have hname : ∀ v q i, 0 < i → v = h.adapter.systemOid i → m.entryAt i = some ⟨v, some q⟩ →
      (v = u ↔ i = j) := by
    intro v q i hi hv he
    constructor
    · rintro rfl
      have hi' : m.indexOf v = .ok i :=
        SystemObjectMap.indexOf_decimal (by rw [hv]; rfl) hi
          (SystemObjectMap.le_length_of_entryAt he)
      exact Checked.ok_inj hi' hindex
    · rintro rfl
      rw [hentry] at he
      cases he
      rcases hown with hnone | hoid
      · cases hnone
      · exact hoid
  refine ⟨fun i e' hi he => ?_, fun v q => ?_, fun v q hmem => ?_, ?_⟩
  · by_cases hij : i = j
    · subst hij
      rw [hself] at he
      cases he
    · rw [hother i hi hij] at he
      exact ht.oids i e' hi he
  · rw [List.mem_filter, ht.active_iff, hu]
    constructor
    · rintro ⟨⟨i, hi, hv, he⟩, hne⟩
      have hvu : v ≠ u := by simpa using hne
      have hij : i ≠ j := fun heq => hvu ((hname v q i hi hv he).2 heq)
      exact ⟨i, hi, hv, (hother i hi hij).trans he⟩
    · rintro ⟨i, hi, hv, he⟩
      have hij : i ≠ j := by
        rintro rfl
        rw [hself] at he
        cases he
      rw [hother i hi hij] at he
      have hvu : v ≠ u := fun heq => hij ((hname v q i hi hv he).1 heq)
      exact ⟨⟨i, hi, hv, he⟩, by simpa using hvu⟩
  · have hkept : ∀ i, 0 < i → (∀ e ∈ m.entryAt i, e.servant = none ∨ e.servant = some q) →
        ∀ e ∈ (m.setEntry j none).entryAt i, e.servant = none ∨ e.servant = some q := by
      intro i hi hp e' he
      by_cases hij : i = j
      · subst hij
        rw [hself] at he
        cases he
      · rw [hother i hi hij] at he
        exact hp e' he
    rcases List.mem_append.1 hmem with hnew | hold
    · obtain ⟨hact, -⟩ := List.mem_filter.1 hnew
      obtain ⟨i, hi, hv, he⟩ := (ht.active_iff v q).1 hact
      refine ⟨i, hi, by simpa using SystemObjectMap.le_length_of_entryAt he, hv, hkept i hi ?_⟩
      intro e' he'
      rw [he] at he'
      cases he'
      exact .inr rfl
    · obtain ⟨i, hi, hilen, hv, hp⟩ := ht.former v q hold
      exact ⟨i, hi, by simpa using hilen, hv, hkept i hi hp⟩
  · exact ht.nodup.sublist ((List.filter_sublist ..).map _)

theorem SystemRetained.deactivate {oid : ObjectId} (hs : SystemRetained h)
    (hal : Allowed host h (.deactivate oid)) :
    SystemRetained (h.perform host (.deactivate oid)) := by
  obtain ⟨m, hm, ht⟩ := hs.tracks
  have hmap : h.adapter.activeObjectMap = none ∨
      ∃ m, h.adapter.activeObjectMap = some (.system m) := by
    rcases map_eq hm hs.assignment with hmap | ⟨hmap, -⟩
    · exact .inr ⟨m, hmap⟩
    · exact .inl hmap
  have hdea := deactivateObject_deactivates host hs.assignment hs.retention hmap oid
  rw [perform]
  cases hres : deactivateObject host oid h.adapter with
  | error e a =>
    rw [hres] at hdea
    cases hdea with
    | raised lock ha =>
      rw [ha]
      exact hs.withLock lock
  | ok r a =>
    rw [hres] at hdea
    cases hdea with
    | failed => exact hs
    | @removed m' u j e hl hm' hu hget hindex h0 hle hentry heth =>
      obtain rfl : m' = m := by
        rw [Adapter.map, hm'] at hm
        exact ObjectMap.system.inj hm
      have hnamed : named host oid = some u := by rw [named, hu]
      rw [Allowed, hm] at hal
      have hown : e.servant = none ∨ e.oid = u := by
        rcases hal hl u hnamed e (by rw [hget]; rfl) with hnone | hoid | hrefused
        · exact .inl hnone
        · exact .inr hoid
        · exact absurd heth (etherealize_refused hrefused)
      exact ⟨hs.assignment, hs.retention, _, rfl, ht.deactivate h0 hentry hnamed hindex hown false⟩

end Deactivate

/-! ## Runs -/

theorem SystemRetained.perform {host : Endianness} {act : PoaAction}
    (hs : SystemRetained h) (hal : Allowed host h act) : SystemRetained (h.perform host act) := by
  cases act with
  | activate p hint => exact hs.activate hal
  | deactivate oid => exact hs.deactivate hal
  | lookup oid => exact hs.quiet (quiet_idToServant host oid)

/-- An id of a run identifies one activation, if no step takes an index that is in use or was used
for another servant, and none deactivates an object through another id. -/
theorem activationRun_sound (host : Endianness) (absoluteAddress : Text) (bootTime : TimeStamp)
    (idUniqueness : IdUniqueness) (requestProcessing : RequestProcessing) (lifespan : Lifespan)
    (servantManager : Option ServantManager) (defaultServant : Option Servant)
    (acts : List PoaAction)
    (hal : Runs.Along (perform host) (Allowed host) (ofAdapter (.systemRetained absoluteAddress
      bootTime idUniqueness requestProcessing lifespan servantManager defaultServant)) acts) :
    Sound (Runs.reach (perform host) (ofAdapter (.systemRetained absoluteAddress bootTime
      idUniqueness requestProcessing lifespan servantManager defaultServant)) acts) :=
  (Runs.reach_of_inv (fun _ _ => SystemRetained.perform) acts _
    (systemRetained_ofAdapter absoluteAddress bootTime idUniqueness requestProcessing lifespan
      servantManager defaultServant) hal).sound

/-- The octets of the id at an index of the root. -/
def rootOid (j : Nat) : ObjectId := uOidToOid .littleEndian ((persistentRoot .multipleId).systemOid j)

/-- An index is used again for the servant it was used for. -/
def reactivatedRun : List PoaAction :=
  [.activate 0 none, .activate 1 (some (rootOid 3)), .activate 2 none, .deactivate (rootOid 2),
    .lookup (rootOid 2), .activate 2 none]

theorem activationRun_sound_reactivatedRun :
    Sound (Runs.reach (perform .littleEndian) (ofAdapter (persistentRoot .multipleId)) reactivatedRun) :=
  activationRun_sound .littleEndian [] nullTimeStamp .multipleId .useServantManager .persistent
    none none reactivatedRun (by decide)

/-- `Add` takes the slot of a deactivated object for another servant. -/
def reusedRun : List PoaAction :=
  [.activate 0 none, .deactivate (rootOid 1), .activate 1 none]

/-- `Add` with an index does not raise `Last`, so that `Add` without one takes the index again. -/
def overwrittenRun : List PoaAction :=
  [.activate 0 (some (rootOid 1)), .activate 1 none]

theorem not_sound_reusedRun :
    ¬Sound (Runs.reach (perform .littleEndian) (ofAdapter (persistentRoot .multipleId)) reusedRun) ∧
      ¬Sound (Runs.reach (perform .littleEndian) (ofAdapter (persistentRoot .multipleId)) overwrittenRun) := by
  constructor
  · intro h
    have hformer := h.former ((persistentRoot .multipleId).systemOid 1) 0 (by decide)
      ⟨(persistentRoot .multipleId).systemOid 1, some 1⟩ 1 (by decide) rfl
    exact absurd hformer (by decide)
  · intro h
    have hresolves := h.resolves ((persistentRoot .multipleId).systemOid 1) 0 (by decide)
    exact absurd hresolves (by decide)

end History

end PolyORB
