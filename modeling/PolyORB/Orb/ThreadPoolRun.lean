import PolyORB.Orb.ThreadPool

/-!
# Runs of the thread pool

The number of the tasks of the pool stays within its bound, and there are enough spare tasks, under
conditions on the steps that are necessary as well.
-/

namespace PolyORB

namespace ThreadPool

variable {s : ThreadPool} {i : Nat} {t : PoolTask}

def poolTasks (s : ThreadPool) : Nat := s.tasks.countP PoolTask.isPool

/-- The tasks that are between their awakening and their `Check_Spares`. -/
def awakened (s : ThreadPool) : Nat := s.tasks.countP fun t => t.place = .awakened

/-- The tasks of the pool that have registered and have not been scheduled yet. -/
def starting (s : ThreadPool) : Nat :=
  s.tasks.countP fun t => t.origin = .pool && t.place = .fresh

/-- The tasks of the pool that are alive or being created do not exceed the maximum. -/
def Bounded (s : ThreadPool) : Prop := s.poolTasks + s.created ≤ s.config.maximumThreads

/-- When no task is on its way to `Check_Spares`, and there are too few spare tasks, the maximum is
reached, tasks are being created or the ORB is shutting down. -/
def Spared (s : ThreadPool) : Prop :=
  s.awakened = 0 → s.currentSpares < s.config.minimumSpareThreads →
    s.config.maximumThreads ≤ s.permanentTasks ∨ 0 < s.created + s.starting ∨ s.shuttingDown = true

/-! ### Conditions on the steps -/

def userTasks (s : ThreadPool) : Nat :=
  s.tasks.countP fun t => t.isPermanent && t.origin = .user

/-- The number of the tasks other than `t` that satisfy `p`. -/
def others (s : ThreadPool) (p : PoolTask → Bool) (t : PoolTask) : Nat :=
  s.tasks.countP p - Tally.weight p t

/-- So many spare tasks and permanent tasks are enough, or more will come. -/
def Enough (s : ThreadPool) (awakened spares permanent : Nat) : Prop :=
  0 < awakened ∨ s.config.minimumSpareThreads ≤ spares ∨ s.config.maximumThreads ≤ permanent ∨
    0 < s.created ∨ s.shuttingDown = true

/-- No more tasks are created than there is room for: all those that were created have registered,
or there is room for them besides. -/
def Room (s : ThreadPool) (failed : Nat) : Prop :=
  s.config.minimumSpareThreads ≤ s.currentSpares ∨ s.shuttingDown = true ∨
    s.config.maximumThreads ≤ s.permanentTasks ∨ s.created ≤ s.userTasks + failed ∨
    s.poolTasks + s.created + (s.config.minimumSpareThreads - s.currentSpares) ≤
      s.config.maximumThreads + failed

/-- What a step needs in order to keep the bound and the spare tasks. -/
def Condition (s : ThreadPool) : PoolAction → Prop
  | .checkSpares _ failed =>
    s.Room failed ∧
      (s.Enough (s.awakened - 1) s.currentSpares s.permanentTasks ∨
        failed < s.config.minimumSpareThreads - s.currentSpares ∧
          failed < s.config.maximumThreads - s.permanentTasks)
  | .schedule i schedule => ∀ t ∈ s.tasks[i]?,
    s.Enough s.awakened
      (s.others PoolTask.isSpare t +
        if schedule = .idle ∧ t.kind = .permanent then 1 else 0) s.permanentTasks
  | .abort i => ∀ t ∈ s.tasks[i]?,
    s.Enough (s.others (fun u => u.place = .awakened) t) (s.others PoolTask.isSpare t)
      s.permanentTasks
  | .unregister i => ∀ t ∈ s.tasks[i]?,
    s.Enough s.awakened s.currentSpares (s.others PoolTask.isPermanent t)
  | _ => True

/-- A task that is fresh, checked or terminated has not left the critical section. -/
def Guarded (s : ThreadPool) : Prop :=
  ∀ (i : Nat) (t : PoolTask), s.tasks[i]? = some t →
    t.place = .fresh ∨ t.place = .checked ∨ t.place = .ending → s.holder = some i

theorem permanentTasks_eq : s.permanentTasks = s.poolTasks + s.userTasks := by
  unfold permanentTasks poolTasks userTasks
  induction s.tasks with
  | nil => rfl
  | cons t ts ih =>
    simp only [List.countP_cons, ih]
    rcases t with ⟨_ | _ | _, m, _ | _ | _ | _ | _ | _ | _⟩ <;>
      simp [PoolTask.isPermanent, PoolTask.isPool, PoolTask.kind] <;> omega

theorem counts_set {p : TaskPlace} {r : ThreadPool} (h : s.tasks[i]? = some t)
    (h' : r.tasks = s.tasks.set i { t with place := p }) :
    (r.poolTasks + Tally.weight PoolTask.isPool t =
        s.poolTasks + Tally.weight PoolTask.isPool { t with place := p }) ∧
      (r.permanentTasks + Tally.weight PoolTask.isPermanent t =
        s.permanentTasks + Tally.weight PoolTask.isPermanent { t with place := p }) ∧
      (r.currentSpares + Tally.weight PoolTask.isSpare t =
        s.currentSpares + Tally.weight PoolTask.isSpare { t with place := p }) ∧
      (r.awakened + Tally.weight (fun u => u.place = .awakened) t =
        s.awakened + Tally.weight (fun u : PoolTask => u.place = .awakened)
          { t with place := p }) ∧
      r.starting + Tally.weight (fun u => u.origin = .pool && u.place = .fresh) t =
        s.starting + Tally.weight (fun u : PoolTask => u.origin = .pool && u.place = .fresh)
          { t with place := p } := by
  unfold poolTasks permanentTasks currentSpares awakened starting
  rw [h']
  exact ⟨Tally.countP_set_add _ _ h, Tally.countP_set_add _ _ h, Tally.countP_set_add _ _ h,
    Tally.countP_set_add _ _ h, Tally.countP_set_add _ _ h⟩

theorem Guarded.starting (h : s.Guarded) (hh : s.holder = none) : s.starting = 0 := by
  refine List.countP_eq_zero.mpr fun t ht hp => ?_
  obtain ⟨j, hj⟩ := List.getElem?_of_mem ht
  simp only [Bool.and_eq_true, decide_eq_true_eq] at hp
  rw [h j t hj (Or.inl hp.2)] at hh
  cases hh

theorem Guarded.set (h : s.Guarded) (hh : s.holder = none ∨ s.holder = some i) {r : ThreadPool}
    {p : TaskPlace} (ht : r.tasks = s.tasks.set i { t with place := p })
    (hp : p = .fresh ∨ p = .checked ∨ p = .ending → r.holder = some i) : r.Guarded := by
  intro j u hj hu
  rw [ht] at hj
  by_cases hij : i = j
  · subst hij
    rw [List.getElem?_set_self'] at hj
    obtain ⟨v, -, rfl⟩ := Option.map_eq_some_iff.mp hj
    exact hp hu
  · rw [List.getElem?_set_ne hij] at hj
    have := h j u hj hu
    rcases hh with hh | hh <;> rw [hh] at this
    · cases this
    · exact absurd (Option.some.inj this) hij

structure Inv (s : ThreadPool) : Prop where
  guarded : s.Guarded
  bounded : s.Bounded
  spared : s.Spared

theorem inv_initial (config : PoolConfig) : (initial config).Inv := by
  refine ⟨fun i t h => by simp [initial] at h, ?_, fun _ h => ?_⟩
  · have := config.start_le
    show 0 + config.startThreads ≤ config.maximumThreads
    omega
  · have := config.minimum_le_start
    have h' : 0 < config.minimumSpareThreads := h
    refine Or.inr (Or.inl ?_)
    show 0 < config.startThreads + 0
    omega

theorem Guarded.starting_eq (h : s.Guarded) (hh : s.holder = none ∨ s.holder = some i)
    (ht : s.tasks[i]? = some t) :
    s.starting = Tally.weight (fun u => u.origin = .pool && u.place = .fresh) t := by
  have hset := (counts_set (r := s.setPlace i t .gone) (p := .gone) ht rfl).2.2.2.2
  have hzero : (s.setPlace i t .gone).starting = 0 := by
    refine List.countP_eq_zero.mpr fun u hu hp => ?_
    obtain ⟨j, hj⟩ := List.getElem?_of_mem hu
    simp only [Bool.and_eq_true, decide_eq_true_eq] at hp
    rw [setPlace] at hj
    by_cases hij : i = j
    · subst hij
      rw [List.getElem?_set_self'] at hj
      obtain ⟨v, -, rfl⟩ := Option.map_eq_some_iff.mp hj
      cases hp.2
    · rw [List.getElem?_set_ne hij] at hj
      have := h j u hj (Or.inl hp.2)
      rcases hh with hh | hh <;> rw [hh] at this
      · cases this
      · exact hij (Option.some.inj this)
  have hw : Tally.weight (fun u : PoolTask => u.origin = .pool && u.place = .fresh)
      { t with place := .gone } = 0 := by simp [Tally.weight]
  omega

theorem at_iff {places : List TaskPlace} :
    s.At i places ↔ ∃ t, s.tasks[i]? = some t ∧ t.place ∈ places ∧
      (s.holder = none ∨ s.holder = some i) := by
  simp [At, Option.mem_def]

/-! ### The steps -/

theorem newSpares_le_iff {P U C M a failed : Nat} (h : P + C ≤ M) (hfull : P + U < M) :
    P + (C + (min a (M - (P + U)) - failed)) ≤ M ↔ C ≤ U + failed ∨ P + C + a ≤ M + failed := by
  rcases Nat.le_total a (M - (P + U)) with ha | ha
  · omega
  · omega

theorem newSpares_pos_iff {C a b failed : Nat} :
    0 < C + (min a b - failed) ↔ 0 < C ∨ failed < a ∧ failed < b := by
  rw [Nat.add_pos_iff_pos_or_pos, Nat.sub_pos_iff_lt, lt_min_iff]

theorem toNat_newSpares :
    s.newSpares.toNat =
      if s.currentSpares < s.config.minimumSpareThreads ∧ s.shuttingDown = false then
        min (s.config.minimumSpareThreads - s.currentSpares)
          (s.config.maximumThreads - s.permanentTasks)
      else 0 := by
  have := s.config.minimum_le
  unfold newSpares
  split
  · omega
  · rfl

theorem Inv.checkSpares (h : s.Inv) (hh : s.holder = none) (ht : s.tasks[i]? = some t)
    (hp : t.place = .awakened) (failed : Nat) :
    ((s.checkSpares i t failed).Bounded ∧ (s.checkSpares i t failed).Spared ↔
      s.Condition (.checkSpares i failed)) ∧ (s.checkSpares i t failed).Guarded := by
  refine ⟨?_, h.guarded.set (Or.inl hh) rfl fun _ => rfl⟩
  have hstart := h.guarded.starting hh
  have hbounded := h.bounded
  have hPU := s.permanentTasks_eq
  obtain ⟨r, hs'⟩ : ∃ r, r = s.checkSpares i t failed := ⟨_, rfl⟩
  have hset := counts_set (r := r) (p := .checked) ht (by rw [hs']; rfl)
  have hmore : r.created = s.created + (s.newSpares.toNat - failed) := by rw [hs']; rfl
  have hconfig : r.config = s.config := by rw [hs']; rfl
  have hdown : r.shuttingDown = s.shuttingDown := by rw [hs']; rfl
  rw [toNat_newSpares] at hmore
  rw [← hs']
  unfold Bounded at hbounded ⊢
  unfold Spared Condition Room Enough
  rw [hconfig, hdown]
  obtain ⟨hP, hR, hI, hA, hS⟩ : r.poolTasks = s.poolTasks ∧
      r.permanentTasks = s.permanentTasks ∧ r.currentSpares = s.currentSpares ∧
      r.awakened + 1 = s.awakened ∧ r.starting = s.starting := by
    obtain ⟨origin, m, place⟩ := t
    obtain rfl : place = .awakened := hp
    cases origin <;> simpa [Tally.weight, PoolTask.isPool, PoolTask.isPermanent, PoolTask.isSpare,
      PoolTask.kind] using hset
  rw [hP, hR, hI]
  have hstarting : r.starting = 0 := hS.trans hstart
  rw [hstarting, Nat.add_zero, hmore]
  have hawake' : r.awakened = 0 ↔ ¬ 0 < s.awakened - 1 := by omega
  by_cases hlack : s.currentSpares < s.config.minimumSpareThreads ∧ s.shuttingDown = false ∧
      s.permanentTasks < s.config.maximumThreads
  · obtain ⟨hI', hd, hfull⟩ := hlack
    rw [if_pos ⟨hI', hd⟩, hPU]
    rw [hPU] at hfull
    have hmin := Nat.not_le.mpr hI'
    have hmax := Nat.not_le.mpr hfull
    simp only [hmin, hmax, hd, hI', Bool.false_eq_true, false_or, or_false, forall_const]
    rw [newSpares_le_iff hbounded hfull, newSpares_pos_iff, hawake', or_assoc]
    refine and_congr Iff.rfl ?_
    rw [← or_iff_not_imp_left]
  · -- Nothing is created: there are spares enough, or the ORB is shutting down, or it is full.
    have hwhy : s.config.minimumSpareThreads ≤ s.currentSpares ∨ s.shuttingDown = true ∨
        s.config.maximumThreads ≤ s.permanentTasks := by
      simpa only [not_and_or, not_lt, Bool.not_eq_false] using hlack
    have hzero : (if s.currentSpares < s.config.minimumSpareThreads ∧ s.shuttingDown = false then
        min (s.config.minimumSpareThreads - s.currentSpares)
          (s.config.maximumThreads - s.permanentTasks) else 0) - failed = 0 := by
      split
      · next hcond =>
        have hfull : s.config.maximumThreads ≤ s.permanentTasks := by
          rcases hwhy with hwhy | hwhy | hwhy
          · exact absurd hcond.1 (Nat.not_lt.mpr hwhy)
          · rw [hwhy] at hcond
            cases hcond.2
          · exact hwhy
        rw [Nat.sub_eq_zero_of_le hfull, Nat.min_zero, Nat.zero_sub]
      · exact Nat.zero_sub failed
    rw [hzero, Nat.add_zero]
    refine iff_of_true ⟨hbounded, fun _ hI' => ?_⟩ ⟨?_, Or.inl ?_⟩
    · rcases hwhy with hwhy | hwhy | hwhy
      · exact absurd hI' (Nat.not_lt.mpr hwhy)
      · exact Or.inr (Or.inr hwhy)
      · exact Or.inl hwhy
    · exact hwhy.imp_right fun hwhy => hwhy.imp_right Or.inl
    · rcases hwhy with hwhy | hwhy | hwhy
      · exact Or.inr (Or.inl hwhy)
      · exact Or.inr (Or.inr (Or.inr (Or.inr hwhy)))
      · exact Or.inr (Or.inr (Or.inl hwhy))

/-- A step that creates nothing keeps the bound, and keeps enough spare tasks if their number and
that of the permanent tasks are enough. -/
theorem Inv.moved (h : s.Inv) (hh : s.holder = none ∨ s.holder = some i)
    (ht : s.tasks[i]? = some t) {r : ThreadPool} {p : TaskPlace}
    (hset : r.tasks = s.tasks.set i { t with place := p }) (hconfig : r.config = s.config)
    (hcreated : r.created = s.created) (hdown : r.shuttingDown = s.shuttingDown)
    (ht' : t.place ≠ .gone) (hp : p ≠ .fresh) :
    (r.Bounded ∧ r.Spared) ↔ s.Enough r.awakened r.currentSpares r.permanentTasks := by
  have hstart := h.guarded.starting_eq hh ht
  have hbounded := h.bounded
  obtain ⟨hP, -, -, -, hS⟩ := counts_set ht hset
  have hP' : r.poolTasks ≤ s.poolTasks := by
    have : Tally.weight PoolTask.isPool { t with place := p } ≤ Tally.weight PoolTask.isPool t := by
      by_cases ho : t.origin = .pool <;> by_cases hg : p = .gone <;>
        simp [Tally.weight, PoolTask.isPool, ht', ho, hg]
    omega
  have hS' : r.starting = 0 := by
    have : Tally.weight (fun u : PoolTask => u.origin = .pool && u.place = .fresh)
        { t with place := p } = 0 := by simp [Tally.weight, hp]
    omega
  unfold Bounded at hbounded ⊢
  unfold Spared Enough
  rw [hconfig, hcreated, hdown, hS']
  constructor
  · rintro ⟨-, hs⟩
    by_cases hb : 0 < r.awakened
    · exact Or.inl hb
    · by_cases hm : s.config.minimumSpareThreads ≤ r.currentSpares
      · exact Or.inr (Or.inl hm)
      · exact Or.inr (Or.inr (hs (by omega) (by omega)))
  · intro he
    refine ⟨by omega, fun ha hi => ?_⟩
    rcases he with he | he | he
    · omega
    · omega
    · exact he

theorem others_eq {p : PoolTask → Bool} {n : Nat}
    (hn : n + Tally.weight p t = s.tasks.countP p) : s.others p t = n := by
  unfold others
  omega

theorem counts_moved (ht : s.tasks[i]? = some t) {r : ThreadPool} {p : TaskPlace}
    (hset : r.tasks = s.tasks.set i { t with place := p }) (ht' : t.place ≠ .gone)
    (hp : p = .busy ∨ p = .waiting ∨ p = .ending) :
    r.awakened = s.others (fun u => u.place = .awakened) t ∧
      r.permanentTasks = s.permanentTasks ∧
      r.currentSpares =
        s.others PoolTask.isSpare t + if p = .waiting ∧ t.kind = .permanent then 1 else 0 := by
  obtain ⟨-, hR, hI, hA, -⟩ := counts_set ht hset
  refine ⟨?_, ?_, ?_⟩
  · refine (others_eq ?_).symm
    rw [show Tally.weight (fun u : PoolTask => u.place = .awakened) { t with place := p } = 0 by
      rcases hp with rfl | rfl | rfl <;> rfl] at hA
    exact hA
  · have : Tally.weight PoolTask.isPermanent { t with place := p } =
        Tally.weight PoolTask.isPermanent t := by
      rcases hp with rfl | rfl | rfl <;> cases ho : t.origin <;>
        simp [Tally.weight, PoolTask.isPermanent, PoolTask.kind, ho, ht']
    omega
  · have hw : Tally.weight PoolTask.isSpare { t with place := p } =
        if p = .waiting ∧ t.kind = .permanent then 1 else 0 := by
      rcases hp with rfl | rfl | rfl <;> cases ho : t.origin <;>
        simp [Tally.weight, PoolTask.isSpare, PoolTask.kind, ho]
    have hle : Tally.weight PoolTask.isSpare t ≤ s.currentSpares := by
      unfold Tally.weight
      split
      · rename_i hs
        exact Tally.countP_pos_of_getElem? ht hs
      · exact Nat.zero_le _
    show _ = s.currentSpares - _ + _
    omega

theorem Inv.scheduleTask (h : s.Inv) (hh : s.holder = none ∨ s.holder = some i)
    (ht : s.tasks[i]? = some t) (hp : t.place = .fresh ∨ t.place = .busy ∨ t.place = .checked)
    (schedule : Schedule) :
    ((s.scheduleTask i t schedule).Bounded ∧ (s.scheduleTask i t schedule).Spared ↔
      s.Condition (.schedule i schedule)) ∧ (s.scheduleTask i t schedule).Guarded := by
  have hgone : t.place ≠ .gone := by rcases hp with hp | hp | hp <;> rw [hp] <;> decide
  have hawakened : s.others (fun u => u.place = .awakened) t = s.awakened := by
    refine others_eq ?_
    rcases hp with hp | hp | hp <;> simp [Tally.weight, hp, awakened]
  have hcond : s.Condition (.schedule i schedule) ↔ s.Enough s.awakened
      (s.others PoolTask.isSpare t +
        if schedule = .idle ∧ t.kind = .permanent then 1 else 0) s.permanentTasks := by
    simp [Condition, ht]
  rw [hcond]
  cases schedule with
  | work =>
    obtain ⟨h1, h2, h3⟩ := counts_moved (r := s.leave i t .busy) ht rfl hgone (Or.inl rfl)
    refine ⟨(h.moved hh ht (r := s.leave i t .busy) rfl rfl rfl rfl hgone (by decide)).trans ?_,
      h.guarded.set hh rfl (by simp)⟩
    rw [h1, h2, h3, hawakened]
    simp
  | terminated =>
    obtain ⟨h1, h2, h3⟩ :=
      counts_moved (r := s.terminate i t) ht rfl hgone (Or.inr (Or.inr rfl))
    refine ⟨(h.moved hh ht (r := s.terminate i t) rfl rfl rfl rfl hgone (by decide)).trans ?_,
      h.guarded.set hh rfl fun _ => rfl⟩
    rw [h1, h2, h3, hawakened]
    simp
  | idle =>
    show ((s.goIdle i t).Bounded ∧ (s.goIdle i t).Spared ↔ _) ∧ (s.goIdle i t).Guarded
    obtain ⟨h1, h2, h3⟩ :=
      counts_moved (r := s.setPlace i t .waiting) ht rfl hgone (Or.inr (Or.inl rfl))
    unfold goIdle
    split
    · rename_i hpolicy
      -- so many tasks are idle that one less is enough
      obtain ⟨h1', h2', h3'⟩ :=
        counts_moved (r := s.terminate i t) ht rfl hgone (Or.inr (Or.inr rfl))
      refine ⟨(h.moved hh ht (r := s.terminate i t) rfl rfl rfl rfl hgone (by decide)).trans ?_,
        h.guarded.set hh rfl fun _ => rfl⟩
      have hmin := s.config.minimum_le
      rw [h3, if_pos ⟨rfl, hpolicy.1⟩] at hpolicy
      refine iff_of_true (Or.inr (Or.inl ?_)) (Or.inr (Or.inl ?_))
      · omega
      · omega
    · refine ⟨(h.moved hh ht (r := s.leave i t .waiting) rfl rfl rfl rfl hgone
        (by decide)).trans ?_, h.guarded.set hh rfl (by simp)⟩
      rw [show (s.leave i t .waiting).awakened = _ from h1,
        show (s.leave i t .waiting).permanentTasks = _ from h2,
        show (s.leave i t .waiting).currentSpares = _ from h3, hawakened]
      simp

theorem Inv.abort (h : s.Inv) (hh : s.holder = none ∨ s.holder = some i)
    (ht : s.tasks[i]? = some t) (hp : t.place ≠ .gone) :
    ((s.terminate i t).Bounded ∧ (s.terminate i t).Spared ↔ s.Condition (.abort i)) ∧
      (s.terminate i t).Guarded := by
  obtain ⟨h1, h2, h3⟩ := counts_moved (r := s.terminate i t) ht rfl hp (Or.inr (Or.inr rfl))
  refine ⟨(h.moved hh ht (r := s.terminate i t) rfl rfl rfl rfl hp (by decide)).trans ?_,
    h.guarded.set hh rfl fun _ => rfl⟩
  rw [h1, h2, h3]
  simp [Condition, ht]

theorem Inv.unregister (h : s.Inv) (hh : s.holder = none ∨ s.holder = some i)
    (ht : s.tasks[i]? = some t) (hp : t.place = .ending) :
    ((s.leave i t .gone).Bounded ∧ (s.leave i t .gone).Spared ↔ s.Condition (.unregister i)) ∧
      (s.leave i t .gone).Guarded := by
  have hgone : t.place ≠ .gone := by rw [hp]; decide
  refine ⟨(h.moved hh ht (r := s.leave i t .gone) rfl rfl rfl rfl hgone (by decide)).trans ?_,
    h.guarded.set hh rfl (by simp)⟩
  obtain ⟨-, hR, hI, hA, -⟩ := counts_set (r := s.leave i t .gone) (p := .gone) ht rfl
  have hR' : s.others PoolTask.isPermanent t = (s.leave i t .gone).permanentTasks := by
    refine others_eq (hR.trans ?_)
    simp [Tally.weight, PoolTask.isPermanent, permanentTasks]
  have hI' : (s.leave i t .gone).currentSpares = s.currentSpares := by
    simpa [Tally.weight, PoolTask.isSpare, hp] using hI
  have hA' : (s.leave i t .gone).awakened = s.awakened := by
    simpa [Tally.weight, hp] using hA
  rw [← hR', hI', hA']
  simp [Condition, ht]

theorem Inv.register (h : s.Inv) (hh : s.holder = none) {origin : TaskOrigin}
    (hc : origin = .pool → 0 < s.created) (mayExit : Bool) : (s.register origin mayExit).Inv := by
  have hbounded := h.bounded
  have hspared := h.spared
  obtain ⟨r, hs'⟩ : ∃ r, r = s.register origin mayExit := ⟨_, rfl⟩
  have htasks : r.tasks =
      s.tasks ++ [{ origin := origin, mayExit := mayExit, place := .fresh }] := by
    rw [hs']
    rfl
  have hcreated : r.created = if origin = .pool then s.created - 1 else s.created := by
    rw [hs']
    rfl
  have hconfig : r.config = s.config := by rw [hs']; rfl
  have hdown : r.shuttingDown = s.shuttingDown := by rw [hs']; rfl
  rw [← hs']
  obtain ⟨hP, hR, hI, hA, hS⟩ : r.poolTasks = s.poolTasks + (if origin = .pool then 1 else 0) ∧
      s.permanentTasks ≤ r.permanentTasks ∧ r.currentSpares = s.currentSpares ∧
      r.awakened = s.awakened ∧
      r.starting = s.starting + (if origin = .pool then 1 else 0) := by
    unfold poolTasks permanentTasks currentSpares awakened starting
    simp only [htasks, Tally.countP_append_singleton]
    cases origin <;> simp [Tally.weight, PoolTask.isPool, PoolTask.isPermanent, PoolTask.isSpare,
      PoolTask.kind]
  refine ⟨?_, ?_, ?_⟩
  · intro j u hj hu
    rw [htasks] at hj
    rcases Nat.lt_or_ge j s.tasks.length with hlt | hge
    · rw [List.getElem?_append_left hlt] at hj
      rw [h.guarded j u hj hu] at hh
      cases hh
    · have hj0 : j - s.tasks.length = 0 := by
        by_contra hne
        rw [List.getElem?_eq_none (by simp; omega)] at hj
        cases hj
      rw [show j = s.tasks.length by omega, hs']
      rfl
  · unfold Bounded at hbounded ⊢
    rw [hconfig, hP, hcreated]
    split
    · rename_i ho
      have := hc ho
      omega
    · omega
  · intro ha hi
    rw [hconfig, hcreated, hS, hdown]
    rw [hA] at ha
    rw [hI, hconfig] at hi
    rcases hspared ha hi with hs | hs | hs
    · exact Or.inl (hs.trans hR)
    · refine Or.inr (Or.inl ?_)
      split <;> omega
    · exact Or.inr (Or.inr hs)

theorem Inv.awake (h : s.Inv) (hh : s.holder = none) (ht : s.tasks[i]? = some t)
    (hp : t.place = .waiting) : (s.setPlace i t .awakened).Inv := by
  have hbounded := h.bounded
  obtain ⟨hP, -, -, hA, -⟩ :=
    counts_set (r := s.setPlace i t .awakened) (p := .awakened) ht rfl
  have hP' : (s.setPlace i t .awakened).poolTasks = s.poolTasks := by
    simpa [Tally.weight, PoolTask.isPool, hp] using hP
  have hA' : (s.setPlace i t .awakened).awakened = s.awakened + 1 := by
    simpa [Tally.weight, hp] using hA
  refine ⟨h.guarded.set (Or.inl hh) rfl (by simp), ?_, fun ha => ?_⟩
  · unfold Bounded at hbounded ⊢
    rw [hP']
    exact hbounded
  · rw [hA'] at ha
    cases ha

/-- The bound and the spare tasks are kept by exactly the steps that meet the condition. -/
theorem Inv.step (h : s.Inv) {a : PoolAction} (ha : s.Enabled a) :
    ((s.step a).Bounded ∧ (s.step a).Spared ↔ s.Condition a) ∧ (s.step a).Guarded := by
  have hkept : ∀ {q : ThreadPool}, q.Inv → (q.Bounded ∧ q.Spared ↔ True) ∧ q.Guarded :=
    fun h => ⟨iff_of_true ⟨h.bounded, h.spared⟩ trivial, h.guarded⟩
  cases a with
  | register origin mayExit => exact hkept (h.register ha.1 ha.2 mayExit)
  | awake i =>
    obtain ⟨t, ht, hp, -⟩ := at_iff.mp ha.2
    have hstep : s.step (.awake i) = s.setPlace i t .awakened := by simp [ThreadPool.step, ht]
    rw [hstep]
    exact hkept (h.awake ha.1 ht (by simpa using hp))
  | checkSpares i failed =>
    obtain ⟨t, ht, hp, -⟩ := at_iff.mp ha.2
    have hstep : s.step (.checkSpares i failed) = s.checkSpares i t failed := by
      simp [ThreadPool.step, ht]
    rw [hstep]
    exact h.checkSpares ha.1 ht (by simpa using hp) failed
  | schedule i schedule =>
    obtain ⟨t, ht, hp, hh⟩ := at_iff.mp ha
    have hstep : s.step (.schedule i schedule) = s.scheduleTask i t schedule := by
      simp [ThreadPool.step, ht]
    rw [hstep]
    exact h.scheduleTask hh ht (by simpa using hp) schedule
  | abort i =>
    obtain ⟨t, ht, hp, hh⟩ := at_iff.mp ha
    have hstep : s.step (.abort i) = s.terminate i t := by simp [ThreadPool.step, ht]
    rw [hstep]
    refine h.abort hh ht fun hg => ?_
    rw [hg] at hp
    simp at hp
  | unregister i =>
    obtain ⟨t, ht, hp, hh⟩ := at_iff.mp ha
    have hstep : s.step (.unregister i) = s.leave i t .gone := by simp [ThreadPool.step, ht]
    rw [hstep]
    exact h.unregister hh ht (by simpa using hp)
  | shutdown => exact hkept ⟨h.guarded, h.bounded, fun _ _ => Or.inr (Or.inr rfl)⟩

instance (s : ThreadPool) : Decidable s.Bounded := by
  unfold Bounded
  infer_instance

instance (s : ThreadPool) : Decidable s.Spared := by
  unfold Spared
  infer_instance

instance (s : ThreadPool) (awakened spares permanent : Nat) :
    Decidable (s.Enough awakened spares permanent) := by
  unfold Enough
  infer_instance

instance (s : ThreadPool) (failed : Nat) : Decidable (s.Room failed) := by
  unfold Room
  infer_instance

instance (s : ThreadPool) : ∀ a, Decidable (s.Condition a)
  | .checkSpares _ failed => inferInstanceAs (Decidable (s.Room failed ∧ (_ ∨ _ ∧ _)))
  | .schedule i _ | .abort i | .unregister i =>
    inferInstanceAs (Decidable (∀ t ∈ s.tasks[i]?, s.Enough _ _ _))
  | .register .. | .awake _ | .shutdown => inferInstanceAs (Decidable True)

/-- Whatever configuration is accepted, in every run of the pool the bound and the spare tasks are
kept if and only if each step meets its condition. -/
theorem pool_run (config : PoolConfig) (as : List PoolAction)
    (ha : Runs.Along step Enabled (initial config) as) :
    Runs.Along step (fun s a => (s.step a).Bounded ∧ (s.step a).Spared) (initial config) as ↔
      Runs.Along step Condition (initial config) as := by
  refine Runs.along_iff (fun s a h ha => ?_) as _ (inv_initial config) ha
  obtain ⟨hiff, hg⟩ := h.step ha
  exact ⟨hiff.mp, fun hc => ⟨hiff.mpr hc, hg, (hiff.mpr hc).1, (hiff.mpr hc).2⟩⟩

/-- A pool of two tasks at the start and of three at most, two of them spare. -/
def small : PoolConfig :=
  { maximumThreads := 3
    startThreads := 2
    maximumSpareThreads := 2
    minimumSpareThreads := 2
    spares_le := by decide
    start_le := by decide
    minimum_le := by decide
    minimum_le_start := by decide }

/-- Both tasks go idle, and one of them is awakened and goes to work. -/
def leavingIdle : List PoolAction :=
  [.register .pool true, .schedule 0 .idle, .register .pool true, .schedule 1 .idle, .awake 0,
    .checkSpares 0 0, .schedule 0 .work]

/-- As `small`, with room for one more task. -/
def roomy : PoolConfig :=
  { maximumThreads := 4
    startThreads := 2
    maximumSpareThreads := 3
    minimumSpareThreads := 2
    spares_le := by decide
    start_le := by decide
    minimum_le := by decide
    minimum_le_start := by decide }

/-- Both tasks are awakened, and when one of them works the other one creates a third. -/
def refilling : List PoolAction :=
  [.register .pool true, .schedule 0 .idle, .register .pool true, .schedule 1 .idle, .awake 0,
    .awake 1, .checkSpares 0 0, .schedule 0 .work, .checkSpares 1 0, .schedule 1 .idle,
    .register .pool true, .schedule 2 .idle]

/-- Both sides hold of the one run. -/
theorem pool_run_leavingIdle :
    Runs.Along step (fun s a => (s.step a).Bounded ∧ (s.step a).Spared) (initial roomy)
        refilling ∧
      (Runs.Along step (fun s a => (s.step a).Bounded ∧ (s.step a).Spared) (initial small)
          leavingIdle ↔
        Runs.Along step Condition (initial small) leavingIdle) :=
  ⟨(pool_run roomy refilling (by decide)).mpr (by decide),
    pool_run small leavingIdle (by decide)⟩

/-- The other one is awakened twice before the task that it creates the first time registers. -/
def creatingTwice : List PoolAction :=
  leavingIdle ++ [.awake 1, .checkSpares 1 0, .schedule 1 .idle, .awake 1, .checkSpares 1 0]

theorem not_pool_run :
    PoolConfig.initializeTaskingPolicyAccess ⟨some 3, some 2, some 2, some 2⟩ = .ok small ∧
      Runs.Along step Enabled (initial small) creatingTwice ∧
      ¬ (Runs.reach step (initial small) leavingIdle).Spared ∧
      ¬ (Runs.reach step (initial small) creatingTwice).Bounded :=
  ⟨rfl, by decide, by decide, by decide⟩

end ThreadPool

end PolyORB
