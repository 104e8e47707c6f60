import PolyORB.Orb.Bookkeeping

/-!
# Steps of the bookkeeping

The counters are those of the tasks that are registered, the lists are those of the tasks that say
so, and each idle task holds a condition variable of its own, free only from the `Idle_Awake` of the
task to the `Schedule_Task` that follows.  Each call keeps this.
-/

namespace PolyORB

namespace Books

variable {s s' : Books} {t u : TaskId} {e : TaskEntry}

/-- What holds of a registered task between two calls. -/
structure TaskSound (s : Books) (t : TaskId) : Prop where
  listed : (s.task t).onList = true → (s.task t).state = .idle ∧ s.point t ≠ .scheduling
  leaving : s.point t = .leaving → (s.task t).state = .terminated
  noTasking : s.controller = .noTasking → (s.task t).state ≠ .idle
  monitoring : (s.task t).state = .idle → ∀ j, s.monitoringIndex t = some j →
    (s.task t).condition = some (.monitoring j) ∧ (s.task t).onList = false
  allotted : (s.task t).state = .idle → s.monitoringIndex t = none →
    ∃ n < s.idleTasks.created, (s.task t).condition = some (.idle n)
  -- the variable of a task that has notified Idle_Awake is free
  kept : (s.task t).state = .idle → s.point t ≠ .scheduling → s.monitoringIndex t = none →
    (s.task t).condition ∉ s.idleTasks.freeCv

/-- The task has a condition variable of the idle tasks manager. -/
def Holds (s : Books) (t : TaskId) : Prop :=
  t ∈ s.registered ∧ (s.task t).state = .idle ∧ s.monitoringIndex t = none

structure Inv (s : Books) : Prop where
  nodup : s.registered.Nodup
  summary : s.summary = Counters.tally (s.registered.map s.task)
  holder : ∀ t, s.holder = some t ↔ t ∈ s.registered ∧ (s.point t).Inside
  idleTasks : s.idleTasks.Valid s.registered s.task
  tasks : ∀ t ∈ s.registered, s.TaskSound t
  apart : ∀ t u, s.Holds t → s.Holds u → (s.task t).condition = (s.task u).condition → t = u

theorem inv_initial (controller : ControllerKind) (maximumSpareThreads : Option Nat) :
    (initial controller maximumSpareThreads).Inv := by
  refine ⟨List.nodup_nil, rfl, ?_, IdleTasksManager.valid_initial, nofun, fun t u ht => ?_⟩
  · intro t
    simp [initial]
  · exact absurd ht.1 List.not_mem_nil

theorem monitoringIndex_congr (hc : s'.controller = s.controller)
    (ha : ∀ j, s'.aemTask j = some t ↔ s.aemTask j = some t) :
    s'.monitoringIndex t = s.monitoringIndex t := by
  unfold monitoringIndex aemIndexOfTask
  rw [hc]
  simp [ha]

theorem aemTask_of_monitoringIndex {j : AemIndex} (h : s.monitoringIndex t = some j) :
    s.aemTask j = some t := by
  unfold monitoringIndex at h
  split at h
  · simpa using List.find?_some h
  · cases h

theorem Inv.set (h : s.Inv) (hc : s'.controller = s.controller) (ha : s'.aemTask = s.aemTask)
    (hr : s'.registered = s.registered) (htask : ∀ u, u ≠ t → s'.task u = s.task u)
    (hpoint : ∀ u, u ≠ t → s'.point u = s.point u)
    (hsum : s'.summary = Counters.tally (s'.registered.map s'.task))
    (hholder : ∀ u, s'.holder = some u ↔ u ∈ s.registered ∧ (s'.point u).Inside)
    (hidle : s'.idleTasks.Valid s'.registered s'.task)
    (hcreated : s.idleTasks.created ≤ s'.idleTasks.created)
    (hfree : ∀ c ∈ s'.idleTasks.freeCv,
      c ∈ s.idleTasks.freeCv ∨ s.Holds t ∧ c = (s.task t).condition)
    (hself : s'.TaskSound t)
    (hapart : s'.Holds t → ∀ u, u ≠ t → s.Holds u → (s.task u).condition ≠ (s'.task t).condition) :
    s'.Inv := by
  have hindex : ∀ u, s'.monitoringIndex u = s.monitoringIndex u :=
    fun u => monitoringIndex_congr hc fun j => by rw [ha]
  have hholds : ∀ u, u ≠ t → s'.Holds u → s.Holds u := by
    rintro u hu ⟨h1, h2, h3⟩
    exact ⟨hr ▸ h1, htask u hu ▸ h2, (hindex u).symm.trans h3⟩
  refine ⟨hr ▸ h.nodup, hsum, fun u => by rw [hr, hholder], hidle, fun u hu => ?_, ?_⟩
  · rw [hr] at hu
    by_cases hut : u = t
    · rw [hut]
      exact hself
    · have hs := h.tasks u hu
      constructor
      · rw [htask u hut, hpoint u hut]
        exact hs.listed
      · rw [htask u hut, hpoint u hut]
        exact hs.leaving
      · rw [htask u hut, hc]
        exact hs.noTasking
      · rw [htask u hut, hindex]
        exact hs.monitoring
      · rw [htask u hut, hindex]
        intro hi hm
        obtain ⟨n, hn, hcond⟩ := hs.allotted hi hm
        exact ⟨n, hn.trans_le hcreated, hcond⟩
      · rw [htask u hut, hindex, hpoint u hut]
        intro hi hp hm hmem
        rcases hfree _ hmem with hmem | ⟨ht, hcond⟩
        · exact hs.kept hi hp hm hmem
        · exact hut (h.apart u t ⟨hu, hi, hm⟩ ht hcond)
  · intro u v hu hv hcond
    by_cases hut : u = t <;> by_cases hvt : v = t
    · rw [hut, hvt]
    · rw [hut] at hu hcond
      rw [htask v hvt] at hcond
      exact absurd hcond.symm (hapart hu v hvt (hholds v hvt hv))
    · rw [hvt] at hv hcond
      rw [htask u hut] at hcond
      exact absurd hcond (hapart hv u hut (hholds u hut hu))
    · rw [htask u hut, htask v hvt] at hcond
      exact h.apart u v (hholds u hut hu) (hholds v hvt hv) hcond

theorem Inv.not_inside (h : s.Inv) (ht : s.holder = some t ∨ s.holder = none) (hu : u ≠ t)
    (hm : u ∈ s.registered) : ¬ (s.point u).Inside := by
  intro hin
  have := (h.holder u).mpr ⟨hm, hin⟩
  rcases ht with ht | ht <;> rw [ht] at this
  · exact hu (Option.some.inj this).symm
  · cases this

theorem Inv.holder_inside (h : s.Inv) (ht : t ∈ s.registered)
    (hh : s.holder = some t ∨ s.holder = none) {p : RunPoint} (hp : p.Inside) (u : TaskId) :
    some t = some u ↔ u ∈ s.registered ∧ (Function.update s.point t p u).Inside := by
  by_cases hu : u = t
  · subst hu
    rw [Function.update_self]
    exact iff_of_true rfl ⟨ht, hp⟩
  · rw [Function.update_of_ne hu]
    refine iff_of_false (fun he => hu (Option.some.inj he).symm) ?_
    rintro ⟨hm, hin⟩
    exact h.not_inside hh hu hm hin

theorem Inv.holder_outside (h : s.Inv) (hh : s.holder = some t ∨ s.holder = none) {p : RunPoint}
    (hp : ¬ p.Inside) (u : TaskId) :
    (none : Option TaskId) = some u ↔
      u ∈ s.registered ∧ (Function.update s.point t p u).Inside := by
  refine iff_of_false nofun ?_
  rintro ⟨hm, hin⟩
  by_cases hu : u = t
  · subst hu
    rw [Function.update_self] at hin
    exact hp hin
  · rw [Function.update_of_ne hu] at hin
    exact h.not_inside hh hu hm hin

theorem perm_erase (ht : t ∈ s.registered) :
    (s.registered.map s.task).Perm (s.task t :: (s.registered.erase t).map s.task) :=
  (List.perm_cons_erase ht).map s.task

theorem Inv.summary_cons (h : s.Inv) (ht : t ∈ s.registered) :
    s.summary = Counters.tally (s.task t :: (s.registered.erase t).map s.task) := by
  rw [h.summary]
  exact Counters.tally_perm (perm_erase ht)

theorem Inv.map_update (h : s.Inv) (ht : t ∈ s.registered) (e : TaskEntry) :
    Counters.tally (s.registered.map (Function.update s.task t e)) =
      Counters.tally (e :: (s.registered.erase t).map s.task) := by
  refine (Counters.tally_perm ((List.perm_cons_erase ht).map _)).trans ?_
  rw [List.map_cons, Function.update_self]
  refine congrArg (fun l => Counters.tally (e :: l)) (List.map_congr_left fun u hu => ?_)
  rw [Function.update_of_ne]
  rintro rfl
  exact h.nodup.not_mem_erase hu

theorem Inv.onList (h : s.Inv) (ht : t ∈ s.registered)
    (hn : (s.task t).state ≠ .idle ∨ s.point t = .scheduling) : (s.task t).onList = false := by
  by_contra hl
  obtain ⟨hi, hp⟩ := (h.tasks t ht).listed (by simpa using hl)
  rcases hn with hn | hn
  · exact hn hi
  · exact hp hn

theorem TaskSound.of_not_idle (hl : (s.task t).onList = false) (hs : (s.task t).state ≠ .idle)
    (hp : s.point t = .leaving → (s.task t).state = .terminated) : s.TaskSound t := by
  refine ⟨fun h => ?_, hp, fun _ => hs, fun h => absurd h hs, fun h => absurd h hs,
    fun h => absurd h hs⟩
  rw [hl] at h
  cases h

/-! ### A step on one task -/

def put (s : Books) (t : TaskId) (x : IdleTasksManager) (e : TaskEntry) (p : RunPoint)
    (q : Option TaskId) : Books :=
  { s with
    summary := Counters.tally (e :: (s.registered.erase t).map s.task)
    idleTasks := x
    task := Function.update s.task t e
    point := Function.update s.point t p
    holder := q }

variable {x : IdleTasksManager} {p : RunPoint} {q : Option TaskId}

@[simp] theorem put_task : (s.put t x e p q).task t = e := Function.update_self ..

@[simp] theorem put_point : (s.put t x e p q).point t = p := Function.update_self ..

theorem Inv.put (h : s.Inv) (ht : t ∈ s.registered)
    (hholder : ∀ u, q = some u ↔ u ∈ s.registered ∧ (Function.update s.point t p u).Inside)
    (hidle : x.Valid s.registered (Function.update s.task t e))
    (hcreated : s.idleTasks.created ≤ x.created)
    (hfree : ∀ c ∈ x.freeCv, c ∈ s.idleTasks.freeCv ∨ s.Holds t ∧ c = (s.task t).condition)
    (hself : (s.put t x e p q).TaskSound t)
    (hapart : e.state = .idle → s.monitoringIndex t = none →
      ∀ u, u ≠ t → s.Holds u → (s.task u).condition ≠ e.condition) :
    (s.put t x e p q).Inv := by
  refine h.set (t := t) rfl rfl rfl (fun u hu => Function.update_of_ne hu _ _)
    (fun u hu => Function.update_of_ne hu _ _) (h.map_update ht e).symm hholder hidle hcreated
    hfree hself ?_
  rintro ⟨-, hi, hm⟩ u hu hhold
  rw [put_task] at hi ⊢
  exact hapart hi hm u hu hhold

theorem Inv.put_of_not_idle (h : s.Inv) (ht : t ∈ s.registered)
    (hholder : ∀ u, q = some u ↔ u ∈ s.registered ∧ (Function.update s.point t p u).Inside)
    (hidle : x.Valid s.registered (Function.update s.task t e))
    (hcreated : s.idleTasks.created ≤ x.created)
    (hfree : ∀ c ∈ x.freeCv, c ∈ s.idleTasks.freeCv ∨ s.Holds t ∧ c = (s.task t).condition)
    (hl : e.onList = false) (hs : e.state ≠ .idle) (hp : p = .leaving → e.state = .terminated) :
    (s.put t x e p q).Inv := by
  refine h.put ht hholder hidle hcreated hfree ?_ fun hi => absurd hi hs
  refine TaskSound.of_not_idle ?_ ?_ ?_
  · rwa [put_task]
  · rwa [put_task]
  · rwa [put_task, put_point]

theorem Inv.put_state (h : s.Inv) (ht : t ∈ s.registered) (hk : e.kind = (s.task t).kind)
    (hl : e.onList = false) (hl' : (s.task t).onList = false) (hs : e.state ≠ .idle)
    (hp : p = .leaving → e.state = .terminated)
    (hholder : ∀ u, q = some u ↔ u ∈ s.registered ∧ (Function.update s.point t p u).Inside) :
    (s.put t s.idleTasks e p q).Inv :=
  h.put_of_not_idle ht hholder (h.idleTasks.set hk (hl.trans hl'.symm)) le_rfl
    (fun _ hc => Or.inl hc) hl hs hp

theorem Inv.put_self (h : s.Inv) (ht : t ∈ s.registered)
    (hp : p = .leaving → (s.task t).state = .terminated)
    (hi : (s.task t).state = .idle → p ≠ .scheduling ∧ s.point t ≠ .scheduling)
    (hholder : ∀ u, q = some u ↔ u ∈ s.registered ∧ (Function.update s.point t p u).Inside) :
    { s with point := Function.update s.point t p, holder := q : Books }.Inv := by
  have heq : { s with point := Function.update s.point t p, holder := q : Books } =
      s.put t s.idleTasks (s.task t) p q := by
    rw [Books.put, ← h.summary_cons ht, Function.update_eq_self]
  rw [heq]
  refine h.put ht hholder (h.idleTasks.set rfl rfl) le_rfl (fun _ hc => Or.inl hc) ?_
    fun hidle hm u hu hhold hcond => hu (h.apart u t hhold ⟨ht, hidle, hm⟩ hcond)
  obtain ⟨h1, -, h3, h4, h5, h6⟩ := h.tasks t ht
  refine ⟨?_, ?_, ?_, ?_, ?_, ?_⟩ <;> simp only [put_task, put_point]
  · exact fun hl => ⟨(h1 hl).1, (hi (h1 hl).1).1⟩
  · exact hp
  · exact h3
  · exact h4
  · exact h5
  · exact fun hidle _ hm => h6 hidle (hi hidle).2 hm

/-! ### Schedule_Task -/

theorem insertIdleTask_ok (hl : e.onList = false) (x : IdleTasksManager) :
    x.insertIdleTask t e = .ok
      (x.allocateCv.1,
        { x.allocateCv.2 with
          idleTaskLists := Function.update x.allocateCv.2.idleTaskLists e.kind
            (t :: x.allocateCv.2.idleTaskLists e.kind) },
        { e with onList := true }) := by
  unfold IdleTasksManager.insertIdleTask
  simp only [IdleTasksManager.listAttach_ok hl]
  rfl

theorem Inv.goIdle (h : s.Inv) (ht : t ∈ s.registered) (hp : s.point t = .scheduling)
    (hctl : s.controller ≠ .noTasking) (hm : s.monitoringIndex t = none)
    (hk : e.kind = (s.task t).kind) (hl : e.onList = false) :
    ∃ s', s.goIdle t (Counters.tally (e :: (s.registered.erase t).map s.task)) e = .ok s' ∧
      s'.Inv := by
  have hh : s.holder = some t := (h.holder t).mpr ⟨ht, by rw [hp]; decide⟩
  have hlist := h.onList ht (Or.inr hp)
  obtain ⟨hv, hcv, hle, hsub, hnot, hnew⟩ := h.idleTasks.allocateCv
  have hattach : IdleTasksManager.Valid _ s.registered (Function.update s.task t
      { e with onList := true, state := .idle, condition := s.idleTasks.allocateCv.1 }) :=
    hv.listAttach ht hlist hk rfl
  refine ⟨s.put t _ _ .dispatching (some t), ?_, h.put ht
    (h.holder_inside ht (Or.inl hh) (by decide)) hattach hle (fun c hc => Or.inl (hsub c hc)) ?_ ?_⟩
  · have hcongr : Counters.tally (e :: (s.registered.erase t).map s.task) =
        Counters.tally ({ e with onList := true } :: (s.registered.erase t).map s.task) :=
      Counters.tally_congr rfl rfl
    rw [Books.goIdle, insertIdleTask_ok hl, Checked.bind_ok, hcongr]
    simp only [Counters.setStateIdle_tally, Checked.bind_ok]
    rw [← hh]
    rfl
  · refine ⟨?_, ?_, ?_, ?_, ?_, ?_⟩ <;> simp only [put_task, put_point]
    · exact fun _ => ⟨trivial, by decide⟩
    · exact nofun
    · exact fun hc => absurd hc hctl
    · intro _ j hj
      cases hm.symm.trans hj
    · exact fun _ _ => hcv
    · exact fun _ _ _ => hnot
  · rintro - - u hu ⟨hur, hui, hum⟩ hcond
    have hus := h.tasks u hur
    have hpu : s.point u ≠ .scheduling := by
      intro hpu
      have := (h.holder u).mpr ⟨hur, by rw [hpu]; decide⟩
      exact hu (Option.some.inj (this.symm.trans hh))
    rcases hnew with hnew | hnew
    · exact hus.kept hui hpu hum (hcond ▸ hnew)
    · obtain ⟨n, hn, hn'⟩ := hus.allotted hui hum
      rw [hcond, hnew] at hn'
      have := ConditionVariable.idle.inj (Option.some.inj hn')
      omega

theorem Inv.block (h : s.Inv) (ht : t ∈ s.registered) (hp : s.point t = .scheduling)
    (hk : e.kind = (s.task t).kind) (hl : e.onList = false) (monitor : MonitorId) :
    ∃ s', s.block t (Counters.tally (e :: (s.registered.erase t).map s.task)) e monitor = .ok s' ∧
      s'.Inv := by
  have hh : s.holder = some t := (h.holder t).mpr ⟨ht, by rw [hp]; decide⟩
  have hput := h.put_state (p := .dispatching) (q := some t) ht
    (e := { e with state := .blocked, selector := some monitor }) hk hl
    (h.onList ht (Or.inr hp)) nofun nofun (h.holder_inside ht (Or.inl hh) (by decide))
  refine ⟨_, ?_, hput⟩
  rw [Books.block, Counters.setStateBlocked_tally, Books.put, ← hh]
  rfl

theorem monitoringIndex_of_ne (hc : s.controller ≠ .halfSyncHalfAsync) :
    s.monitoringIndex t = none := if_neg hc

theorem Inv.halfSyncHalfAsyncSchedule (h : s.Inv) (ht : t ∈ s.registered)
    (hp : s.point t = .scheduling) (hc : s.controller = .halfSyncHalfAsync)
    (hk : e.kind = (s.task t).kind) (hl : e.onList = false) (offer : Offer) :
    ∃ s', s.halfSyncHalfAsyncSchedule t offer
      (Counters.tally (e :: (s.registered.erase t).map s.task)) e = .ok s' ∧ s'.Inv := by
  have hh : s.holder = some t := (h.holder t).mpr ⟨ht, by rw [hp]; decide⟩
  have hlist := h.onList ht (Or.inr hp)
  have hindex : s.monitoringIndex t = s.aemIndexOfTask t := if_pos hc
  unfold Books.halfSyncHalfAsyncSchedule
  split
  · rename_i hm
    exact h.goIdle ht hp (by rw [hc]; decide) (hindex.trans hm) hk hl
  · rename_i monitor hm hmonitor
    exact h.block ht hp hk hl monitor
  · rename_i j hm hmonitor
    have hput : (s.put t s.idleTasks { e with state := .idle, condition := some (.monitoring j) }
        .dispatching (some t)).Inv := by
      refine h.put ht (h.holder_inside ht (Or.inl hh) (by decide))
        (h.idleTasks.set hk (hl.trans hlist.symm)) le_rfl (fun _ hcv => Or.inl hcv) ?_ ?_
      · refine ⟨?_, ?_, ?_, ?_, ?_, ?_⟩ <;> simp only [put_task, put_point]
        · rw [hl]
          nofun
        · exact nofun
        · intro hn
          cases hc.symm.trans hn
        · intro _ i hi
          have hij : some j = some i := (hindex.trans hm).symm.trans hi
          rw [Option.some.inj hij]
          exact ⟨rfl, hl⟩
        · intro _ hn
          cases (hindex.trans hm).symm.trans hn
        · intro _ _ hn
          cases (hindex.trans hm).symm.trans hn
      · intro _ hn
        cases (hindex.trans hm).symm.trans hn
    refine ⟨_, ?_, hput⟩
    rw [Counters.setStateIdle_tally, Books.put, ← hh]
    rfl

theorem Inv.withoutJob (h : s.Inv) (ht : t ∈ s.registered) (hp : s.point t = .scheduling)
    (hk : e.kind = (s.task t).kind) (hl : e.onList = false) (hs : e.state = .unscheduled)
    (offer : Offer) :
    ∃ s', s.withoutJob t offer (Counters.tally (e :: (s.registered.erase t).map s.task)) e =
      .ok s' ∧ s'.Inv := by
  have hworkers : ∀ c, s.controller = c → c ≠ .noTasking → c ≠ .halfSyncHalfAsync →
      ∃ s', s.workersSchedule t offer
        (Counters.tally (e :: (s.registered.erase t).map s.task)) e = .ok s' ∧ s'.Inv := by
    intro c hc hnt hhsha
    unfold workersSchedule
    split
    · rename_i monitor hmonitor
      exact h.block ht hp hk hl monitor
    · exact h.goIdle ht hp (hc ▸ hnt) (monitoringIndex_of_ne (hc ▸ hhsha)) hk hl
  unfold Books.withoutJob
  split
  · unfold noTaskingSchedule
    split
    · rename_i monitor hmonitor
      exact h.block ht hp hk hl monitor
    · have hh : s.holder = some t := (h.holder t).mpr ⟨ht, by rw [hp]; decide⟩
      have hput := h.put_state (p := .raising) (q := some t) ht hk hl
        (h.onList ht (Or.inr hp)) (by rw [hs]; decide) nofun
        (h.holder_inside ht (Or.inl hh) (by decide))
      refine ⟨_, rfl, ?_⟩
      rw [Books.put, ← hh] at hput
      exact hput
  · rename_i hc
    exact hworkers _ hc (by decide) (by decide)
  · rename_i hc
    exact hworkers _ hc (by decide) (by decide)
  · rename_i hc
    exact h.halfSyncHalfAsyncSchedule ht hp hc hk hl offer

theorem Inv.scheduleTask (h : s.Inv) (ht : t ∈ s.registered) (hp : s.point t = .scheduling)
    (offer : Offer) : ∃ s', s.scheduleTask t offer = .ok s' ∧ s'.Inv := by
  have hh : s.holder = some t := (h.holder t).mpr ⟨ht, by rw [hp]; decide⟩
  have hlist := h.onList ht (Or.inr hp)
  unfold Books.scheduleTask
  split
  · rename_i hs
    have hput := h.put_self (p := .dispatching) (q := s.holder) ht nofun
      (fun hi => by rw [hs] at hi; cases hi)
      (hh ▸ h.holder_inside ht (Or.inl hh) (by decide))
    exact ⟨_, rfl, hput⟩
  · rw [h.summary_cons ht, Counters.setStateUnscheduled_tally]
    simp only [Checked.bind_ok]
    split
    · have hput := h.put_state (p := .dispatching) (q := some t) ht
        (e := { s.task t with
          state := .terminated, job := none, selector := none, condition := none })
        rfl hlist hlist nofun nofun (h.holder_inside ht (Or.inl hh) (by decide))
      refine ⟨_, ?_, hput⟩
      rw [Counters.setStateTerminated, Counters.taskStateChange_tally, Books.put, ← hh]
      rfl
    · split
      · rename_i job hjob
        have hput := h.put_state (p := .dispatching) (q := some t) ht
          (e := { s.task t with
            state := .running, job := some job, selector := none, condition := none })
          rfl hlist hlist nofun nofun (h.holder_inside ht (Or.inl hh) (by decide))
        refine ⟨_, ?_, hput⟩
        rw [Counters.setStateRunning_tally, Books.put, ← hh]
        rfl
      · exact h.withoutJob (e := { s.task t with
          state := .unscheduled, job := none, selector := none, condition := none })
          ht hp rfl hlist rfl offer

/-! ### Idle_Awake and Terminate_Task -/

theorem Inv.removeIdleTask (h : s.Inv) (ht : t ∈ s.registered) (hi : (s.task t).state = .idle)
    (hp : s.point t ≠ .scheduling) (hm : s.monitoringIndex t = none) :
    (s.idleTasks.removeIdleTask t (s.task t)).1.Valid s.registered
        (Function.update s.task t { s.task t with onList := false }) ∧
      s.idleTasks.created ≤ (s.idleTasks.removeIdleTask t (s.task t)).1.created ∧
      ∀ c ∈ (s.idleTasks.removeIdleTask t (s.task t)).1.freeCv,
        c ∈ s.idleTasks.freeCv ∨ s.Holds t ∧ c = (s.task t).condition := by
  have hs := h.tasks t ht
  refine ⟨h.idleTasks.removeIdleTask (hs.kept hi hp hm) (hs.allotted hi hm), ?_, ?_⟩
  · show _ ≤ (s.idleTasks.listDetach t (s.task t)).1.created
    rw [IdleTasksManager.listDetach_created]
  · intro c hc
    have hc' : c ∈ (s.idleTasks.listDetach t (s.task t)).1.freeCv ++
        [(s.idleTasks.listDetach t (s.task t)).2.condition] := hc
    rw [IdleTasksManager.listDetach_freeCv, IdleTasksManager.listDetach_task] at hc'
    rcases List.mem_append.mp hc' with hc' | hc'
    · exact Or.inl hc'
    · exact Or.inr ⟨⟨ht, hi, hm⟩, List.mem_singleton.mp hc'⟩

theorem TaskSound.detach (hs : s.TaskSound t) (hcreated : s.idleTasks.created ≤ x.created)
    (hp : p = .leaving → (s.task t).state = .terminated)
    (hkept : p ≠ .scheduling → (s.task t).state = .idle → s.monitoringIndex t = none →
      (s.task t).condition ∉ x.freeCv) :
    (s.put t x { s.task t with onList := false } p q).TaskSound t := by
  refine ⟨?_, ?_, ?_, ?_, ?_, ?_⟩ <;> simp only [put_task, put_point]
  · exact nofun
  · exact hp
  · exact hs.noTasking
  · exact fun hi j hj => ⟨(hs.monitoring hi j hj).1, trivial⟩
  · intro hi hm
    obtain ⟨n, hn, hcond⟩ := hs.allotted hi hm
    exact ⟨n, hn.trans_le hcreated, hcond⟩
  · exact fun hi hne hm => hkept hne hi hm

theorem Inv.idleAwake (h : s.Inv) (ht : t ∈ s.registered) (hi : (s.task t).state = .idle)
    (hp : s.point t ≠ .scheduling) :
    ∃ x, s.idleAwake t = .ok (s.manage t x { s.task t with onList := false }) ∧
      x.Valid s.registered (Function.update s.task t { s.task t with onList := false }) ∧
      s.idleTasks.created ≤ x.created ∧
      ∀ c ∈ x.freeCv, c ∈ s.idleTasks.freeCv ∨ s.Holds t ∧ c = (s.task t).condition := by
  have hs := h.tasks t ht
  have hremove : s.removeIdleTask t = s.manage t (s.idleTasks.removeIdleTask t (s.task t)).1
      { s.task t with onList := false } := by
    rw [← IdleTasksManager.listDetach_task (x := s.idleTasks) (t := t)]
    rfl
  unfold Books.idleAwake
  split
  · rename_i hc
    exact absurd hi (hs.noTasking hc)
  · rename_i hc
    exact ⟨_, congrArg Except.ok hremove,
      h.removeIdleTask ht hi hp (monitoringIndex_of_ne (by rw [hc]; decide))⟩
  · rename_i hc
    exact ⟨_, congrArg Except.ok hremove,
      h.removeIdleTask ht hi hp (monitoringIndex_of_ne (by rw [hc]; decide))⟩
  · rename_i hc
    have hindex : s.monitoringIndex t = s.aemIndexOfTask t := if_pos hc
    split
    · rename_i hm
      exact ⟨_, congrArg Except.ok hremove, h.removeIdleTask ht hi hp (hindex.trans hm)⟩
    · rename_i hm
      obtain ⟨j, hj⟩ := Option.ne_none_iff_exists'.mp hm
      have hl := (hs.monitoring hi j (hindex.trans hj)).2
      have heq : ({ s.task t with onList := false } : TaskEntry) = s.task t := by
        rw [← hl]
      rw [heq, Function.update_eq_self]
      refine ⟨s.idleTasks, ?_, h.idleTasks, le_rfl, fun _ hc => Or.inl hc⟩
      rw [manage, Function.update_eq_self]

theorem Inv.terminateTask (h : s.Inv) (ht : t ∈ s.registered) (hn : ¬ s.Notified t) :
    ∃ x, ∃ e : TaskEntry,
      s.terminateTask t =
        .ok { s with
          summary := Counters.tally (e :: (s.registered.erase t).map s.task)
          idleTasks := x
          task := Function.update s.task t e } ∧
      ∀ p q,
        (∀ u, q = some u ↔ u ∈ s.registered ∧ (Function.update s.point t p u).Inside) →
        (s.put t x e p q).Inv := by
  have hset : ∀ e, (Counters.tally (e :: (s.registered.erase t).map s.task)).setStateTerminated
      e = .ok (_, _) := fun e => Counters.taskStateChange_tally .terminated
  unfold Books.terminateTask
  split
  · rename_i hi
    obtain ⟨x, hok, hv, hcreated, hfree⟩ := h.idleAwake ht hi fun hp => hn ⟨hi, hp⟩
    have hcons : s.summary = Counters.tally
        ({ s.task t with onList := false } :: (s.registered.erase t).map s.task) :=
      (h.summary_cons ht).trans (Counters.tally_congr rfl rfl)
    refine ⟨x, { s.task t with onList := false, state := .terminated }, ?_, ?_⟩
    · rw [hok, Checked.bind_ok]
      simp only [manage, Function.update_self]
      rw [hcons, hset, Checked.bind_ok]
      simp only [record, Function.update_idem]
      rfl
    · intro p q hholder
      refine h.put_of_not_idle ht hholder ?_ hcreated hfree rfl nofun fun _ => rfl
      rw [← Function.update_idem (v := { s.task t with onList := false })]
      exact hv.set (by rw [Function.update_self]) (by rw [Function.update_self])
  · rename_i hi
    have hl := h.onList ht (Or.inl hi)
    refine ⟨s.idleTasks, { s.task t with state := .terminated }, ?_, ?_⟩
    · simp only [Checked.pure_eq, Checked.bind_ok]
      rw [h.summary_cons ht, hset]
      rfl
    · exact fun p q hholder => h.put_state ht rfl hl hl nofun (fun _ => rfl) hholder

theorem Inv.abort (h : s.Inv) (ht : t ∈ s.registered) (hn : ¬ s.Notified t)
    (hh : s.holder = some t ∨ s.holder = none) : ∃ s', s.abort t = .ok s' ∧ s'.Inv := by
  obtain ⟨x, e, hok, hput⟩ := h.terminateTask ht hn
  refine ⟨_, ?_, hput .leaving (some t) (h.holder_inside ht hh (by decide))⟩
  rw [Books.abort, hok]
  rfl

theorem Inv.complete (h : s.Inv) (ht : t ∈ s.registered) (hp : s.point t = .back) :
    ∃ s', s.complete t = .ok s' ∧ s'.Inv := by
  have hh : s.holder = some t := (h.holder t).mpr ⟨ht, by rw [hp]; decide⟩
  have hinside := h.holder_inside ht (Or.inl hh) (p := .scheduling) (by decide)
  have hs := h.tasks t ht
  unfold Books.complete
  split
  · rename_i hi
    obtain ⟨x, hok, hv, hcreated, hfree⟩ := h.idleAwake ht hi (by rw [hp]; decide)
    have hput : (s.put t x { s.task t with onList := false } .scheduling (some t)).Inv := by
      refine h.put ht hinside hv hcreated hfree ?_
        fun _ hm u hu hhold hcond => hu (h.apart u t hhold ⟨ht, hi, hm⟩ hcond)
      exact hs.detach hcreated nofun fun hne => absurd rfl hne
    have hcons : s.summary = Counters.tally
        ({ s.task t with onList := false } :: (s.registered.erase t).map s.task) :=
      (h.summary_cons ht).trans (Counters.tally_congr rfl rfl)
    refine ⟨_, ?_, hput⟩
    rw [hok, Books.put, ← hh, ← hcons]
    rfl
  · rename_i hi
    have hput := h.put_self (p := .scheduling) (q := s.holder) ht nofun
      (fun hi' => absurd hi' hi) (by rw [hh]; exact hinside)
    exact ⟨_, rfl, hput⟩

/-! ### The main loop -/

theorem Inv.leaveSection (h : s.Inv) (ht : t ∈ s.registered) (hp : s.point t = .dispatching) :
    (s.leaveSection t).Inv := by
  have hh : s.holder = some t := (h.holder t).mpr ⟨ht, by rw [hp]; decide⟩
  exact h.put_self (p := .away) (q := none) ht nofun
    (fun _ => ⟨by decide, by rw [hp]; decide⟩) (h.holder_outside (Or.inl hh) (by decide))

theorem Inv.idle (h : s.Inv) (ht : t ∈ s.registered) (hp : s.point t = .dispatching) :
    ∃ s', s.idle t = .ok s' ∧ s'.Inv := by
  have hh : s.holder = some t := (h.holder t).mpr ⟨ht, by rw [hp]; decide⟩
  unfold Books.idle
  split
  · exact ⟨_, rfl, h.leaveSection ht hp⟩
  · split
    · obtain ⟨x, e, hok, hput⟩ := h.terminateTask ht fun hn => by cases hp.symm.trans hn.2
      refine ⟨_, ?_, hput .scheduling (some t) (h.holder_inside ht (Or.inl hh) (by decide))⟩
      rw [hok, Books.put, ← hh]
      rfl
    · exact ⟨_, rfl, h.leaveSection ht hp⟩

theorem Inv.dispatch (h : s.Inv) (ht : t ∈ s.registered) (hp : s.point t = .dispatching) :
    ∃ s', s.dispatch t = .ok s' ∧ s'.Inv := by
  have hh : s.holder = some t := (h.holder t).mpr ⟨ht, by rw [hp]; decide⟩
  have hmove : ∀ p : RunPoint, p.Inside → (s.task t).state ≠ .idle →
      (p = .leaving → (s.task t).state = .terminated) → (s.move t p).Inv := by
    intro p hin hi hleaving
    refine h.put_self ht hleaving (fun hi' => absurd hi' hi) ?_
    rw [hh]
    exact h.holder_inside ht (Or.inl hh) hin
  unfold Books.dispatch
  split
  · exact ⟨_, rfl, h.leaveSection ht hp⟩
  · exact ⟨_, rfl, h.leaveSection ht hp⟩
  · exact h.idle ht hp
  · rename_i hs
    exact ⟨_, rfl, hmove .leaving (by decide) (by rw [hs]; decide) fun _ => hs⟩
  · rename_i hs
    exact ⟨_, rfl, hmove .raising (by decide) (by rw [hs]; decide) nofun⟩

theorem Inv.enter (h : s.Inv) (ht : t ∈ s.registered) (hp : s.point t = .away)
    (hh : s.holder = none) : (s.enter t).Inv :=
  h.put_self (p := .back) (q := some t) ht nofun (fun _ => ⟨by decide, by rw [hp]; decide⟩)
    (h.holder_inside ht (Or.inr hh) (by decide))

/-! ### Awakening -/

theorem TaskSound.condition_ne (hs : s.TaskSound t) (hi : (s.task t).state = .idle) :
    (s.task t).condition ≠ none := by
  rcases hm : s.monitoringIndex t with _ | j
  · obtain ⟨n, -, hcond⟩ := hs.allotted hi hm
    rw [hcond]
    nofun
  · rw [(hs.monitoring hi j hm).1]
    nofun

theorem Inv.awakeIdleTask (h : s.Inv) (ht : t ∈ s.registered) (hi : (s.task t).state = .idle) :
    ∃ s', s.awakeIdleTask t = .ok s' ∧ s'.Inv := by
  have hs := h.tasks t ht
  have hput : (s.put t (s.idleTasks.listDetach t (s.task t)).1 { s.task t with onList := false }
      (s.point t) s.holder).Inv := by
    refine h.put ht (fun u => ?_) h.idleTasks.listDetach
      (le_of_eq IdleTasksManager.listDetach_created.symm) (fun c hc => Or.inl ?_)
      (hs.detach (le_of_eq IdleTasksManager.listDetach_created.symm) hs.leaving ?_)
      fun _ hm u hu hhold hcond => hu (h.apart u t hhold ⟨ht, hi, hm⟩ hcond)
    · rw [Function.update_eq_self]
      exact h.holder u
    · rwa [IdleTasksManager.listDetach_freeCv] at hc
    · rw [IdleTasksManager.listDetach_freeCv]
      exact fun hp hi hm => hs.kept hi hp hm
  have hcons : s.summary = Counters.tally
      ({ s.task t with onList := false } :: (s.registered.erase t).map s.task) :=
    (h.summary_cons ht).trans (Counters.tally_congr rfl rfl)
  refine ⟨_, ?_, hput⟩
  rw [Books.awakeIdleTask, IdleTasksManager.awakeIdleTask, if_neg (hs.condition_ne hi), Books.put,
    ← hcons, Function.update_eq_self,
    ← IdleTasksManager.listDetach_task (x := s.idleTasks) (t := t)]
  rfl

theorem Inv.idle_of_listed (h : s.Inv) {k : TaskKind} (ht : t ∈ s.idleTasks.idleTaskLists k) :
    t ∈ s.registered ∧ (s.task t).kind = k ∧ (s.task t).state = .idle := by
  obtain ⟨hr, hk, hl⟩ := (h.idleTasks.listed k t).mp ht
  exact ⟨hr, hk, ((h.tasks t hr).listed hl).1⟩

theorem Inv.awakeOneIdleTask (h : s.Inv) (allowTransient : Bool) :
    ∃ s', s.awakeOneIdleTask allowTransient = .ok s' ∧ s'.Inv := by
  unfold Books.awakeOneIdleTask
  split
  · rename_i t ts us hp
    obtain ⟨hr, -, hi⟩ := h.idle_of_listed (hp ▸ List.mem_cons_self)
    exact h.awakeIdleTask hr hi
  · rename_i t us hp htr
    split
    · obtain ⟨hr, -, hi⟩ := h.idle_of_listed (htr ▸ List.mem_cons_self)
      exact h.awakeIdleTask hr hi
    · exact ⟨s, rfl, h⟩
  · exact ⟨s, rfl, h⟩

theorem Inv.awakeKind (kind : TaskKind) (n : Nat) :
    ∀ {s : Books}, s.Inv → ∃ s', awakeKind kind n s = .ok s' ∧ s'.Inv := by
  induction n with
  | zero => exact fun h => ⟨_, rfl, h⟩
  | succ n ih =>
    intro s h
    unfold Books.awakeKind
    split
    · exact ⟨s, rfl, h⟩
    · rename_i t ts hlist
      obtain ⟨hr, -, hi⟩ := h.idle_of_listed (hlist ▸ List.mem_cons_self)
      obtain ⟨s', hok, h'⟩ := h.awakeIdleTask hr hi
      rw [hok]
      exact ih h'

theorem Inv.awakeAllIdleTasks (h : s.Inv) : ∃ s', s.awakeAllIdleTasks = .ok s' ∧ s'.Inv := by
  obtain ⟨s', hok, h'⟩ := Inv.awakeKind .permanent _ h
  unfold Books.awakeAllIdleTasks
  rw [hok]
  exact Inv.awakeKind .transient _ h'

theorem Inv.tryAllocateOneTask (h : s.Inv) (allowTransient : Bool) :
    ∃ s', s.tryAllocateOneTask allowTransient = .ok s' ∧ s'.Inv := by
  unfold Books.tryAllocateOneTask
  extract_lets requestedKind
  split
  · exact ⟨s, rfl, h⟩
  · split
    · exact h.awakeOneIdleTask allowTransient
    · exact ⟨s, rfl, h⟩

theorem Inv.requestResultReady (h : s.Inv) (ht : t ∈ s.registered) :
    (∃ s', s.requestResultReady t = .ok s' ∧ s'.Inv) ∨
      s.requestResultReady t = .error .programError ∧
        ((s.task t).state = .terminated ∨ (s.task t).state = .unscheduled) := by
  unfold Books.requestResultReady
  split
  · exact Or.inl ⟨s, rfl, h⟩
  · unfold rescheduleTask
    split
    · exact Or.inl ⟨s, rfl, h⟩
    · exact Or.inl ⟨s, rfl, h⟩
    · rename_i hi
      exact Or.inl (h.awakeIdleTask ht hi)
    · rename_i hi
      exact Or.inr ⟨rfl, Or.inl hi⟩
    · rename_i hi
      exact Or.inr ⟨rfl, Or.inr hi⟩

/-! ### Registration -/

theorem Inv.monitor (h : s.Inv) {a : AemIndex → Option TaskId}
    (ha : ∀ u ∈ s.registered, (s.task u).state = .idle →
      { s with aemTask := a : Books }.monitoringIndex u = s.monitoringIndex u) :
    { s with aemTask := a : Books }.Inv := by
  have hholds : ∀ u, { s with aemTask := a : Books }.Holds u → s.Holds u :=
    fun u ⟨h1, h2, h3⟩ => ⟨h1, h2, (ha u h1 h2).symm.trans h3⟩
  refine ⟨h.nodup, h.summary, h.holder, h.idleTasks, fun u hu => ?_,
    fun t u ht hu => h.apart t u (hholds t ht) (hholds u hu)⟩
  obtain ⟨h1, h2, h3, h4, h5, h6⟩ := h.tasks u hu
  refine ⟨h1, h2, h3, fun hi => ?_, fun hi => ?_, fun hi => ?_⟩
  · rw [ha u hu hi]
    exact h4 hi
  · rw [ha u hu hi]
    exact h5 hi
  · rw [ha u hu hi]
    exact h6 hi

theorem Inv.taskRegistered (h : s.Inv) (ht : t ∈ s.registered)
    (hi : (s.task t).state = .unscheduled) (hp : s.point t = .scheduling) :
    (s.taskRegistered t).Inv := by
  have hh : s.holder = some t := (h.holder t).mpr ⟨ht, by rw [hp]; decide⟩
  have hl := h.onList ht (Or.inr hp)
  unfold Books.taskRegistered
  split
  · exact h
  · rename_i j hj
    have hj' : s.aemTask j = none := by simpa using List.find?_some hj
    split
    · have hmon := h.monitor (a := fun i => if s.aemTask i = none then some t else s.aemTask i) (by
        intro u hu hui
        refine monitoringIndex_congr rfl fun i => ?_
        have hne : t ≠ u := by
          rintro rfl
          rw [hi] at hui
          cases hui
        show (if s.aemTask i = none then some t else s.aemTask i) = some u ↔ _
        split
        · rename_i hn
          simp [hn, hne]
        · exact Iff.rfl)
      have hput := hmon.put_state (t := t) (e := { s.task t with mayExit := false })
        (p := .scheduling) (q := s.holder) ht rfl hl hl (by rw [hi]; decide) nofun
        (by rw [hh]; exact hmon.holder_inside ht (Or.inl hh) (by decide))
      have hcons : s.summary = Counters.tally
          ({ s.task t with mayExit := false } :: (s.registered.erase t).map s.task) :=
        (h.summary_cons ht).trans (Counters.tally_congr rfl rfl)
      rw [Books.put, ← hcons, ← hp, Function.update_eq_self] at hput
      exact hput
    · have hmon := h.monitor (a := Function.update s.aemTask j (some t)) (by
        intro u hu hui
        refine monitoringIndex_congr rfl fun i => ?_
        have hne : t ≠ u := by
          rintro rfl
          rw [hi] at hui
          cases hui
        show Function.update s.aemTask j (some t) i = some u ↔ _
        by_cases hij : i = j
        · subst hij
          simp [hj', hne]
        · rw [Function.update_of_ne hij])
      have hput := hmon.put_self (t := t) (p := .lost) (q := none) ht nofun
        (fun hi' => by cases hi.symm.trans hi') (hmon.holder_outside (Or.inl hh) (by decide))
      exact hput

theorem Inv.registerTask (h : s.Inv) (ht : t ∉ s.registered) (hh : s.holder = none)
    (kind : TaskKind) (mayExit : Bool) : ∃ s', s.registerTask t kind mayExit = .ok s' ∧ s'.Inv := by
  let e : TaskEntry :=
    { kind := kind
      state := .unscheduled
      mayExit := mayExit
      job := none
      selector := none
      condition := none
      onList := false }
  obtain ⟨s₁, hs₁⟩ : ∃ s₁ : Books, s₁ = { s with
      summary := Counters.tally (e :: s.registered.map s.task)
      task := Function.update s.task t e
      point := Function.update s.point t .scheduling
      registered := t :: s.registered
      holder := some t } := ⟨_, rfl⟩
  have htask : ∀ u ∈ s.registered, s₁.task u = s.task u ∧ s₁.point u = s.point u := by
    intro u hu
    have hne : u ≠ t := fun he => ht (he ▸ hu)
    rw [hs₁]
    exact ⟨Function.update_of_ne hne _ _, Function.update_of_ne hne _ _⟩
  have hself : s₁.task t = e ∧ s₁.point t = .scheduling := by
    rw [hs₁]
    exact ⟨Function.update_self .., Function.update_self ..⟩
  have hreg : s₁.registered = t :: s.registered := by rw [hs₁]
  have hindex : ∀ u, s₁.monitoringIndex u = s.monitoringIndex u :=
    fun u => monitoringIndex_congr (by rw [hs₁]) fun j => by rw [hs₁]
  have hholds : ∀ u, s₁.Holds u → s.Holds u ∧ (s₁.task u).condition = (s.task u).condition := by
    rintro u ⟨h1, h2, h3⟩
    rw [hreg] at h1
    rcases List.mem_cons.mp h1 with rfl | h1
    · rw [hself.1] at h2
      cases h2
    · rw [(htask u h1).1] at h2 ⊢
      exact ⟨⟨h1, h2, (hindex u).symm.trans h3⟩, rfl⟩
  have h₁ : s₁.Inv := by
    refine ⟨?_, ?_, fun u => ?_, ?_, fun u hu => ?_, fun u v hu hv hcond => ?_⟩
    · rw [hreg]
      exact List.nodup_cons.mpr ⟨ht, h.nodup⟩
    · rw [hreg, List.map_cons, hself.1, List.map_congr_left fun u hu => (htask u hu).1, hs₁]
    · rw [hreg, List.mem_cons, show s₁.holder = some t by rw [hs₁]]
      constructor
      · intro he
        obtain rfl := Option.some.inj he
        rw [hself.2]
        exact ⟨Or.inl rfl, by decide⟩
      · rintro ⟨rfl | hu, hin⟩
        · rfl
        · rw [(htask u hu).2] at hin
          cases hh.symm.trans ((h.holder u).mpr ⟨hu, hin⟩)
    · rw [hs₁]
      exact h.idleTasks.register ht rfl
    · rw [hreg] at hu
      rcases List.mem_cons.mp hu with rfl | hu
      · refine TaskSound.of_not_idle ?_ ?_ ?_
        · rw [hself.1]
        · rw [hself.1]
          nofun
        · rw [hself.2]
          nofun
      · obtain ⟨h1, h2, h3, h4, h5, h6⟩ := h.tasks u hu
        obtain ⟨hti, hpi⟩ := htask u hu
        refine ⟨?_, ?_, ?_, ?_, ?_, ?_⟩ <;> simp only [hti, hpi, hindex]
        · exact h1
        · exact h2
        · rw [show s₁.controller = s.controller by rw [hs₁]]
          exact h3
        · exact h4
        · rw [show s₁.idleTasks = s.idleTasks by rw [hs₁]]
          exact h5
        · rw [show s₁.idleTasks = s.idleTasks by rw [hs₁]]
          exact h6
    · obtain ⟨hu', hcu⟩ := hholds u hu
      obtain ⟨hv', hcv⟩ := hholds v hv
      exact h.apart u v hu' hv' (hcu.symm.trans (hcond.trans hcv))
  refine ⟨if s.controller = .halfSyncHalfAsync then s₁.taskRegistered t else s₁, ?_, ?_⟩
  · rw [Books.registerTask, h.summary, Counters.taskCreated_tally rfl, hs₁]
    rfl
  · split
    · exact h₁.taskRegistered (hreg ▸ List.mem_cons_self) (by rw [hself.1]) hself.2
    · exact h₁

theorem Inv.taskUnregistered (h : s.Inv) (ht : t ∉ s.registered) : (s.taskUnregistered t).Inv := by
  unfold Books.taskUnregistered
  split
  · exact h
  · rename_i j hj
    have hj' : s.aemTask j = some t := by simpa using List.find?_some hj
    refine h.monitor fun u hu _ => monitoringIndex_congr rfl fun i => ?_
    have hne : t ≠ u := fun he => ht (he ▸ hu)
    show Function.update s.aemTask j none i = some u ↔ _
    by_cases hij : i = j
    · subst hij
      simp [hj', hne]
    · rw [Function.update_of_ne hij]

theorem Inv.unregisterTask (h : s.Inv) (ht : t ∈ s.registered) (hp : s.point t = .leaving) :
    ∃ s', s.unregisterTask t = .ok s' ∧ s'.Inv := by
  have hs := (h.tasks t ht).leaving hp
  have hl : (s.task t).onList = false := h.onList ht (Or.inl (by rw [hs]; decide))
  have hh : s.holder = some t := (h.holder t).mpr ⟨ht, by rw [hp]; decide⟩
  obtain ⟨s₁, hs₁⟩ : ∃ s₁ : Books, s₁ = { s with
      summary := Counters.tally ((s.registered.erase t).map s.task)
      registered := s.registered.erase t
      holder := none } := ⟨_, rfl⟩
  have hmem : ∀ u, u ∈ s.registered.erase t ↔ u ≠ t ∧ u ∈ s.registered :=
    fun u => h.nodup.mem_erase_iff
  have h₁ : s₁.Inv := by
    rw [hs₁]
    refine ⟨h.nodup.erase t, rfl, fun u => ?_, h.idleTasks.unregister h.nodup hl,
      fun u hu => ?_, fun u v hu hv hcond => ?_⟩
    · refine iff_of_false nofun ?_
      rintro ⟨hu, hin⟩
      obtain ⟨hne, hu⟩ := (hmem u).mp hu
      exact h.not_inside (Or.inl hh) hne hu hin
    · obtain ⟨h1, h2, h3, h4, h5, h6⟩ := h.tasks u ((hmem u).mp hu).2
      exact ⟨h1, h2, h3, h4, h5, h6⟩
    · exact h.apart u v ⟨((hmem u).mp hu.1).2, hu.2⟩ ⟨((hmem v).mp hv.1).2, hv.2⟩ hcond
  refine ⟨if s.controller = .halfSyncHalfAsync then s₁.taskUnregistered t else s₁, ?_, ?_⟩
  · rw [Books.unregisterTask, h.summary_cons ht, Counters.taskRemoved_tally hs, hs₁]
    rfl
  · split
    · refine h₁.taskUnregistered ?_
      rw [hs₁]
      exact h.nodup.not_mem_erase
    · exact h₁

end Books

end PolyORB
