import PolyORB.Lib.Runs
import PolyORB.Orb.BookkeepingSteps

/-!
# Runs of the bookkeeping

In every run the counters are the numbers of the registered tasks, and the idle tasks keep apart
with their condition variables.
-/

namespace PolyORB

namespace Books

variable {s : Books}

/-- A call that the main loop may make neither underflows a counter nor fails an assertion. -/
theorem Inv.perform (h : s.Inv) {a : BookAction} (ha : s.Enabled a) (ho : s.Orderly a) :
    (∃ s', s.perform a = .ok s' ∧ s'.Inv) ∨
      s.perform a = .error .programError ∧ ∃ t, a = .requestResultReady t ∧
        ((s.task t).state = .terminated ∨ (s.task t).state = .unscheduled) := by
  cases a with
  | registerTask t kind mayExit => exact Or.inl (h.registerTask ha.1 ha.2.1 kind mayExit)
  | scheduleTask t offer => exact Or.inl (h.scheduleTask ha.1 ha.2 offer)
  | dispatch t => exact Or.inl (h.dispatch ha.1 ha.2)
  | enter t => exact Or.inl ⟨_, rfl, h.enter ha.1 ha.2.1 ha.2.2⟩
  | complete t => exact Or.inl (h.complete ha.1 ha.2)
  | abort t =>
    refine Or.inl (h.abort ha.1 ho ?_)
    have hin : (s.point t).Inside → s.holder = some t := fun hi => (h.holder t).mpr ⟨ha.1, hi⟩
    rcases ha.2 with hp | hp | hp | hp | hp
    · exact Or.inl (hin (by rw [hp]; decide))
    · exact Or.inl (hin (by rw [hp]; decide))
    · exact Or.inl (hin (by rw [hp]; decide))
    · exact Or.inl (hin (by rw [hp]; decide))
    · exact Or.inr hp.2
  | unregisterTask t => exact Or.inl (h.unregisterTask ha.1 ha.2)
  | tryAllocateOneTask allowTransient => exact Or.inl (h.tryAllocateOneTask allowTransient)
  | requestResultReady t =>
    rcases h.requestResultReady ha with hok | ⟨hf, hs⟩
    · exact Or.inl hok
    · exact Or.inr ⟨hf, t, rfl, hs⟩
  | orbShutdown =>
    left
    show ∃ s', s.orbShutdown = .ok s' ∧ s'.Inv
    unfold Books.orbShutdown
    split
    · exact ⟨s, rfl, h⟩
    · exact h.awakeAllIdleTasks

theorem Inv.step (h : s.Inv) {a : BookAction} (ha : s.Enabled a) (ho : s.Orderly a) :
    (s.step a).Inv := by
  unfold Books.step
  rcases h.perform ha ho with ⟨s', hok, h'⟩ | ⟨hf, -⟩
  · rw [hok]
    exact h'
  · rw [hf]
    exact h

/-- The number of the registered tasks of a kind that are in a state. -/
def count (s : Books) (kind : TaskKind) (state : TaskState) : Nat :=
  (s.registered.filter fun t => (s.task t).kind = kind ∧ (s.task t).state = state).length

/-- No two idle tasks share a condition variable. -/
def Unshared (s : Books) : Prop :=
  ∀ t ∈ s.registered, ∀ u ∈ s.registered, (s.task t).state = .idle → (s.task u).state = .idle →
    (s.task t).condition = (s.task u).condition → t = u

/-- No idle task has a condition variable that is free. -/
def Unreferenced (s : Books) : Prop :=
  ∀ t ∈ s.registered, (s.task t).state = .idle → (s.task t).condition ∉ s.idleTasks.freeCv

instance (s : Books) : Decidable s.Unshared := by
  unfold Unshared
  infer_instance

instance (s : Books) : Decidable s.Unreferenced := by
  unfold Unreferenced
  infer_instance

/-- What is recorded about the tasks is true. -/
structure Sound (s : Books) : Prop where
  counted : ∀ kind state, s.summary (some kind) (some state) = s.count kind state
  sums : s.summary.Valid
  idle : ∀ kind, ∀ t ∈ s.idleTasks.idleTaskLists kind,
    t ∈ s.registered ∧ (s.task t).kind = kind ∧ (s.task t).state = .idle
  unshared : s.Unshared
  free : ∀ t ∈ s.registered, (s.task t).state = .idle →
    (s.task t).condition ∈ s.idleTasks.freeCv → s.Notified t ∧ s.holder = some t

theorem Inv.unshared (h : s.Inv) : s.Unshared := by
  intro t ht u hu hit hiu hcond
  have hst := h.tasks t ht
  have hsu := h.tasks u hu
  rcases hmt : s.monitoringIndex t with _ | i <;> rcases hmu : s.monitoringIndex u with _ | j
  · exact h.apart t u ⟨ht, hit, hmt⟩ ⟨hu, hiu, hmu⟩ hcond
  · obtain ⟨n, -, hn⟩ := hst.allotted hit hmt
    rw [hn, (hsu.monitoring hiu j hmu).1] at hcond
    cases hcond
  · obtain ⟨n, -, hn⟩ := hsu.allotted hiu hmu
    rw [hn, (hst.monitoring hit i hmt).1] at hcond
    cases hcond
  · rw [(hst.monitoring hit i hmt).1, (hsu.monitoring hiu j hmu).1] at hcond
    obtain rfl := ConditionVariable.monitoring.inj (Option.some.inj hcond)
    -- the monitor has one monitoring task
    exact Option.some.inj ((aemTask_of_monitoringIndex hmt).symm.trans
      (aemTask_of_monitoringIndex hmu))

theorem Inv.free (h : s.Inv) {t : TaskId} (ht : t ∈ s.registered) (hi : (s.task t).state = .idle)
    (hfree : (s.task t).condition ∈ s.idleTasks.freeCv) : s.Notified t ∧ s.holder = some t := by
  have hs := h.tasks t ht
  have hp : s.point t = .scheduling := by
    by_contra hp
    rcases hm : s.monitoringIndex t with _ | j
    · exact hs.kept hi hp hm hfree
    · obtain ⟨n, -, hn⟩ := h.idleTasks.freeCreated _ hfree
      rw [(hs.monitoring hi j hm).1] at hn
      cases hn
  exact ⟨⟨hi, hp⟩, (h.holder t).mpr ⟨ht, by rw [hp]; decide⟩⟩

theorem Inv.sound (h : s.Inv) : s.Sound := by
  refine ⟨fun kind state => ?_, ?_, fun kind t ht => ?_, h.unshared, fun t => h.free⟩
  · rw [h.summary, count, ← List.countP_eq_length_filter, Counters.tally, List.countP_map]
    refine List.countP_congr fun t _ => ?_
    simp only [Function.comp_apply, Counters.Counts, Option.isNone_some, Bool.false_or,
      Option.some.injEq, Bool.and_eq_true, decide_eq_true_eq]
    rw [eq_comm, @eq_comm _ state]
  · rw [h.summary]
    exact Counters.valid_tally _
  · exact h.idle_of_listed ht

/-- Nothing fails but the notification of a task that is not waiting for a result. -/
def Recorded (s : Books) (a : BookAction) : Prop :=
  s.perform a = .ok (s.step a) ∨
    s.perform a = .error .programError ∧ ∃ t, a = .requestResultReady t ∧
      ((s.task t).state = .terminated ∨ (s.task t).state = .unscheduled)

theorem Inv.recorded (h : s.Inv) {a : BookAction} (ha : s.Enabled a) (ho : s.Orderly a) :
    s.Recorded a := by
  rcases h.perform ha ho with ⟨s', hok, -⟩ | hf
  · refine Or.inl ?_
    rw [Books.step, hok]
  · exact Or.inr hf

theorem books_run (controller : ControllerKind) (maximumSpareThreads : Option Nat)
    (as : List BookAction)
    (ha : Runs.Along step Enabled (initial controller maximumSpareThreads) as)
    (ho : Runs.Along step Orderly (initial controller maximumSpareThreads) as) :
    (initial controller maximumSpareThreads).Sound ∧
      Runs.Along step (fun s a => s.Recorded a ∧ (s.step a).Sound)
        (initial controller maximumSpareThreads) as := by
  have hinit := inv_initial controller maximumSpareThreads
  refine ⟨hinit.sound, Runs.along_of_inv (fun s a h hao => ?_) as _ hinit (Runs.along_and as ha ho)⟩
  have h' := h.step hao.1 hao.2
  exact ⟨⟨h.recorded hao.1 hao.2, h'.sound⟩, h'⟩

/-- A task goes idle, is awakened and notifies it. -/
def awakening : List BookAction :=
  [.registerTask 0 .permanent true, .scheduleTask 0 ⟨false, none, none⟩, .dispatch 0,
    .tryAllocateOneTask false, .enter 0, .complete 0]

theorem books_run_awakening :
    (initial .workers (some 4)).Sound ∧
      Runs.Along step (fun s a => s.Recorded a ∧ (s.step a).Sound)
        (initial .workers (some 4)) awakening :=
  books_run .workers (some 4) awakening (by decide) (by decide)

/-- The task is then aborted, which frees its variable once more, and two others go idle. -/
def doubleAwakening : List BookAction :=
  awakening ++ [.abort 0, .unregisterTask 0, .registerTask 1 .permanent true,
    .scheduleTask 1 ⟨false, none, none⟩, .dispatch 1, .registerTask 2 .permanent true,
    .scheduleTask 2 ⟨false, none, none⟩]

/-- The task that has notified `Idle_Awake` still has its variable, which is free. -/
theorem not_unreferenced :
    (Runs.Along step Enabled (initial .workers (some 4)) awakening ∧
      Runs.Along step Orderly (initial .workers (some 4)) awakening ∧
      ¬ (Runs.reach step (initial .workers (some 4)) awakening).Unreferenced) ∧
    Runs.Along step Enabled (initial .workers (some 4)) doubleAwakening ∧
      ¬ (Runs.reach step (initial .workers (some 4)) doubleAwakening).Unshared := by
  decide

end Books

end PolyORB
