import PolyORB.Tasking.RavenscarJobs
import PolyORB.Tasking.RavenscarMonitorSteps

/-!
# Runs of the threads

Every interleaving of the protected operations, from the elaboration on.
-/

namespace PolyORB

namespace Ravenscar

variable {s s' : Ravenscar} {t u i j m c : Nat} {th th' thu : RavenscarThread} {owned : List Nat}
  {p : Purpose} {job : PoolJob} {e : Exn}

/-- An operation may fail where there are no indexes left, or none at all. -/
def Fails (s : Ravenscar) : ThreadPhase → Exn → Prop
  | .elaborated, e => e = .constraintError ∧ s.mainTaskIndex = 0
  | .initializing, e => e = .constraintError ∧ s.synchros.numberOfIndices = 0
  -- there are fewer synchro objects than threads
  | .getting _, e => e = .taskingError ∧ s.synchros.numberOfIndices < s.threads.length
  | .obtaining _, e => e = .taskingError ∧
    s.threadIndices.numberOfIndices ≤ s.threadIndices.numberOfUsed
  | _, _ => False

/-! ## Operations that fail -/

theorem getting_error (h : s.Inv) (ht : s.threads[t]? = some ⟨.getting p, owned⟩)
    (hfull : s.synchros.numberOfIndices ≤ s.synchros.numberOfUsed) :
    s.perform t ⟨.getting p, owned⟩ = .error .taskingError ∧ s.Fails (.getting p) .taskingError ∧
      (s.handle t ⟨.getting p, owned⟩ .taskingError).Inv := by
  have hvalid := h.synchros.ready (h.synchros.past t _ ht rfl)
  refine ⟨?_, ⟨rfl, ?_⟩, ?_⟩
  · show s.getSynchro t _ p = _
    rw [getSynchro, IndexManager.get_error hvalid hfull]
    rfl
  · -- the thread itself has no synchro object
    have hlt : s.threads.countP (fun th => th.phase.synchro.isSome) < s.threads.length := by
      refine lt_of_le_of_ne List.countP_le_length fun heq => ?_
      have := List.countP_eq_length.mp heq _ (List.mem_of_getElem? ht)
      cases this
    rw [← h.synchros.count] at hlt
    omega
  · obtain ⟨s', hs'⟩ : ∃ s', s' = s.handle t ⟨.getting p, owned⟩ .taskingError := ⟨_, rfl⟩
    rw [← hs']
    have hstopped : SamePhase (.getting p) (.stopped p) :=
      ⟨⟨by cases p <;> rfl, rfl, ⟨rfl, rfl⟩, rfl, ⟨by simp, by simp, by simp⟩,
        by cases p <;> exact id⟩, rfl, rfl⟩
    have hstop (hset : s' = { s with
        threads := s.threads.set t ⟨.stopped p, owned⟩, my := s'.my }) : s'.Inv :=
      h.pass ht hset hstopped (fun _ => rfl) rfl rfl rfl rfl rfl (fun _ => rfl) rfl rfl
        (by rintro _ ⟨⟩)
    have hgo (hpool : p.ofPool = false) (hset : s' = { s with
        threads := s.threads.set t ⟨.running, owned⟩, my := s'.my }) : s'.Inv := by
      refine h.pass ht hset ?_ (fun _ => rfl) rfl rfl rfl rfl rfl (fun _ => rfl) rfl rfl
        (by rintro _ ⟨⟩)
      cases p with
      | initial | next => cases hpool
      | enter | wait =>
        exact ⟨⟨rfl, rfl, ⟨rfl, rfl⟩, rfl, ⟨by simp, by simp, by simp⟩, fun _ => rfl⟩, rfl, rfl⟩
    cases hmy : s.my with
    | true =>
      refine hstop ?_
      rw [hs', handle]
      simp only [hmy]
      rfl
    | false =>
      cases p with
      | initial | next =>
        refine hstop ?_
        rw [hs', handle]
        simp only [hmy]
        rfl
      | enter | wait =>
        refine hgo rfl ?_
        rw [hs', handle]
        simp only [hmy]
        rfl

theorem obtaining_error (h : s.Inv) (ht : s.threads[t]? = some ⟨.obtaining job, owned⟩)
    (hfull : s.threadIndices.numberOfIndices ≤ s.threadIndices.numberOfUsed) :
    s.perform t ⟨.obtaining job, owned⟩ = .error .taskingError ∧
      (s.setPhase t ⟨.obtaining job, owned⟩ .running).Inv := by
  have hinit := ((h.pool.threads t _ ht).engaged (.inr rfl)).2
  refine ⟨?_, ?_⟩
  · show s.obtainThread t _ job = _
    rw [obtainThread, IndexManager.get_error (h.pool.ready hinit) hfull]
    rfl
  · exact h.pass ht rfl
      ⟨⟨rfl, rfl, ⟨rfl, rfl⟩, rfl, ⟨by simp, by simp, by simp⟩, fun _ => rfl⟩, rfl, rfl⟩
      (fun _ => rfl) rfl rfl rfl rfl rfl (fun _ => rfl) rfl rfl (by rintro _ ⟨⟩)

/-! ## One step -/

/-- The result of an operation. -/
def Outcome (s : Ravenscar) (t : Nat) (th : RavenscarThread) : Prop :=
  (∃ s', s.perform t th = .ok s' ∧ s'.Inv) ∨
    ∃ e, s.perform t th = .error e ∧ s.Fails th.phase e ∧ (s.handle t th e).Inv

theorem Outcome.inv (h : s.Outcome t th) : (s.proceed t th).Inv := by
  rcases h with ⟨s', hperform, hinv⟩ | ⟨e, hperform, -, hinv⟩ <;>
  · rw [proceed, hperform]
    exact hinv

theorem Outcome.fails (h : s.Outcome t th) (he : s.perform t th = .error e) :
    s.Fails th.phase e := by
  rcases h with ⟨s', hperform, -⟩ | ⟨e', hperform, hfails, -⟩ <;> rw [he] at hperform
  · cases hperform
  · cases hperform
    exact hfails

theorem outcome (h : s.Inv) (ht : s.threads[t]? = some th) (hstep : s.canStep t th = true)
    (htimely : s.timely t = true) : s.Outcome t th := by
  obtain ⟨phase, owned⟩ := th
  cases phase with
  | elaborated =>
    have hle := h.pool.lt ht
    by_cases hm : t = s.mainTaskIndex
    · rcases Nat.eq_zero_or_pos s.mainTaskIndex with hzero | hpos
      · obtain ⟨hperform, hinv⟩ := initializePackage_error h ht hm hzero
        exact .inr ⟨_, hperform, ⟨rfl, hzero⟩, hinv⟩
      · exact .inl (initializePackage_step h ht hm hpos)
    · have hcur : t = s.current := by
        have hstep : (t == s.mainTaskIndex || t == s.current) = true := hstep
        simpa [hm] using hstep
      exact .inl (initializeId_step h ht hcur (by omega))
  | initializing =>
    rcases Nat.eq_zero_or_pos s.synchros.numberOfIndices with hzero | hpos
    · obtain ⟨hperform, hinv⟩ := initializeSynchros_error h ht hzero
      exact .inr ⟨_, hperform, ⟨rfl, hzero⟩, hinv⟩
    · exact .inl (initializeSynchros_step h ht hpos)
  | waitForPackageInitialization => exact .inl (waitForPackage_step h ht hstep)
  | getting p =>
    rcases Nat.lt_or_ge s.synchros.numberOfUsed s.synchros.numberOfIndices with hfree | hfull
    · exact .inl (getting_step h ht hfree)
    · exact .inr ⟨_, getting_error h ht hfull⟩
  | preparing p i => exact .inl (preparing_step h ht)
  | prepared p i =>
    cases p with
    | initial => exact .inl ⟨_, rfl, endInitialization_step h ht htimely⟩
    | next => exact .inl (releaseThread_step h ht)
    | enter m =>
      cases ho : s.owner m with
      | none => exact .inl (testAndSetEntry_free h ht ho)
      | some u => exact .inl (testAndSetEntry_taken h ht ho)
    | wait c m => exact .inl (prepareCondition_step h ht)
  | aborting m i => exact .inl (aborting_step h ht)
  | leaving m inWait => exact .inl (leaveMutex_step h ht)
  | resuming barriers inWait =>
    cases barriers with
    | nil => exact .inl (resumeNone_step h ht)
    | cons i barriers => exact .inl (resumeNext_step h ht)
  | suspended p i => exact .inl (suspended_step h ht hstep)
  | checkSignaled p i => exact .inl ⟨_, checkSignaled_step h ht⟩
  | checkWaiting p i => exact .inl ⟨_, checkWaiting_step h ht⟩
  | releasing p i => exact .inl (releasing_step h ht)
  | starting => exact .inl (starting_step h ht)
  | signalling c => exact .inl (signalCondition_step h ht)
  | broadcasting c => exact .inl (broadcastCondition_step h ht)
  | obtaining job =>
    rcases Nat.lt_or_ge s.threadIndices.numberOfUsed s.threadIndices.numberOfIndices with hfree | hfull
    · exact .inl (obtaining_step h ht hfree)
    · obtain ⟨hperform, hinv⟩ := obtaining_error h ht hfull
      exact .inr ⟨_, hperform, ⟨rfl, hfull⟩, hinv⟩
  | creating id job => exact .inl (creating_step h ht)
  | looking id job => exact .inl (looking_step h ht)
  | running | stopped p | failed e => cases hstep

theorem isRunning_iff : s.isRunning t = true ↔ ∃ owned, s.threads[t]? = some ⟨.running, owned⟩ := by
  rw [isRunning]
  constructor
  · intro h
    split at h
    · rename_i owned ht
      exact ⟨owned, ht⟩
    · cases h
  · rintro ⟨owned, ht⟩
    rw [ht]

theorem mem_of_owns (h : s.owns t m = true) (ht : s.threads[t]? = some th) : m ∈ th.owned := by
  rw [owns, ht] at h
  exact List.contains_iff_mem.mp h

theorem inv_next (h : s.Inv) {a : RavenscarAction} (hen : s.Enabled a) (hord : s.Orderly a) :
    (s.next a).Inv := by
  have hphase {phase : ThreadPhase} (hbusy : phase.busy = true) (hpool : phase.ofPool = false)
      (hcreates : phase.creates = none) (hprepared : isPrepared phase = true)
      (hwoken : phase.woken = false) (hidle : phase.idleAt = none) : SamePhase .running phase := by
    refine ⟨⟨hbusy, hpool, ⟨hcreates, rfl⟩, rfl, ⟨by simp, ?_, ?_⟩, fun _ => hprepared⟩, hwoken,
      hidle⟩
    · rintro rfl
      cases hbusy
    · rintro rfl
      cases hbusy
  cases a with
  | step t =>
    obtain ⟨th, ht, hstep⟩ := hen
    rw [next, ht]
    exact (outcome h ht hstep hord).inv
  | enter t m =>
    obtain ⟨owned, ht⟩ := isRunning_iff.mp hen
    exact h.call ht (hphase rfl rfl rfl rfl rfl rfl) rfl rfl rfl rfl (fun _ => rfl) rfl
      (by rintro _ ⟨⟩)
  | leave t m =>
    obtain ⟨owned, ht⟩ := isRunning_iff.mp hen.1
    refine h.call ht (hphase rfl rfl rfl rfl rfl rfl) rfl rfl rfl rfl (fun _ => rfl) rfl ?_
    intro m' hm
    obtain rfl := Option.some.inj hm
    exact mem_of_owns hen.2 ht
  | wait t c m =>
    obtain ⟨owned, ht⟩ := isRunning_iff.mp hen.1
    refine h.call ht (hphase rfl rfl rfl rfl rfl rfl) rfl rfl rfl rfl (fun _ => rfl) rfl ?_
    intro m' hm
    obtain rfl := Option.some.inj hm
    exact mem_of_owns hen.2 ht
  | signal t c | broadcast t c | runInTask t job =>
    obtain ⟨owned, ht⟩ := isRunning_iff.mp hen
    exact h.call ht (hphase rfl rfl rfl rfl rfl rfl) rfl rfl rfl rfl (fun _ => rfl) rfl
      (by rintro _ ⟨⟩)
  | finish t =>
    obtain ⟨owned, ht⟩ := isRunning_iff.mp hen.1
    exact finish_step h ht hen.2

/-! ## From the elaboration on -/

theorem start_thread {poolTasks synchroObjects : Nat} {syncId : Nat → Nat}
    (ht : (start poolTasks synchroObjects syncId).threads[t]? = some th) :
    t < poolTasks + 1 ∧ th = ⟨.elaborated, []⟩ := by
  have ht : (List.replicate (poolTasks + 1) (⟨.elaborated, []⟩ : RavenscarThread))[t]? = some th := ht
  rw [List.getElem?_replicate] at ht
  split at ht
  · rename_i hlt
    exact ⟨hlt, (Option.some.inj ht).symm⟩
  · cases ht

theorem inv_start (poolTasks synchroObjects : Nat) (syncId : Nat → Nat) :
    (start poolTasks synchroObjects syncId).Inv := by
  have hassigned (t : Nat) : (start poolTasks synchroObjects syncId).assignedTo t = none := by
    show ((List.replicate poolTasks (none : Option PoolJob))[t]?).join = none
    rw [List.getElem?_replicate]
    split <;> rfl
  have hpending (i : Nat) : (start poolTasks synchroObjects syncId).pending i = 0 := by
    rw [pending, List.sum_eq_zero]
    intro n hn
    obtain ⟨th, hth, rfl⟩ := List.mem_map.mp hn
    rw [List.eq_of_mem_replicate hth]
    rfl
  refine ⟨?_, ?_, ?_⟩
  · refine ⟨fun _ _ => rfl, by rintro ⟨⟩, ?_, ?_, ?_, ?_, ?_, ?_, fun i => .inr ⟨rfl, ?_⟩⟩
    · intro t th ht hpast
      rw [(start_thread ht).2] at hpast
      cases hpast
    · show 0 = (List.replicate (poolTasks + 1) _).countP _
      rw [eq_comm, List.countP_eq_zero]
      intro th hth
      rw [List.eq_of_mem_replicate hth]
      decide
    · intro t th ht i hi
      rw [(start_thread ht).2] at hi
      cases hi
    · intro t t' th th' ht _ i hi
      rw [(start_thread ht).2] at hi
      cases hi
    · intro t th ht i hi
      rw [(start_thread ht).2] at hi
      cases hi
    · intro t th ht i hi
      rw [(start_thread ht).2] at hi
      cases hi
    · rw [wakeUps, hpending]
      rfl
  · refine ⟨fun m => ⟨[], MutexPO.holds_created _, .nil⟩,
      fun c => ⟨[], ConditionPO.holds_created _, .nil⟩, ?_, ?_⟩
    · intro t th ht m
      rw [(start_thread ht).2]
      rfl
    · intro t th ht m hm
      rw [(start_thread ht).2] at hm
      cases hm
  · refine ⟨?_, ?_, Nat.zero_le _, by rintro ⟨⟩, fun _ _ => rfl, by rintro ⟨⟩, ?_, ?_⟩
    · exact List.length_replicate
    · exact List.length_replicate
    · intro t th ht
      obtain ⟨hlt, rfl⟩ := start_thread ht
      refine ⟨fun _ => rfl, fun _ _ => rfl, by rintro _ ⟨⟩, by simp,
        fun _ => iff_of_true rfl (Nat.zero_le t), ?_, by rintro ⟨⟩, ?_, by rintro _ ⟨⟩, ?_,
        by rintro _ ⟨⟩, by simp, ?_, by rintro _ ⟨⟩⟩
      · rw [hassigned]
        rintro (hs | hb)
        · cases hs
        · cases hb
      · rw [hassigned]
        simp
      · rw [hassigned]
        simp
      · intro _
        have hcreators : (start poolTasks synchroObjects syncId).creators t = 0 := by
          rw [creators, List.countP_eq_zero]
          intro th hth
          rw [List.eq_of_mem_replicate hth]
          rintro ⟨⟩
        rw [hassigned, hcreators]
        rfl
    · intro j
      show 0 = 0 + (List.replicate poolTasks (none : Option PoolJob)).count (some j)
      rw [List.count_replicate]
      rfl

/-! ## What holds in every run -/

structure Safe (s : Ravenscar) : Prop where
  /-- A mutex that a thread has entered is its own. -/
  owner : ∀ (t : Nat) (th : RavenscarThread), s.threads[t]? = some th →
    ∀ m ∈ th.owned, s.owner m = some t
  /-- There is one wake-up for a thread that has left the queue it was in, or was given a job, and
  none for another one. -/
  wakeUps : ∀ (t : Nat) (th : RavenscarThread), s.threads[t]? = some th →
    ∀ i ∈ th.phase.synchro, s.wakeUps i = (s.due t th.phase).toNat
  synchros : ∀ (t t' : Nat) (th th' : RavenscarThread), s.threads[t]? = some th →
    s.threads[t']? = some th' → ∀ i ∈ th.phase.synchro, i ∈ th'.phase.synchro → t = t'
  used : ∀ (t : Nat) (th : RavenscarThread), s.threads[t]? = some th →
    ∀ i ∈ th.phase.synchro, s.synchros.used i = true
  /-- An index is that of one job at most. -/
  threadIndices : ∀ (t : Nat) (th : RavenscarThread), s.threads[t]? = some th → t < s.mainTaskIndex →
    s.creators t + (s.assignedTo t).isSome.toNat + th.phase.busy.toNat =
      (s.threadIndices.used t).toNat
  /-- A job was started once, or is still to be started by the thread it was given to. -/
  jobs : ∀ j, s.accepted.count j = s.started.count j + s.assigned.count (some j)
  dormant : ∀ (t : Nat) (th : RavenscarThread), s.threads[t]? = some th →
    (s.assignedTo t).isSome = true → th.phase.woken = true ∨ th.phase.idleAt.isSome = true
  own : ∀ (t : Nat) (owned : List Nat), s.threads[t]? = some ⟨.starting, owned⟩ →
    ∃ job, s.assignedTo t = some job ∧ s.jobOf t = some job

structure Sound (s : Ravenscar) (a : RavenscarAction) : Prop where
  errors : ∀ (t : Nat) (th : RavenscarThread) (e : Exn), a = .step t → s.threads[t]? = some th →
    s.perform t th = .error e → s.Fails th.phase e
  opened : ∀ (t : Nat) (owned : List Nat), a = .step t →
    s.threads[t]? = some ⟨.waitForPackageInitialization, owned⟩ → s.allPrepared = true
  safe : (s.next a).Safe

theorem Inv.safe (h : s.Inv) : s.Safe where
  owner t th ht m hm := (h.monitors.owner_of_mem ht hm).1
  wakeUps := h.synchros.wakeUps
  synchros := h.synchros.distinct
  used := h.synchros.used
  threadIndices t th ht := (h.pool.threads t th ht).count
  jobs := h.pool.jobs
  dormant t th ht := (h.pool.threads t th ht).dormant
  own t owned ht := by
    have hok := h.pool.threads t _ ht
    obtain ⟨job, hjob⟩ := Option.isSome_iff_exists.mp (hok.woken rfl)
    exact ⟨job, hjob, hok.job job hjob⟩

theorem sound_of_inv (h : s.Inv) {a : RavenscarAction} (hen : s.Enabled a) (hord : s.Orderly a) :
    s.Sound a where
  errors t th e hat ht he := by
    subst hat
    obtain ⟨th', ht', hstep⟩ := hen
    rw [ht] at ht'
    obtain rfl := Option.some.inj ht'
    exact (outcome h ht hstep hord).fails he
  opened t owned hat ht := by
    subst hat
    obtain ⟨th', ht', hstep⟩ := hen
    rw [ht] at ht'
    obtain rfl := Option.some.inj ht'
    exact allPrepared_iff.mpr fun u thu hlt hu => (h.pool.threads u thu hu).prepared hlt hstep
  safe := (inv_next h hen hord).safe

/-- Unless `End_Initialization` is called between the last `Initialize_Id` and the last
`Prepare_Suspend` of the pool, a run of any number of threads is as it should be. -/
theorem sound_run (poolTasks synchroObjects : Nat) (syncId : Nat → Nat)
    (actions : List RavenscarAction)
    (hen : Runs.Along next Enabled (start poolTasks synchroObjects syncId) actions)
    (hord : Runs.Along next Orderly (start poolTasks synchroObjects syncId) actions) :
    Runs.Along next Sound (start poolTasks synchroObjects syncId) actions :=
  Runs.along_of_inv
    (fun _ _ h hstep => ⟨sound_of_inv h hstep.1 hstep.2, inv_next h hstep.1 hstep.2⟩) actions _
    (inv_start poolTasks synchroObjects syncId) (Runs.along_and actions hen hord)

/-- The main task gives the task of the pool a job.  It waits for a condition while the job has the
mutex, and enters it again after the signal. -/
def signalled : List RavenscarAction :=
  [.step 1, .step 1, .step 0, .step 0, .step 0, .step 0, .step 0, .step 1,
    .runInTask 1 (.runnable 5), .step 1, .step 1, .step 1, .step 1,
    .step 0, .step 0, .step 0, .step 0, .step 0,
    .enter 1 0, .step 1, .step 1, .step 1, .step 1, .step 1,
    .enter 0 0, .step 0, .step 0, .step 0,
    -- the mutex is handed over to the job
    .wait 1 0 0, .step 1, .step 1, .step 1, .step 1, .step 1,
    .step 0, .step 0, .step 0, .step 0,
    .signal 0 0, .step 0, .step 0, .leave 0 0, .step 0,
    .step 1, .step 1, .step 1, .step 1, .step 1, .step 1, .step 1, .step 1, .step 1,
    .leave 1 0, .step 1, .finish 0, .step 0, .step 0, .step 0]

theorem sound_run_one : Runs.Along next Sound (start 1 3 fun _ => 0) signalled :=
  sound_run 1 3 (fun _ => 0) signalled (by decide +kernel) (by decide +kernel)

/-- The first of two tasks ends the initialization, while the second one has got its index only. -/
def hasty : List RavenscarAction :=
  [.step 2, .step 2, .step 0, .step 0, .step 1, .step 0, .step 0, .step 0, .step 2]

theorem not_sound_run : ¬∀ (poolTasks synchroObjects : Nat) (syncId : Nat → Nat)
    (actions : List RavenscarAction),
    Runs.Along next Enabled (start poolTasks synchroObjects syncId) actions →
      Runs.Along next Sound (start poolTasks synchroObjects syncId) actions := by
  intro h
  obtain ⟨-, -, -, -, -, -, -, -, hsound, -⟩ := h 2 3 (fun _ => 0) hasty (by decide)
  have hopened := hsound.opened 2 [] rfl rfl
  revert hopened
  decide

end Ravenscar

end PolyORB
