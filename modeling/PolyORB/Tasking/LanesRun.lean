import PolyORB.Tasking.Lanes
import PolyORB.Lib.Runs

/-!
# Jobs of a lane

Callers of `Queue_Job` and `Destroy` interleave with the threads of a lane.  The system records the
jobs that were accepted and those that were started, and whether `Destroy` has returned.
-/

namespace PolyORB

structure LaneSystem where
  lane : Lane
  accepted : List Nat
  started : List Nat
  destroyed : Bool
  deriving DecidableEq

inductive LaneAction where
  /-- `woken` is the thread that the signal wakes, if it wakes one. -/
  | queueJob (job woken : Nat)
  | proceed (t : Nat)
  | goIdle (t : Nat)
  | jobDone (t : Nat)
  /-- The job raises an exception, which ends the thread. -/
  | jobRaised (t : Nat)
  | cleanUp
  | broadcast
  deriving DecidableEq

namespace LaneSystem

open LaneThread

def start (c : LaneConfig) : LaneSystem :=
  { lane := .create c, accepted := [], started := [], destroyed := false }

def perform (s : LaneSystem) : LaneAction → LaneSystem
  | .queueJob job woken =>
    { s with
      lane := s.lane.queueJob job woken
      accepted :=
        match s.lane.accepts with
        | .ok true => s.accepted ++ [job]
        | _ => s.accepted }
  | .proceed t =>
    { s with lane := (s.lane.proceed t).1, started := s.started ++ (s.lane.proceed t).2.toList }
  | .goIdle t => { s with lane := s.lane.goIdle t }
  | .jobDone t => { s with lane := s.lane.setPhase t .entering }
  | .jobRaised t => { s with lane := s.lane.setPhase t .exited }
  | .cleanUp => { s with lane := s.lane.cleanUp }
  | .broadcast => { s with lane := s.lane.broadcast, destroyed := true }

def LockFree (s : LaneSystem) : Prop := s.lane.lockLost = false ∧ s.lane.threads.countP isGoingIdle = 0

instance (s : LaneSystem) : Decidable s.LockFree :=
  inferInstanceAs (Decidable (s.lane.lockLost = false ∧ s.lane.threads.countP isGoingIdle = 0))

/-- Thread `t` satisfies `p`. -/
def Finds (s : LaneSystem) (t : Nat) (p : LaneThread → Bool) : Prop := s.lane.threads[t]?.any p = true

instance (s : LaneSystem) (t : Nat) (p : LaneThread → Bool) : Decidable (s.Finds t p) :=
  inferInstanceAs (Decidable (s.lane.threads[t]?.any p = true))

def Possible (s : LaneSystem) : LaneAction → Prop
  | .queueJob _ woken =>
    s.LockFree ∧ (0 < s.lane.threads.countP isWaiting → s.Finds woken isWaiting)
  | .proceed t => s.LockFree ∧ (s.Finds t isEntering ∨ s.Finds t isSignalled)
  | .goIdle t => s.Finds t isGoingIdle
  | .jobDone t | .jobRaised t => s.Finds t isRunning
  | .cleanUp => True
  | .broadcast => s.lane.cleanUpInProgress = true

instance (s : LaneSystem) : (a : LaneAction) → Decidable (s.Possible a)
  | .queueJob _ _ => inferInstanceAs (Decidable (_ ∧ _))
  | .proceed _ => inferInstanceAs (Decidable (_ ∧ _))
  | .goIdle _ | .jobDone _ | .jobRaised _ => inferInstanceAs (Decidable (Finds ..))
  | .cleanUp => inferInstanceAs (Decidable True)
  | .broadcast => inferInstanceAs (Decidable (_ = true))

/-- What a lane owes to its jobs and its threads. -/
structure Correct (s : LaneSystem) (a : LaneAction) : Prop where
  /-- Jobs are started once, in the order of the queue. -/
  ledger : (s.perform a).accepted = (s.perform a).started ++ (s.perform a).lane.jobQueue
  served : (s.perform a).lane.jobQueue ≠ [] → 0 < (s.perform a).lane.threads.countP isAwake
  bounded :
    (s.perform a).lane.threads.countP isAliveDynamic ≤ s.lane.config.dynamicNumberOfThreads
  creates : ∀ job woken, a = .queueJob job woken → s.lane.accepts = .ok true →
    s.lane.threads.countP isWaiting = 0 →
    s.lane.threads.countP isAliveDynamic < s.lane.config.dynamicNumberOfThreads →
    (s.perform a).lane.threads.length = s.lane.threads.length + 1
  woken : (s.perform a).destroyed = true → (s.perform a).lane.threads.countP isWaiting = 0

/-- An accepted job finds a thread alive or creates one, and creates one whenever none waits and
fewer dynamic ones than allowed are alive; a job that raises an exception is not run by the last
thread while others are queued; and no thread is about to wait when `Destroy` has returned. -/
def Sound (s : LaneSystem) : LaneAction → Prop
  | .queueJob _ _ =>
    s.lane.accepts = .ok true →
      (0 < s.lane.threads.countP isAlive ∨
        s.lane.dynamicThreadsCreated < s.lane.config.dynamicNumberOfThreads) ∧
      (s.lane.threads.countP isWaiting = 0 →
        s.lane.threads.countP isAliveDynamic < s.lane.config.dynamicNumberOfThreads →
        s.lane.threads.countP isSignalled = 0 ∧
          s.lane.dynamicThreadsCreated < s.lane.config.dynamicNumberOfThreads)
  | .jobRaised _ => s.lane.jobQueue ≠ [] → 1 < s.lane.threads.countP isAlive
  | .goIdle _ => s.destroyed = false
  | .proceed _ | .jobDone _ | .cleanUp | .broadcast => True

/-! ## Counting threads -/

/-- What the counts of `ts'` are, in which one thread has gone from `p` to `p'`. -/
structure Shift (ts ts' : List LaneThread) (p p' : LanePhase) : Prop where
  entering : ts'.countP isEntering + (if p = .entering then 1 else 0) =
    ts.countP isEntering + if p' = .entering then 1 else 0
  waiting : ts'.countP isWaiting + (if p = .waiting then 1 else 0) =
    ts.countP isWaiting + if p' = .waiting then 1 else 0
  signalled : ts'.countP isSignalled + (if p = .signalled then 1 else 0) =
    ts.countP isSignalled + if p' = .signalled then 1 else 0
  goingIdle : ts'.countP isGoingIdle + (if p = .goingIdle then 1 else 0) =
    ts.countP isGoingIdle + if p' = .goingIdle then 1 else 0
  awake : ts'.countP isAwake + (if p = .exited ∨ p = .waiting then 0 else 1) =
    ts.countP isAwake + if p' = .exited ∨ p' = .waiting then 0 else 1
  dynamic : ts'.countP isDynamic = ts.countP isDynamic

theorem weight_inPhase (d : Bool) (p q : LanePhase) :
    Tally.weight (inPhase q) ⟨d, p⟩ = if p = q then 1 else 0 := by
  simp [Tally.weight, inPhase]

theorem weight_isAwake (d : Bool) (p : LanePhase) :
    Tally.weight isAwake ⟨d, p⟩ = if p = .exited ∨ p = .waiting then 0 else 1 := by
  cases p <;> rfl

theorem shift_set {ts : List LaneThread} {i : Nat} {d : Bool} {p : LanePhase}
    (h : ts[i]? = some ⟨d, p⟩) (p' : LanePhase) : Shift ts (ts.set i ⟨d, p'⟩) p p' := by
  have hset : ∀ q, (ts.set i ⟨d, p'⟩).countP (inPhase q) + (if p = q then 1 else 0) =
      ts.countP (inPhase q) + if p' = q then 1 else 0 := by
    intro q
    rw [← weight_inPhase d p, ← weight_inPhase d p']
    exact Tally.countP_set_add _ _ h
  have hawake := Tally.countP_set_add isAwake ⟨d, p'⟩ h
  rw [weight_isAwake, weight_isAwake] at hawake
  exact ⟨hset _, hset _, hset _, hset _, hawake,
    Nat.add_right_cancel (m := Tally.weight isDynamic ⟨d, p⟩) (Tally.countP_set_add isDynamic ⟨d, p'⟩ h)⟩

variable {s : LaneSystem} {t job : Nat}

theorem Finds.phase {p : LanePhase} (h : s.Finds t (inPhase p)) :
    ∃ d, s.lane.threads[t]? = some ⟨d, p⟩ := by
  rw [Finds, Option.any_eq_true] at h
  obtain ⟨⟨d, q⟩, ht, hq⟩ := h
  obtain rfl := beq_iff_eq.mp hq
  exact ⟨d, ht⟩

theorem Finds.running (h : s.Finds t isRunning) :
    ∃ d job, s.lane.threads[t]? = some ⟨d, .running job⟩ := by
  rw [Finds, Option.any_eq_true] at h
  obtain ⟨⟨d, q⟩, ht, hq⟩ := h
  cases q with
  | running job => exact ⟨d, job, ht⟩
  | entering | goingIdle | waiting | signalled | exited => cases hq

theorem countP_isAlive (ts : List LaneThread) :
    ts.countP isAlive = ts.countP isAwake + ts.countP isWaiting := by
  induction ts with
  | nil => rfl
  | cons t ts ih =>
    obtain ⟨d, p⟩ := t
    simp only [List.countP_cons, ih, isAlive, isAwake, isWaiting, inPhase]
    cases p <;> simp <;> omega

theorem countP_isAwake (ts : List LaneThread) :
    ts.countP isAwake = ts.countP isEntering + ts.countP isSignalled + ts.countP isRunning +
      ts.countP isGoingIdle := by
  induction ts with
  | nil => rfl
  | cons t ts ih =>
    obtain ⟨d, p⟩ := t
    simp only [List.countP_cons, ih, isAwake, isEntering, isSignalled, isRunning, isGoingIdle, inPhase]
    cases p <;> simp <;> omega

theorem countP_wake (p q : LaneThread → Bool) (h : ∀ d ph, p (wake ⟨d, ph⟩) = q ⟨d, ph⟩)
    (ts : List LaneThread) : (ts.map wake).countP p = ts.countP q :=
  Tally.countP_map_of p q wake (fun ⟨d, ph⟩ => h d ph) ts

theorem countP_isWaiting_wake (ts : List LaneThread) : (ts.map wake).countP isWaiting = 0 := by
  rw [countP_wake isWaiting (fun _ => false) (fun d p => by cases p <;> rfl), List.countP_false]
  rfl

theorem countP_isSignalled_wake (ts : List LaneThread) :
    (ts.map wake).countP isSignalled = ts.countP isWaiting + ts.countP isSignalled := by
  induction ts with
  | nil => rfl
  | cons t ts ih =>
    obtain ⟨d, p⟩ := t
    simp only [List.map_cons, List.countP_cons, ih]
    cases p <;> simp [wake, isWaiting, isSignalled, inPhase] <;> omega

theorem countP_isAliveDynamic_le (ts : List LaneThread) :
    ts.countP isAliveDynamic ≤ ts.countP isDynamic := by
  refine List.countP_mono_left fun t _ h => ?_
  simp only [isAliveDynamic, Bool.and_eq_true] at h
  exact h.1

/-! ## The invariant -/

structure LaneInv (s : LaneSystem) : Prop where
  ledger : s.accepted = s.started ++ s.lane.jobQueue
  idle : s.lane.idleTasks = s.lane.threads.countP isWaiting + s.lane.threads.countP isSignalled
  created : s.lane.dynamicThreadsCreated = s.lane.threads.countP isDynamic
  bounded : s.lane.dynamicThreadsCreated ≤ s.lane.config.dynamicNumberOfThreads
  goingIdle : 0 < s.lane.threads.countP isGoingIdle → s.lane.jobQueue = []
  /-- While a thread waits, the jobs in the queue are for those that are about to look at it. -/
  pending : 0 < s.lane.threads.countP isWaiting →
    s.lane.jobQueue.length ≤ s.lane.threads.countP isSignalled + s.lane.threads.countP isEntering
  served : s.lane.jobQueue ≠ [] → 0 < s.lane.threads.countP isAwake
  woken : s.destroyed = true → s.lane.threads.countP isWaiting = 0

theorem laneInv_start (c : LaneConfig) : (start c).LaneInv := by
  have hnone : ∀ p : LaneThread → Bool, p ⟨false, .entering⟩ = false →
      (start c).lane.threads.countP p = 0 := by
    intro p hp
    rw [List.countP_eq_zero]
    intro t ht
    rw [List.eq_of_mem_replicate ht, hp]
    exact Bool.false_ne_true
  have hw := hnone isWaiting rfl
  refine ⟨rfl, ?_, (hnone isDynamic rfl).symm, Nat.zero_le _, fun _ => rfl, fun _ => Nat.zero_le _,
    fun h => absurd rfl h, fun _ => hw⟩
  rw [hw, hnone isSignalled rfl]
  rfl

namespace LaneInv

variable {s : LaneSystem}

theorem goIdle (h : s.LaneInv) (hf : s.Finds t isGoingIdle) (hd : s.destroyed = false) :
    (s.perform (.goIdle t)).LaneInv := by
  obtain ⟨d, ht⟩ := Finds.phase hf
  have hp : s.perform (.goIdle t) =
      { s with
        lane :=
          { s.lane with
            idleTasks := s.lane.idleTasks + 1
            threads := s.lane.threads.set t ⟨d, .waiting⟩ } } := by
    rw [perform, Lane.goIdle, Lane.setPhase, ht]
  have hq := h.goingIdle (Tally.countP_pos_of_getElem? ht rfl)
  have hsh := shift_set ht .waiting
  have hw := hsh.waiting
  have hs := hsh.signalled
  simp only [reduceCtorEq, ↓reduceIte] at hw hs
  rw [hp]
  refine ⟨h.ledger, ?_, h.created.trans hsh.dynamic.symm, h.bounded, fun _ => hq, fun _ => ?_,
    fun hne => absurd hq hne, fun hd' => ?_⟩
  · have hi := h.idle
    dsimp only
    omega
  · rw [hq]
    exact Nat.zero_le _
  · rw [hd] at hd'
    cases hd'

/-- What a thread that gets the lock changes in the counts, when it leaves the main loop in `p'`. -/
structure Leaves (ts ts' : List LaneThread) (p p' : LanePhase) : Prop where
  waiting : ts'.countP isWaiting = ts.countP isWaiting
  signalled : ts'.countP isSignalled + (if p = .signalled then 1 else 0) = ts.countP isSignalled
  looking : ts'.countP isSignalled + ts'.countP isEntering + 1 =
    ts.countP isSignalled + ts.countP isEntering
  goingIdle : ts'.countP isGoingIdle = ts.countP isGoingIdle + if p' = .goingIdle then 1 else 0
  awake : ts'.countP isAwake + (if p' = .exited then 1 else 0) = ts.countP isAwake
  dynamic : ts'.countP isDynamic = ts.countP isDynamic

theorem leaves_of_shift {ts ts' : List LaneThread} {p p' : LanePhase} (h : Shift ts ts' p p')
    (hp : p = .entering ∨ p = .signalled)
    (hp' : (∃ job, p' = .running job) ∨ p' = .exited ∨ p' = .goingIdle) : Leaves ts ts' p p' := by
  obtain ⟨he, hw, hs, hg, ha, hd⟩ := h
  rcases hp with rfl | rfl <;> rcases hp' with ⟨job, rfl⟩ | rfl | rfl
  all_goals
    simp only [reduceCtorEq, ↓reduceIte, or_false] at he hw hs hg ha
    refine ⟨by omega, ?_, by omega, ?_, ?_, hd⟩ <;> simp only [reduceCtorEq, ↓reduceIte] <;> omega

theorem mainLoop (h : s.LaneInv) {l : Lane} {d : Bool} {p : LanePhase}
    (hfree : s.lane.threads.countP isGoingIdle = 0) (ht : s.lane.threads[t]? = some ⟨d, p⟩)
    (hp : p = .entering ∨ p = .signalled)
    (hl : l = { s.lane with idleTasks := s.lane.idleTasks - if p = .signalled then 1 else 0 }) :
    ({ s with
      lane := (l.mainLoop t d).1
      started := s.started ++ (l.mainLoop t d).2.toList } : LaneSystem).LaneInv := by
  have hlt : l.threads[t]? = some ⟨d, p⟩ := by
    rw [hl]
    exact ht
  have hqueue : l.jobQueue = s.lane.jobQueue := by rw [hl]
  have hi := h.idle
  have hpend := h.pending
  rcases Lane.mainLoop_cases hlt with ⟨job, jobs, hq, hm⟩ | ⟨hq, p', hp', hm⟩
  · have hc := leaves_of_shift (shift_set ht (.running job)) hp (.inl ⟨job, rfl⟩)
    obtain ⟨hw, hs, hk, hg, ha, hd⟩ := hc
    have hawake : 0 < s.lane.threads.countP isAwake :=
      Tally.countP_pos_of_getElem? ht (by rcases hp with rfl | rfl <;> rfl)
    rw [hqueue] at hq
    rw [hm, hl]
    rw [hq, List.length_cons] at hpend
    simp only [reduceCtorEq, ↓reduceIte, Nat.add_zero] at hg ha
    refine ⟨?_, ?_, h.created.trans hd.symm, h.bounded, ?_, ?_, ?_, ?_⟩
    · rw [h.ledger, hq]
      exact List.append_cons _ _ _
    · dsimp only
      omega
    · dsimp only
      omega
    · dsimp only
      omega
    · dsimp only
      omega
    · intro hd'
      exact hw.trans (h.woken hd')
  · have hc := leaves_of_shift (shift_set ht p') hp (.inr hp')
    obtain ⟨hw, hs, hk, hg, ha, hd⟩ := hc
    rw [hqueue] at hq
    rw [hm, hl]
    refine ⟨?_, ?_, h.created.trans hd.symm, h.bounded, fun _ => hq, fun _ => ?_,
      fun hne => absurd hq hne, fun hd' => hw.trans (h.woken hd')⟩
    · rw [h.ledger]
      exact congrArg (· ++ s.lane.jobQueue) (List.append_nil _).symm
    · dsimp only
      omega
    · rw [hq]
      exact Nat.zero_le _

theorem proceed (h : s.LaneInv) (hpos : s.Possible (.proceed t)) :
    (s.perform (.proceed t)).LaneInv := by
  obtain ⟨⟨-, hfree⟩, hf | hf⟩ := hpos
  · obtain ⟨d, ht⟩ := Finds.phase hf
    have hp : s.lane.proceed t = s.lane.mainLoop t d := by rw [Lane.proceed, ht]
    rw [perform, hp]
    exact h.mainLoop hfree ht (.inl rfl) rfl
  · obtain ⟨d, ht⟩ := Finds.phase hf
    have hp : s.lane.proceed t =
        { s.lane with idleTasks := s.lane.idleTasks - 1 }.mainLoop t d := by
      rw [Lane.proceed, ht]
    rw [perform, hp]
    exact h.mainLoop hfree ht (.inr rfl) rfl

theorem jobEnds (h : s.LaneInv) {d : Bool} {p' : LanePhase}
    (ht : s.lane.threads[t]? = some ⟨d, .running job⟩) (hp' : p' = .entering ∨ p' = .exited)
    (hlive : s.lane.jobQueue ≠ [] → p' = .exited → 1 < s.lane.threads.countP isAlive) :
    ({ s with lane := s.lane.setPhase t p' } : LaneSystem).LaneInv := by
  obtain ⟨he, hw, hs, hg, ha, hd⟩ := shift_set ht p'
  rw [Lane.setPhase_eq ht]
  have hpend := h.pending
  have hgoing := h.goingIdle
  have hi := h.idle
  have hwoken := h.woken
  rw [countP_isAlive] at hlive
  have hrun : 0 < s.lane.threads.countP isRunning := Tally.countP_pos_of_getElem? ht rfl
  have hk := countP_isAwake s.lane.threads
  rcases hp' with rfl | rfl
  all_goals
    simp only [reduceCtorEq, ↓reduceIte, or_false, or_self, Nat.add_zero, forall_const]
      at he hw hs hg ha hlive
    refine ⟨h.ledger, ?_, h.created.trans hd.symm, h.bounded, ?_, ?_, ?_, ?_⟩
    all_goals dsimp only
  · omega
  · rw [hg]
    exact hgoing
  · omega
  · omega
  · rw [hw]
    exact hwoken
  · omega
  · rw [hg]
    exact hgoing
  · omega
  · intro hne
    have := hlive hne
    have := List.length_pos_of_ne_nil hne
    omega
  · rw [hw]
    exact hwoken

theorem cleanUp (h : s.LaneInv) : (s.perform .cleanUp).LaneInv :=
  ⟨h.ledger, h.idle, h.created, h.bounded, h.goingIdle, h.pending, h.served, h.woken⟩

theorem broadcast (h : s.LaneInv) : (s.perform .broadcast).LaneInv := by
  have hw := countP_isWaiting_wake s.lane.threads
  have hs := countP_isSignalled_wake s.lane.threads
  have hg := countP_wake isGoingIdle isGoingIdle (fun d p => by cases p <;> rfl) s.lane.threads
  have ha := countP_wake isAwake isAlive (fun d p => by cases p <;> rfl) s.lane.threads
  have hd := countP_wake isDynamic isDynamic (fun d p => by cases p <;> rfl) s.lane.threads
  have hi := h.idle
  have hgoing := h.goingIdle
  have hserved := h.served
  rw [countP_isAlive] at ha
  refine ⟨h.ledger, ?_, h.created.trans hd.symm, h.bounded, ?_, ?_, ?_, fun _ => hw⟩
  all_goals dsimp only [perform, Lane.broadcast]
  · omega
  · rw [hg]
    exact hgoing
  · omega
  · intro hne
    have := hserved hne
    omega

theorem enqueue (h : s.LaneInv) {woken : Nat} (hfree : s.lane.threads.countP isGoingIdle = 0)
    (hwoken : 0 < s.lane.threads.countP isWaiting → s.Finds woken isWaiting)
    (hlive : 0 < s.lane.threads.countP isAlive ∨
      s.lane.dynamicThreadsCreated < s.lane.config.dynamicNumberOfThreads) :
    ({ s with
      lane := s.lane.enqueue job woken
      accepted := s.accepted ++ [job] } : LaneSystem).LaneInv := by
  have hled : s.accepted ++ [job] = s.started ++ (s.lane.jobQueue ++ [job]) := by
    rw [h.ledger, List.append_assoc]
  have hi := h.idle
  have hpend := h.pending
  have hd := h.created
  have hb := h.bounded
  rw [countP_isAlive] at hlive
  rcases Nat.eq_zero_or_pos s.lane.idleTasks with hidle | hidle
  · by_cases hdyn : s.lane.dynamicThreadsCreated < s.lane.config.dynamicNumberOfThreads
    · have hadd := fun p => Tally.countP_append_singleton p s.lane.threads ⟨true, .entering⟩
      have hw : _ = _ + 0 := hadd isWaiting
      have hs : _ = _ + 0 := hadd isSignalled
      have hg : _ = _ + 0 := hadd isGoingIdle
      have ha : _ = _ + 1 := hadd isAwake
      have hd' : _ = _ + 1 := hadd isDynamic
      rw [Lane.enqueue_of_room job woken hidle hdyn]
      refine ⟨hled, ?_, ?_, ?_, ?_, ?_, ?_, fun hdes => hw.trans (h.woken hdes)⟩
      all_goals
        dsimp only
        omega
    · rw [Lane.enqueue_of_full job woken hidle hdyn]
      refine ⟨hled, hi, hd, hb, ?_, ?_, ?_, h.woken⟩
      all_goals
        dsimp only
        omega
  · rw [Lane.enqueue_of_idle job woken hidle]
    by_cases hwait : 0 < s.lane.threads.countP isWaiting
    · obtain ⟨d, ht⟩ := Finds.phase (hwoken hwait)
      obtain ⟨he, hw, hs, hg, ha, hd'⟩ := shift_set ht .signalled
      simp only [reduceCtorEq, ↓reduceIte, or_true, or_self] at he hw hs hg ha
      rw [Lane.signal_eq (l := { s.lane with jobQueue := s.lane.jobQueue ++ [job] }) ht]
      refine ⟨hled, ?_, hd.trans hd'.symm, hb, ?_, ?_, ?_, fun hdes => ?_⟩
      all_goals dsimp only
      · omega
      · omega
      · rw [List.length_append, List.length_singleton]
        omega
      · omega
      · have := h.woken hdes
        omega
    · have hnone : s.lane.threads.countP isWaiting = 0 := by omega
      have hk := countP_isAwake s.lane.threads
      rw [Lane.signal_of_none_waiting (l := { s.lane with jobQueue := s.lane.jobQueue ++ [job] })
        hnone]
      refine ⟨hled, hi, hd, hb, ?_, ?_, ?_, h.woken⟩
      all_goals
        dsimp only
        omega

theorem queueJob (h : s.LaneInv) {woken : Nat} (hpos : s.Possible (.queueJob job woken))
    (hsound : s.Sound (.queueJob job woken)) : (s.perform (.queueJob job woken)).LaneInv := by
  rw [perform, Lane.queueJob]
  cases hacc : s.lane.accepts with
  | error e =>
    exact ⟨h.ledger, h.idle, h.created, h.bounded, h.goingIdle, h.pending, h.served, h.woken⟩
  | ok b =>
    cases b with
    | false => exact h
    | true => exact h.enqueue hpos.1.2 hpos.2 (hsound hacc).1

end LaneInv

/-! ## One step -/

theorem config_perform (s : LaneSystem) (a : LaneAction) :
    (s.perform a).lane.config = s.lane.config := by
  have hset : ∀ (l : Lane) (t : Nat) (p : LanePhase), (l.setPhase t p).config = l.config := by
    intro l t p
    rw [Lane.setPhase]
    split <;> rfl
  have hmain : ∀ (l : Lane) (t : Nat) (d : Bool), (l.mainLoop t d).1.config = l.config := by
    intro l t d
    rw [Lane.mainLoop]
    split
    · exact hset _ _ _
    · split <;> exact hset _ _ _
  cases a with
  | queueJob job woken =>
    rw [perform, Lane.queueJob]
    cases s.lane.accepts with
    | error e => rfl
    | ok b =>
      cases b with
      | false => rfl
      | true =>
        dsimp only
        rw [Lane.enqueue]
        split
        · rw [Lane.signal]
          split <;> rfl
        · split <;> rfl
  | proceed t =>
    rw [perform, Lane.proceed]
    split
    · exact hmain _ _ _
    · exact hmain _ _ _
    · rfl
  | goIdle t => exact hset _ _ _
  | jobDone t => exact hset _ _ _
  | jobRaised t => exact hset _ _ _
  | cleanUp => rfl
  | broadcast => rfl

theorem LaneInv.perform (h : s.LaneInv) {a : LaneAction} (hpos : s.Possible a)
    (hsound : s.Sound a) : (s.perform a).LaneInv := by
  cases a with
  | queueJob job woken => exact h.queueJob hpos hsound
  | proceed t => exact h.proceed hpos
  | goIdle t => exact h.goIdle hpos hsound
  | jobDone t =>
    obtain ⟨d, job, ht⟩ := Finds.running hpos
    exact h.jobEnds ht (.inl rfl) fun _ hp => nomatch hp
  | jobRaised t =>
    obtain ⟨d, job, ht⟩ := Finds.running hpos
    exact h.jobEnds ht (.inr rfl) fun hne _ => hsound hne
  | cleanUp => exact h.cleanUp
  | broadcast => exact h.broadcast

theorem correct_of_sound (h : s.LaneInv) {a : LaneAction} (hpos : s.Possible a)
    (hsound : s.Sound a) : s.Correct a := by
  have h' := h.perform hpos hsound
  refine ⟨h'.ledger, h'.served, ?_, ?_, h'.woken⟩
  · have hle := countP_isAliveDynamic_le (s.perform a).lane.threads
    have hb := h'.bounded
    rw [h'.created, config_perform] at hb
    exact hle.trans hb
  · rintro job woken rfl hacc hw hlt
    obtain ⟨hs, hd⟩ := (hsound hacc).2 hw hlt
    have hi := h.idle
    have hl : (s.perform (.queueJob job woken)).lane = s.lane.enqueue job woken := by
      rw [LaneSystem.perform, Lane.queueJob, hacc]
    rw [hl, Lane.enqueue_of_room job woken (by omega) hd]
    exact List.length_append

theorem sound_of_correct (h : s.LaneInv) {a : LaneAction} (hpos : s.Possible a)
    (hc : s.Correct a) : s.Sound a := by
  cases a with
  | proceed _ | jobDone _ | cleanUp | broadcast => trivial
  | goIdle t =>
    cases hd : s.destroyed with
    | false => exact hd
    | true =>
      obtain ⟨d, ht⟩ := Finds.phase hpos
      have hw := (shift_set ht .waiting).waiting
      simp only [reduceCtorEq, ↓reduceIte] at hw
      have hzero := hc.woken hd
      rw [perform, Lane.goIdle,
        Lane.setPhase_eq (l := { s.lane with idleTasks := s.lane.idleTasks + 1 }) ht] at hzero
      dsimp only at hzero
      omega
  | jobRaised t =>
    intro hne
    obtain ⟨d, job, ht⟩ := Finds.running hpos
    have ha := (shift_set ht .exited).awake
    simp only [reduceCtorEq, ↓reduceIte, or_false] at ha
    have hq : (s.perform (.jobRaised t)).lane.jobQueue ≠ [] := by
      rw [perform, Lane.setPhase_eq ht]
      exact hne
    have hserved := hc.served hq
    rw [perform, Lane.setPhase_eq ht] at hserved
    dsimp only at hserved
    rw [countP_isAlive]
    omega
  | queueJob job woken =>
    intro hacc
    have hl : (s.perform (.queueJob job woken)).lane = s.lane.enqueue job woken := by
      rw [perform, Lane.queueJob, hacc]
    have hi := h.idle
    constructor
    · by_contra hno
      obtain ⟨halive, hdyn⟩ := not_or.mp hno
      rw [countP_isAlive] at halive
      have hk := countP_isAwake s.lane.threads
      rw [Lane.enqueue_of_full job woken (by omega) hdyn] at hl
      have hserved := hc.served
      rw [hl] at hserved
      have := hserved (List.append_ne_nil_of_right_ne_nil _ (List.cons_ne_nil _ _))
      dsimp only at this
      omega
    · intro hw hlt
      have hlen := hc.creates job woken rfl hacc hw hlt
      rw [hl] at hlen
      rcases Nat.eq_zero_or_pos s.lane.idleTasks with hidle | hidle
      · refine ⟨by omega, ?_⟩
        by_contra hdyn
        rw [Lane.enqueue_of_full job woken hidle hdyn] at hlen
        dsimp only at hlen
        omega
      · rw [Lane.enqueue_of_idle job woken hidle, Lane.length_signal] at hlen
        dsimp only at hlen
        omega

/-! ## Runs -/

/-- A lane does what it owes to its jobs and threads in a run exactly when its steps are `Sound`. -/
theorem laneRun_correct_iff (c : LaneConfig) (as : List LaneAction)
    (h : Runs.Along perform Possible (start c) as) :
    Runs.Along perform Correct (start c) as ↔ Runs.Along perform Sound (start c) as := by
  have hstep : ∀ s a, LaneInv s → Possible s a →
      (Correct s a → Sound s a) ∧ (Sound s a → Correct s a ∧ LaneInv (s.perform a)) :=
    fun s a hinv hpos => ⟨sound_of_correct hinv hpos,
      fun hs => ⟨correct_of_sound hinv hpos hs, hinv.perform hpos hs⟩⟩
  exact Runs.along_iff hstep as (start c) (laneInv_start c) h

/-- A base thread and a dynamic one, and a queue of two jobs. -/
def mixedLane : LaneConfig :=
  { baseNumberOfThreads := 1
    dynamicNumberOfThreads := 1
    bufferRequest := true
    maxBufferedRequests := 2 }

/-- The base thread waits and is signalled, a dynamic one is created, and the lane is destroyed. -/
def destroyedRun : List LaneAction :=
  [.proceed 0, .goIdle 0, .queueJob 1 0, .proceed 0, .queueJob 2 0, .proceed 1, .jobDone 0,
    .jobDone 1, .proceed 0, .goIdle 0, .proceed 1, .cleanUp, .broadcast, .proceed 0]

instance (s : LaneSystem) : (a : LaneAction) → Decidable (s.Sound a)
  | .queueJob _ _ => inferInstanceAs (Decidable (_ → _ ∧ _))
  | .jobRaised _ => inferInstanceAs (Decidable (_ ≠ [] → _))
  | .goIdle _ => inferInstanceAs (Decidable (_ = false))
  | .proceed _ | .jobDone _ | .cleanUp | .broadcast => inferInstanceAs (Decidable True)

theorem laneRun_correct_destroyedRun : Runs.Along perform Correct (start mixedLane) destroyedRun :=
  (laneRun_correct_iff mixedLane destroyedRun (by decide)).mpr (by decide)

def dynamicLane : LaneConfig :=
  { baseNumberOfThreads := 0
    dynamicNumberOfThreads := 1
    bufferRequest := true
    maxBufferedRequests := 2 }

/-- The only dynamic thread has exited, but still counts as created when a second job comes. -/
theorem not_correct_dynamicLane :
    ¬∀ c as, Runs.Along perform Possible (start c) as → Runs.Along perform Correct (start c) as := by
  intro hall
  have h := hall dynamicLane [.queueJob 1 0, .proceed 0, .jobDone 0, .proceed 0, .queueJob 2 0]
    (by decide)
  have hserved := h.2.2.2.2.1.served (by decide)
  exact absurd hserved (by decide)

end LaneSystem

end PolyORB
