import PolyORB.Types
import PolyORB.Lib.Tally

/-!
# Lanes

PolyORB.Lanes: a job queue with the threads that are attached to it.  A thread runs under the lock
of the lane, which it gives up to run a job and while it waits on the condition variable.  `Destroy`
alone does not take the lock, so the thread that has tested `Clean_Up_In_Progress` and is about to
wait has a state of its own.
-/

namespace PolyORB

structure LaneConfig where
  baseNumberOfThreads : Nat
  dynamicNumberOfThreads : Nat
  bufferRequest : Bool
  maxBufferedRequests : Nat
  deriving DecidableEq

inductive LanePhase where
  /-- About to enter the lock: just created, or back from a job. -/
  | entering
  | running (job : Nat)
  /-- It holds the lock, has found no job and no reason to exit. -/
  | goingIdle
  | waiting
  /-- Signalled, but not yet inside the lock again: it still counts as idle. -/
  | signalled
  | exited
  deriving DecidableEq

structure LaneThread where
  dynamicallyAllocated : Bool
  phase : LanePhase
  deriving DecidableEq

structure Lane where
  config : LaneConfig
  jobQueue : List Nat
  dynamicThreadsCreated : Nat
  idleTasks : Nat
  cleanUpInProgress : Bool
  threads : List LaneThread
  /-- An exception was raised inside the lock, which nobody will leave. -/
  lockLost : Bool
  deriving DecidableEq

namespace LaneThread

def inPhase (p : LanePhase) (t : LaneThread) : Bool := t.phase == p

def isEntering : LaneThread → Bool := inPhase .entering
def isGoingIdle : LaneThread → Bool := inPhase .goingIdle
def isWaiting : LaneThread → Bool := inPhase .waiting
def isSignalled : LaneThread → Bool := inPhase .signalled
def isRunning (t : LaneThread) : Bool :=
  match t.phase with
  | .running _ => true
  | _ => false
def isAlive (t : LaneThread) : Bool := t.phase != .exited
def isDynamic (t : LaneThread) : Bool := t.dynamicallyAllocated

/-- Alive and not waiting without a signal. -/
def isAwake (t : LaneThread) : Bool := t.phase != .exited && t.phase != .waiting

def isAliveDynamic (t : LaneThread) : Bool := t.dynamicallyAllocated && t.isAlive

/-- Woken by `Signal` or `Broadcast`. -/
def wake (t : LaneThread) : LaneThread := if t.isWaiting then { t with phase := .signalled } else t

end LaneThread

namespace Lane

def create (c : LaneConfig) : Lane :=
  { config := c
    jobQueue := []
    dynamicThreadsCreated := 0
    idleTasks := 0
    cleanUpInProgress := false
    threads := List.replicate c.baseNumberOfThreads ⟨false, .entering⟩
    lockLost := false }

def setPhase (l : Lane) (t : Nat) (phase : LanePhase) : Lane :=
  match l.threads[t]? with
  | some thread => { l with threads := l.threads.set t { thread with phase } }
  | none => l

/-! ## Queue_Job -/

/-- Whether a job may be queued; `Max_Buffered_Requests` is converted to `Natural`. -/
def accepts (l : Lane) : Except Exn Bool :=
  if l.config.bufferRequest = false then
    .ok (decide (l.jobQueue.length < l.config.baseNumberOfThreads))
  else if 2 ^ 31 ≤ l.config.maxBufferedRequests then .error .constraintError
  else .ok (decide (l.jobQueue.length < l.config.maxBufferedRequests))

/-- `Signal`, which wakes one of the waiting threads. -/
def signal (l : Lane) (woken : Nat) : Lane :=
  match l.threads[woken]? with
  | some thread => { l with threads := l.threads.set woken thread.wake }
  | none => l

/-- A job is put on the queue, and a thread is woken or created for it. -/
def enqueue (l : Lane) (job woken : Nat) : Lane :=
  let l := { l with jobQueue := l.jobQueue ++ [job] }
  if 0 < l.idleTasks then l.signal woken
  else if l.dynamicThreadsCreated < l.config.dynamicNumberOfThreads then
    { l with
      threads := l.threads ++ [⟨true, .entering⟩]
      dynamicThreadsCreated := l.dynamicThreadsCreated + 1 }
  else l

/-- `Queue_Job`: a job that is refused raises Program_Error outside the lock. -/
def queueJob (l : Lane) (job woken : Nat) : Lane :=
  match l.accepts with
  | .error _ => { l with lockLost := true }
  | .ok false => l
  | .ok true => l.enqueue job woken

/-! ## Run -/

/-- The main loop, inside the lock, up to where the thread gives the lock up or is about to, and the
job that it has fetched. -/
def mainLoop (l : Lane) (t : Nat) (dynamicallyAllocated : Bool) : Lane × Option Nat :=
  match l.jobQueue with
  | job :: jobs => ({ l with jobQueue := jobs }.setPhase t (.running job), some job)
  | [] =>
    if l.cleanUpInProgress = true ∨ dynamicallyAllocated = true then (l.setPhase t .exited, none)
    else (l.setPhase t .goingIdle, none)

/-- A thread gets the lock, after a signal or not. -/
def proceed (l : Lane) (t : Nat) : Lane × Option Nat :=
  match l.threads[t]? with
  | some ⟨d, .entering⟩ => l.mainLoop t d
  | some ⟨d, .signalled⟩ => { l with idleTasks := l.idleTasks - 1 }.mainLoop t d
  | _ => (l, none)

/-- The thread waits, and leaves the lock. -/
def goIdle (l : Lane) (t : Nat) : Lane := { l with idleTasks := l.idleTasks + 1 }.setPhase t .waiting

/-! ## Destroy -/

def cleanUp (l : Lane) : Lane := { l with cleanUpInProgress := true }

def broadcast (l : Lane) : Lane := { l with threads := l.threads.map LaneThread.wake }

/-! ## What the operations do to the threads -/

theorem setPhase_eq {l : Lane} {t : Nat} {d : Bool} {p : LanePhase}
    (h : l.threads[t]? = some ⟨d, p⟩) (phase : LanePhase) :
    l.setPhase t phase = { l with threads := l.threads.set t ⟨d, phase⟩ } := by
  rw [setPhase, h]

theorem signal_eq {l : Lane} {t : Nat} {d : Bool} (h : l.threads[t]? = some ⟨d, .waiting⟩) :
    l.signal t = { l with threads := l.threads.set t ⟨d, .signalled⟩ } := by
  rw [signal, h]
  rfl

theorem signal_of_none_waiting {l : Lane} (h : l.threads.countP LaneThread.isWaiting = 0) (t : Nat) :
    l.signal t = l := by
  rw [signal]
  cases ht : l.threads[t]? with
  | none => rfl
  | some thread =>
    obtain ⟨hlt, hget⟩ := List.getElem?_eq_some_iff.mp ht
    have hw := List.countP_eq_zero.mp h thread (List.mem_of_getElem? ht)
    have hset : l.threads.set t thread.wake = l.threads := by
      rw [LaneThread.wake, if_neg hw, ← hget, List.set_getElem_self]
    dsimp only
    rw [hset]

theorem length_signal (l : Lane) (t : Nat) : (l.signal t).threads.length = l.threads.length := by
  rw [signal]
  split
  · exact List.length_set
  · rfl

section Enqueue

variable {l : Lane} (job woken : Nat)

theorem enqueue_of_idle (h : 0 < l.idleTasks) :
    l.enqueue job woken = { l with jobQueue := l.jobQueue ++ [job] }.signal woken := by
  exact if_pos h

theorem enqueue_of_room (hi : l.idleTasks = 0)
    (hd : l.dynamicThreadsCreated < l.config.dynamicNumberOfThreads) :
    l.enqueue job woken =
      { l with
        jobQueue := l.jobQueue ++ [job]
        threads := l.threads ++ [⟨true, .entering⟩]
        dynamicThreadsCreated := l.dynamicThreadsCreated + 1 } := by
  exact (if_neg (Nat.not_lt.mpr hi.le)).trans (if_pos hd)

theorem enqueue_of_full (hi : l.idleTasks = 0)
    (hd : ¬l.dynamicThreadsCreated < l.config.dynamicNumberOfThreads) :
    l.enqueue job woken = { l with jobQueue := l.jobQueue ++ [job] } := by
  exact (if_neg (Nat.not_lt.mpr hi.le)).trans (if_neg hd)

end Enqueue

theorem mainLoop_cases {l : Lane} {t : Nat} {d : Bool} {p : LanePhase}
    (h : l.threads[t]? = some ⟨d, p⟩) :
    (∃ job jobs, l.jobQueue = job :: jobs ∧
      l.mainLoop t d =
        ({ l with jobQueue := jobs, threads := l.threads.set t ⟨d, .running job⟩ }, some job)) ∨
    (l.jobQueue = [] ∧ ∃ p', (p' = .exited ∨ p' = .goingIdle) ∧
      l.mainLoop t d = ({ l with threads := l.threads.set t ⟨d, p'⟩ }, none)) := by
  unfold mainLoop
  cases hq : l.jobQueue with
  | cons job jobs =>
    refine .inl ⟨job, jobs, rfl, ?_⟩
    dsimp only
    rw [setPhase_eq (l := { l with jobQueue := jobs }) h]
  | nil =>
    refine .inr ⟨rfl, ?_⟩
    by_cases hx : l.cleanUpInProgress = true ∨ d = true
    · exact ⟨.exited, .inl rfl, by rw [if_pos hx, setPhase_eq h, hq]⟩
    · exact ⟨.goingIdle, .inr rfl, by rw [if_neg hx, setPhase_eq h, hq]⟩

end Lane

end PolyORB
