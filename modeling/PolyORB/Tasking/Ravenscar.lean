import PolyORB.Tasking.IndexManager
import PolyORB.Tasking.RavenscarQueues

/-!
# Ravenscar tasking

PolyORB.Tasking.Profiles.Ravenscar.Threads, Mutexes and Condition_Variables.  One step is one
protected operation.  A thread is known by its index: those of the pool in the order in which their
tasks call `Initialize_Id`, and the main one last.
-/

namespace PolyORB

structure Barrier where
  signaled : Bool
  waiting : Bool
  deriving DecidableEq

namespace Barrier

def prepareWait (b : Barrier) : Except Exn Barrier :=
  if b.signaled = true ∨ b.waiting = true then .error .assertionError
  else .ok { b with waiting := true }

def abortWait (b : Barrier) : Except Exn Barrier :=
  if b.waiting = false then .error .assertionError else .ok { b with waiting := false }

def signal (b : Barrier) : Except Exn Barrier :=
  if b.signaled = true ∨ b.waiting = false then .error .assertionError
  else .ok { b with signaled := true }

/-- The body of the entry `Wait`, `when Signaled`. -/
def wait (b : Barrier) : Except Exn Barrier :=
  if b.waiting = false then .error .assertionError else .ok ⟨false, false⟩

end Barrier

inductive PoolJob where
  | runnable (r : Nat)
  | parameterlessProcedure (p : Nat)
  deriving DecidableEq

inductive JobPassing where
  | useRunnable
  | usePP
  deriving DecidableEq

/-- What a thread calls `Prepare_Suspend` for. -/
inductive Purpose where
  /-- `Simple_Task`, before it has been given a job. -/
  | initial
  /-- `Simple_Task`, after a job. -/
  | next
  | enter (m : Nat)
  | wait (c m : Nat)
  deriving DecidableEq

/-- The protected operation that a thread comes to next. -/
inductive ThreadPhase where
  /-- `Initialize_Id`, or the beginning of `Initialize` in the main task. -/
  | elaborated
  /-- `Synchro_Index_Manager.Initialize`. -/
  | initializing
  | waitForPackageInitialization
  /-- `Synchro_Index_Manager.Get` in `Prepare_Suspend`. -/
  | getting (p : Purpose)
  /-- `Prepare_Wait` on the barrier. -/
  | preparing (p : Purpose) (s : Nat)
  /-- What comes after `Prepare_Suspend`. -/
  | prepared (p : Purpose) (s : Nat)
  /-- `Abort_Wait`. -/
  | aborting (m s : Nat)
  /-- `Leave` of a mutex, perhaps inside of `Wait` for a condition. -/
  | leaving (m : Nat) (inWait : Option (Nat × Nat))
  /-- `Signal` on each of the barriers. -/
  | resuming (barriers : List Nat) (inWait : Option (Nat × Nat × Nat))
  /-- `Wait` on the barrier. -/
  | suspended (p : Purpose) (s : Nat)
  /-- The assertion in `Suspend`. -/
  | checkSignaled (p : Purpose) (s : Nat)
  | checkWaiting (p : Purpose) (s : Nat)
  /-- `Synchro_Index_Manager.Release`. -/
  | releasing (p : Purpose) (s : Nat)
  /-- Before the job. -/
  | starting
  /-- In the job, or in the main task. -/
  | running
  | signalling (c : Nat)
  | broadcasting (c : Nat)
  /-- `Thread_Index_Manager.Get` in `Run_In_Task`. -/
  | obtaining (job : PoolJob)
  /-- `Create_Thread`. -/
  | creating (id : Nat) (job : PoolJob)
  /-- `Lookup`. -/
  | looking (id : Nat) (job : PoolJob)
  /-- `Prepare_Suspend` has failed for good. -/
  | stopped (p : Purpose)
  | failed (e : Exn)

structure RavenscarThread where
  phase : ThreadPhase
  /-- The mutexes that it has entered and not left. -/
  owned : List Nat

structure Ravenscar where
  threads : List RavenscarThread
  synchros : IndexManager
  threadIndices : IndexManager
  barriers : Nat → Barrier
  current : Nat
  packageInitialized : Bool
  /-- `Stopper.My`. -/
  my : Bool
  syncId : Nat → Nat
  jobPassing : Nat → JobPassing
  runnables : Nat → Option Nat
  procedures : Nat → Option Nat
  mutexes : Nat → MutexPO
  conditions : Nat → ConditionPO
  -- what is meant by all that
  owner : Nat → Option Nat
  /-- The threads that wait for a mutex, in the order in which they came. -/
  entering : Nat → List Nat
  /-- The threads that wait for a condition. -/
  waiting : Nat → List Nat
  assigned : List (Option PoolJob)
  accepted : List PoolJob
  started : List PoolJob

inductive RavenscarAction where
  /-- The thread goes on. -/
  | step (t : Nat)
  | enter (t m : Nat)
  | leave (t m : Nat)
  | wait (t c m : Nat)
  | signal (t c : Nat)
  | broadcast (t c : Nat)
  | runInTask (t : Nat) (job : PoolJob)
  /-- The job is done. -/
  | finish (t : Nat)

namespace Ravenscar

/-- `Sync_Id` is not initialized. -/
def start (poolTasks synchroObjects : Nat) (syncId : Nat → Nat) : Ravenscar :=
  { threads := List.replicate (poolTasks + 1) ⟨.elaborated, []⟩
    synchros := .elaborated synchroObjects
    threadIndices := .elaborated poolTasks
    barriers := fun _ => ⟨false, false⟩
    current := 0
    packageInitialized := false
    my := true
    syncId := syncId
    jobPassing := fun _ => .useRunnable
    runnables := fun _ => none
    procedures := fun _ => none
    mutexes := fun _ => .created
    conditions := fun _ => .created
    owner := fun _ => none
    entering := fun _ => []
    waiting := fun _ => []
    assigned := List.replicate poolTasks none
    accepted := []
    started := [] }

def mainTaskIndex (s : Ravenscar) : Nat := s.threadIndices.numberOfIndices

def setThread (s : Ravenscar) (t : Nat) (th : RavenscarThread) : Ravenscar :=
  { s with threads := s.threads.set t th }

def setPhase (s : Ravenscar) (t : Nat) (th : RavenscarThread) (phase : ThreadPhase) : Ravenscar :=
  s.setThread t { th with phase := phase }

def setBarrier (s : Ravenscar) (i : Nat) (b : Barrier) : Ravenscar :=
  { s with barriers := Function.update s.barriers i b }

/-! ## Threads -/

def initializeId (s : Ravenscar) (t : Nat) (th : RavenscarThread) : Except Exn Ravenscar :=
  if s.packageInitialized = true then .error .assertionError
  else if s.mainTaskIndex < s.current then .error .assertionError
  else .ok { s.setPhase t th .initializing with current := s.current + 1 }

def initializePackage (s : Ravenscar) (t : Nat) (th : RavenscarThread) : Except Exn Ravenscar :=
  (s.threadIndices.init true).map fun x =>
    { s.setPhase t th .initializing with threadIndices := x }

def initializeSynchros (s : Ravenscar) (t : Nat) (th : RavenscarThread) : Except Exn Ravenscar :=
  (s.synchros.init false).map fun x =>
    { s.setPhase t th (if t = s.mainTaskIndex then .waitForPackageInitialization
      else .getting .initial) with synchros := x }

def getSynchro (s : Ravenscar) (t : Nat) (th : RavenscarThread) (p : Purpose) :
    Except Exn Ravenscar :=
  s.synchros.get.map fun r => { s.setPhase t th (.preparing p r.1) with synchros := r.2 }

/-- `Simple_Task` assigns the result of `Prepare_Suspend` to its `Sync_Id`. -/
def setSyncId (s : Ravenscar) (t : Nat) (p : Purpose) (i : Nat) : Ravenscar :=
  match p with
  | .initial | .next => { s with syncId := Function.update s.syncId t i }
  | .enter _ | .wait _ _ => s

def prepareWait (s : Ravenscar) (t : Nat) (th : RavenscarThread) (p : Purpose) (i : Nat) :
    Except Exn Ravenscar :=
  (s.barriers i).prepareWait.map fun b =>
    ((s.setPhase t th (.prepared p i)).setBarrier i b).setSyncId t p i

def endInitialization (s : Ravenscar) (t : Nat) (th : RavenscarThread) (i : Nat) : Ravenscar :=
  { s.setPhase t th (.suspended .initial i) with
    packageInitialized := decide (s.mainTaskIndex ≤ s.current) }

def releaseThread (s : Ravenscar) (t : Nat) (th : RavenscarThread) (i : Nat) :
    Except Exn Ravenscar :=
  (s.threadIndices.release t).map fun x =>
    { s.setPhase t th (.suspended .next i) with threadIndices := x }

def abortWait (s : Ravenscar) (t : Nat) (th : RavenscarThread) (m i : Nat) :
    Except Exn Ravenscar :=
  (s.barriers i).abortWait.map fun b =>
    (s.setPhase t th (.releasing (.enter m) i)).setBarrier i b

def waitBarrier (s : Ravenscar) (t : Nat) (th : RavenscarThread) (p : Purpose) (i : Nat) :
    Except Exn Ravenscar :=
  (s.barriers i).wait.map fun b => (s.setPhase t th (.checkSignaled p i)).setBarrier i b

/-- What follows after `Suspend` or `Abort_Suspend`. -/
def resumed (th : RavenscarThread) : Purpose → RavenscarThread
  | .initial | .next => { th with phase := .starting }
  | .enter m => { phase := .running, owned := m :: th.owned }
  | .wait _ m => { th with phase := .getting (.enter m) }

def releaseSynchro (s : Ravenscar) (t : Nat) (th : RavenscarThread) (p : Purpose) (i : Nat) :
    Except Exn Ravenscar :=
  (s.synchros.release i).map fun x => { s.setThread t (resumed th p) with synchros := x }

/-! ## Mutexes and conditions -/

/-- A mutex that is not owned is taken, and otherwise the thread waits for it. -/
def arrive (s : Ravenscar) (t m : Nat) : Ravenscar :=
  match s.owner m with
  | none => { s with owner := Function.update s.owner m (some t) }
  | some _ => { s with entering := Function.update s.entering m (s.entering m ++ [t]) }

/-- The mutex is handed over to the thread that has waited longest. -/
def handOver (s : Ravenscar) (m : Nat) : Ravenscar :=
  { s with
    owner := Function.update s.owner m (s.entering m).head?
    entering := Function.update s.entering m (s.entering m).tail }

def testAndSetEntry (s : Ravenscar) (t : Nat) (th : RavenscarThread) (m i : Nat) :
    Except Exn Ravenscar :=
  ((s.mutexes m).testAndSetEntry s.synchros.numberOfIndices i).map fun r =>
    { (s.setPhase t th (if r.1 = true then .aborting m i else .suspended (.enter m) i)).arrive t m
      with mutexes := Function.update s.mutexes m r.2 }

def prepareCondition (s : Ravenscar) (t : Nat) (th : RavenscarThread) (c m i : Nat) :
    Except Exn Ravenscar :=
  ((s.conditions c).prepareWait s.synchros.numberOfIndices i).map fun x =>
    { s.setPhase t th (.leaving m (some (c, i))) with
      conditions := Function.update s.conditions c x
      waiting := Function.update s.waiting c (s.waiting c ++ [t]) }

/-- After the last `Resume`. -/
def resume (barriers : List Nat) (inWait : Option (Nat × Nat × Nat)) : ThreadPhase :=
  match barriers, inWait with
  | [], none => .running
  | [], some (c, m, i) => .suspended (.wait c m) i
  | _ :: _, _ => .resuming barriers inWait

def leaveMutex (s : Ravenscar) (t : Nat) (th : RavenscarThread) (m : Nat)
    (inWait : Option (Nat × Nat)) : Except Exn Ravenscar :=
  ((s.mutexes m).leave s.synchros.numberOfIndices).map fun r =>
    { (s.setThread t
        { phase := resume r.1.toList (inWait.map fun w => (w.1, m, w.2))
          owned := th.owned.erase m }).handOver m
      with mutexes := Function.update s.mutexes m r.2 }

def signalCondition (s : Ravenscar) (t : Nat) (th : RavenscarThread) (c : Nat) :
    Except Exn Ravenscar :=
  ((s.conditions c).signal s.synchros.numberOfIndices).map fun r =>
    { s.setPhase t th (resume r.1.toList none) with
      conditions := Function.update s.conditions c r.2
      waiting := Function.update s.waiting c (s.waiting c).tail }

def broadcastCondition (s : Ravenscar) (t : Nat) (th : RavenscarThread) (c : Nat) :
    Except Exn Ravenscar :=
  ((s.conditions c).broadcast s.synchros.numberOfIndices).map fun r =>
    { s.setPhase t th (resume r.1 none) with
      conditions := Function.update s.conditions c r.2
      waiting := Function.update s.waiting c [] }

def resumeNext (s : Ravenscar) (t : Nat) (th : RavenscarThread) (i : Nat) (barriers : List Nat)
    (inWait : Option (Nat × Nat × Nat)) : Except Exn Ravenscar :=
  (s.barriers i).signal.map fun b =>
    (s.setPhase t th (resume barriers inWait)).setBarrier i b

/-! ## Run_In_Task -/

def obtainThread (s : Ravenscar) (t : Nat) (th : RavenscarThread) (job : PoolJob) :
    Except Exn Ravenscar :=
  s.threadIndices.get.map fun r =>
    { s.setPhase t th (.creating r.1 job) with threadIndices := r.2 }

def createThread (s : Ravenscar) (t : Nat) (th : RavenscarThread) (id : Nat) (job : PoolJob) :
    Except Exn Ravenscar :=
  if s.packageInitialized = false then .error .assertionError
  else
    match job with
    | .runnable r => .ok { s.setPhase t th (.looking id job) with
        jobPassing := Function.update s.jobPassing id .useRunnable
        runnables := Function.update s.runnables id (some r) }
    | .parameterlessProcedure p => .ok { s.setPhase t th (.looking id job) with
        jobPassing := Function.update s.jobPassing id .usePP
        procedures := Function.update s.procedures id (some p) }

/-- `Lookup` finds the index of the thread, which is then resumed. -/
def lookup (s : Ravenscar) (t : Nat) (th : RavenscarThread) (id : Nat) (job : PoolJob) :
    Except Exn Ravenscar :=
  if s.packageInitialized = false then .error .assertionError
  else if id = s.mainTaskIndex then .error .assertionError
  else .ok { s.setPhase t th (.resuming [s.syncId id] none) with
    assigned := s.assigned.set id (some job)
    accepted := s.accepted ++ [job] }

def jobOf (s : Ravenscar) (t : Nat) : Option PoolJob :=
  match s.jobPassing t with
  | .useRunnable => (s.runnables t).map .runnable
  | .usePP => (s.procedures t).map .parameterlessProcedure

def startJob (s : Ravenscar) (t : Nat) (th : RavenscarThread) : Except Exn Ravenscar :=
  match s.jobOf t with
  | none => .error .constraintError
  | some job => .ok { s.setPhase t th .running with
      assigned := s.assigned.set t none
      started := s.started ++ [job] }

/-! ## Steps -/

/-- What the next operation of a thread does. -/
def perform (s : Ravenscar) (t : Nat) (th : RavenscarThread) : Except Exn Ravenscar :=
  match th.phase with
  | .elaborated => if t = s.mainTaskIndex then s.initializePackage t th else s.initializeId t th
  | .initializing => s.initializeSynchros t th
  | .waitForPackageInitialization => .ok (s.setPhase t th .running)
  | .getting p => s.getSynchro t th p
  | .preparing p i => s.prepareWait t th p i
  | .prepared .initial i => .ok (s.endInitialization t th i)
  | .prepared .next i => s.releaseThread t th i
  | .prepared (.enter m) i => s.testAndSetEntry t th m i
  | .prepared (.wait c m) i => s.prepareCondition t th c m i
  | .aborting m i => s.abortWait t th m i
  | .leaving m inWait => s.leaveMutex t th m inWait
  | .resuming [] inWait => .ok (s.setPhase t th (resume [] inWait))
  | .resuming (i :: barriers) inWait => s.resumeNext t th i barriers inWait
  | .suspended p i => s.waitBarrier t th p i
  | .checkSignaled p i =>
    if (s.barriers i).signaled = true then .error .assertionError
    else .ok (s.setPhase t th (.checkWaiting p i))
  | .checkWaiting p i =>
    if (s.barriers i).waiting = true then .error .assertionError
    else .ok (s.setPhase t th (.releasing p i))
  | .releasing p i => s.releaseSynchro t th p i
  | .starting => s.startJob t th
  | .signalling c => s.signalCondition t th c
  | .broadcasting c => s.broadcastCondition t th c
  | .obtaining job => s.obtainThread t th job
  | .creating id job => s.createThread t th id job
  | .looking id job => s.lookup t th id job
  | .running | .stopped _ | .failed _ => .ok s

/-- An exception in `Prepare_Suspend`: the first task stops for good.  In `Enter` and `Wait`, as in
`Run_In_Task`, the caller gets the exception. -/
def handle (s : Ravenscar) (t : Nat) (th : RavenscarThread) (e : Exn) : Ravenscar :=
  match th.phase with
  | .getting p | .preparing p _ =>
    if s.my = true then { s.setPhase t th (.stopped p) with my := false }
    else
      match p with
      | .initial | .next => s.setPhase t th (.stopped p)
      | .enter _ | .wait _ _ => s.setPhase t th .running
  | .obtaining _ => s.setPhase t th .running
  | _ => s.setPhase t th (.failed e)

def proceed (s : Ravenscar) (t : Nat) (th : RavenscarThread) : Ravenscar :=
  match s.perform t th with
  | .ok s' => s'
  | .error e => s.handle t th e

def call (s : Ravenscar) (t : Nat) (phase : ThreadPhase) : Ravenscar :=
  match s.threads[t]? with
  | none => s
  | some th => s.setPhase t th phase

def next (s : Ravenscar) : RavenscarAction → Ravenscar
  | .step t =>
    match s.threads[t]? with
    | none => s
    | some th => s.proceed t th
  | .enter t m => s.call t (.getting (.enter m))
  | .leave t m => s.call t (.leaving m none)
  | .wait t c m => s.call t (.getting (.wait c m))
  | .signal t c => s.call t (.signalling c)
  | .broadcast t c => s.call t (.broadcasting c)
  | .runInTask t job => s.call t (.obtaining job)
  -- `Free (My_Runnable_Arr (Index))`
  | .finish t => { s.call t (.getting .next) with runnables := Function.update s.runnables t none }

/-- Whether the next operation of the thread is not blocked. -/
def canStep (s : Ravenscar) (t : Nat) (th : RavenscarThread) : Bool :=
  match th.phase with
  | .elaborated => t == s.mainTaskIndex || t == s.current
  | .waitForPackageInitialization => s.packageInitialized
  | .suspended _ i => (s.barriers i).signaled
  | .running | .stopped _ | .failed _ => false
  | _ => true

def isRunning (s : Ravenscar) (t : Nat) : Bool :=
  match s.threads[t]? with
  | some ⟨.running, _⟩ => true
  | _ => false

def owns (s : Ravenscar) (t m : Nat) : Bool :=
  match s.threads[t]? with
  | some th => th.owned.contains m
  | none => false

def Enabled (s : Ravenscar) : RavenscarAction → Prop
  | .step t => ∃ th ∈ s.threads[t]?, s.canStep t th = true
  | .enter t _ | .signal t _ | .broadcast t _ | .runInTask t _ => s.isRunning t = true
  | .leave t m | .wait t _ m => s.isRunning t = true ∧ s.owns t m = true
  | .finish t => s.isRunning t = true ∧ t < s.mainTaskIndex

/-! ## What a run has to keep to -/

/-- The task has prepared its `Sync_Id`. -/
def isPrepared : ThreadPhase → Bool
  | .elaborated | .initializing | .getting .initial | .preparing .initial _ | .stopped .initial
  | .failed _ => false
  | _ => true

/-- All tasks of the pool have prepared their `Sync_Id`. -/
def allPrepared (s : Ravenscar) : Bool :=
  (s.threads.take s.mainTaskIndex).all fun th => isPrepared th.phase

/-- The call of `End_Initialization` does not come between the last `Initialize_Id` and the last
`Prepare_Suspend`. -/
def timely (s : Ravenscar) (t : Nat) : Bool :=
  match s.threads[t]? with
  | some ⟨.prepared .initial _, _⟩ => decide (s.current < s.mainTaskIndex) || s.allPrepared
  | _ => true

def Orderly (s : Ravenscar) : RavenscarAction → Prop
  | .step t => s.timely t = true
  | _ => True

instance (s : Ravenscar) : ∀ a : RavenscarAction, Decidable (s.Enabled a)
  | .step t => inferInstanceAs (Decidable (∃ th ∈ s.threads[t]?, s.canStep t th = true))
  | .enter t _ | .signal t _ | .broadcast t _ | .runInTask t _ =>
    inferInstanceAs (Decidable (s.isRunning t = true))
  | .leave t m | .wait t _ m =>
    inferInstanceAs (Decidable (s.isRunning t = true ∧ s.owns t m = true))
  | .finish t => inferInstanceAs (Decidable (s.isRunning t = true ∧ t < s.mainTaskIndex))

instance (s : Ravenscar) : ∀ a : RavenscarAction, Decidable (s.Orderly a)
  | .step t => inferInstanceAs (Decidable (s.timely t = true))
  | .enter _ _ | .leave _ _ | .wait _ _ _ | .signal _ _ | .broadcast _ _ | .runInTask _ _
  | .finish _ => inferInstanceAs (Decidable True)

end Ravenscar

end PolyORB
