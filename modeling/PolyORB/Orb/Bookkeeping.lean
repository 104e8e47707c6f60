import PolyORB.Orb.IdleTasks

/-!
# The bookkeeping of the tasks

What `Register_Task`, `Schedule_Task`, `Notify_Event`, `Terminate_Task` and `Unregister_Task` of the
ORB controllers record about the tasks, and how `ORB.Run` calls them.  What a controller finds when
it looks at the exit condition, at the queues of jobs and at the monitors is given by an `Offer`.
-/

namespace PolyORB

inductive ControllerKind where
  | noTasking
  | workers
  | leaderFollowers
  | halfSyncHalfAsync
  deriving DecidableEq

/-- Where a task is in `Run`. -/
inductive RunPoint where
  /-- At the head of the main loop, in the critical section. -/
  | scheduling
  /-- `Schedule_Task` has returned. -/
  | dispatching
  /-- Outside the critical section: at its job, in `Check_Sources` or in its wait. -/
  | away
  | back
  /-- An exception has been raised in the critical section. -/
  | raising
  /-- It has left the main loop, or its witness has terminated it. -/
  | leaving
  /-- The initialization of its witness has failed. -/
  | lost
  deriving DecidableEq

/-- The task is in the critical section. -/
def RunPoint.Inside (p : RunPoint) : Prop := p ≠ .away ∧ p ≠ .lost

instance (p : RunPoint) : Decidable p.Inside := by
  unfold RunPoint.Inside
  infer_instance

/-- What `Schedule_Task` finds for a task. -/
structure Offer where
  /-- The exit condition is met, or the ORB shuts down without a pending job. -/
  exits : Bool
  job : Option Job
  monitor : Option MonitorId
  deriving DecidableEq

structure Books where
  controller : ControllerKind
  /-- The spare tasks that the tasking policy tolerates, if it counts them. -/
  maximumSpareThreads : Option Nat
  summary : Counters
  idleTasks : IdleTasksManager
  /-- `AEM_Infos (J).TI` of the half-sync/half-async controller. -/
  aemTask : AemIndex → Option TaskId
  registered : List TaskId
  task : TaskId → TaskEntry
  point : TaskId → RunPoint
  /-- The task in the critical section. -/
  holder : Option TaskId

namespace Books

def initial (controller : ControllerKind) (maximumSpareThreads : Option Nat) : Books :=
  { controller := controller
    maximumSpareThreads := maximumSpareThreads
    summary := Counters.none
    idleTasks := IdleTasksManager.initial
    aemTask := fun _ => none
    registered := []
    task := fun _ =>
      { kind := .permanent
        state := .unscheduled
        mayExit := false
        job := none
        selector := none
        condition := none
        onList := false }
    point := fun _ => .away
    holder := none }

def move (s : Books) (t : TaskId) (p : RunPoint) : Books :=
  { s with point := Function.update s.point t p }

def record (s : Books) (t : TaskId) (c : Counters) (ti : TaskEntry) : Books :=
  { s with summary := c, task := Function.update s.task t ti }

def manage (s : Books) (t : TaskId) (x : IdleTasksManager) (ti : TaskEntry) : Books :=
  { s with idleTasks := x, task := Function.update s.task t ti }

def aemIndexOfTask (s : Books) (t : TaskId) : Option AemIndex :=
  (List.finRange maximumNumberOfMonitors).find? fun j => s.aemTask j = some t

/-- The task is left out of the idle tasks manager. -/
def monitoringIndex (s : Books) (t : TaskId) : Option AemIndex :=
  if s.controller = .halfSyncHalfAsync then s.aemIndexOfTask t else none

/-! ### Notify_Event -/

/-- `Task_Registered` of the half-sync/half-async controller: the loop has no exit, so the task
becomes the monitoring task of every monitor that has none. -/
def taskRegistered (s : Books) (t : TaskId) : Books :=
  match (List.finRange maximumNumberOfMonitors).find? fun j => s.aemTask j = none with
  | none => s
  | some j =>
    if (s.task t).kind = .permanent then
      { s with
        aemTask := fun i => if s.aemTask i = none then some t else s.aemTask i
        task := Function.update s.task t { s.task t with mayExit := false } }
    else
      -- the assertion on the kind fails
      { s with
        aemTask := Function.update s.aemTask j (some t)
        point := Function.update s.point t .lost
        holder := none }

/-- `Task_Unregistered` of the half-sync/half-async controller. -/
def taskUnregistered (s : Books) (t : TaskId) : Books :=
  match s.aemIndexOfTask t with
  | none => s
  | some j => { s with aemTask := Function.update s.aemTask j none }

def removeIdleTask (s : Books) (t : TaskId) : Books :=
  let (x, ti) := s.idleTasks.removeIdleTask t (s.task t)
  s.manage t x ti

def idleAwake (s : Books) (t : TaskId) : Except Exn Books :=
  match s.controller with
  | .noTasking => .error .programError
  | .workers | .leaderFollowers => .ok (s.removeIdleTask t)
  | .halfSyncHalfAsync =>
    if s.aemIndexOfTask t = none then .ok (s.removeIdleTask t) else .ok s

def awakeIdleTask (s : Books) (t : TaskId) : Except Exn Books := do
  let (x, ti) ← s.idleTasks.awakeIdleTask t (s.task t)
  return s.manage t x ti

def awakeOneIdleTask (s : Books) (allowTransient : Bool) : Except Exn Books :=
  match s.idleTasks.idleTaskLists .permanent, s.idleTasks.idleTaskLists .transient with
  | t :: _, _ => s.awakeIdleTask t
  | [], t :: _ => if allowTransient = true then s.awakeIdleTask t else .ok s
  | [], [] => .ok s

/-- The loop of `Awake_All_Idle_Tasks` over one of the lists, which gets shorter by a task each time
round. -/
def awakeKind (kind : TaskKind) : Nat → Books → Except Exn Books
  | 0, s => .ok s
  | n + 1, s =>
    match s.idleTasks.idleTaskLists kind with
    | [] => .ok s
    | t :: _ => do awakeKind kind n (← s.awakeIdleTask t)

def awakeAllIdleTasks (s : Books) : Except Exn Books := do
  let s ← awakeKind .permanent (s.idleTasks.idleTaskLists .permanent).length s
  awakeKind .transient (s.idleTasks.idleTaskLists .transient).length s

/-- The wait of a blocked task that is aborted otherwise is no matter of the bookkeeping. -/
def tryAllocateOneTask (s : Books) (allowTransient : Bool) : Except Exn Books :=
  let requestedKind := if allowTransient = true then none else some TaskKind.permanent
  if 0 < s.summary requestedKind (some .unscheduled) then .ok s
  else if 0 < s.summary requestedKind (some .idle) then s.awakeOneIdleTask allowTransient
  else .ok s

def rescheduleTask (s : Books) (t : TaskId) : Except Exn Books :=
  match (s.task t).state with
  | .running | .blocked => .ok s
  | .idle => s.awakeIdleTask t
  | .terminated | .unscheduled => .error .programError

def requestResultReady (s : Books) (t : TaskId) : Except Exn Books :=
  if s.controller = .noTasking then .ok s else s.rescheduleTask t

def orbShutdown (s : Books) : Except Exn Books :=
  if s.controller = .noTasking then .ok s else s.awakeAllIdleTasks

/-! ### Register_Task, Terminate_Task and Unregister_Task -/

def registerTask (s : Books) (t : TaskId) (kind : TaskKind) (mayExit : Bool) :
    Except Exn Books := do
  let ti : TaskEntry :=
    { kind := kind
      state := .unscheduled
      mayExit := mayExit
      job := none
      selector := none
      condition := none
      onList := false }
  let c ← s.summary.taskCreated ti
  let s : Books := { (s.record t c ti).move t .scheduling with
    registered := t :: s.registered
    holder := some t }
  return if s.controller = .halfSyncHalfAsync then s.taskRegistered t else s

/-- `End_Of_Check_Sources`, which a blocked task notifies, records nothing about the task. -/
def terminateTask (s : Books) (t : TaskId) : Except Exn Books := do
  let s ← if (s.task t).state = .idle then s.idleAwake t else pure s
  let (c, ti) ← s.summary.setStateTerminated (s.task t)
  return s.record t c ti

def unregisterTask (s : Books) (t : TaskId) : Except Exn Books := do
  let c ← s.summary.taskRemoved (s.task t)
  let s : Books := { s with summary := c, registered := s.registered.erase t, holder := none }
  return if s.controller = .halfSyncHalfAsync then s.taskUnregistered t else s

/-! ### Schedule_Task -/

/-- The task goes idle in the care of the idle tasks manager. -/
def goIdle (s : Books) (t : TaskId) (c : Counters) (ti : TaskEntry) : Except Exn Books := do
  let (condition, x, ti) ← s.idleTasks.insertIdleTask t ti
  let (c, ti) ← c.setStateIdle ti condition
  return { s.record t c ti with idleTasks := x }.move t .dispatching

def block (s : Books) (t : TaskId) (c : Counters) (ti : TaskEntry) (monitor : MonitorId) :
    Except Exn Books := do
  let (c, ti) ← c.setStateBlocked ti (some monitor)
  return (s.record t c ti).move t .dispatching

def noTaskingSchedule (s : Books) (t : TaskId) (offer : Offer) (c : Counters) (ti : TaskEntry) :
    Except Exn Books :=
  match offer.monitor with
  | some monitor => s.block t c ti monitor
  -- Program_Error, "dead lock detected"
  | none => .ok ((s.record t c ti).move t .raising)

def workersSchedule (s : Books) (t : TaskId) (offer : Offer) (c : Counters) (ti : TaskEntry) :
    Except Exn Books :=
  match offer.monitor with
  | some monitor => s.block t c ti monitor
  | none => s.goIdle t c ti

/-- The notepad of the thread is one more place where a job may be. -/
def leaderFollowersSchedule (s : Books) (t : TaskId) (offer : Offer) (c : Counters)
    (ti : TaskEntry) : Except Exn Books :=
  s.workersSchedule t offer c ti

def halfSyncHalfAsyncSchedule (s : Books) (t : TaskId) (offer : Offer) (c : Counters)
    (ti : TaskEntry) : Except Exn Books :=
  match s.aemIndexOfTask t, offer.monitor with
  | none, _ => s.goIdle t c ti
  | some _, some monitor => s.block t c ti monitor
  | some j, none => do
    let (c, ti) ← c.setStateIdle ti (some (.monitoring j))
    return (s.record t c ti).move t .dispatching

/-- The controllers differ in what they do with a task for which there is no job. -/
def withoutJob (s : Books) (t : TaskId) (offer : Offer) (c : Counters) (ti : TaskEntry) :
    Except Exn Books :=
  match s.controller with
  | .noTasking => s.noTaskingSchedule t offer c ti
  | .workers => s.workersSchedule t offer c ti
  | .leaderFollowers => s.leaderFollowersSchedule t offer c ti
  | .halfSyncHalfAsync => s.halfSyncHalfAsyncSchedule t offer c ti

def scheduleTask (s : Books) (t : TaskId) (offer : Offer) : Except Exn Books :=
  if (s.task t).state = .terminated then .ok (s.move t .dispatching)
  else do
    let (c, ti) ← s.summary.setStateUnscheduled (s.task t)
    if offer.exits = true then
      let (c, ti) ← c.setStateTerminated ti
      return (s.record t c ti).move t .dispatching
    else
      match offer.job with
      | some job => do
        let (c, ti) ← c.setStateRunning ti (some job)
        return (s.record t c ti).move t .dispatching
      | none => s.withoutJob t offer c ti

/-! ### Run -/

def leaveSection (s : Books) (t : TaskId) : Books := { s.move t .away with holder := none }

/-- `Idle` of the tasking policy. -/
def idle (s : Books) (t : TaskId) : Except Exn Books :=
  match s.maximumSpareThreads with
  | none => .ok (s.leaveSection t)
  | some maximum =>
    if (s.task t).kind = .permanent ∧ (s.task t).mayExit = true ∧
        maximum < s.summary (some .permanent) (some .idle) then do
      let s ← s.terminateTask t
      return s.move t .scheduling
    else .ok (s.leaveSection t)

/-- What the main loop does with a task that has been scheduled. -/
def dispatch (s : Books) (t : TaskId) : Except Exn Books :=
  match (s.task t).state with
  | .running | .blocked => .ok (s.leaveSection t)
  | .idle => s.idle t
  | .terminated => .ok (s.move t .leaving)
  | .unscheduled => .ok (s.move t .raising)

/-- `Perform_Work`, `Try_Check_Sources` or `Idle` comes back into the critical section. -/
def enter (s : Books) (t : TaskId) : Books := { s.move t .back with holder := some t }

/-- The event that the task then notifies.  Only `Idle_Awake` is recorded. -/
def complete (s : Books) (t : TaskId) : Except Exn Books := do
  let s ← if (s.task t).state = .idle then s.idleAwake t else pure s
  return s.move t .scheduling

/-- `Finalize` of the witness after an exception or an abort. -/
def abort (s : Books) (t : TaskId) : Except Exn Books := do
  let s ← s.terminateTask t
  return { s.move t .leaving with holder := some t }

end Books

/-- A call of the controller, or a move of a task between two of them. -/
inductive BookAction where
  | registerTask (t : TaskId) (kind : TaskKind) (mayExit : Bool)
  | scheduleTask (t : TaskId) (offer : Offer)
  | dispatch (t : TaskId)
  | enter (t : TaskId)
  | complete (t : TaskId)
  | abort (t : TaskId)
  | unregisterTask (t : TaskId)
  | tryAllocateOneTask (allowTransient : Bool)
  | requestResultReady (t : TaskId)
  | orbShutdown
  deriving DecidableEq

namespace Books

def perform (s : Books) : BookAction → Except Exn Books
  | .registerTask t kind mayExit => s.registerTask t kind mayExit
  | .scheduleTask t offer => s.scheduleTask t offer
  | .dispatch t => s.dispatch t
  | .enter t => .ok (s.enter t)
  | .complete t => s.complete t
  | .abort t => s.abort t
  | .unregisterTask t => s.unregisterTask t
  | .tryAllocateOneTask allowTransient => s.tryAllocateOneTask allowTransient
  | .requestResultReady t => s.requestResultReady t
  | .orbShutdown => s.orbShutdown

/-- An exception leaves the books as they were. -/
def step (s : Books) (a : BookAction) : Books :=
  match s.perform a with
  | .ok s' => s'
  | .error _ => s

/-- The calling discipline of `Run`. -/
def Enabled (s : Books) : BookAction → Prop
  | .registerTask t kind mayExit =>
    t ∉ s.registered ∧ s.holder = none ∧ (kind = .permanent ∨ mayExit = true)
  | .scheduleTask t _ => t ∈ s.registered ∧ s.point t = .scheduling
  | .dispatch t => t ∈ s.registered ∧ s.point t = .dispatching
  | .enter t => t ∈ s.registered ∧ s.point t = .away ∧ s.holder = none
  | .complete t => t ∈ s.registered ∧ s.point t = .back
  | .abort t =>
    t ∈ s.registered ∧
      (s.point t = .scheduling ∨ s.point t = .dispatching ∨ s.point t = .back ∨
        s.point t = .raising ∨ s.point t = .away ∧ s.holder = none)
  | .unregisterTask t => t ∈ s.registered ∧ s.point t = .leaving
  | .requestResultReady t => t ∈ s.registered
  | .tryAllocateOneTask _ | .orbShutdown => True

instance (s : Books) (a : BookAction) : Decidable (s.Enabled a) := by
  cases a <;> unfold Enabled <;> infer_instance

/-- The task has notified `Idle_Awake` and is about to be scheduled again. -/
def Notified (s : Books) (t : TaskId) : Prop := (s.task t).state = .idle ∧ s.point t = .scheduling

instance (s : Books) (t : TaskId) : Decidable (s.Notified t) := by
  unfold Notified
  infer_instance

/-- No task is aborted between its `Idle_Awake` and the `Schedule_Task` that follows. -/
def Orderly (s : Books) : BookAction → Prop
  | .abort t => ¬ s.Notified t
  | _ => True

instance (s : Books) (a : BookAction) : Decidable (s.Orderly a) := by
  cases a <;> unfold Orderly <;> infer_instance

end Books

end PolyORB
