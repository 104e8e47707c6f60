import PolyORB.Lib.Checked
import PolyORB.Lib.Runs
import PolyORB.Lib.Tally
import PolyORB.Orb.Tasks

/-!
# The thread pool

PolyORB.ORB.Thread_Pool: the operational parameters, the tasks that the pool creates, and what
`Idle` and `Check_Spares` make of the counters of the ORB controller.  The counters are those of
the tasks that are registered.
-/

namespace PolyORB

/-- The operational parameters, as `Initialize_Tasking_Policy_Access` leaves them. -/
structure PoolConfig where
  maximumThreads : Nat
  startThreads : Nat
  maximumSpareThreads : Nat
  minimumSpareThreads : Nat
  spares_le : maximumSpareThreads ≤ maximumThreads
  start_le : startThreads ≤ maximumThreads
  minimum_le : minimumSpareThreads ≤ maximumSpareThreads
  minimum_le_start : minimumSpareThreads ≤ startThreads
  deriving DecidableEq

structure TaskingSection where
  maxThreads : Option Int
  startThreads : Option Int
  maxSpareThreads : Option Int
  minSpareThreads : Option Int
  deriving DecidableEq

namespace PoolConfig

abbrev defaultStartThreads : Int := 4
abbrev defaultMinimumSpareThreads : Int := 2
abbrev defaultMaximumSpareThreads : Int := 4
abbrev defaultMaximumThreads : Int := 10

/-- The assignment to a variable of type `Natural`. -/
def natural (n : Int) : Except Exn Nat :=
  if 0 ≤ n then .ok n.toNat else .error .constraintError

/-- The order of the parameters matters, since each default is made consistent with those that
come before. -/
def initializeTaskingPolicyAccess (c : TaskingSection) : Except Exn PoolConfig := do
  let maximumThreads ← natural (c.maxThreads.getD defaultMaximumThreads)
  let startThreads ← natural (c.startThreads.getD (min maximumThreads defaultStartThreads))
  let maximumSpareThreads ←
    natural (c.maxSpareThreads.getD (min maximumThreads defaultMaximumSpareThreads))
  let minimumSpareThreads ←
    natural (c.minSpareThreads.getD (min maximumSpareThreads defaultMinimumSpareThreads))
  if h : maximumSpareThreads ≤ maximumThreads ∧ startThreads ≤ maximumThreads ∧
      minimumSpareThreads ≤ maximumSpareThreads then
    return {
      maximumThreads := maximumThreads
      startThreads := max startThreads minimumSpareThreads
      maximumSpareThreads := maximumSpareThreads
      minimumSpareThreads := minimumSpareThreads
      spares_le := h.1
      start_le := max_le h.2.1 (h.2.2.trans h.1)
      minimum_le := h.2.2
      minimum_le_start := le_max_right _ _ }
  else throw .constraintError

end PoolConfig

/-- Who calls `Run`: a task of the pool, a permanent task of the user, or a task that waits for the
result of its request. -/
inductive TaskOrigin where
  | pool
  | user
  | request
  deriving DecidableEq

inductive TaskPlace where
  /-- Registered, and not scheduled yet. -/
  | fresh
  /-- Running or Blocked. -/
  | busy
  | waiting
  /-- Idle, its wait has been signalled. -/
  | awakened
  /-- Idle, after `Check_Spares`, about to be scheduled. -/
  | checked
  /-- Terminated. -/
  | ending
  /-- Unregistered. -/
  | gone
  deriving DecidableEq

structure PoolTask where
  origin : TaskOrigin
  mayExit : Bool
  place : TaskPlace
  deriving DecidableEq

namespace PoolTask

def kind (t : PoolTask) : TaskKind :=
  match t.origin with
  | .pool | .user => .permanent
  | .request => .transient

/-- It is counted under `Permanent`. -/
def isPermanent (t : PoolTask) : Bool := t.kind = .permanent && t.place ≠ .gone

/-- It is counted under `Permanent` and `Idle`. -/
def isSpare (t : PoolTask) : Bool :=
  t.kind = .permanent && (t.place = .waiting || t.place = .awakened || t.place = .checked)

def isPool (t : PoolTask) : Bool := t.origin = .pool && t.place ≠ .gone

end PoolTask

structure ThreadPool where
  config : PoolConfig
  tasks : List PoolTask
  /-- The tasks that `Create_Task` has created and that have not registered yet. -/
  created : Nat
  shuttingDown : Bool
  /-- The task that stays in the critical section from one action to the next. -/
  holder : Option Nat
  deriving DecidableEq

/-- What `Schedule_Task` makes of a task. -/
inductive Schedule where
  | work
  | idle
  | terminated
  deriving DecidableEq

inductive PoolAction where
  | register (origin : TaskOrigin) (mayExit : Bool)
  | awake (i : Nat)
  /-- Some calls of `Create_Task` raise `Tasking_Error`. -/
  | checkSpares (i : Nat) (failed : Nat)
  | schedule (i : Nat) (schedule : Schedule)
  /-- An exception in its job, or an abort. -/
  | abort (i : Nat)
  | unregister (i : Nat)
  | shutdown
  deriving DecidableEq

namespace ThreadPool

/-- After `Create_Threads`, as many tasks are being created. -/
def initial (config : PoolConfig) : ThreadPool :=
  { config := config
    tasks := []
    created := config.startThreads
    shuttingDown := false
    holder := none }

/-- `Get_Tasks_Count (OC, Kind => Permanent)` -/
def permanentTasks (s : ThreadPool) : Nat := s.tasks.countP PoolTask.isPermanent

/-- `Get_Tasks_Count (OC, Kind => Permanent, State => Idle)` -/
def currentSpares (s : ThreadPool) : Nat := s.tasks.countP PoolTask.isSpare

def newSpares (s : ThreadPool) : Int :=
  if s.currentSpares < s.config.minimumSpareThreads ∧ s.shuttingDown = false then
    min ((s.config.minimumSpareThreads : Int) - s.currentSpares)
      (min ((s.config.maximumThreads : Int) - s.permanentTasks)
        ((s.config.maximumSpareThreads : Int) - s.currentSpares))
  else 0

def setPlace (s : ThreadPool) (i : Nat) (t : PoolTask) (place : TaskPlace) : ThreadPool :=
  { s with tasks := s.tasks.set i { t with place := place } }

/-- The end of `Idle`, with `Check_Spares`. -/
def checkSpares (s : ThreadPool) (i : Nat) (t : PoolTask) (failed : Nat) : ThreadPool :=
  { s.setPlace i t .checked with
    created := s.created + (s.newSpares.toNat - failed)
    holder := some i }

def leave (s : ThreadPool) (i : Nat) (t : PoolTask) (place : TaskPlace) : ThreadPool :=
  { s.setPlace i t place with holder := none }

/-- The task stays in the critical section until it is unregistered. -/
def terminate (s : ThreadPool) (i : Nat) (t : PoolTask) : ThreadPool :=
  { s.setPlace i t .ending with holder := some i }

/-- `Idle`, up to the wait. -/
def goIdle (s : ThreadPool) (i : Nat) (t : PoolTask) : ThreadPool :=
  if t.kind = .permanent ∧ t.mayExit = true ∧
      s.config.maximumSpareThreads < (s.setPlace i t .waiting).currentSpares then
    s.terminate i t
  else s.leave i t .waiting

def scheduleTask (s : ThreadPool) (i : Nat) (t : PoolTask) (schedule : Schedule) : ThreadPool :=
  match schedule with
  | .work => s.leave i t .busy
  | .idle => s.goIdle i t
  | .terminated => s.terminate i t

/-- Fewer tasks are to be created when a task of the pool registers. -/
def register (s : ThreadPool) (origin : TaskOrigin) (mayExit : Bool) : ThreadPool :=
  { s with
    tasks := s.tasks ++ [{ origin := origin, mayExit := mayExit, place := .fresh }]
    created := if origin = .pool then s.created - 1 else s.created
    holder := some s.tasks.length }

def step (s : ThreadPool) : PoolAction → ThreadPool
  | .register origin mayExit => s.register origin mayExit
  | .awake i =>
    match s.tasks[i]? with
    | none => s
    | some t => s.setPlace i t .awakened
  | .checkSpares i failed =>
    match s.tasks[i]? with
    | none => s
    | some t => s.checkSpares i t failed
  | .schedule i schedule =>
    match s.tasks[i]? with
    | none => s
    | some t => s.scheduleTask i t schedule
  | .abort i =>
    match s.tasks[i]? with
    | none => s
    | some t => s.terminate i t
  | .unregister i =>
    match s.tasks[i]? with
    | none => s
    | some t => s.leave i t .gone
  | .shutdown => { s with shuttingDown := true }

/-- The task is in one of the places, and nobody else is in the critical section. -/
def At (s : ThreadPool) (i : Nat) (places : List TaskPlace) : Prop :=
  ∃ t ∈ s.tasks[i]?, t.place ∈ places ∧ (s.holder = none ∨ s.holder = some i)

instance (s : ThreadPool) (i : Nat) (places : List TaskPlace) : Decidable (s.At i places) := by
  unfold At
  infer_instance

def Enabled (s : ThreadPool) : PoolAction → Prop
  | .register origin _ => s.holder = none ∧ (origin = .pool → 0 < s.created)
  | .awake i => s.holder = none ∧ s.At i [.waiting]
  | .checkSpares i _ => s.holder = none ∧ s.At i [.awakened]
  | .schedule i _ => s.At i [.fresh, .busy, .checked]
  | .abort i => s.At i [.fresh, .busy, .waiting, .awakened, .checked]
  | .unregister i => s.At i [.ending]
  | .shutdown => s.holder = none

instance (s : ThreadPool) (a : PoolAction) : Decidable (s.Enabled a) := by
  cases a <;> unfold Enabled <;> infer_instance

end ThreadPool

end PolyORB
