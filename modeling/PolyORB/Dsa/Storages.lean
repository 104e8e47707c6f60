import PolyORB.Types
import PolyORB.Lib.Linked
import PolyORB.Lib.Tally

/-!
# Shared variables stored in files

PolyORB.DSA_P.Storages.DFS: partitions that share the files of one directory, and the lock file of
that directory.  A variable is known by a number, its manager in a partition by the two numbers.  A
task makes one step where it enters or leaves a mutex, takes or removes the lock file, works on a
file, or runs the global critical section of its partition.
-/

namespace PolyORB

/-- The modes that `To_File_Mode` uses. -/
inductive StorageMode where
  | inFile
  | outFile
  deriving DecidableEq

inductive StorageRequest (α : Type) where
  | read
  | write (value : α)

inductive StoragePhase (α : Type) where
  | idle
  /-- `Read` or `Write`, before `Enter (Self.IO_Mutex)`. -/
  | entering (v : Nat) (request : StorageRequest α)
  | initiating (v : Nat) (request : StorageRequest α)
  /-- The file was opened, and is to be put on the LRU chain. -/
  | inserting (v : Nat) (request : StorageRequest α)
  | accessing (v : Nat) (request : StorageRequest α)
  | completing (v : Nat)
  | leaving (v : Nat)
  /-- `Lock`, before `Enter (Self.PO_Mutex)`. -/
  | locking (v : Nat)
  | counting (v : Nat)
  | acquiring (v : Nat)
  | unlocking (v : Nat)
  | unlocked (v : Nat)
  /-- The file was closed under the task, which has raised Status_Error. -/
  | raised

structure StorageTask (α : Type) where
  partition : Nat
  phase : StoragePhase α
  /-- The variables that the task has locked. -/
  holds : Nat → Bool
  /-- What the last `Read` has set its variable to. -/
  value : Option α

structure DfsManager where
  /-- The mode of `File`, if it is open. -/
  file : Option StorageMode
  count : Nat
  poMutex : Bool
  ioMutex : Bool
  prev : Option Nat
  next : Option Nat
  acquired : Nat
  released : Nat
  deriving DecidableEq

def DfsManager.new : DfsManager := ⟨none, 0, false, false, none, none, 0, 0⟩

structure Storage (α : Type) where
  tasks : List (StorageTask α)
  /-- By partition and variable. -/
  manager : Nat × Nat → DfsManager
  /-- `LRU_Head` and `LRU_Tail` of a partition. -/
  lru : Nat → Linked.Ends
  sharedFilesOpen : Nat → Nat
  /-- The files of the directory. -/
  content : Nat → Option (List UInt8)
  /-- The manager that has the lock file. -/
  lockFile : Option (Nat × Nat)
  /-- The value that the last `Write` has put into the file. -/
  written : Nat → Option α
  /-- Emptied by an `Open` or `Create` for a `Write` that has not written yet. -/
  emptied : Nat → Bool

inductive StorageAction (α : Type) where
  | read (t v : Nat)
  | write (t v : Nat) (value : α)
  | lock (t v : Nat)
  | unlock (t v : Nat)
  /-- The task goes on with the operation that it is inside. -/
  | step (t : Nat)

def maxSharedFilesOpen : Nat := 20

def toFileMode {α : Type} : StorageRequest α → StorageMode
  | .read => .inFile
  | .write _ => .outFile

namespace Storage

variable {α : Type} (truncates : Bool) (encode : α → List UInt8) (decode : List UInt8 → Option α)

/-- The tasks are idle; the list has their partitions. -/
def start (partitions : List Nat) : Storage α :=
  { tasks := partitions.map fun p => ⟨p, .idle, fun _ => false, none⟩
    manager := fun _ => .new
    lru := fun _ => ⟨none, none⟩
    sharedFilesOpen := fun _ => 0
    content := fun _ => none
    lockFile := none
    written := fun _ => none
    emptied := fun _ => false }

/-! ## Changes of the parts -/

def setManager (s : Storage α) (k : Nat × Nat) (m : DfsManager) : Storage α :=
  { s with manager := Function.update s.manager k m }

def setTask (s : Storage α) (t : Nat) (task : StorageTask α) : Storage α :=
  { s with tasks := s.tasks.set t task }

def modifyManager (s : Storage α) (k : Nat × Nat) (f : DfsManager → DfsManager) : Storage α :=
  s.setManager k (f (s.manager k))

def modifyAt (s : Storage α) (partition : Nat) (p : Option Nat) (f : DfsManager → DfsManager) :
    Storage α :=
  match p with
  | some v => s.modifyManager (partition, v) f
  | none => s

def setLru (s : Storage α) (p : Nat) (e : Linked.Ends) : Storage α :=
  { s with lru := Function.update s.lru p e }

/-! ## Initiate_Request and Complete_Request -/

def closeFirst (s : Storage α) (p : Nat) : Storage α :=
  match (s.lru p).head with
  | none => s
  | some free =>
    let next := (s.manager (p, free)).next
    ((s.modifyAt p next fun m => { m with prev := none }).setLru p
        { s.lru p with head := next }).modifyManager (p, free)
      fun m => { m with next := none, prev := none, file := none }

/-- The new entry goes to the end of the chain. -/
def insertLast (s : Storage α) (p v : Nat) : Storage α :=
  match (s.lru p).head with
  | none => s.setLru p ⟨some v, some v⟩
  | some head =>
    ((s.modifyManager (p, v) fun m => { m with prev := (s.lru p).tail }).modifyAt p (s.lru p).tail
      fun m => { m with next := some v }).setLru p ⟨some head, some v⟩

/-- The critical section, after a file was opened. -/
def countFile (s : Storage α) (p v : Nat) : Storage α :=
  let s := { s with
    sharedFilesOpen := Function.update s.sharedFilesOpen p (s.sharedFilesOpen p + 1) }
  if s.sharedFilesOpen p = maxSharedFilesOpen then (s.closeFirst p).insertLast p v
  else s.insertLast p v

/-- The file is opened or created, or its mode and index are set; `truncates` says what `Open` does
to a file that is opened for a Write. -/
def initiate (s : Storage α) (t : Nat) (task : StorageTask α) (v : Nat)
    (request : StorageRequest α) : Storage α :=
  let k := (task.partition, v)
  let opened := s.modifyManager k fun m => { m with file := some (toFileMode request) }
  if (s.manager k).file.isSome = true then
    opened.setTask t { task with phase := .accessing v request }
  else
    match request with
    | .read =>
      match s.content v with
      | none => s.setTask t { task with phase := .leaving v }
      | some _ => opened.setTask t { task with phase := .inserting v request }
    | .write _ =>
      if truncates = true ∨ (s.content v).isNone = true then
        { opened.setTask t { task with phase := .inserting v request } with
          content := Function.update s.content v (some [])
          emptied := Function.update s.emptied v true }
      else opened.setTask t { task with phase := .inserting v request }

/-- The whole file is read, or the value written at its beginning. -/
def access (s : Storage α) (t : Nat) (task : StorageTask α) (v : Nat) :
    StorageRequest α → Storage α
  | .read =>
    s.setTask t { task with phase := .completing v, value := decode ((s.content v).getD []) }
  | .write x =>
    let data := encode x
    { s.setTask t { task with phase := .completing v } with
      content := Function.update s.content v
        (some (data ++ ((s.content v).getD []).drop data.length))
      written := Function.update s.written v (some x)
      emptied := Function.update s.emptied v false }

def completeRequest (s : Storage α) (k : Nat × Nat) : Storage α :=
  let m := s.manager k
  if 0 < m.count then
    if m.count - 1 = 0 then
      { s.setManager k { m with count := 0, released := m.released + 1 } with lockFile := none }
    else s.setManager k { m with count := m.count - 1 }
  else s

/-! ## Steps -/

def proceed (s : Storage α) (t : Nat) (task : StorageTask α) : Storage α :=
  let k (v : Nat) := (task.partition, v)
  match task.phase with
  | .idle | .raised => s
  | .entering v request =>
    (s.modifyManager (k v) fun m => { m with ioMutex := true }).setTask t
      { task with phase := .initiating v request }
  | .initiating v request => s.initiate truncates t task v request
  | .inserting v request =>
    (s.countFile task.partition v).setTask t { task with phase := .accessing v request }
  | .accessing v request =>
    if (s.manager (k v)).file.isSome = true then s.access encode decode t task v request
    else s.setTask t { task with phase := .raised }
  | .completing v => (s.completeRequest (k v)).setTask t { task with phase := .leaving v }
  | .leaving v =>
    (s.modifyManager (k v) fun m => { m with ioMutex := false }).setTask t
      { task with phase := .idle }
  | .locking v =>
    (s.modifyManager (k v) fun m => { m with poMutex := true }).setTask t
      { task with phase := .counting v }
  | .counting v =>
    (s.modifyManager (k v) fun m => { m with count := m.count + 1 }).setTask t
      (if (s.manager (k v)).count + 1 = 1 then { task with phase := .acquiring v }
        else { task with phase := .idle, holds := Function.update task.holds v true })
  | .acquiring v =>
    { (s.modifyManager (k v) fun m => { m with acquired := m.acquired + 1 }).setTask t
        { task with phase := .idle, holds := Function.update task.holds v true } with
      lockFile := some (k v) }
  | .unlocking v => (s.completeRequest (k v)).setTask t { task with phase := .unlocked v }
  | .unlocked v =>
    (s.modifyManager (k v) fun m => { m with poMutex := false }).setTask t
      { task with phase := .idle }

/-- An idle task starts an operation. -/
def begin (s : Storage α) (t : Nat) (f : StorageTask α → StorageTask α) : Storage α :=
  match s.tasks[t]? with
  | some task => s.setTask t (f task)
  | none => s

def next (s : Storage α) : StorageAction α → Storage α
  | .read t v => s.begin t fun task => { task with phase := .entering v .read }
  | .write t v x => s.begin t fun task => { task with phase := .entering v (.write x) }
  | .lock t v => s.begin t fun task => { task with phase := .locking v }
  | .unlock t v => s.begin t fun task =>
    { task with phase := .unlocking v, holds := Function.update task.holds v false }
  | .step t =>
    match s.tasks[t]? with
    | some task => s.proceed truncates encode decode t task
    | none => s

/-! ## When a step can be made -/

def idle (s : Storage α) (t : Nat) : Bool :=
  match s.tasks[t]? with
  | some ⟨_, .idle, _, _⟩ => true
  | _ => false

def holdsLock (s : Storage α) (t v : Nat) : Bool :=
  match s.tasks[t]? with
  | some task => task.holds v
  | none => false

/-- A mutex that is taken, or the lock file, keeps the task waiting. -/
def canStep (s : Storage α) (t : Nat) : Bool :=
  match s.tasks[t]? with
  | none => false
  | some task =>
    match task.phase with
    | .idle | .raised => false
    | .entering v _ => !(s.manager (task.partition, v)).ioMutex
    | .locking v => !(s.manager (task.partition, v)).poMutex
    | .acquiring _ => s.lockFile.isNone
    | _ => true

/-- A task unlocks what it has locked. -/
def Enabled (s : Storage α) : StorageAction α → Prop
  | .read t _ | .write t _ _ | .lock t _ => s.idle t = true
  | .unlock t v => s.idle t = true ∧ s.holdsLock t v = true
  | .step t => s.canStep t = true

/-! ## What a run has to keep to -/

/-- No Read or Write is completed while the variable is locked; a partition has less than 20 files
to open; and no Read finds a file empty that a Write has opened. -/
def inOrder (s : Storage α) (t : Nat) : Bool :=
  match s.tasks[t]? with
  | none => true
  | some task =>
    match task.phase with
    | .completing v => decide ((s.manager (task.partition, v)).count = 0)
    | .inserting _ _ => decide (s.sharedFilesOpen task.partition + 1 < maxSharedFilesOpen)
    | .accessing v .read => !s.emptied v
    | _ => true

/-- A task does not lock a variable again, and its steps are in order. -/
def Orderly (s : Storage α) : StorageAction α → Prop
  | .read _ _ | .write _ _ _ | .unlock _ _ => True
  | .lock t v => s.holdsLock t v = false
  | .step t => s.inOrder t = true

instance (s : Storage α) : ∀ a : StorageAction α, Decidable (s.Enabled a)
  | .read t _ | .write t _ _ | .lock t _ => inferInstanceAs (Decidable (s.idle t = true))
  | .unlock t v => inferInstanceAs (Decidable (s.idle t = true ∧ s.holdsLock t v = true))
  | .step t => inferInstanceAs (Decidable (s.canStep t = true))

instance (s : Storage α) : ∀ a : StorageAction α, Decidable (s.Orderly a)
  | .read _ _ | .write _ _ _ | .unlock _ _ => inferInstanceAs (Decidable True)
  | .lock t v => inferInstanceAs (Decidable (s.holdsLock t v = false))
  | .step t => inferInstanceAs (Decidable (s.inOrder t = true))

end Storage

end PolyORB
