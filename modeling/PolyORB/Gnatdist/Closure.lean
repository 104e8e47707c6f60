import PolyORB.Gnatdist.Analyze
import PolyORB.Lib.Worklist

/-!
# The closure of a partition

XE_Sem: the end of `Analyze`, which finds the tasking, the stubs and the most recent stamp of each
partition by following the withed units.  The loops get a number of rounds.
-/

namespace PolyORB.Gnatdist

/-! ### Files and units -/

def stripSuffix (f : NameId) : NameId :=
  let stripped := (f.reverse.dropWhile (· ≠ '.')).drop 1
  if stripped = [] then f else stripped.reverse

def predefinedNames : List NameId :=
  ["ada", "calendar", "gnat", "interfac", "system", "machcode", "unchconv", "unchdeal", "directio",
    "ioexcept", "sequenio", "text_io"].map String.toList

def isLetter (ch : Char) : Bool :=
  ('a'.val ≤ ch.val && ch.val ≤ 'z'.val) || ('A'.val ≤ ch.val && ch.val ≤ 'Z'.val)

/-- `Is_Predefined_File`, of a name without directory. -/
def isPredefinedFile (f : NameId) : Bool :=
  let name := stripSuffix f
  if 8 < name.length then false
  else
    match name with
    | a :: '-' :: ch :: _ => (a ∈ ['a', 'g', 'i', 's'] && isLetter ch) || name ∈ predefinedNames
    | _ => name ∈ predefinedNames

def AliRecord.withedFiles (a : AliRecord) : List NameId := a.units.flatMap UnitRecord.withs

def AliRecord.assignUnitTasking (a : AliRecord) : TaskingType :=
  if a.units.any fun u => u.rci || u.hasRacw then .pcsTasking
  else if a.tasking = .unknownTasking then .noTasking
  else a.tasking

/-- What `Get_ALI_Id` finds under the name of a file: the load sets the Info fields of the ALI
files, and `Analyze` those of the unit names after it. -/
def LoadedUnits.aliOfFile (l : LoadedUnits) (f : NameId) : Option AliRecord :=
  (l.alis.find? fun a => a.uname = f).or (l.alis.find? fun a => a.afile = f)

/-- `ALIs.Table (Conf_Units.Table (CU).My_ALI)` -/
def LoadedUnits.root (l : LoadedUnits) (cu : ConfUnit) : Except (Option Exn) AliRecord :=
  match cu.myAli with
  | none => .error (some .constraintError)
  | some a => (l.table a).mapError some

section Closure

variable (l : LoadedUnits)

/-! ### Update_Partition_Tasking -/

def updateTasking (t unit : TaskingType) : TaskingType :=
  if t = .pcsTasking then t
  else if t = .userTasking then if unit = .pcsTasking then unit else t
  else if t ≠ unit then unit
  else t

structure TaskingLoop where
  names : NameTable
  tasking : TaskingType
  /-- The stack of files, the last one first. -/
  files : List NameId

def TaskingLoop.pushWith (p : PartitionId) (s : TaskingLoop) (f : NameId) : TaskingLoop :=
  if isPredefinedFile f = true then s
  else
    match l.aliOfFile f with
    | none => s
    | some a =>
      if s.names.byte a.uname = some p then s
      else if a.lastUnit.isCategorized = true then s
      else { s with names := s.names.setByte a.uname (some p), files := f :: s.files }

def TaskingLoop.step (p : PartitionId) (s : TaskingLoop) : Except Exn (Option TaskingLoop) :=
  match s.files with
  | [] => .ok none
  | f :: files =>
    match l.aliOfFile f with
    | none => .error .constraintError
    | some a => .ok (some (a.withedFiles.foldl (TaskingLoop.pushWith l p)
        { s with tasking := updateTasking s.tasking a.assignUnitTasking, files := files }))

structure TaskingTable where
  names : NameTable
  tasking : PartitionId → TaskingType

def updatePartitionTasking (n : Nat) (a : AliRecord) (p : PartitionId) (s : TaskingTable) :
    Except (Option Exn) TaskingTable := do
  let r ← Worklist.run (TaskingLoop.step l p) n
    { names := s.names, tasking := s.tasking p, files := [a.afile] }
  return { names := r.names, tasking := Function.update s.tasking p r.tasking }

/-- The loop over the configured units. -/
def updateTaskings (n : Nat) : List ConfUnit → TaskingTable → Except (Option Exn) TaskingTable
  | [], s => pure s
  | cu :: cus, s => do
    let a ← l.root cu
    let s ← updatePartitionTasking l n a cu.partition
      { s with names := s.names.setByte cu.name (some cu.partition) }
    updateTaskings n cus s

def analyzeTasking (n : Nat) (c : Configuration) (cus : List ConfUnit) (names : NameTable)
    (tasking : PartitionId → TaskingType) : Except (Option Exn) (PartitionId → TaskingType) := do
  let names := l.alis.foldl (fun x a => x.setByte a.uname none) names
  let s ← updateTaskings l n cus { names := names, tasking := tasking }
  return Function.update s.tasking c.mainPartition .pcsTasking

/-! ### Find_Stubs_And_Stamps_From_Closure -/

variable {τ : Type} [LinearOrder τ] (stamp : NameId → τ)

/-- `Update_Most_Recent_Stamp`, the file being in the directory of the monolithic application. -/
def updateMostRecentStamp (mostRecent : Option NameId) (f : NameId) : Option NameId :=
  match mostRecent with
  | none => some f
  | some m => if stamp m < stamp f then some f else some m

structure StubLoop where
  /-- The units with `Stamp_Checked`. -/
  checked : List NameId
  mostRecent : Option NameId
  stubs : List NameId
  /-- The stack of files, the last one first. -/
  files : List NameId

/-- One unit that is configured on the partition. -/
def StubLoop.start (s : StubLoop) (a : AliRecord) : StubLoop :=
  { s with
    checked := a.uname :: s.checked
    mostRecent := updateMostRecentStamp stamp s.mostRecent a.afile
    files := a.withedFiles.reverse ++ s.files }

def startStubs (p : PartitionId) : List ConfUnit → StubLoop → Except (Option Exn) StubLoop
  | [], s => pure s
  | cu :: cus, s =>
    if cu.partition = p then do
      let a ← l.root cu
      startStubs p cus (s.start stamp a)
    else startStubs p cus s

def StubLoop.unchecked (s : StubLoop) (a : AliRecord) : List NameId :=
  a.withedFiles.filter fun f => (l.aliOfFile f).any fun w => w.uname ∉ s.checked

def StubLoop.step (s : StubLoop) : Except Exn (Option StubLoop) :=
  match s.files with
  | [] => .ok none
  | f :: files =>
    match l.aliOfFile f with
    | none => .ok (some { s with files := files })
    | some a =>
      if a.uname ∈ s.checked then .ok (some { s with files := files })
      else
        let s : StubLoop :=
          { s with
            checked := a.uname :: s.checked
            mostRecent := updateMostRecentStamp stamp s.mostRecent f
            files := files }
        if a.lastUnit.isGeneric = false ∧ a.lastUnit.isCategorized = true then
          .ok (some { s with stubs := s.stubs ++ [a.uname] })
        else .ok (some { s with files := (s.unchecked l a).reverse ++ files })

/-- The stub table, and its part and the most recent stamp of each partition. -/
structure StubTable where
  stubs : List NameId
  firstStub : PartitionId → Nat
  lastStub : PartitionId → Nat
  mostRecent : PartitionId → Option NameId

def findStubsAndStampsFromClosure (n : Nat) (cus : List ConfUnit) (p : PartitionId)
    (s : StubTable) : Except (Option Exn) StubTable := do
  let r ← startStubs l stamp p cus
    { checked := [], mostRecent := s.mostRecent p, stubs := [], files := [] }
  let r ← Worklist.run (StubLoop.step l stamp) n r
  return {
    stubs := s.stubs ++ r.stubs
    firstStub := Function.update s.firstStub p (s.stubs.length + 1)
    lastStub := Function.update s.lastStub p (s.stubs.length + r.stubs.length)
    mostRecent := Function.update s.mostRecent p r.mostRecent }

/-- The loop over the partitions. -/
def findStubs (n : Nat) (cus : List ConfUnit) :
    List PartitionId → StubTable → Except (Option Exn) StubTable
  | [], s => pure s
  | p :: ps, s => do
    let s ← findStubsAndStampsFromClosure l stamp n cus p s
    findStubs n cus ps s

/-- `First_Stub .. Last_Stub` of a partition, positions starting at 1. -/
def StubTable.stubsOf (s : StubTable) (p : PartitionId) : List NameId :=
  (s.stubs.take (s.lastStub p)).drop (s.firstStub p - 1)

end Closure

end PolyORB.Gnatdist
