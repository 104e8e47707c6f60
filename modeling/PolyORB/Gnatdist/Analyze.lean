import PolyORB.Lib.Checked
import PolyORB.Types

/-!
# The tables of gnatdist, and the consistency of a configuration

XE_Units and XE_Front: the loaded ALI files, the configured units, the partitions and the channels,
and the name table that all passes share.  A name is the list of its characters.  XE_Sem: `Analyze`
up to its first `Partitioning_Error`.  `Success` is a Boolean result of a check.
-/

namespace PolyORB.Gnatdist

abbrev NameId := List Char

/-- The position in `ALIs`. -/
abbrev AliId := Nat

/-- `Default_Partition_Id`, the partition type, is 0, and the declared partitions follow. -/
abbrev PartitionId := Nat

abbrev ChannelId := Nat

/-- What a unit needs of the tasking, from the least to the most. -/
inductive TaskingType where
  | unknownTasking
  | noTasking
  | userTasking
  | pcsTasking
  deriving DecidableEq

/-- The spec or the body of a library unit. -/
structure UnitRecord where
  rci : Bool
  sharedPassive : Bool
  isGeneric : Bool
  hasRacw : Bool
  /-- The ALI files of the withed units, of those that have one. -/
  withs : List NameId
  deriving DecidableEq

/-- `RCI or else Shared_Passive` -/
def UnitRecord.isCategorized (u : UnitRecord) : Bool := u.rci || u.sharedPassive

structure AliRecord where
  afile : NameId
  uname : NameId
  tasking : TaskingType
  units : List UnitRecord
  isMain : Bool
  units_ne : units ≠ []
  deriving DecidableEq

def AliRecord.lastUnit (a : AliRecord) : UnitRecord := a.units.getLast a.units_ne

/-- The ALI files that have been loaded, one for each unit. -/
structure LoadedUnits where
  alis : List AliRecord
  nodup : (alis.map AliRecord.uname).Nodup
  files_nodup : (alis.map AliRecord.afile).Nodup
  no_number_sign : ∀ a ∈ alis, '#' ∉ a.uname
  deriving DecidableEq

inductive NameInfo where
  | none
  | ali (a : AliId)
  | channel (c : ChannelId)
  deriving DecidableEq

structure NameTable where
  info : NameId → NameInfo
  byte : NameId → Option PartitionId

namespace NameTable

def empty : NameTable :=
  { info := fun _ => .none
    byte := fun _ => none }

def setInfo (x : NameTable) (n : NameId) (i : NameInfo) : NameTable :=
  { x with info := Function.update x.info n i }

def setByte (x : NameTable) (n : NameId) (p : Option PartitionId) : NameTable :=
  { x with byte := Function.update x.byte n p }

def getAliId (x : NameTable) (n : NameId) : Except Exn (Option AliId) :=
  match x.info n with
  | .none => .ok none
  | .ali a => .ok (some a)
  | .channel _ => .error .programError

def getChannelId (x : NameTable) (n : NameId) : Except Exn (Option ChannelId) :=
  match x.info n with
  | .none => .ok none
  | .channel c => .ok (some c)
  | .ali _ => .error .programError

end NameTable

structure ConfUnit where
  name : NameId
  partition : PartitionId
  myUnit : Option UnitRecord
  myAli : Option AliId
  deriving DecidableEq

/-- The two ends of a channel, `none` being `Null_Channel_Partition`. -/
structure Channel where
  lower : Option PartitionId
  upper : Option PartitionId
  deriving DecidableEq

def addChannelPartition (p : PartitionId) (c : Channel) : Channel :=
  match c.lower with
  | none => { c with lower := some p }
  | some l => if l < p then { c with upper := some p } else { lower := some p, upper := some l }

structure PartitionRecord where
  name : NameId
  mainSubprogram : Option NameId
  deriving DecidableEq

/-- The names of the partitions from `Partitions.First` on, that of the partition type first. -/
def partitionNames (partitions : List PartitionRecord) : List NameId :=
  "partition".toList :: partitions.map PartitionRecord.name

/-- What the configuration file declares, in order, every partition being built.  The parser takes
one declaration for each name. -/
structure Configuration where
  /-- The main subprogram of the partition type. -/
  mainSubprogram : Option NameId
  partitions : List PartitionRecord
  /-- The calls of `Add_Conf_Unit` in the front end. -/
  units : List (NameId × PartitionId)
  pcsConfUnit : Option NameId
  mainPartition : PartitionId
  channels : List (PartitionId × PartitionId)
  /-- The major parts of the locations. -/
  locations : List NameId
  nodup : (partitionNames partitions).Nodup
  units_apart : ∀ u ∈ units, u.1 ∉ partitionNames partitions
  pcs_apart : ∀ n ∈ pcsConfUnit, n ∉ partitionNames partitions
  units_declared : ∀ u ∈ units, u.2 ≤ partitions.length
  main_declared : 0 < mainPartition ∧ mainPartition ≤ partitions.length
  channels_declared : ∀ c ∈ channels,
    (0 < c.1 ∧ c.1 ≤ partitions.length) ∧ 0 < c.2 ∧ c.2 ≤ partitions.length
  deriving DecidableEq

namespace Configuration

def declared (c : Configuration) : List PartitionId := List.range' 1 c.partitions.length

/-- `Partitions.Table` of a declared partition. -/
def partition (c : Configuration) (p : PartitionId) : Except Exn PartitionRecord :=
  match c.partitions[p - 1]? with
  | none => .error .constraintError
  | some r => .ok r

end Configuration

/-- The tables that the passes change. -/
structure Tables where
  names : NameTable
  confUnits : List ConfUnit

/-- `Create_Partition`, as far as the name of the partition goes. -/
def Tables.createPartition (s : Tables) (u : NameId × PartitionId) : Tables :=
  { s with names := s.names.setByte u.1 (some u.2) }

def Tables.addConfUnit (s : Tables) (u : NameId × PartitionId) : Tables :=
  if s.names.byte u.1 = some u.2 then s
  else
    { names := s.names.setByte u.1 (some u.2)
      confUnits := s.confUnits ++
        [{ name := u.1, partition := u.2, myUnit := none, myAli := none }] }

/-! ## Consistency -/

/-- The prefix of a name before its last dot. -/
def parentName (n : NameId) : Option NameId :=
  let parent := (n.reverse.dropWhile (· ≠ '.')).reverse
  if 1 < parent.length then some parent.dropLast else none

def LoadedUnits.table (l : LoadedUnits) (a : AliId) : Except Exn AliRecord :=
  match l.alis[a]? with
  | none => .error .constraintError
  | some r => .ok r

/-! ### The checks -/

section Checks

variable (c : Configuration) (l : LoadedUnits) (x : NameTable)

def detectNonAdaConfUnit (cu : ConfUnit) : Except Exn Bool := do
  return (← x.getAliId cu.name).isSome

def detectMultiplyAssignedConfUnit (cu : ConfUnit) : Except Exn (ConfUnit × NameTable × Bool) := do
  match ← x.getAliId cu.name with
  | none => return (cu, x, true)
  | some a =>
    let u := (← l.table a).lastUnit
    let cu := { cu with myUnit := some u, myAli := some a }
    if u.isGeneric = true then return (cu, x, false)
    else if u.isCategorized = true then
      return (cu, x.setByte cu.name (some cu.partition), (x.byte cu.name).isNone)
    else return (cu, x, true)

def checkAll {α : Type} (f : α → Except Exn Bool) : List α → Except Exn Bool
  | [] => pure true
  | a :: as => do
    let ok ← f a
    return ok && (← checkAll f as)

/-- The first loop over the configured units. -/
def checkConfUnits : List ConfUnit → NameTable → Except Exn (List ConfUnit × NameTable × Bool)
  | [], x => pure ([], x, true)
  | cu :: cus, x => do
    let ada ← detectNonAdaConfUnit x cu
    let (cu, x, once) ← detectMultiplyAssignedConfUnit l x cu
    let (cus, x, ok) ← checkConfUnits cus x
    return (cu :: cus, x, ada && once && ok)

def detectNonConfiguredCategorizedUnit (a : AliRecord) : Bool :=
  !(a.lastUnit.isCategorized && !a.lastUnit.isGeneric && (x.byte a.uname).isNone)

def detectNonCollocatedCategorizedChildUnit (cu : ConfUnit) : Except Exn Bool :=
  match cu.myUnit with
  -- `Units.Table (No_Unit_Id)`
  | none => .error .constraintError
  | some u =>
    if u.isCategorized = false then .ok true
    else
      match parentName cu.name with
      | none => .ok true
      | some n => do
        match ← x.getAliId n with
        | none => return true
        | some a =>
          let parent := (← l.table a).lastUnit
          return !(parent.isCategorized && x.byte n ≠ some cu.partition)

def detectEmptyPartition (cus : List ConfUnit) (p : PartitionId) : Bool :=
  cus.any fun cu => cu.partition = p

def detectIncorrectMainSubprogram (p : PartitionRecord) : Except Exn Bool :=
  match p.mainSubprogram with
  | none => .ok true
  | some n => do
    match ← x.getAliId n with
    | none => return false
    | some a => return (← l.table a).isMain

/-- The name of the channel is made of the name of the upper partition, twice. -/
def detectConfiguredChannelDuplication (j : ChannelId) (channel : Channel) :
    Except Exn (NameTable × Bool) :=
  match channel.lower, channel.upper with
  | some lp, some up => do
    let name := (← c.partition up).name
    let n := name ++ '#' :: name
    let found ← x.getChannelId n
    return (x.setInfo n (.channel j), lp ≠ up && found.isNone)
  | _, _ => .error .constraintError

def checkChannels (c : Configuration) :
    ChannelId → List Channel → NameTable → Except Exn Bool
  | _, [], _ => pure true
  | j, channel :: channels, x => do
    let (x, ok) ← detectConfiguredChannelDuplication c x j channel
    return ok && (← checkChannels c (j + 1) channels x)

def detectMalformedLocation (major : NameId) : Bool := major ≠ []

end Checks

/-! ### Analyze -/

def buildNewChannel (pair : PartitionId × PartitionId) : Channel :=
  addChannelPartition pair.2 (addChannelPartition pair.1 { lower := none, upper := none })

/-- The tables with the partitions and no unit. -/
def createPartitions (c : Configuration) : Tables :=
  (partitionNames c.partitions).zipIdx.foldl Tables.createPartition
    { names := NameTable.empty, confUnits := [] }

/-- The calls of `Create_Partition`, and those of `Add_Conf_Unit`: in the front end, for the units
configured on the partition type, and for the unit of the PCS. -/
def configure (c : Configuration) : Tables :=
  let s := c.units.foldl Tables.addConfUnit (createPartitions c)
  let s := ((s.confUnits.filter fun cu => cu.partition = 0).flatMap fun cu =>
    c.declared.map fun p => (cu.name, p)).foldl Tables.addConfUnit s
  match c.pcsConfUnit with
  | none => s
  | some u => s.addConfUnit (u, c.mainPartition)

/-- The two loops that prepare the name table. -/
def prepare (l : LoadedUnits) (s : Tables) : NameTable :=
  let x := s.confUnits.foldl (fun x cu => (x.setInfo cu.name .none).setByte cu.name none) s.names
  l.alis.zipIdx.foldl (fun x a => x.setInfo a.1.uname (.ali a.2)) x

/-- The configured units and `OK` at the first test of `Analyze`. -/
def analyze (c : Configuration) (l : LoadedUnits) : Except Exn (List ConfUnit × Bool) := do
  let s := configure c
  let (cus, x, ok) ← checkConfUnits l s.confUnits (prepare l s)
  let configured := l.alis.all (detectNonConfiguredCategorizedUnit x)
  let collocated ← checkAll (detectNonCollocatedCategorizedChildUnit l x) cus
  let nonempty := c.declared.all (detectEmptyPartition cus)
  let mains ← checkAll (detectIncorrectMainSubprogram l x) c.partitions
  let channels ← checkChannels c 0 (c.channels.map buildNewChannel) x
  let locations := c.locations.all detectMalformedLocation
  return (cus, ok && configured && collocated && nonempty && mains && channels && locations)

end PolyORB.Gnatdist
