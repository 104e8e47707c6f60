import PolyORB.Poa.ObjectIds

/-!
# Active object maps

PolyORB.Object_Maps.System and PolyORB.Object_Maps.User.  The index of an entry of a system map is
the text of its id.
-/

namespace PolyORB

open Literals

/-- A `Servant_Access` that is not null. -/
abbrev Servant := Nat

structure MapEntry where
  oid : UnmarshalledOid
  servant : Option Servant
  deriving DecidableEq

/-! ## System maps -/

/-- `table` is what is allocated, from index 1, and `last` the part that is in use. -/
structure SystemObjectMap where
  table : List (Option MapEntry)
  last : Nat
  last_le : last ≤ table.length
  length_le : table.length ≤ integerLast
  deriving DecidableEq

namespace SystemObjectMap

def initialMap : SystemObjectMap := ⟨List.replicate 10 none, 0, Nat.zero_le _, by decide⟩

/-- The length after `Reallocate`: one round of its loop is enough for one more element. -/
def grownLength (length : Nat) : Nat := max (length * 101 / 100) (length + 10)

def incrementLast (m : SystemObjectMap) : Except Exn SystemObjectMap :=
  if h : m.last < m.table.length then .ok ⟨m.table, m.last + 1, h, m.length_le⟩
  else if hlen : integerLast < m.table.length * 101 then .error .constraintError
  else .ok
    { table := m.table ++ List.replicate (grownLength m.table.length - m.table.length) none
      last := m.last + 1
      last_le := by
        have := m.last_le
        simp only [List.length_append, List.length_replicate, grownLength]
        omega
      length_le := by
        simp only [List.length_append, List.length_replicate, grownLength]
        simp only [integerLast] at hlen ⊢
        omega }

/-- `Table (Index) := Obj`. -/
def setEntry (m : SystemObjectMap) (j : Nat) (e : Option MapEntry) : SystemObjectMap :=
  { m with
    table := m.table.set (j - 1) e
    last_le := by rw [List.length_set]; exact m.last_le
    length_le := by rw [List.length_set]; exact m.length_le }

/-- `Table (Index)`, where there is one. -/
def entryAt (m : SystemObjectMap) (j : Nat) : Option MapEntry := (m.table[j - 1]?).join

/-- The index of the first null entry in use. -/
def firstFree (m : SystemObjectMap) : Option Nat :=
  ((m.table.take m.last).findIdx? Option.isNone).map (· + 1)

/-- `Add` without an index: the entry gets its id once the index is known. -/
def add (m : SystemObjectMap) (oidOf : Nat → UnmarshalledOid) :
    Except Exn (SystemObjectMap × Nat) :=
  match m.firstFree with
  | some j => .ok (m.setEntry j (some ⟨oidOf j, none⟩), j)
  | none => do
    let m ← m.incrementLast
    return (m.setEntry m.last (some ⟨oidOf m.last, none⟩), m.last)

def checkIndex (m : SystemObjectMap) (index : Int) : Except Exn Nat :=
  if 1 ≤ index ∧ index ≤ m.table.length then .ok index.toNat else .error .constraintError

def addAt (m : SystemObjectMap) (obj : MapEntry) (index : Int) : Except Exn SystemObjectMap :=
  if obj.oid.systemGenerated = false then .error .programError
  else do
    let j ← m.checkIndex index
    match m.entryAt j with
    | some old =>
      if old.servant.isSome = true then .error .programError else return m.setEntry j (some obj)
    | none => return m.setEntry j (some obj)

def indexOf (m : SystemObjectMap) (item : UnmarshalledOid) : Except Exn Nat :=
  match integerValue item.id with
  | some i => m.checkIndex i
  | none => .error .constraintError

def getById (m : SystemObjectMap) (item : UnmarshalledOid) : Except Exn (Option MapEntry) :=
  if item.systemGenerated = false then .error .programError
  else do
    let j ← m.indexOf item
    return m.entryAt j

def getByServant (m : SystemObjectMap) (item : Servant) : Option MapEntry :=
  ((m.table.take m.last).filterMap id).find? (fun e => e.servant == some item)

def removeById (m : SystemObjectMap) (item : UnmarshalledOid) :
    Except Exn (SystemObjectMap × Option MapEntry) :=
  if item.systemGenerated = false then .error .programError
  else do
    let j ← m.indexOf item
    return (m.setEntry j none, m.entryAt j)

end SystemObjectMap

/-! ## User maps -/

abbrev UserObjectMap := List (Text × MapEntry)

namespace UserObjectMap

def getById (m : UserObjectMap) (item : UnmarshalledOid) : Option MapEntry :=
  (m.find? fun e => e.1 == item.id).map Prod.snd

/-- `Add`: `Insert` changes nothing when the key is there. -/
def add (m : UserObjectMap) (obj : MapEntry) : UserObjectMap :=
  if (m.find? fun e => e.1 == obj.oid.id).isSome = true then m else m ++ [(obj.oid.id, obj)]

def getByServant (m : UserObjectMap) (item : Servant) : Option MapEntry :=
  (m.map Prod.snd).find? (fun e => e.servant == some item)

def removeById (m : UserObjectMap) (item : UnmarshalledOid) : UserObjectMap × Option MapEntry :=
  (m.filter fun e => e.1 != item.id, getById m item)

def setServant (m : UserObjectMap) (item : UnmarshalledOid) (p : Servant) : UserObjectMap :=
  m.map fun e => if e.1 == item.id then (e.1, { e.2 with servant := some p }) else e

end UserObjectMap

inductive ObjectMap where
  | system (m : SystemObjectMap)
  | user (m : UserObjectMap)
  deriving DecidableEq

namespace ObjectMap

def getById : ObjectMap → UnmarshalledOid → Except Exn (Option MapEntry)
  | system m, item => m.getById item
  | user m, item => .ok (UserObjectMap.getById m item)

def getByServant : ObjectMap → Servant → Option MapEntry
  | system m, item => m.getByServant item
  | user m, item => UserObjectMap.getByServant m item

def removeById : ObjectMap → UnmarshalledOid → Except Exn (ObjectMap × Option MapEntry)
  | system m, item => do
    let (m, e) ← m.removeById item
    return (system m, e)
  | user m, item => .ok (user (UserObjectMap.removeById m item).1, (UserObjectMap.removeById m item).2)

end ObjectMap

end PolyORB
