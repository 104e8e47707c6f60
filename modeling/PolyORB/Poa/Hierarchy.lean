import PolyORB.Lib.Branches
import PolyORB.Poa.RelativeUri

/-!
# The hierarchy of POAs

The children table of each POA, and the global table of all POAs by their full name.  A POA that is
initialized enters the children table of its father before its policies are checked, and the global
table after that.
-/

namespace PolyORB

open Branches Character

/-- The names that `Initialize_POA` accepts. -/
abbrev AdapterName := { name : Text // ValidAdapterName name }

/-- `activator` says whether the POA has an adapter activator. -/
structure PoaNode where
  id : Nat
  activator : Bool
  deriving DecidableEq

abbrev PoaTree := Tree AdapterName PoaNode

/-- `Global_POATable`. -/
abbrev PoaTable := List (Text × Nat)

namespace PoaTable

/-- `Insert` changes nothing when the key is there. -/
def insert (t : PoaTable) (key : Text) (id : Nat) : PoaTable :=
  if (List.lookup key t).isSome = true then t else (key, id) :: t

def delete (t : PoaTable) (key : Text) : PoaTable := List.filter (fun e => e.1 != key) t

mutual

/-- `Destroy` removes the POA from the table, and then its children. -/
def destroy : Text → PoaTree → PoaTable → PoaTable
  | address, .node _ children, t => destroyAll address children (delete t (slash :: address))

def destroyAll : Text → Forest AdapterName PoaNode → PoaTable → PoaTable
  | _, .nil, t => t
  | address, .cons name poa rest, t =>
    destroyAll address rest (destroy (absoluteAddress address name.1) poa t)

end

end PoaTable

/-- `next` is the identity of the next POA object. -/
structure Hierarchy where
  root : Option PoaTree
  table : PoaTable
  next : Nat

def addressOf (path : List AdapterName) : Text :=
  path.foldl (fun address name => absoluteAddress address name.1) []

namespace Hierarchy

/-- The root POA, which is not in the global table. -/
def createRoot (activator : Bool) : Hierarchy := ⟨some (.node ⟨0, activator⟩ .nil), [], 1⟩

def poaAt (h : Hierarchy) (path : List AdapterName) : Option PoaNode :=
  h.root.bind fun t => t.valueAt path

def childOf (h : Hierarchy) (path : List AdapterName) (name : Text) : Option AdapterName :=
  if valid : ValidAdapterName name then
    if (h.poaAt (path ++ [⟨name, valid⟩])).isSome = true then some ⟨name, valid⟩ else none
  else none

def destroy (h : Hierarchy) (path : List AdapterName) : Hierarchy :=
  match h.root with
  | none => h
  | some t =>
    match t.follow path with
    | none => h
    | some poa =>
      { h with
        root := path.getLast?.map fun name => t.cutAt path.dropLast name
        table := h.table.destroy (addressOf path) poa }

/-- `Initialize_POA` on the POA at `path`: the hierarchy and the error. -/
def initializePoa (h : Hierarchy) (path : List AdapterName) (name : Text) (activator : Bool)
    (compatible : Bool) : Hierarchy × Option ErrorId :=
  if valid : ValidAdapterName name then
    match h.root with
    | none => (h, none)
    | some t =>
      if (t.valueAt path).isNone = true then (h, none)
      else if (t.valueAt (path ++ [⟨name, valid⟩])).isSome = true then
        (h, some .adapterAlreadyExistsE)
      else
        let created : Hierarchy :=
          { h with root := some (t.addAt path ⟨name, valid⟩ ⟨h.next, activator⟩), next := h.next + 1 }
        if compatible = false then
          (created.destroy (path ++ [⟨name, valid⟩]), some .invalidPolicyE)
        else
          ({ created with
            table := created.table.insert (slash :: addressOf (path ++ [⟨name, valid⟩])) h.next },
            none)
  else (h, some .wrongAdapterE)

end Hierarchy

inductive PoaCall where
  | initializePoa (path : List AdapterName) (name : Text) (activator compatible : Bool)
  | destroy (path : List AdapterName)

def Hierarchy.perform (h : Hierarchy) : PoaCall → Hierarchy
  | .initializePoa path name activator compatible => (h.initializePoa path name activator compatible).1
  | .destroy path => h.destroy path

/-! ## Find_POA -/

/-- What an adapter activator does when it is asked for a child: it may create it, with or without
an activator of its own, and it returns a result and perhaps an error. -/
structure Answer where
  creates : Option Bool
  result : Bool
  error : Option ErrorId
  deriving DecidableEq

/-- `asked` counts the calls of `Unknown_Adapter`. -/
structure Search where
  hierarchy : Hierarchy
  asked : Nat

abbrev Found := Option Nat × Option ErrorId

/-- The first component of a relative path, up to the separator. -/
def firstComponent (name : Text) : Text := name.takeWhile (· != slash)

/-- What follows the first component and the separator. -/
def afterComponent (name : Text) : Text := (name.dropWhile (· != slash)).tail

namespace Search

variable (answers : Nat → Answer)

/-- The next call of `Unknown_Adapter`. -/
def ask (s : Search) (path : List AdapterName) (name : Text) : Search :=
  match (answers s.asked).creates with
  | none => { s with asked := s.asked + 1 }
  | some activator =>
    { hierarchy := (s.hierarchy.initializePoa path name activator true).1, asked := s.asked + 1 }

/-- `Find_POA` on the POA at `path`; the first argument bounds the depth of its calls. -/
def findPoa : Nat → Search → List AdapterName → Text → Bool → Option ErrorId →
    Search × Except Exn Found
  | 0, s, _, _, _, _ => (s, .error .unfinished)
  | depth + 1, s, path, name, activateIt, error =>
    match s.hierarchy.poaAt path with
    | none => (s, .error .constraintError)
    | some self =>
      if name = [] then (s, .ok (some self.id, error))
      else
        match List.lookup (addressOf path ++ slash :: name) s.hierarchy.table with
        | some id => (s, .ok (some id, error))
        | none =>
          if firstComponent name = [] then (s, .error .assertionError)
          else
            match s.hierarchy.childOf path (firstComponent name) with
            | some child =>
              findPoa depth s (path ++ [child]) (afterComponent name) activateIt error
            | none =>
              if activateIt = true ∧ self.activator = true then
                let answer := answers s.asked
                let s' := s.ask answers path (firstComponent name)
                let error := answer.error.or error
                if error.isSome = true then (s', .ok (none, error))
                else
                  -- the call is made again after an answer that declines, too
                  findPoa depth s' path name activateIt
                    (if answer.result = true then none else some .adapterNonExistentE)
              else (s, .ok (none, some .adapterNonExistentE))

end Search

end PolyORB
