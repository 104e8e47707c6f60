import PolyORB.Types
import PolyORB.Lib.Lifetimes
import PolyORB.Lib.Tally

/-!
# Binding objects and the references to them

PolyORB.Smart_Pointers and the list of binding objects that PolyORB.ORB keeps.  A task has a stack
of the subprograms that it is inside, each with what is left of it.  One step makes one atomic
operation on a counter or runs one critical section of the ORB; `Get_Binding_Objects` holds the ORB
lock over several steps.  A pointer whose `Dec_Usage` is still to come counts as a reference.
-/

namespace PolyORB

open Lifetimes

/-- `__sync_add_and_fetch` on an `Integer_32`, which wraps around. -/
def syncAddAndFetch (counter value : Int) : Int := (counter + value).bmod (2 ^ 32)

structure BindingObject where
  counter : Int
  /-- Attached to the list of the ORB. -/
  referenced : Bool
  /-- The endpoint is not closed. -/
  valid : Bool
  registrations : Nat
  removals : Nat
  finalizations : Nat
  frees : Nat
  deriving DecidableEq

def BindingObject.new : BindingObject := ⟨0, false, true, 0, 0, 0, 0⟩

/-- What is left of a subprogram. -/
inductive BindingFrame where
  /-- An assignment has finalized its target, the variable `r`; it copies `source`, and adjusts. -/
  | assigning (r source : Nat)
  /-- `Dec_Usage`. -/
  | releasing (o : Nat)
  /-- `Finalize` of the object, before `Unregister_Binding_Object`. -/
  | finalizing (o : Nat)
  | dismantling (o : Nat)
  /-- `Add_Binding_Object`, for the object that `Register_Binding_Object` was called on. -/
  | registering (o : Nat)
  /-- `Get_Binding_Objects`, inside the ORB lock, before the objects `rest`. -/
  | scanning (predicate : Option (Nat → Bool)) (rest result : List Nat)
  /-- `Reuse_Entity` has incremented a counter that was zero. -/
  | giving (o : Nat) (predicate : Option (Nat → Bool)) (rest result : List Nat)
  /-- The local `Ref` is set, and is to be prepended to the result. -/
  | holding (o : Nat) (predicate : Option (Nat → Bool)) (rest result : List Nat)
  /-- The local `Ref` is to be finalized. -/
  | dropping (o : Nat) (predicate : Option (Nat → Bool)) (rest result : List Nat)
  /-- An assertion of `Dec_Usage` or `Reuse_Entity` failed. -/
  | failed

structure BindingSystem where
  created : Nat
  object : Nat → BindingObject
  /-- `A_Ref` of the variables of type `Ref`. -/
  refs : List (Option Nat)
  bindingObjects : List Nat
  /-- The task inside the ORB critical section, if it is there for several steps. -/
  lock : Option Nat
  tasks : List (List BindingFrame)

inductive BindingAction where
  /-- `Setup_Binding_Object`, which makes `r` the first reference to a new object. -/
  | setup (t r : Nat)
  /-- A new variable, without initial value. -/
  | declare (t : Nat)
  | copy (t source : Nat)
  | assign (t r source : Nat)
  /-- `Set`, with `Entity_Of` of a variable or with null. -/
  | set (t r : Nat) (source : Option Nat)
  | finalize (t r : Nat)
  | registerBindingObject (t r : Nat)
  | getBindingObjects (t : Nat) (predicate : Option (Nat → Bool))
  /-- The endpoint of the object is closed. -/
  | close (o : Nat)
  /-- The task goes on with the subprogram that it is inside. -/
  | proceed (t : Nat)

namespace BindingSystem

def start (tasks : Nat) : BindingSystem :=
  { created := 0
    object := fun _ => .new
    refs := []
    bindingObjects := []
    lock := none
    tasks := List.replicate tasks [] }

/-! ## Changes of the parts -/

def setObject (s : BindingSystem) (o : Nat) (x : BindingObject) : BindingSystem :=
  { s with object := Function.update s.object o x }

def setRef (s : BindingSystem) (r : Nat) (p : Option Nat) : BindingSystem :=
  { s with refs := s.refs.set r p }

def addRef (s : BindingSystem) (p : Option Nat) : BindingSystem := { s with refs := s.refs ++ [p] }

def setTask (s : BindingSystem) (t : Nat) (stack : List BindingFrame) : BindingSystem :=
  { s with tasks := s.tasks.set t stack }

def stack (s : BindingSystem) (t : Nat) : List BindingFrame := (s.tasks[t]?).getD []

def call (s : BindingSystem) (t : Nat) (f : BindingFrame) : BindingSystem :=
  s.setTask t (f :: s.stack t)

def target (s : BindingSystem) (r : Nat) : Option Nat := (s.refs[r]?).getD none

/-! ## Smart pointers -/

def incUsage (s : BindingSystem) (o : Nat) : BindingSystem :=
  let x := s.object o
  if x.counter = -1 then s else s.setObject o { x with counter := syncAddAndFetch x.counter 1 }

/-- `Finalize` of a `Ref` or the end of `Set`, up to `Dec_Usage`. -/
def release (s : BindingSystem) (t : Nat) : Option Nat → BindingSystem
  | some o => s.call t (.releasing o)
  | none => s

def adjust (s : BindingSystem) : Option Nat → BindingSystem
  | some o => s.incUsage o
  | none => s

def setEntity (s : BindingSystem) (t r : Nat) (entity : Option Nat) : BindingSystem :=
  let previous := s.target r
  if previous = entity then s else ((s.adjust entity).setRef r entity).release t previous

def finalizeRef (s : BindingSystem) (t r : Nat) : BindingSystem :=
  (s.setRef r none).release t (s.target r)

/-- The task is inside `Dec_Usage`; `rest` is what it does after it. -/
def decUsage (s : BindingSystem) (t o : Nat) (rest : List BindingFrame) : BindingSystem :=
  let x := s.object o
  if x.counter = -1 then s.setTask t rest
  else
    let counter := syncAddAndFetch x.counter (-1)
    if counter < 0 then (s.setObject o { x with counter }).setTask t (.failed :: rest)
    else if counter = 0 then
      (s.setObject o { x with counter, finalizations := x.finalizations + 1 }).setTask t
        (.finalizing o :: rest)
    else (s.setObject o { x with counter }).setTask t rest

/-! ## The list of the ORB -/

def addBindingObject (s : BindingSystem) (o : Nat) : BindingSystem :=
  let x := s.object o
  { s.setObject o { x with referenced := true, registrations := x.registrations + 1 } with
    bindingObjects := o :: s.bindingObjects }

def removeBindingObject (s : BindingSystem) (o : Nat) : BindingSystem :=
  let x := s.object o
  { s.setObject o { x with referenced := false, removals := x.removals + 1 } with
    bindingObjects := s.bindingObjects.erase o }

def unregisterBindingObject (s : BindingSystem) (o : Nat) : BindingSystem :=
  if (s.object o).referenced = true then s.removeBindingObject o else s

def freeObject (s : BindingSystem) (o : Nat) : BindingSystem :=
  let x := s.object o
  s.setObject o { x with frees := x.frees + 1 }

/-- `Reuse_Entity` on an object of the list, and where its increment leads. -/
def reuseEntity (s : BindingSystem) (t o : Nat) (predicate : Option (Nat → Bool))
    (rest result : List Nat) (below : List BindingFrame) : BindingSystem :=
  let x := s.object o
  if x.counter = -1 then s.setTask t (.failed :: below)
  else
    let counter := syncAddAndFetch x.counter 1
    (s.setObject o { x with counter }).setTask t
      ((if counter = 1 then .giving o predicate rest result
        else .holding o predicate rest result) :: below)

/-- `Get_Binding_Objects` is asked for the object. -/
def selects (predicate : Option (Nat → Bool)) (o : Nat) : Bool :=
  match predicate with
  | none => true
  | some p => p o

/-- The loop of `Get_Binding_Objects`; with a predicate it is left at the first match. -/
def scan (s : BindingSystem) (t : Nat) (predicate : Option (Nat → Bool)) (result : List Nat)
    (below : List BindingFrame) : List Nat → BindingSystem
  | [] =>
    { s.setTask t below with lock := none, refs := s.refs ++ result.map some }
  | o :: rest =>
    if (s.object o).valid = false then
      (s.removeBindingObject o).setTask t (.scanning predicate rest result :: below)
    else if selects predicate o = true then
      s.reuseEntity t o predicate (if predicate.isSome = true then [] else rest) result below
    else s.setTask t (.scanning predicate rest result :: below)

/-! ## Steps -/

def proceed (s : BindingSystem) (t : Nat) : BindingSystem :=
  match s.stack t with
  | [] => s
  | .assigning r source :: below =>
    ((s.adjust (s.target source)).setRef r (s.target source)).setTask t below
  | .releasing o :: below => s.decUsage t o below
  | .finalizing o :: below => (s.unregisterBindingObject o).setTask t (.dismantling o :: below)
  | .dismantling o :: below => (s.freeObject o).setTask t below
  | .registering o :: below => (s.addBindingObject o).setTask t below
  | .scanning predicate rest result :: below => s.scan t predicate result below rest
  | .giving o predicate rest result :: below =>
    let x := s.object o
    (s.setObject o { x with counter := syncAddAndFetch x.counter (-1) }).setTask t
      (.scanning predicate rest result :: below)
  | .holding o predicate rest result :: below =>
    (s.incUsage o).setTask t (.dropping o predicate rest (o :: result) :: below)
  | .dropping o predicate rest result :: below =>
    s.decUsage t o (.scanning predicate rest result :: below)
  | .failed :: _ => s

def next (s : BindingSystem) : BindingAction → BindingSystem
  | .setup t r =>
    { s with created := s.created + 1 }.setEntity t r (some s.created)
  | .declare _ => s.addRef none
  | .copy _ source => (s.adjust (s.target source)).addRef (s.target source)
  | .assign t r source => (s.call t (.assigning r source)).finalizeRef t r
  | .set t r source => s.setEntity t r (source.bind s.target)
  | .finalize t r => s.finalizeRef t r
  | .registerBindingObject t r =>
    match s.target r with
    | some o => s.call t (.registering o)
    | none => s
  | .getBindingObjects t predicate =>
    { s.call t (.scanning predicate s.bindingObjects []) with lock := some t }
  | .close o => s.setObject o { s.object o with valid := false }
  | .proceed t => s.proceed t

/-! ## When a step can be made -/

/-- The task is outside the modelled subprograms: it runs on its own or dismantles an object. -/
def idle (s : BindingSystem) (t : Nat) : Bool :=
  match s.tasks[t]? with
  | some [] | some (.dismantling _ :: _) => true
  | _ => false

def isAssigning (r : Nat) : BindingFrame → Bool
  | .assigning r' _ => r' == r
  | _ => false

/-- The assignments to a variable that are under way. -/
def assignments (s : BindingSystem) (r : Nat) : Nat :=
  (s.tasks.map (·.countP (isAssigning r))).sum

def Writable (s : BindingSystem) (r : Nat) : Prop := r < s.refs.length ∧ s.assignments r = 0

/-- What the task is inside of can go on. -/
def canProceed (s : BindingSystem) (t : Nat) : Bool :=
  match s.stack t with
  | [] | .failed :: _ => false
  | .finalizing _ :: _ | .registering _ :: _ => s.lock.isNone
  | _ => true

inductive BindingRole where
  | reference | attempt | finalizing | dismantling | registering
  deriving DecidableEq

/-- How often the frame stands for the object, in a role. -/
def weight (o : Nat) : BindingRole → BindingFrame → Nat
  | .reference, .releasing p => if p = o then 1 else 0
  | .reference, .scanning _ _ result => result.count o
  | .reference, .giving _ _ _ result => result.count o
  | .reference, .holding p _ _ result => (if p = o then 1 else 0) + result.count o
  | .reference, .dropping p _ _ result => (if p = o then 1 else 0) + result.count o
  | .attempt, .giving p _ _ _ => if p = o then 1 else 0
  | .finalizing, .finalizing p => if p = o then 1 else 0
  | .dismantling, .dismantling p => if p = o then 1 else 0
  | .registering, .registering p => if p = o then 1 else 0
  | _, _ => 0

def stackWeight (o : Nat) (role : BindingRole) (st : List BindingFrame) : Nat :=
  (st.map (weight o role)).sum

def total (s : BindingSystem) (o : Nat) (role : BindingRole) : Nat :=
  (s.tasks.map (stackWeight o role)).sum

/-- The references that designate the object. -/
def references (s : BindingSystem) (o : Nat) : Nat :=
  s.refs.count (some o) + s.total o .reference

/-- A binding object is registered once, by the task that has set it up. -/
def Enabled (s : BindingSystem) : BindingAction → Prop
  | .setup t r => s.idle t = true ∧ s.Writable r
  | .declare t => s.idle t = true
  | .copy t _ => s.idle t = true
  | .assign t r source => s.idle t = true ∧ s.Writable r ∧ r ≠ source
  | .set t r _ => s.idle t = true ∧ s.Writable r
  | .finalize t r => s.idle t = true ∧ s.Writable r
  | .registerBindingObject t r =>
    s.idle t = true ∧
      ∃ o ∈ s.target r, (s.object o).registrations + s.total o .registering = 0
  | .getBindingObjects t _ => s.idle t = true ∧ s.lock = none
  | .close _ => True
  | .proceed t => s.canProceed t = true

instance (s : BindingSystem) (r : Nat) : Decidable (s.Writable r) :=
  inferInstanceAs (Decidable (_ ∧ _))

instance (s : BindingSystem) : (a : BindingAction) → Decidable (s.Enabled a)
  | .setup _ _ | .set _ _ _ | .finalize _ _ | .getBindingObjects _ _ =>
    inferInstanceAs (Decidable (_ ∧ _))
  | .assign _ _ _ => inferInstanceAs (Decidable (_ ∧ _ ∧ _))
  | .declare _ | .copy _ _ | .proceed _ => inferInstanceAs (Decidable (_ = true))
  | .registerBindingObject _ _ => inferInstanceAs (Decidable (_ ∧ ∃ o ∈ _, _ = 0))
  | .close _ => inferInstanceAs (Decidable True)

/-! ## What a run has to keep to -/

/-- The object whose counter the step increments, if it is not a new one. -/
def increments (s : BindingSystem) : BindingAction → Option Nat
  | .copy _ source => s.target source
  | .set _ r source => if s.target r = source.bind s.target then none else source.bind s.target
  | .proceed t =>
    match s.stack t with
    | .assigning _ source :: _ => s.target source
    | .holding o _ _ _ :: _ => some o
    | .scanning predicate (o :: _) _ :: _ =>
      if (s.object o).valid = true ∧ selects predicate o = true then some o else none
    | _ => none
  | _ => none

/-- The object that the step puts on the list. -/
def adds (s : BindingSystem) : BindingAction → Option Nat
  | .proceed t =>
    match s.stack t with
    | .registering o :: _ => some o
    | _ => none
  | _ => none

/-- No counter is at its end when it is incremented, and no object is put on the list after its
`Unregister_Binding_Object`. -/
def Orderly (s : BindingSystem) (a : BindingAction) : Prop :=
  (∀ o ∈ s.increments a, s.references o + s.total o .attempt < 2147483647) ∧
    ∀ o ∈ s.adds a, (s.object o).frees = 0 ∧ s.total o .dismantling = 0

instance (s : BindingSystem) (a : BindingAction) : Decidable (s.Orderly a) :=
  inferInstanceAs (Decidable ((∀ o ∈ _, _ < _) ∧ ∀ o ∈ _, _ = 0 ∧ _ = 0))

/-- The life of an object, as the system shows it. -/
def life (s : BindingSystem) (o : Nat) : Life where
  born := decide (o < s.created)
  counter := (s.object o).counter
  references := s.references o
  attempts := s.total o .attempt
  finalizing := s.total o .finalizing
  dismantling := s.total o .dismantling
  registering := s.total o .registering
  listed := s.bindingObjects.count o
  marked := (s.object o).referenced
  registrations := (s.object o).registrations
  removals := (s.object o).removals
  finalizations := (s.object o).finalizations
  frees := (s.object o).frees

end BindingSystem

end PolyORB
