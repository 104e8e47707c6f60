import PolyORB.Naming.ContextRun

/-!
# Lists of bindings and their iterators

CosNaming.NamingContext.Impl.List and CosNaming.BindingIterator.Impl.  A subprogram that raises an
exception between `Enter` and `Leave` leaves the mutex to nobody.
-/

namespace PolyORB

structure CosBinding where
  bindingName : Name
  bindingType : BindingType
  deriving DecidableEq

def nullBinding : CosBinding := ⟨[], .nobject⟩

def BoundObject.listed (bo : BoundObject) : CosBinding := ⟨[bo.bn], bo.bt⟩

/-- A value of the subtype `Natural`. -/
def checkNatural (n : Nat) : Except Exn Nat :=
  if n ≤ naturalLast then .ok n else .error .constraintError

structure BindingIterator where
  index : Nat
  table : Option (List CosBinding)
  /-- The mutex is held. -/
  entered : Bool
  deriving DecidableEq

inductive IteratorCall where
  | nextOne
  | nextN (howMany : UInt32)
  | destroy
  deriving DecidableEq

inductive IteratorReply where
  | one (b : CosBinding) (returns : Bool)
  | list (bl : List CosBinding) (returns : Bool)
  | destroyed
  deriving DecidableEq

namespace IteratorReply

/-- The elements of the table that were returned. -/
def elements : IteratorReply → List CosBinding
  | .one b true => [b]
  | .one _ false => []
  | .list bl _ => bl
  | .destroyed => []

def returns : IteratorReply → Option Bool
  | .one _ returns | .list _ returns => some returns
  | .destroyed => none

end IteratorReply

namespace BindingIterator

def create (table : List CosBinding) : BindingIterator := ⟨1, some table, false⟩

def nextOne (s : BindingIterator) : Except Exn (IteratorReply × BindingIterator) :=
  match s.table with
  | none => .error .constraintError
  | some table =>
    if s.index ≤ table.length then do
      let b ← (table[s.index - 1]?).elim (.error .constraintError) .ok
      let index ← checkNatural (s.index + 1)
      return (.one b true, { s with index := index })
    else return (.one nullBinding false, s)

def nextN (s : BindingIterator) (howMany : UInt32) :
    Except Exn (IteratorReply × BindingIterator) := do
  let n ← checkNatural howMany.toNat
  let sum ← checkNatural (s.index + n)
  let last := sum - 1
  match s.table with
  | none => .error .constraintError
  | some table =>
    if last ≤ table.length then do
      let index ← checkNatural (last + 1)
      return (.list ((table.take last).drop (s.index - 1)) true, { s with index := index })
    else return (.list [] false, s)

def perform (s : BindingIterator) : IteratorCall → Except Exn (IteratorReply × BindingIterator)
  | .nextOne => s.nextOne
  | .nextN howMany => s.nextN howMany
  | .destroy => .ok (.destroyed, { s with table := none })

/-- A call of the servant. -/
def call (s : BindingIterator) (c : IteratorCall) : Except Exn IteratorReply × BindingIterator :=
  if s.entered = true then (.error .blocked, s)
  else
    match s.perform c with
    | .ok (reply, s') => (.ok reply, s')
    -- the mutex is not left
    | .error e => (.error e, { s with entered := true })

end BindingIterator

/-! ## List -/

/-- The loop that copies `n` bound objects from `Head` on. -/
def copyBindings (h : Linked.Heap BoundObject) :
    Nat → Option Nat → Except Exn (List CosBinding × Option Nat)
  | 0, head => .ok ([], head)
  | n + 1, head =>
    match head.bind h with
    | none => .error .constraintError
    | some node => (copyBindings h n node.next).map fun r => (node.content.listed :: r.1, r.2)

namespace NamingState

def list (s : NamingState) (i : Nat) (howMany : UInt32) :
    Except Exn (List CosBinding × BindingIterator) := do
  let size ← checkNatural howMany.toNat
  let len ← checkNatural (s.fromHead i).length
  let (bl, head) ← copyBindings s.heap (min size len) (s.context i).ends.head
  let (table, _) ← copyBindings s.heap (len - min size len) head
  return (bl, .create table)

def listed (s : NamingState) (i : Nat) : List CosBinding := (s.fromHead i).map BoundObject.listed

end NamingState

/-! ## What a client receives -/

structure Listing where
  bindings : List CosBinding
  received : List CosBinding
  iterator : BindingIterator
  deriving DecidableEq

namespace Listing

def next (l : Listing) (c : IteratorCall) : Listing :=
  match l.iterator.call c with
  | (.ok reply, s) => { l with received := l.received ++ reply.elements, iterator := s }
  | (.error _, s) => { l with iterator := s }

/-- The call returns, and `False` only when no binding is left. -/
def Sound (l : Listing) (c : IteratorCall) : Prop :=
  ∃ reply, (l.iterator.call c).1 = .ok reply ∧ (l.next c).received <+: l.bindings ∧
    (reply.returns = some false → (l.next c).received = l.bindings)

/-- The iterator has not been destroyed, the place after the elements is a `Natural`, and `Next_N`
is asked for no more elements than are left, unless none is left. -/
def Proper (l : Listing) : IteratorCall → Prop
  | .nextOne => ∃ table ∈ l.iterator.table,
    l.iterator.index ≤ table.length → l.iterator.index < naturalLast
  | .nextN howMany => ∃ table ∈ l.iterator.table, l.iterator.index + howMany.toNat ≤ naturalLast ∧
    (l.iterator.index + howMany.toNat ≤ table.length + 1 ∨ table.length < l.iterator.index)
  | .destroy => True

structure Inv (l : Listing) : Prop where
  left : l.iterator.entered = false
  index : 1 ≤ l.iterator.index
  received : l.received <+: l.bindings
  table : ∀ table ∈ l.iterator.table, l.iterator.index ≤ table.length + 1 ∧
    l.received ++ table.drop (l.iterator.index - 1) = l.bindings

end Listing

end PolyORB
