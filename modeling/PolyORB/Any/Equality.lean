import PolyORB.Any

/-!
# Equality and copy of Anys

The model of `"="` on Anys, of `TypeCode.Equal` and of `Copy_Any`.  Two contents are compared under
a typecode that is given apart from them; the types of the two containers only matter to the
strings, which are read with a checked `From_Any`.  The scratch containers that hold the elements of
an aggregate have no type of their own (`unsetType`).

The comparisons call each other, so that they are one function of the step bound `fuel`, over the
two kinds of things to compare (`Comparison`).
-/

namespace PolyORB

/-! ## Floating point -/

def isFloatKind : TCKind → Bool
  | .tkFloat | .tkDouble | .tkLongdouble => true
  | _ => false

/-- Number of bits of the exponent and of the fraction of an IEEE format. -/
def floatFormat : TCKind → Nat × Nat
  | .tkFloat => (8, 23)
  | .tkDouble => (11, 52)
  | _ => (15, 112)

def isNaN (k : TCKind) (v : Nat) : Bool :=
  let (e, f) := floatFormat k
  v / 2 ^ f % 2 ^ e == 2 ^ e - 1 && v % 2 ^ f != 0

/-- A zero of either sign. -/
def isZero (k : TCKind) (v : Nat) : Bool :=
  let (e, f) := floatFormat k
  v % 2 ^ (e + f) == 0

/-- `"="` of a floating point type, on representations. -/
def floatEq (k : TCKind) (v w : Nat) : Bool :=
  !isNaN k v && !isNaN k w && (v == w || isZero k v && isZero k w)

theorem floatEq_self {k : TCKind} {v : Nat} (h : isNaN k v = false) : floatEq k v v = true := by
  simp [floatEq, h]

theorem floatEq_comm (k : TCKind) (v w : Nat) : floatEq k v w = floatEq k w v := by
  rw [Bool.eq_iff_iff]
  simp only [floatEq, Bool.and_eq_true, Bool.or_eq_true, Bool.not_eq_true', beq_iff_eq]
  constructor
  · rintro ⟨⟨hv, hw⟩, rfl | ⟨h₁, h₂⟩⟩
    · exact ⟨⟨hw, hv⟩, .inl rfl⟩
    · exact ⟨⟨hw, hv⟩, .inr ⟨h₂, h₁⟩⟩
  · rintro ⟨⟨hv, hw⟩, rfl | ⟨h₁, h₂⟩⟩
    · exact ⟨⟨hw, hv⟩, .inl rfl⟩
    · exact ⟨⟨hw, hv⟩, .inr ⟨h₂, h₁⟩⟩

theorem floatEq_trans {k : TCKind} {u v w : Nat} (huv : floatEq k u v = true)
    (hvw : floatEq k v w = true) : floatEq k u w = true := by
  simp only [floatEq, Bool.and_eq_true, Bool.or_eq_true, Bool.not_eq_true', beq_iff_eq] at *
  obtain ⟨⟨hu, hv⟩, rfl | ⟨hzu, hzv⟩⟩ := huv
  · exact hvw
  · obtain ⟨⟨-, hw⟩, rfl | ⟨-, hzw⟩⟩ := hvw
    · exact ⟨⟨hu, hw⟩, .inr ⟨hzu, hzv⟩⟩
    · exact ⟨⟨hu, hw⟩, .inr ⟨hzu, hzw⟩⟩

namespace Heap

variable (h : Heap)

/-! ## Strings and views -/

/-- The type of a container on which `Set_Type` was never called: a nil reference, whose kind is
void. -/
def unsetType : TcRef := .ptc .tkVoid

/-- `From_Any` for a `Standard.String`: only a bounded string has its container's kind checked, but
the bound is always asked for. -/
def fromAnyStandardString (c : Container) : Except Exn (List UInt8) := do
  let bound ← length h (← unwindTypedefs h c.tc)
  if bound = 0 then
    match c.value with
    | .string s => .ok s
    | _ => .error .constraintError
  else fromAnyString h c

/-- `From_Any` for a `Types.Wide_String`.  The content of a container whose type is a bounded wide
string is a `Super_String`, whose tag is another one. -/
def fromAnyWideString (c : Container) : Except Exn (List Nat) := do
  let t ← unwindTypedefs h c.tc
  if kind h t ≠ .tkWstring then .error .constraintError
  else if (← length h t) ≠ 0 then .error .constraintError
  else
    match c.value with
    | .wideString s => .ok s
    | _ => .error .constraintError

/-- The view conversion of a container's value to `Aggregate_Content'Class`. -/
def asAggregate : Content → Except Exn (Bool × List Content)
  | .aggregate _ direct els => .ok (direct, els)
  | _ => .error .constraintError

def uncheckedAny : Content → Except Exn Container
  | .any tc v => .ok ⟨tc, v⟩
  | _ => .error .constraintError

def uncheckedTypeCode : Content → Except Exn TcRef
  | .typeCode t => .ok t
  | _ => .error .constraintError

/-! ## Comparisons -/

/-- What is compared: two contents under the type `tc`, held in containers of types `leftType` and
`rightType` (`Any_Container_Eq`), or two typecodes (`TypeCode.Equal`). -/
inductive Comparison where
  | contents (leftType rightType tc : TcRef) (left right : Content)
  | typeCodes (left right : TcRef)

def containersEq (compare : Comparison → Except Exn Bool) (left right : Container) :
    Except Exn Bool := do
  if ← compare (.typeCodes left.tc right.tc) then
    compare (.contents left.tc right.tc left.tc left.value right.value)
  else return false

/-- The comparison of the parameters from `index` on, `count` of them left. -/
def parametersEq (compare : Comparison → Except Exn Bool) (left right : TcRef) :
    Nat → Nat → Except Exn Bool
  | 0, _ => .ok true
  | count + 1, index => do
    if ← containersEq compare (← getParameter h left index) (← getParameter h right index) then
      parametersEq compare left right count (index + 1)
    else return false

def typeCodeEqual (compare : Comparison → Except Exn Bool) (left right : TcRef) :
    Except Exn Bool :=
  if left = right then .ok true
  else if kind h left ≠ kind h right then .ok false
  else if parameterCount h right ≠ parameterCount h left then .ok false
  else parametersEq h compare left right (parameterCount h right) 0

/-- `Agg_Elements_Equal`: the elements at `index`, in scratch containers of the given types. -/
def aggElementsEqual (compare : Comparison → Except Exn Bool) (leftType rightType tc : TcRef)
    (left right : Bool × List Content) (index : Nat) : Except Exn Bool := do
  let l ← getAggregateElement left.1 left.2 index
  let r ← getAggregateElement right.1 right.2 index
  compare (.contents leftType rightType tc l r)

/-- The loop over the elements from `index` on, `count` of them left. -/
def aggLoop (compare : Comparison → Except Exn Bool) (elementType : Nat → Except Exn TcRef)
    (left right : Bool × List Content) : Nat → Nat → Except Exn Bool
  | 0, _ => .ok true
  | count + 1, index => do
    let t ← elementType index
    if ← aggElementsEqual compare unsetType unsetType t left right index then
      aggLoop compare elementType left right count (index + 1)
    else return false

/-- The struct branch of `Agg_Container_Eq`. -/
def structEq (compare : Comparison → Except Exn Bool) (tc : TcRef) (left right : Content) :
    Except Exn Bool := do
  let listType ← unwindTypedefs h tc
  let count ← memberCount h listType
  let l ← asAggregate left
  let r ← asAggregate right
  aggLoop compare (memberType h listType) l r count 0

/-- The union branch of `Agg_Container_Eq`.  `Set_Type` on the left scratch container is not undone
before the members are compared. -/
def unionEq (compare : Comparison → Except Exn Bool) (tc : TcRef) (left right : Content) :
    Except Exn Bool := do
  let l ← asAggregate left
  let r ← asAggregate right
  let listType ← unwindTypedefs h tc
  let switchType ← discriminatorType h listType
  if l.2.length ≠ 2 ∨ r.2.length ≠ 2 then .error .assertionError
  else if ← aggElementsEqual compare unsetType unsetType switchType l r 0 then
    let label ← getAggregateElement l.1 l.2 0
    let member ← memberTypeWithLabel h
      (fun _ t l r => compare (.contents unsetType unsetType t l r)) listType ⟨switchType, label⟩
    aggElementsEqual compare switchType unsetType member l r 1
  else return false

/-- The sequence and array branch of `Agg_Container_Eq`: the bounds of the loop are those of the
typecode, and the upper one, `Length - 1`, is unsigned. -/
def listEq (compare : Comparison → Except Exn Bool) (tc : TcRef) (left right : Content) :
    Except Exn Bool := do
  let listType ← unwindTypedefs h tc
  let element ← contentType h listType
  let l ← asAggregate left
  let r ← asAggregate right
  let len ← length h listType
  aggLoop compare (fun _ => .ok element) l r (subUnsignedLong len 1 + 1) 0

/-- The branches of `Any_Container_Eq` for the kinds that no discriminator has. -/
def structuredEq (compare : Comparison → Except Exn Bool) (leftType rightType : TcRef) (k : TCKind)
    (tc : TcRef) (left right : Content) : Except Exn Bool :=
  match k with
  | .tkStruct | .tkExcept => structEq h compare tc left right
  | .tkUnion => unionEq h compare tc left right
  | .tkArray | .tkSequence => listEq h compare tc left right
  | .tkFloat | .tkDouble | .tkLongdouble => do
    return floatEq k (← uncheckedFromAny k left) (← uncheckedFromAny k right)
  | .tkAny => do containersEq compare (← uncheckedAny left) (← uncheckedAny right)
  | .tkTypeCode => do
    let l ← uncheckedTypeCode left
    let r ← uncheckedTypeCode right
    if kind h r = .tkValue then .error .programError else compare (.typeCodes r l)
  | .tkString => do
    return (← fromAnyStandardString h ⟨leftType, left⟩) ==
      (← fromAnyStandardString h ⟨rightType, right⟩)
  | .tkWstring => do
    return (← fromAnyWideString h ⟨leftType, left⟩) == (← fromAnyWideString h ⟨rightType, right⟩)
  | _ => .ok true

/-- `Any_Container_Eq`. -/
def contentsEq (compare : Comparison → Except Exn Bool) (leftType rightType tc : TcRef)
    (left right : Content) : Except Exn Bool :=
  anyContainerEq h (fun h tc left right => do
    let t ← unwindTypedefs h tc
    structuredEq h compare leftType rightType (kind h t) tc left right) tc left right

/-- The comparisons, with a bound on their nesting. -/
def compare : Nat → Comparison → Except Exn Bool
  | 0, _ => .error .unfinished
  | fuel + 1, .contents leftType rightType tc left right =>
    contentsEq h (compare fuel) leftType rightType tc left right
  | fuel + 1, .typeCodes left right => typeCodeEqual h (compare fuel) left right

/-- `"="` on Anys. -/
def anyEq (fuel : Nat) (left right : Container) : Except Exn Bool :=
  containersEq (compare h fuel) left right

/-! ## Copy -/

/-- `Clone` of a content: the contents of the elements of a default aggregate are cloned in turn,
and none of them may be null. -/
def clone : Content → Except Exn Content
  | .noContent => .error .constraintError
  | .elementary k v => .ok (.elementary k v)
  | .string s => .ok (.string s)
  | .wideString s => .ok (.wideString s)
  | .typeCode tc => .ok (.typeCode tc)
  | .any tc v => .ok (.any tc v)
  | .reference r => .ok (.reference r)
  | .aggregate k direct els => do return .aggregate k direct (← cloneList els)
where
  cloneList : List Content → Except Exn (List Content)
    | [] => .ok []
    | c :: cs => do return (← clone c) :: (← cloneList cs)

/-- `Copy_Any`: the container of the copy is new, so that `Copy_Any_Value` finds it empty. -/
def copyAny (src : Container) : Except Exn Container := do
  let _ ← unwindTypedefs h src.tc
  return ⟨src.tc, ← clone src.value⟩

end Heap

end PolyORB
