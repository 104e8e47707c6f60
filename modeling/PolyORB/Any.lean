import PolyORB.Types

/-!
# Typecodes and the contents of Anys

Typecodes are objects on a heap.  A reference is either one of the library-level typecodes
(`TcRef.ptc`) or an object (`TcRef.obj`), so that a typecode can refer to itself, as the ones read
through indirections do.  The parameters of an object are containers, in the order that
PolyORB.Any.TypeCode documents:

* named kinds: name, repository id, then
  * struct, except: (type, name) of each member;
  * union: discriminator type, default index, then (label, type, name) of each member;
  * enum: the names of the enumerators;
  * alias, valuebox: the content type;
  * value, event: type modifier, concrete base type, then (visibility, type, name) of each member;
* string, wstring: length; sequence, array: length, content type; fixed: digits, scale.

The content of a container is elementary or an aggregate.  A `direct` aggregate is a typed one whose
storage can be addressed (`Unchecked_Get_V` is not null); the others are default aggregates, tables
of containers, in which an element may be empty.
-/

namespace PolyORB

inductive TCKind where
  | tkNull | tkVoid | tkShort | tkLong | tkUshort | tkUlong | tkFloat | tkDouble | tkBoolean
  | tkChar | tkOctet | tkAny | tkTypeCode | tkPrincipal | tkObjref | tkStruct | tkUnion | tkEnum
  | tkString | tkSequence | tkArray | tkAlias | tkExcept | tkLonglong | tkUlonglong
  | tkLongdouble | tkWidechar | tkWstring | tkFixed | tkValue | tkValuebox | tkNative
  | tkAbstractInterface | tkLocalInterface | tkComponent | tkHome | tkEvent
  deriving DecidableEq

/-- A reference to a typecode: a library-level one, or an object on the heap. -/
inductive TcRef where
  | ptc (kind : TCKind)
  | obj (index : Nat)
  deriving DecidableEq

/-- The content of an `Any_Container`. -/
inductive Content where
  /-- A null `The_Value`. -/
  | noContent
  /-- An integer, character, boolean or floating point value, by its representation. -/
  | elementary (kind : TCKind) (value : Nat)
  | string (s : List UInt8)
  | wideString (s : List Nat)
  | typeCode (tc : TcRef)
  | any (tc : TcRef) (value : Content)
  | reference (ior : List UInt8)
  | aggregate (kind : TCKind) (direct : Bool) (elements : List Content)

namespace Content

def isEmpty : Content → Bool
  | noContent => true
  | _ => false

/-- The value of a container, as a default aggregate would hold it at every level. -/
def plain : Content → Content
  | aggregate k _ els => aggregate k false (plainList els)
  | noContent => noContent
  | elementary k v => elementary k v
  | string s => string s
  | wideString s => wideString s
  | typeCode tc => typeCode tc
  | any tc v => any tc v
  | reference r => reference r
where
  plainList : List Content → List Content
    | [] => []
    | c :: cs => plain c :: plainList cs

theorem plainList_eq_map (cs : List Content) : plain.plainList cs = cs.map plain := by
  induction cs with
  | nil => rfl
  | cons c cs ih => rw [plain.plainList, ih, List.map_cons]

@[simp] theorem plain_aggregate (k : TCKind) (d : Bool) (els : List Content) :
    (aggregate k d els).plain = aggregate k false (els.map plain) := by
  rw [plain, plainList_eq_map]

end Content

/-- An `Any_Container`: a typecode and a content. -/
structure Container where
  tc : TcRef
  value : Content

/-- A `TypeCode.Object`.  `map` is the lookup table that `Freeze` builds for a union. -/
structure TcObject where
  kind : TCKind
  parameters : List Container
  map : Option (List Int)

abbrev Heap := List TcObject

/-- Octets of the storage of an elementary value. -/
def elementarySize : TCKind → Nat
  | .tkShort | .tkUshort => 2
  | .tkLong | .tkUlong | .tkFloat | .tkWidechar => 4
  | .tkLonglong | .tkUlonglong | .tkDouble => 8
  | .tkLongdouble => 16
  | _ => 1

/-- The signed value of a `Types.Long`. -/
def toLong (v : Nat) : Int := if v < 2 ^ 31 then v else (v : Int) - 2 ^ 32

/-- The representation of a `Types.Long`. -/
def ofLong (v : Int) : Nat := (v % 2 ^ 32).toNat

namespace Heap

variable (h : Heap)

/-! ## Parameters -/

/-- The parameters of a typecode; the library-level string typecodes have a null length. -/
def parameters : TcRef → List Container
  | .ptc .tkString | .ptc .tkWstring => [⟨.ptc .tkUlong, .elementary .tkUlong 0⟩]
  | .ptc _ => []
  | .obj n => ((h[n]?).map TcObject.parameters).getD []

def kind : TcRef → TCKind
  | .ptc k => k
  | .obj n => ((h[n]?).map TcObject.kind).getD .tkVoid

def map : TcRef → Option (List Int)
  | .ptc _ => none
  | .obj n => (h[n]?).bind TcObject.map

def parameterCount (tc : TcRef) : Nat := (parameters h tc).length

/-- `Get_Parameter`.  The parameters of a typecode that has none are a null pointer. -/
def getParameter (tc : TcRef) (index : Nat) : Except Exn Container :=
  match parameters h tc with
  | [] => .error .constraintError
  | p :: ps =>
    match (p :: ps)[index]? with
    | some c => .ok c
    | none => .error .typeCodeBounds

def getTypeParameter (tc : TcRef) (index : Nat) : Except Exn TcRef := do
  match (← getParameter h tc index).value with
  | .typeCode t => .ok t
  | _ => .error .constraintError

def contentType (tc : TcRef) : Except Exn TcRef :=
  match kind h tc with
  | .tkSequence | .tkArray => getTypeParameter h tc 1
  | .tkValuebox | .tkAlias => getTypeParameter h tc 2
  | _ => .error .typeCodeBadKind

/-- `Unwind_Typedefs`; a chain of more aliases than there are objects is circular. -/
def unwindTypedefs (tc : TcRef) : Except Exn TcRef :=
  go (h.length + 1) tc
where
  go : Nat → TcRef → Except Exn TcRef
    | 0, _ => .error .unfinished
    | n + 1, tc => do
      if kind h tc = .tkAlias then go n (← contentType h tc) else .ok tc

/-- `From_Any` of an elementary kind: the container's typecode is checked, then its content. -/
def fromAny (k : TCKind) (c : Container) : Except Exn Nat := do
  if kind h (← unwindTypedefs h c.tc) = k then
    match c.value with
    | .elementary k' v => if k' = k then .ok v else .error .constraintError
    | _ => .error .constraintError
  else .error .constraintError

def fromAnyString (c : Container) : Except Exn (List UInt8) := do
  if kind h (← unwindTypedefs h c.tc) = .tkString then
    match c.value with
    | .string s => .ok s
    | _ => .error .constraintError
  else .error .constraintError

/-! ## Accessors -/

def length (tc : TcRef) : Except Exn Nat :=
  match kind h tc with
  | .tkString | .tkWstring | .tkSequence | .tkArray => do
    fromAny h .tkUlong (← getParameter h tc 0)
  | _ => .error .typeCodeBadKind

def fixedDigits (tc : TcRef) : Except Exn Nat :=
  match kind h tc with
  | .tkFixed => do fromAny h .tkUshort (← getParameter h tc 0)
  | _ => .error .typeCodeBadKind

def discriminatorType (tc : TcRef) : Except Exn TcRef :=
  match kind h tc with
  | .tkUnion => getTypeParameter h tc 2
  | _ => .error .typeCodeBadKind

def defaultIndex (tc : TcRef) : Except Exn Int :=
  match kind h tc with
  | .tkUnion => do return toLong (← fromAny h .tkLong (← getParameter h tc 3))
  | _ => .error .typeCodeBadKind

/-- `Member_Count`, computed in `Unsigned_Long`. -/
def memberCount (tc : TcRef) : Except Exn Nat :=
  let paramNb := parameterCount h tc
  match kind h tc with
  | .tkStruct | .tkExcept => .ok (subUnsignedLong (paramNb / 2) 1)
  | .tkUnion => .ok (subUnsignedLong paramNb 4 / 3)
  | .tkEnum => .ok (subUnsignedLong paramNb 2)
  | .tkValue | .tkEvent => .ok (subUnsignedLong paramNb 4 / 3)
  | _ => .error .typeCodeBadKind

def memberLabel (tc : TcRef) (index : Nat) : Except Exn Container :=
  match kind h tc with
  | .tkUnion =>
    if parameterCount h tc < 3 * index + 7 then .error .typeCodeBounds
    else getParameter h tc (3 * index + 4)
  | _ => .error .typeCodeBadKind

def memberType (tc : TcRef) (index : Nat) : Except Exn TcRef :=
  match kind h tc with
  | .tkStruct | .tkExcept =>
    if parameterCount h tc < 2 * index + 4 then .error .typeCodeBounds
    else getTypeParameter h tc (2 * index + 2)
  | .tkUnion | .tkValue | .tkEvent =>
    if parameterCount h tc < 3 * index + 7 then .error .typeCodeBounds
    else getTypeParameter h tc (3 * index + 5)
  | _ => .error .typeCodeBadKind

/-! ## Member lookup of a union -/

def getAggregateElement (direct : Bool) (elements : List Content) (index : Nat) :
    Except Exn Content :=
  match elements[index]? with
  | none => .error .constraintError
  | some el => if direct = false ∧ el.isEmpty then .error .assertionError else .ok el

/-- `Unchecked_From_Any`: only the tag of the content is checked. -/
def uncheckedFromAny (k : TCKind) : Content → Except Exn Nat
  | .elementary k' v => if k' = k then .ok v else .error .constraintError
  | _ => .error .constraintError

/-- The `Unsigned_Long` element 0 of an enumeration value. -/
def enumPosition : Content → Except Exn Nat
  | .aggregate _ direct els => do uncheckedFromAny .tkUlong (← getAggregateElement direct els 0)
  | _ => .error .constraintError

/-- `Any_Container_Eq`.  `structured` compares the values of the kinds no discriminator has. -/
def anyContainerEq (structured : Heap → TcRef → Content → Content → Except Exn Bool)
    (tc : TcRef) (left right : Content) : Except Exn Bool := do
  let k := kind h (← unwindTypedefs h tc)
  match k with
  | .tkNull | .tkVoid => return true
  | .tkShort | .tkLong | .tkUshort | .tkUlong | .tkBoolean | .tkChar | .tkOctet | .tkLonglong
  | .tkUlonglong | .tkWidechar => do
    return (← uncheckedFromAny k left) == (← uncheckedFromAny k right)
  | .tkEnum => return (← enumPosition left) == (← enumPosition right)
  | .tkAlias => .error .programError
  | _ => structured h tc left right

/-- `Pos_From_Any`, for a container whose typecode is not an alias. -/
def posFromAny (c : Container) : Except Exn Nat :=
  match kind h c.tc with
  | .tkEnum => enumPosition c.value
  | .tkBoolean => fromAny h .tkBoolean c
  | .tkShort => do return ((← fromAny h .tkShort c) + 2 ^ 15) % 2 ^ 16
  | .tkUshort => fromAny h .tkUshort c
  | .tkLong => do return ((← fromAny h .tkLong c) + 2 ^ 31) % 2 ^ 32
  | .tkUlong => fromAny h .tkUlong c
  | _ => .error .typeCodeBadKind

/-- `Label_To_Member`, by a scan of the members from `index` on, `count` of them left; -1 when no
label but the default one is met. -/
def scanLabels (structured : Heap → TcRef → Content → Content → Except Exn Bool)
    (tc : TcRef) (label : Content) (defIndex : Int) : Nat → Nat → Except Exn Int
  | 0, _ => .ok (-1)
  | count + 1, index => do
    if (index : Int) ≠ defIndex then
      if ← anyContainerEq h structured (← discriminatorType h tc)
          (← memberLabel h tc index).value label then
        return index
    scanLabels structured tc label defIndex count (index + 1)

/-- `Label_To_Member`: the lookup table of a frozen union, else the scan.  The upper bound
`(Param_Nb - 4) / 3 - 1` of the scan wraps around when there is no member. -/
def labelToMember (structured : Heap → TcRef → Content → Content → Except Exn Bool)
    (tc : TcRef) (label : Container) : Except Exn Int := do
  match map h tc with
  | some members =>
    match members[← posFromAny h label]? with
    | some i => return i
    | none => .error .constraintError
  | none =>
    let defIndex ← defaultIndex h tc
    let last := subUnsignedLong (subUnsignedLong (parameterCount h tc) 4 / 3) 1
    let i ← scanLabels h structured tc label.value defIndex (last + 1) 0
    return if i = -1 then defIndex else i

/-- `Member_Type_With_Label`: the void typecode when no member has the label. -/
def memberTypeWithLabel (structured : Heap → TcRef → Content → Content → Except Exn Bool)
    (tc : TcRef) (label : Container) : Except Exn TcRef := do
  if kind h tc ≠ .tkUnion then .error .typeCodeBadKind
  else
    let i ← labelToMember h structured tc label
    if i = -1 then return .ptc .tkVoid
    else if i < 0 then .error .constraintError
    else getTypeParameter h tc ((3 * i.toNat + 5) % unsignedLongModulus)

end Heap

end PolyORB
