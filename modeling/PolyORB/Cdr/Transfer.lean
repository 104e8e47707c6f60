import PolyORB.Any
import PolyORB.Cdr.Common

/-!
# Transfer of the contents of Anys

`Marshall_From_Any` and `Unmarshall_To_Any` of PolyORB.Representations.CDR.  Both are one case
analysis over the kind of the (unwound) typecode, with the aggregates sharing one branch that takes
a fast path when the storage of the aggregate can be addressed and has the layout of its encoding.

The primitives of a representation that code set conversion redefines (characters and strings) and
those of object references are a parameter, `Primitives`.  So is the decoder of typecodes, which
itself uses `unmarshallToAny` for the labels of unions.

An element of a default aggregate is read into an empty container: reusing the content of a previous
element is not modelled.  The content that an aggregate has when an error was thrown is not modelled
either.
-/

namespace PolyORB

open Program (onlyIf raiseIf evaluate)

structure Config where
  hostOrder : Endianness
  enableFastPath : Bool
  /-- Equality of the values no discriminator of a union has. -/
  structuredEq : Heap → TcRef → Content → Content → Except Exn Bool

/-- A buffer and the error container of the current operation. -/
structure Transfer where
  buffer : Buffer
  error : Option SysError

abbrev CdrProg := EStateM Exn Transfer

def onBuffer {α : Type} (p : BufferProg α) : CdrProg α :=
  Program.zoom Transfer.buffer (fun s b => { s with buffer := b }) p

def throwSysError (e : SysError) : CdrProg Unit := modify fun s => { s with error := some e }

/-- `Found (Error)`. -/
def found : CdrProg Bool := do return (← get).error.isSome

/-- `p` with an error container of its own, in which `pragma Assert` then finds no error. -/
def assertNoError {α : Type} (p : CdrProg α) : CdrProg α :=
  Program.zoom (fun s => { s with error := none }) (fun s t => { t with error := s.error })
    (do
      let a ← p
      let e ← found
      raiseIf (e = true) .assertionError
      return a)

/-- The error that replaces any exception raised inside an aggregate. -/
def marshalError : SysError := ⟨.marshalE, 0, .completedMaybe⟩

/-- The operations of a representation that are not the same for all. -/
structure Primitives where
  marshallChar : Nat → CdrProg Unit
  unmarshallChar : CdrProg Nat
  marshallWchar : Nat → CdrProg Unit
  unmarshallWchar : CdrProg Nat
  marshallString : List UInt8 → CdrProg Unit
  unmarshallString : CdrProg (List UInt8)
  marshallWideString : List Nat → CdrProg Unit
  unmarshallWideString : CdrProg (List Nat)
  marshallReference : List UInt8 → CdrProg Unit
  unmarshallReference : CdrProg (List UInt8)

/-- The GIOP 1.0 representation: ISO 8859-1 characters and strings, and no wide ones. -/
def giop10Primitives (host : Endianness) (marshallReference : List UInt8 → CdrProg Unit)
    (unmarshallReference : CdrProg (List UInt8)) : Primitives where
  marshallChar v := onBuffer (marshallElementary host 1 v)
  unmarshallChar := onBuffer (unmarshallElementary host 1)
  marshallWchar _ := throwSysError ⟨.marshalE, 5, .completedNo⟩
  unmarshallWchar := do
    throwSysError ⟨.marshalE, 5, .completedNo⟩
    return 0
  marshallString s := onBuffer (marshallLatin1String host s)
  unmarshallString := onBuffer (unmarshallLatin1String host)
  marshallWideString _ := throwSysError ⟨.marshalE, 5, .completedNo⟩
  unmarshallWideString := do
    throwSysError ⟨.marshalE, 5, .completedNo⟩
    return []
  marshallReference := marshallReference
  unmarshallReference := unmarshallReference

/-! ## Fast path -/

def fastPathElementSize : TCKind → Nat
  | .tkChar | .tkOctet => 1
  | .tkShort | .tkUshort => 2
  | .tkLong | .tkUlong => 4
  | _ => 0

namespace Content

mutual

/-- The octets at the address of a direct content; the count of a sequence is not stored there. -/
def storage (host : Endianness) : Content → List UInt8
  | elementary k v => orderedOctets host (elementarySize k) v
  | aggregate k _ els =>
    if k = .tkSequence then (storages host els).tail.flatten else (storages host els).flatten
  | _ => []

def storages (host : Endianness) : List Content → List (List UInt8)
  | [] => []
  | c :: cs => storage host c :: storages host cs

end

mutual

/-- Overwrite the storage of a direct content with octets, as many as there are. -/
def overwrite (host : Endianness) : Content → List UInt8 → Content × List UInt8
  | elementary k v, bs =>
    if bs.length < elementarySize k then (elementary k v, [])
    else (elementary k (fromOrderedOctets host (bs.take (elementarySize k))),
      bs.drop (elementarySize k))
  | aggregate k d els, bs =>
    let r := overwriteAll host (k == .tkSequence) els bs
    (aggregate k d r.1, r.2)
  | c, bs => (c, bs)

def overwriteAll (host : Endianness) : Bool → List Content → List UInt8 →
    List Content × List UInt8
  | _, [], bs => ([], bs)
  | true, c :: cs, bs =>
    let r := overwriteAll host false cs bs
    (c :: r.1, r.2)
  | false, c :: cs, bs =>
    let r := overwrite host c bs
    let r' := overwriteAll host false cs r.2
    (r.1 :: r'.1, r'.2)

end

/-- `Unchecked_Get_V`: the storage of a direct aggregate, null for a sequence without elements. -/
def uncheckedGetV (host : Endianness) : Content → Option (List UInt8)
  | aggregate k true els =>
    if k = .tkSequence ∧ els.length ≤ 1 then none
    else some (storage host (aggregate k true els))
  | _ => none

/-- The elements of an aggregate, and whether it is direct; `Get_Value` may be null or elementary. -/
def asAggregate : Content → Except Exn (Bool × List Content)
  | aggregate _ d els => .ok (d, els)
  | _ => .error .constraintError

end Content

/-- The typecode inside one sequence or any number of arrays, and the number of its values; the
loop of the source is given `fuel` turns. -/
def fastPathElements (h : Heap) (count : Nat) : Nat → TcRef → Bool → Nat → Except Exn (TcRef × Nat)
  | 0, _, _, _ => .error .unfinished
  | fuel + 1, tc, outermost, elCount => do
    if Heap.kind h tc = .tkArray ∨ (outermost = true ∧ Heap.kind h tc = .tkSequence) then
      let elCount' ←
        if Heap.kind h tc = .tkSequence then
          pure (subUnsignedLong (elCount * count) 1)
        else do pure (elCount * (← Heap.length h tc) % unsignedLongModulus)
      fastPathElements h count fuel (← Heap.contentType h tc) false elCount'
    else return (tc, elCount)

/-- `Fast_Path_Get_Info`: the storage of the aggregate, its size and its alignment. -/
def fastPathGetInfo (cfg : Config) (h : Heap) (fuel : Nat) (acc : Content) (count : Nat)
    (tc : TcRef) (endianness : Endianness) : Except Exn (Option (List UInt8 × Nat × Nat)) := do
  if cfg.enableFastPath = false then return none
  else
    let (elTc, elCount) ← fastPathElements h count fuel (← Heap.unwindTypedefs h tc) true 1
    let elSize := fastPathElementSize (Heap.kind h elTc)
    if elSize = 0 then return none
    else if 1 < elSize ∧ endianness ≠ cfg.hostOrder then return none
    else return (acc.uncheckedGetV cfg.hostOrder).map fun data =>
      (data, elCount * elSize % unsignedLongModulus, elSize)

/-! ## Marshalling -/

/-- `for J in First .. First + Count - 1 loop`. -/
def forIndices {σ : Type} (body : Nat → EStateM Exn σ Unit) : Nat → Nat → EStateM Exn σ Unit
  | 0, _ => return ()
  | count + 1, j => do
    body j
    forIndices body count (j + 1)

section Marshall

variable (cfg : Config) (R : Primitives) (h : Heap)

def marshallUnsignedLong (v : Nat) : CdrProg Unit := onBuffer (marshallElementary cfg.hostOrder 4 v)

/-- `Marshall_Aggregate_Element`, `marshall` being `Marshall_From_Any`. -/
def marshallAggregateElement (marshall : TcRef → Content → CdrProg Unit) (direct : Bool)
    (els : List Content) (tc : TcRef) (index : Nat) : CdrProg Unit := do
  marshall tc (← evaluate (Heap.getAggregateElement direct els index))

/-- `Nb` and, for the kinds whose elements all have the same one, their typecode. -/
def marshallLayout (k : TCKind) (tc : TcRef) (count : Nat) : Except Exn (Nat × TcRef) := do
  match k with
  | .tkStruct | .tkExcept => return (← Heap.memberCount h tc, .ptc .tkVoid)
  | .tkArray => return (← Heap.length h tc, ← Heap.unwindTypedefs h (← Heap.contentType h tc))
  | .tkFixed => return (((← Heap.fixedDigits h tc) + 2) / 2, .ptc .tkOctet)
  | .tkSequence => return (count, ← Heap.unwindTypedefs h (← Heap.contentType h tc))
  | _ => .error .programError

/-- One turn of the loop over the elements of an aggregate. -/
def marshallElement (marshall : TcRef → Content → CdrProg Unit) (k : TCKind) (tc elTc : TcRef)
    (direct : Bool) (els : List Content) (nb j : Nat) : CdrProg Unit :=
  if j = 0 ∧ k = .tkSequence then do
    let count ← evaluate (Heap.getAggregateElement direct els 0)
    let v ← evaluate (Heap.fromAny h .tkUlong ⟨.ptc .tkUlong, count⟩)
    raiseIf (nb - 1 ≠ v) .constraintError
    marshallAggregateElement marshall direct els (.ptc .tkUlong) 0
  else do
    let t ← evaluate (if k = .tkStruct ∨ k = .tkExcept then Heap.memberType h tc j else .ok elTc)
    marshallAggregateElement marshall direct els t j

/-- The elements of a struct, exception, array, sequence or fixed. -/
def marshallElements (fuel : Nat) (marshall : TcRef → Content → CdrProg Unit) (k : TCKind)
    (tc : TcRef) (c : Content) (direct : Bool) (els : List Content) : CdrProg Unit := do
  let (nb, elTc) ← evaluate (marshallLayout h k tc els.length)
  raiseIf (nb ≠ els.length) .assertionError
  if nb = 0 then return ()
  else
    let s ← get
    match ← evaluate (fastPathGetInfo cfg h fuel c els.length tc s.buffer.endianness) with
    | some (data, size, alignment) => do
      onlyIf (k = .tkSequence) (marshallUnsignedLong cfg (nb - 1))
      onBuffer (Buffer.padAlign alignment)
      onBuffer (Buffer.insertRawData cfg.hostOrder (data.take size))
    | none => forIndices (marshallElement h marshall k tc elTc direct els nb) nb 0

def nullTag : Nat := 0
def valueTag : Nat := 0x7fffff00

/-- The branches of `Marshall_From_Any` for a content of kind `k`, `dataType` being the unwound type
of its container and `marshall` a nested call. -/
def marshallCase (marshallTypeCode : TcRef → CdrProg Unit) (fuel : Nat)
    (marshall : TcRef → Content → CdrProg Unit) (k : TCKind) (dataType tc : TcRef) (c : Content) :
    CdrProg Unit :=
  match k with
  | .tkNull | .tkVoid => return ()
  | .tkShort | .tkLong | .tkUshort | .tkUlong | .tkFloat | .tkDouble | .tkOctet | .tkLonglong
  | .tkUlonglong => do
    let v ← evaluate (Heap.fromAny h k ⟨tc, c⟩)
    onBuffer (marshallElementary cfg.hostOrder (elementarySize k) v)
  | .tkBoolean => do
    let v ← evaluate (Heap.fromAny h k ⟨tc, c⟩)
    onBuffer (marshallBoolean cfg.hostOrder (v == 1))
  | .tkChar => do R.marshallChar (← evaluate (Heap.fromAny h k ⟨tc, c⟩))
  | .tkWidechar => do R.marshallWchar (← evaluate (Heap.fromAny h k ⟨tc, c⟩))
  | .tkString =>
    match c with
    | .string s => R.marshallString s
    | _ => throw .constraintError
  | .tkWstring =>
    match c with
    | .wideString s => R.marshallWideString s
    | _ => throw .constraintError
  | .tkAny =>
    match c with
    | .any tc' v => do
      assertNoError (marshallTypeCode tc')
      assertNoError (marshall tc' v)
    | _ => throw .constraintError
  | .tkTypeCode =>
    match c with
    | .typeCode t => marshallTypeCode t
    | _ => throw .constraintError
  | .tkObjref =>
    match c with
    | .reference ior => R.marshallReference ior
    | _ => throw .constraintError
  | .tkUnion => do
    let (direct, els) ← evaluate c.asAggregate
    let labelTc ← evaluate (Heap.discriminatorType h dataType)
    let label ← evaluate (Heap.getAggregateElement direct els 0)
    marshall labelTc label
    if ← found then return ()
    else
      let memberTc ← evaluate
        (Heap.memberTypeWithLabel h cfg.structuredEq dataType ⟨labelTc, label⟩)
      if Heap.kind h memberTc ≠ .tkVoid then
        raiseIf (els.length ≠ 2) .assertionError
        marshallAggregateElement marshall direct els memberTc 1
      else raiseIf (els.length ≠ 1) .assertionError
  | .tkEnum => do
    let (direct, els) ← evaluate c.asAggregate
    marshallAggregateElement marshall direct els (.ptc .tkUlong) 0
  | .tkStruct | .tkExcept | .tkSequence | .tkArray | .tkFixed => do
    let (direct, els) ← evaluate c.asAggregate
    tryCatch (marshallElements cfg h fuel marshall k dataType c direct els)
      (fun _ => throwSysError marshalError)
  | .tkValuebox => do
    let (direct, els) ← evaluate c.asAggregate
    if els.length = 0 then marshallUnsignedLong cfg nullTag
    else
      marshallUnsignedLong cfg valueTag
      marshallAggregateElement marshall direct els (← evaluate (Heap.contentType h dataType)) 0
  | .tkLocalInterface => throwSysError ⟨.marshalE, 4, .completedNo⟩
  | .tkLongdouble => do
    let _ ← evaluate (Heap.fromAny h k ⟨tc, c⟩)
    throw .programError
  | .tkPrincipal | .tkAlias | .tkValue | .tkNative | .tkAbstractInterface | .tkComponent
  | .tkHome | .tkEvent => throw .programError

/-- `Marshall_From_Any` of a content whose container has type `tc`, in at most `fuel` nested
calls. -/
def marshallFromAny (marshallTypeCode : TcRef → CdrProg Unit) :
    Nat → TcRef → Content → CdrProg Unit
  | 0, _, _ => throw .unfinished
  | fuel + 1, tc, c => do
    let dataType ← evaluate (Heap.unwindTypedefs h tc)
    marshallCase cfg R h marshallTypeCode (fuel + 1) (marshallFromAny marshallTypeCode fuel)
      (Heap.kind h dataType) dataType tc c

end Marshall

/-! ## Unmarshalling -/

/-- An entry of the map from offsets to the typecodes met so far. -/
structure TcMapEntry where
  enclosingComplex : Int
  tcRef : TcRef
  offset : Int
  deriving DecidableEq

/-- The state of a decoder: the buffer and error of the current operation, the heap, and what the
representation keeps between operations.  `tcMap` is `none` when the table is not allocated. -/
structure Decoder extends Transfer where
  heap : Heap
  tcMap : Option (List TcMapEntry)
  currentComplex : Int

abbrev DecodeProg := EStateM Exn Decoder

def onTransfer {α : Type} (p : CdrProg α) : DecodeProg α :=
  Program.zoom Decoder.toTransfer (fun s t => { s with toTransfer := t }) p

def fromBuffer {α : Type} (p : BufferProg α) : DecodeProg α := onTransfer (onBuffer p)

def onHeap {α : Type} (f : Heap → Except Exn α) : DecodeProg α := do evaluate (f (← get).heap)

/-- `p` with an error container of its own, in which `pragma Assert` then finds no error. -/
def assertNoDecodeError {α : Type} (p : DecodeProg α) : DecodeProg α :=
  Program.zoom (fun s => { s with error := none }) (fun s t => { t with error := s.error })
    (do
      let a ← p
      let s ← get
      raiseIf (s.error.isSome = true) .assertionError
      return a)

namespace Content

/-- `Set_Any_Value` on a container that may hold a content, which then must have the same tag. -/
def setAnyValue (new : Content) : Content → Except Exn Content
  | noContent => .ok new
  | elementary k _ =>
    match new with
    | elementary k' _ => if k' = k then .ok new else .error .constraintError
    | _ => .error .constraintError
  | string _ =>
    match new with
    | string _ => .ok new
    | _ => .error .constraintError
  | wideString _ =>
    match new with
    | wideString _ => .ok new
    | _ => .error .constraintError
  | typeCode _ =>
    match new with
    | typeCode _ => .ok new
    | _ => .error .constraintError
  | any _ _ =>
    match new with
    | any _ _ => .ok new
    | _ => .error .constraintError
  | reference _ =>
    match new with
    | reference _ => .ok new
    | _ => .error .constraintError
  | aggregate _ _ _ => .error .constraintError

/-- The elements of the aggregate a value is read into: a new one for an empty container. -/
def targetElements : Content → Except Exn (Bool × List Content)
  | noContent => .ok (false, [])
  | aggregate _ d els => .ok (d, els)
  | _ => .error .constraintError

end Content

/-- New storage of a direct aggregate. -/
def freshStorage (h : Heap) : Nat → TcRef → Content
  | 0, _ => .noContent
  | fuel + 1, tc =>
    match Heap.kind h tc with
    | .tkArray =>
      match Heap.length h tc, Heap.contentType h tc with
      | .ok n, .ok t => .aggregate .tkArray true (List.replicate n (freshStorage h fuel t))
      | _, _ => .noContent
    | k => if fastPathElementSize k = 0 then .noContent else .elementary k 0

/-- `Set_Aggregate_Count`.  The count of a direct sequence, element 0, follows its length. -/
def setAggregateCount (h : Heap) (k : TCKind) (direct : Bool) (els : List Content) (elTc : TcRef)
    (count : Nat) : Except Exn (List Content) :=
  if direct = false then
    if 2 ^ 31 ≤ count then .error .constraintError
    else .ok (els.take count ++ List.replicate (count - els.length) .noContent)
  else if 2 ^ 31 ≤ subUnsignedLong count 1 then .error .constraintError
  else
    let els' := els.take count ++
      List.replicate (count - els.length) (freshStorage h (List.length h + 1) elTc)
    .ok (if k = .tkSequence then els'.set 0 (.elementary .tkUlong (count - 1)) else els')

section Unmarshall

variable (cfg : Config) (R : Primitives)

def unmarshallUnsignedLong : DecodeProg Nat := fromBuffer (unmarshallElementary cfg.hostOrder 4)

/-- `Nb`, `First_Index` and, for the kinds whose elements all have the same one, their typecode. -/
def unmarshallLayout (k : TCKind) (tc : TcRef) : DecodeProg (Nat × Nat × TcRef) := do
  match k with
  | .tkStruct | .tkExcept => return (← onHeap (Heap.memberCount · tc), 0, .ptc .tkVoid)
  | .tkEnum => return (1, 0, .ptc .tkUlong)
  | .tkUnion => return (2, 0, .ptc .tkVoid)
  | .tkSequence => do
    let maxLength ← onHeap (Heap.length · tc)
    let nb ← unmarshallUnsignedLong cfg
    raiseIf (0 < maxLength ∧ maxLength < nb) .constraintError
    return ((nb + 1) % unsignedLongModulus, 1, ← onHeap (Heap.contentType · tc))
  | .tkArray => return (← onHeap (Heap.length · tc), 0, ← onHeap (Heap.contentType · tc))
  | .tkFixed => return (((← onHeap (Heap.fixedDigits · tc)) + 2) / 2, 0, .ptc .tkOctet)
  | _ => throw .programError

/-- The typecode of element `j`, `valTc` being that of the member a union label selects. -/
def elementType (k : TCKind) (tc elTc valTc : TcRef) (j : Nat) (h : Heap) : Except Exn TcRef :=
  match k with
  | .tkStruct | .tkExcept => Heap.memberType h tc j
  | .tkUnion => if j = 0 then Heap.discriminatorType h tc else .ok valTc
  | _ => .ok elTc

/-- The loop `Unmarshall_Elements`, `unmarshall` being `Unmarshall_To_Any`. -/
def unmarshallLoop (unmarshall : TcRef → Content → DecodeProg Content) (k : TCKind)
    (tc elTc : TcRef) (direct : Bool) :
    Nat → Nat → TcRef → List Content → DecodeProg (List Content)
  | 0, _, _, els => return els
  | count + 1, j, valTc, els => do
    let t ← onHeap (elementType k tc elTc valTc j)
    let el ← evaluate (match els[j]? with
      | some el => .ok (if direct then el else .noContent)
      | none => .error .constraintError)
    let c ← unmarshall t el
    if ← onTransfer found then return els
    else if k = .tkUnion ∧ j = 0 then
      let valTc' ← onHeap (Heap.memberTypeWithLabel · cfg.structuredEq tc ⟨t, c⟩)
      let h := (← get).heap
      if Heap.kind h valTc' = .tkVoid then return (els.set j c).take 1
      else unmarshallLoop unmarshall k tc elTc direct count (j + 1) valTc' (els.set j c)
    else unmarshallLoop unmarshall k tc elTc direct count (j + 1) valTc (els.set j c)

/-- The elements of an aggregate other than a value box. -/
def unmarshallElements (fuel : Nat) (unmarshall : TcRef → Content → DecodeProg Content)
    (k : TCKind) (tc : TcRef) (old : Content) : DecodeProg Content := do
  let (nb, first, elTc) ← unmarshallLayout cfg k tc
  let (direct, els₀) ← evaluate old.targetElements
  let els ← onHeap fun h => setAggregateCount h k direct els₀ elTc nb
  let s ← get
  match ← evaluate (fastPathGetInfo cfg s.heap fuel (.aggregate k direct els) els.length tc
      s.buffer.endianness) with
  | some (_, size, alignment) => do
    let data ← fromBuffer (alignUnmarshallCopy alignment size)
    return (Content.overwrite cfg.hostOrder (.aggregate k direct els) data).1
  | none => do
    -- the table of a default aggregate without elements has room for the length of a sequence
    let els' := if k = .tkSequence then els.set 0 (.elementary .tkUlong (nb - 1)) else els
    if nb < first + 1 then return .aggregate k direct els'
    else
      let read ← unmarshallLoop cfg unmarshall k tc elTc direct (nb - first) first (.ptc .tkVoid)
        els'
      return .aggregate k direct read

/-- The branches of `Unmarshall_To_Any` for a container of kind `k` that holds `old`, `tc` being its
unwound type and `unmarshall` a nested call. -/
def unmarshallCase (unmarshallTypeCode : DecodeProg TcRef) (fuel : Nat)
    (unmarshall : TcRef → Content → DecodeProg Content) (k : TCKind) (tc : TcRef) (old : Content) :
    DecodeProg Content :=
  match k with
  | .tkNull | .tkVoid => return old
  | .tkShort | .tkLong | .tkUshort | .tkUlong | .tkFloat | .tkDouble | .tkOctet | .tkLonglong
  | .tkUlonglong => do
    let v ← fromBuffer (unmarshallElementary cfg.hostOrder (elementarySize k))
    evaluate (Content.setAnyValue (.elementary k v) old)
  | .tkBoolean => do
    let v ← fromBuffer (unmarshallBoolean cfg.hostOrder)
    evaluate (Content.setAnyValue (.elementary k v.toNat) old)
  | .tkChar => do
    let v ← onTransfer R.unmarshallChar
    evaluate (Content.setAnyValue (.elementary k v) old)
  | .tkWidechar => do
    let v ← onTransfer R.unmarshallWchar
    evaluate (Content.setAnyValue (.elementary k v) old)
  | .tkString => do
    let s ← onTransfer R.unmarshallString
    let bound ← onHeap (Heap.length · tc)
    raiseIf (2 ^ 31 ≤ bound) .constraintError
    raiseIf (bound ≠ 0 ∧ bound < s.length) .lengthError
    evaluate (Content.setAnyValue (.string s) old)
  | .tkWstring => do
    let s ← onTransfer R.unmarshallWideString
    let bound ← onHeap (Heap.length · tc)
    raiseIf (2 ^ 31 ≤ bound) .constraintError
    raiseIf (bound ≠ 0 ∧ bound < s.length) .lengthError
    evaluate (Content.setAnyValue (.wideString s) old)
  | .tkAny => do
    let t ← assertNoDecodeError unmarshallTypeCode
    let v ← assertNoDecodeError (unmarshall t .noContent)
    evaluate (Content.setAnyValue (.any t v) old)
  | .tkTypeCode => do
    let t ← unmarshallTypeCode
    if ← onTransfer found then return old
    else evaluate (Content.setAnyValue (.typeCode t) old)
  | .tkObjref => do
    let ior ← onTransfer R.unmarshallReference
    evaluate (Content.setAnyValue (.reference ior) old)
  | .tkStruct | .tkExcept | .tkEnum | .tkUnion | .tkSequence | .tkArray | .tkFixed =>
    tryCatch (unmarshallElements cfg fuel unmarshall k tc old) fun _ => do
      onTransfer (throwSysError marshalError)
      return old
  | .tkValuebox => do
    let tag ← unmarshallUnsignedLong cfg
    let (direct, els₀) ← evaluate old.targetElements
    if tag = nullTag then
      let els ← onHeap fun h => setAggregateCount h k direct els₀ (.ptc .tkVoid) 0
      return .aggregate k direct els
    else
      let t ← onHeap (Heap.contentType · tc)
      let els ← onHeap fun h => setAggregateCount h k direct els₀ t 1
      let c ← unmarshall t (if direct then els.headD .noContent else .noContent)
      return .aggregate k direct (els.set 0 c)
  | .tkLocalInterface => do
    onTransfer (throwSysError ⟨.marshalE, 4, .completedNo⟩)
    return old
  | .tkLongdouble | .tkPrincipal | .tkAlias | .tkValue | .tkNative | .tkAbstractInterface
  | .tkComponent | .tkHome | .tkEvent => throw .programError

/-- `Unmarshall_To_Any` into a container of type `ctc` that holds `old`, in at most `fuel` nested
calls; the result is the new content. -/
def unmarshallToAny (unmarshallTypeCode : DecodeProg TcRef) :
    Nat → TcRef → Content → DecodeProg Content
  | 0, _, _ => throw .unfinished
  | fuel + 1, ctc, old => do
    let tc ← onHeap (Heap.unwindTypedefs · ctc)
    let s ← get
    unmarshallCase cfg R unmarshallTypeCode (fuel + 1) (unmarshallToAny unmarshallTypeCode fuel)
      (Heap.kind s.heap tc) tc old

end Unmarshall

end PolyORB
