import PolyORB.Cdr.RoundTrip

/-!
# Values that conform to a typecode

`IsData h d tc`: over the heap `h`, the typecode `tc` is built, to a depth of at most `d`, from the
kinds of plain data.  `Conforms cfg h d tc c`: the content `c` is a value of such a typecode.
`Marshallable` singles out the values that CDR can carry: it fails where a union has no member,
where an element of a default aggregate is null or void, and where the fast path refuses or
truncates the storage of a typed aggregate.
-/

namespace PolyORB

/-- Integers, booleans and octets. -/
def isScalarKind : TCKind → Bool
  | .tkShort | .tkLong | .tkUshort | .tkUlong | .tkLonglong | .tkUlonglong | .tkBoolean
  | .tkOctet => true
  | _ => false

/-- Number of values of a scalar kind. -/
def scalarModulus : TCKind → Nat
  | .tkBoolean => 2
  | k => 256 ^ elementarySize k

variable (cfg : Config) (h : Heap)

/-- A typecode that a union can have as discriminator, behind any number of aliases. -/
def IsDiscriminator (tc : TcRef) : Prop :=
  ∃ t, Heap.unwindTypedefs h tc = .ok t ∧ (isScalarKind (Heap.kind h t) ∨ Heap.kind h t = .tkEnum)

/-- Typecodes of nesting depth at most `d`, aliases not counted. -/
def IsData : Nat → TcRef → Prop
  | 0, _ => False
  | d + 1, ctc =>
    ∃ tc, Heap.unwindTypedefs h ctc = .ok tc ∧
    match Heap.kind h tc with
    | .tkNull | .tkVoid | .tkEnum => True
    | .tkStruct | .tkExcept =>
      ∃ n, Heap.memberCount h tc = .ok n ∧
        ∀ j < n, ∃ t, Heap.memberType h tc j = .ok t ∧ IsData d t
    | .tkUnion =>
      (∃ t, Heap.discriminatorType h tc = .ok t ∧ IsDiscriminator h t) ∧
        (∀ j t, Heap.getTypeParameter h tc j = .ok t → IsData d t) ∧
        (Heap.memberCount h tc = .ok 0 → Heap.map h tc = none) ∧
        Heap.parameterCount h tc < unsignedLongModulus
    | .tkSequence => ∃ n t, Heap.length h tc = .ok n ∧ Heap.contentType h tc = .ok t ∧ IsData d t
    | .tkArray =>
      ∃ n t, Heap.length h tc = .ok n ∧ 0 < n ∧ Heap.contentType h tc = .ok t ∧ IsData d t
    | .tkValuebox => ∃ t, Heap.contentType h tc = .ok t ∧ IsData d t
    | k => isScalarKind k = true

/-- Values of a typecode of nesting depth at most `d`.  The member that the label of a union
selects is what `Member_Type_With_Label` says; a union without members has none to select. -/
def Conforms : Nat → TcRef → Content → Prop
  | 0, _, _ => False
  | d + 1, ctc, c =>
    ∃ tc, Heap.unwindTypedefs h ctc = .ok tc ∧
    match Heap.kind h tc with
    | .tkNull | .tkVoid => c = .noContent
    | .tkEnum => ∃ direct v, c = .aggregate .tkEnum direct [.elementary .tkUlong v] ∧ v < 2 ^ 32
    | .tkStruct | .tkExcept =>
      ∃ direct els, c = .aggregate (Heap.kind h tc) direct els ∧ els.length < 2 ^ 31 ∧
        Heap.memberCount h tc = .ok els.length ∧
        ∀ j el, els[j]? = some el → ∃ t, Heap.memberType h tc j = .ok t ∧ Conforms d t el
    | .tkUnion =>
      ∃ direct label rest t, c = .aggregate .tkUnion direct (label :: rest) ∧
        Heap.discriminatorType h tc = .ok t ∧ Conforms d t label ∧
        ((Heap.memberCount h tc = .ok 0 ∧ rest = []) ∨
          ∃ m, Heap.memberTypeWithLabel h cfg.structuredEq tc ⟨t, label⟩ = .ok m ∧
            if Heap.kind h m = .tkVoid then rest = [] else ∃ v, rest = [v] ∧ Conforms d m v)
    | .tkSequence =>
      ∃ direct els bound t, c = .aggregate .tkSequence direct
          (.elementary .tkUlong els.length :: els) ∧ els.length + 1 < 2 ^ 31 ∧
        Heap.length h tc = .ok bound ∧ (bound = 0 ∨ els.length ≤ bound) ∧
        Heap.contentType h tc = .ok t ∧ ∀ el ∈ els, Conforms d t el
    | .tkArray =>
      ∃ direct els t, c = .aggregate .tkArray direct els ∧ els.length < 2 ^ 31 ∧
        Heap.length h tc = .ok els.length ∧ Heap.contentType h tc = .ok t ∧
        ∀ el ∈ els, Conforms d t el
    | .tkValuebox =>
      ∃ direct els, c = .aggregate .tkValuebox direct els ∧
        (els = [] ∨ ∃ el t, els = [el] ∧ Heap.contentType h tc = .ok t ∧ Conforms d t el)
    | k => isScalarKind k = true ∧ ∃ v, c = .elementary k v ∧ v < scalarModulus k

/-- An element that `Get_Aggregate_Element` returns: an element of a default aggregate must have a
content, which the values of null and void have not. -/
def IsGettable (direct : Bool) (el : Content) : Prop := direct = false → el.isEmpty = false

/-- Values that are marshalled without an error into a buffer of the given byte order. -/
def Marshallable (order : Endianness) : Nat → TcRef → Content → Prop
  | 0, _, _ => False
  | d + 1, ctc, c =>
    ∃ tc, Heap.unwindTypedefs h ctc = .ok tc ∧
    match Heap.kind h tc, c with
    | .tkStruct, .aggregate _ direct els | .tkExcept, .aggregate _ direct els =>
      ∀ j el t, els[j]? = some el → Heap.memberType h tc j = .ok t →
        IsGettable direct el ∧ Marshallable order d t el
    | .tkUnion, .aggregate _ direct (label :: rest) =>
      Heap.memberCount h tc ≠ .ok 0 ∧
      ∀ v ∈ rest, IsGettable direct v ∧ ∀ t m, Heap.discriminatorType h tc = .ok t →
        Heap.memberTypeWithLabel h cfg.structuredEq tc ⟨t, label⟩ = .ok m →
        Marshallable order d m v
    | .tkSequence, .aggregate _ direct els | .tkArray, .aggregate _ direct els =>
      match fastPathGetInfo cfg h (d + 1) c els.length tc order with
      | .ok (some (data, _, _)) => order = cfg.hostOrder ∧ data.length < 2 ^ 32
      | _ =>
        ∀ j el t, (Heap.kind h tc = .tkSequence → 0 < j) → els[j]? = some el →
          Heap.contentType h tc = .ok t → IsGettable direct el ∧ Marshallable order d t el
    | .tkValuebox, .aggregate _ direct els =>
      ∀ el ∈ els, ∀ t, Heap.contentType h tc = .ok t →
        IsGettable direct el ∧ Marshallable order d t el
    | _, _ => True

end PolyORB
