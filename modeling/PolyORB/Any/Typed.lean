import PolyORB.Any.Equality
import PolyORB.Lib.Checked

/-!
# Well-formed typecodes and their values

`IsType h tc`: over the heap `h`, the typecode `tc` is nested, to any depth, over the elementary
kinds, enumerations, structs, exceptions, unions, arrays, sequences and aliases.  `IsValue h tc c`:
the content `c` is a value of such a typecode, held in default aggregates.  A not-a-number is no
value of a floating point type.

Typecodes are created as a program runs, so that the heap grows; what was a type with its values
still is (`IsType.grow`).
-/

namespace PolyORB

/-- Integers, characters, booleans and octets. -/
def isDiscreteKind : TCKind → Bool
  | .tkShort | .tkLong | .tkUshort | .tkUlong | .tkLonglong | .tkUlonglong | .tkBoolean
  | .tkChar | .tkOctet | .tkWidechar => true
  | _ => false

/-- The kinds whose values are held as numbers. -/
def isNumericKind (k : TCKind) : Bool := isDiscreteKind k || isFloatKind k

/-- Number of representations of a numeric kind. -/
def numericModulus : TCKind → Nat
  | .tkBoolean => 2
  | k => 256 ^ elementarySize k

namespace Content

/-- Structural equality: the same lengths and pairwise equal elements. -/
def same : Content → Content → Bool
  | noContent, noContent => true
  | elementary k v, elementary k' w =>
    k == k' && if isFloatKind k then floatEq k v w else v == w
  | string s, string s' => s == s'
  | wideString s, wideString s' => s == s'
  | typeCode t, typeCode t' => t == t'
  | any t v, any t' v' => t == t' && same v v'
  | reference r, reference r' => r == r'
  | aggregate _ _ els, aggregate _ _ els' => sameList els els'
  | _, _ => false
where
  sameList : List Content → List Content → Bool
    | [], [] => true
    | c :: cs, c' :: cs' => same c c' && sameList cs cs'
    | _, _ => false

mutual
theorem same_comm : ∀ c c' : Content, c.same c' = c'.same c
  | .aggregate _ _ els, c' => by
    cases c' with
    | aggregate _ _ els' => exact sameList_comm els els'
    | _ => rfl
  | .any t v, c' => by
    cases c' with
    | any t' v' => simp only [same, same_comm v v', BEq.comm (a := t)]
    | _ => rfl
  | .elementary k v, c' => by
    cases c' with
    | elementary k' w =>
      simp only [same]
      by_cases hk : k = k'
      · subst hk
        rw [floatEq_comm, BEq.comm (a := v)]
      · rw [beq_false_of_ne hk, beq_false_of_ne (Ne.symm hk), Bool.false_and, Bool.false_and]
    | _ => rfl
  | .noContent, c' => by cases c' <;> rfl
  | .string _, c' => by cases c' <;> simp [same, eq_comm]
  | .wideString _, c' => by cases c' <;> simp [same, eq_comm]
  | .typeCode _, c' => by cases c' <;> simp [same, eq_comm]
  | .reference _, c' => by cases c' <;> simp [same, eq_comm]
theorem sameList_comm : ∀ cs cs' : List Content, same.sameList cs cs' = same.sameList cs' cs
  | [], [] => rfl
  | [], _ :: _ => rfl
  | _ :: _, [] => rfl
  | c :: cs, c' :: cs' => by
    simp only [same.sameList, same_comm c c', sameList_comm cs cs']
end

mutual
theorem same_trans : ∀ {c c' c'' : Content}, c.same c' = true → c'.same c'' = true →
    c.same c'' = true
  | .aggregate _ _ els, c', c'', h, h' => by
    cases c' with
    | aggregate _ _ els' =>
      cases c'' with
      | aggregate _ _ els'' => exact sameList_trans h h'
      | _ => cases h'
    | _ => cases h
  | .any t v, c', c'', h, h' => by
    cases c' with
    | any t' v' =>
      cases c'' with
      | any t'' v'' =>
        simp only [same, Bool.and_eq_true, beq_iff_eq] at h h' ⊢
        exact ⟨h.1.trans h'.1, same_trans h.2 h'.2⟩
      | _ => cases h'
    | _ => cases h
  | .elementary k v, c', c'', h, h' => by
    cases c' with
    | elementary k' v' =>
      cases c'' with
      | elementary k'' v'' =>
        simp only [same, Bool.and_eq_true, beq_iff_eq] at h h' ⊢
        obtain ⟨rfl, h⟩ := h
        obtain ⟨rfl, h'⟩ := h'
        refine ⟨rfl, ?_⟩
        split_ifs at h h' ⊢
        · exact floatEq_trans h h'
        · rw [beq_iff_eq] at h h' ⊢
          exact h.trans h'
      | _ => cases h'
    | _ => cases h
  | .noContent, c', c'', h, h' => by cases c' <;> first | exact h' | cases h
  | .string _, c', c'', h, h' => by cases c' <;> cases c'' <;> simp_all [same]
  | .wideString _, c', c'', h, h' => by cases c' <;> cases c'' <;> simp_all [same]
  | .typeCode _, c', c'', h, h' => by cases c' <;> cases c'' <;> simp_all [same]
  | .reference _, c', c'', h, h' => by cases c' <;> cases c'' <;> simp_all [same]
theorem sameList_trans : ∀ {cs cs' cs'' : List Content}, same.sameList cs cs' = true →
    same.sameList cs' cs'' = true → same.sameList cs cs'' = true
  | [], cs', cs'', h, h' => by
    cases cs' with
    | nil => exact h'
    | cons => cases h
  | c :: cs, cs', cs'', h, h' => by
    cases cs' with
    | nil => cases h
    | cons c' cs' =>
      cases cs'' with
      | nil => cases h'
      | cons c'' cs'' =>
        simp only [same.sameList, Bool.and_eq_true] at h h' ⊢
        exact ⟨same_trans h.1 h'.1, sameList_trans h.2 h'.2⟩
end

theorem sameList_iff {cs cs' : List Content} :
    same.sameList cs cs' = true ↔
      cs.length = cs'.length ∧ ∀ (j : Nat) (c c' : Content), cs[j]? = some c →
        cs'[j]? = some c' → c.same c' = true := by
  induction cs generalizing cs' with
  | nil =>
    cases cs' with
    | nil => simp [same.sameList]
    | cons => simp [same.sameList]
  | cons c cs ih =>
    cases cs' with
    | nil => simp [same.sameList]
    | cons c' cs' =>
      simp only [same.sameList, Bool.and_eq_true, ih, List.length_cons, Nat.add_right_cancel_iff]
      constructor
      · rintro ⟨hc, hl, hcs⟩
        refine ⟨hl, fun j d d' hd hd' => ?_⟩
        cases j with
        | zero =>
          obtain rfl := Option.some.inj hd
          obtain rfl := Option.some.inj hd'
          exact hc
        | succ j => exact hcs j d d' hd hd'
      · rintro ⟨hl, hcs⟩
        exact ⟨hcs 0 c c' rfl rfl, hl, fun j d d' hd hd' => hcs (j + 1) d d' hd hd'⟩

end Content

namespace Heap

open Checked

variable (h : Heap)

/-! ## Freezing -/

/-- The loop of `Freeze` over the members from `index` on, `count` of them left. -/
def freezeLoop (tc : TcRef) (defIndex : Int) : Nat → Nat → List Int → Except Exn (List Int)
  | 0, _, members => .ok members
  | count + 1, index, members =>
    if (index : Int) = defIndex then freezeLoop tc defIndex count (index + 1) members
    else do
      let label ← memberLabel h tc index
      let p ← posFromAny h label
      if p < members.length then freezeLoop tc defIndex count (index + 1) (members.set p index)
      else .error .constraintError

/-- `Enum_Len`, for the discriminators that get a lookup table. -/
def enumLen (disc : TcRef) : Except Exn (Option Nat) :=
  match kind h disc with
  | .tkBoolean => .ok (some 2)
  | .tkEnum => do return some (← memberCount h disc)
  | _ => .ok none

/-- The lookup table that `Freeze` gives a union.  Its last index `Enum_Len - 1` wraps around when
there is no enumerator, and the bound of the loop when there is no member. -/
def freeze (tc : TcRef) : Except Exn (Option (List Int)) := do
  match ← enumLen h (← discriminatorType h tc) with
  | none => return none
  | some len =>
    let defIndex ← defaultIndex h tc
    let last := subUnsignedLong (subUnsignedLong (parameterCount h tc) 4 / 3) 1
    return some (← freezeLoop h tc defIndex (last + 1) 0
      (List.replicate (subUnsignedLong len 1 + 1) defIndex))

/-! ## Discriminators and unions -/

/-- The type of a discriminator, behind any number of aliases. -/
def IsSwitchType (tc : TcRef) : Prop :=
  ∃ t, unwindTypedefs h tc = .ok t ∧
    (isDiscreteKind (kind h t) = true ∨
      kind h t = .tkEnum ∧ ∃ n, memberCount h t = .ok n ∧ 0 < n)

def enumValue (v : Nat) : Content := .aggregate .tkEnum false [.elementary .tkUlong v]

/-- The values of a discriminator. -/
def IsLabel (tc : TcRef) (c : Content) : Prop :=
  ∃ t, unwindTypedefs h tc = .ok t ∧
    (isDiscreteKind (kind h t) = true ∧
        (∃ v, v < numericModulus (kind h t) ∧ c = .elementary (kind h t) v) ∨
      kind h t = .tkEnum ∧ ∃ n, memberCount h t = .ok n ∧ ∃ v, v < n ∧ c = enumValue v)

/-- A frozen union of `n` members, with discriminator type `disc` and default index `d`. -/
structure IsUnion (t disc : TcRef) (n : Nat) (d : Int) (members : Nat → TcRef) : Prop where
  kind_eq : kind h t = .tkUnion
  count : parameterCount h t = 3 * n + 4
  pos : 0 < n
  size : 3 * n + 4 < unsignedLongModulus
  switch : discriminatorType h t = .ok disc
  isSwitch : IsSwitchType h disc
  default : defaultIndex h t = .ok d
  range : -1 ≤ d ∧ d < n
  labels : ∀ j < n, (j : Int) ≠ d → ∃ c, memberLabel h t j = .ok c ∧ IsLabel h disc c.value
  frozen : freeze h t = .ok (map h t)
  types : ∀ j < n, getTypeParameter h t (3 * j + 5) = .ok (members j)

/-- A discriminator is compared without a nested comparison. -/
def noNested : Heap → TcRef → Content → Content → Except Exn Bool :=
  fun _ _ _ _ => .error .programError

def selected (t disc : TcRef) (label : Content) : Except Exn TcRef :=
  memberTypeWithLabel h noNested t ⟨disc, label⟩

/-! ## Types and values -/

def isMetaKind : TCKind → Bool
  | .tkAny | .tkTypeCode => true
  | _ => false

def isStructKind : TCKind → Bool
  | .tkStruct | .tkExcept => true
  | _ => false

def isStringKind : TCKind → Bool
  | .tkString | .tkWstring => true
  | _ => false

inductive IsType : TcRef → Prop
  | numeric {tc t : TcRef} (hu : unwindTypedefs h tc = .ok t)
      (hk : isNumericKind (kind h t) = true) : IsType tc
  | self {tc t : TcRef} (hu : unwindTypedefs h tc = .ok t) (hk : isMetaKind (kind h t) = true) :
      IsType tc
  | string {tc t : TcRef} {n : Nat} (hu : unwindTypedefs h tc = .ok t)
      (hk : isStringKind (kind h t) = true) (hn : length h t = .ok n) : IsType tc
  | enum {tc t : TcRef} {n : Nat} (hu : unwindTypedefs h tc = .ok t) (hk : kind h t = .tkEnum)
      (hn : memberCount h t = .ok n) (hpos : 0 < n) : IsType tc
  | struct {tc t : TcRef} {n : Nat} {members : Nat → TcRef} (hu : unwindTypedefs h tc = .ok t)
      (hk : isStructKind (kind h t) = true) (hn : memberCount h t = .ok n)
      (hmembers : ∀ j < n, memberType h t j = .ok (members j))
      (htypes : ∀ j < n, IsType (members j)) : IsType tc
  | union {tc t disc : TcRef} {n : Nat} {d : Int} {members : Nat → TcRef}
      (hu : unwindTypedefs h tc = .ok t) (hunion : IsUnion h t disc n d members)
      (htypes : ∀ j < n, IsType (members j)) : IsType tc
  | sequence {tc t e : TcRef} {n : Nat} (hu : unwindTypedefs h tc = .ok t)
      (hk : kind h t = .tkSequence) (hn : length h t = .ok n) (hsize : n < unsignedLongModulus)
      (he : contentType h t = .ok e) (htype : IsType e) : IsType tc
  | array {tc t e : TcRef} {n : Nat} (hu : unwindTypedefs h tc = .ok t)
      (hk : kind h t = .tkArray) (hn : length h t = .ok n) (hsize : n < unsignedLongModulus)
      (he : contentType h t = .ok e) (htype : IsType e) : IsType tc

inductive IsValue : TcRef → Content → Prop
  | numeric {tc t : TcRef} {v : Nat} (hu : unwindTypedefs h tc = .ok t)
      (hk : isNumericKind (kind h t) = true) (hv : v < numericModulus (kind h t))
      (hnum : isFloatKind (kind h t) = true → isNaN (kind h t) v = false) :
      IsValue tc (.elementary (kind h t) v)
  | any {tc t u : TcRef} {v : Content} (hu : unwindTypedefs h tc = .ok t)
      (hk : kind h t = .tkAny) (htype : IsType h u) (hvalue : IsValue u v) : IsValue tc (.any u v)
  | typeCode {tc t : TcRef} (hu : unwindTypedefs h tc = .ok t) (hk : kind h t = .tkTypeCode)
      (u : TcRef) : IsValue tc (.typeCode u)
  | string {tc t : TcRef} {n : Nat} {s : List UInt8} (hu : unwindTypedefs h tc = .ok t)
      (hk : kind h t = .tkString) (hn : length h t = .ok n) (hs : n = 0 ∨ s.length ≤ n) :
      IsValue tc (.string s)
  | wideString {tc t : TcRef} {n : Nat} {s : List Nat} (hu : unwindTypedefs h tc = .ok t)
      (hk : kind h t = .tkWstring) (hn : length h t = .ok n) (hs : n = 0 ∨ s.length ≤ n) :
      IsValue tc (.wideString s)
  | enum {tc t : TcRef} {n v : Nat} (hu : unwindTypedefs h tc = .ok t) (hk : kind h t = .tkEnum)
      (hn : memberCount h t = .ok n) (hv : v < n) : IsValue tc (enumValue v)
  | struct {tc t : TcRef} {els : List Content} {members : Nat → TcRef}
      (hu : unwindTypedefs h tc = .ok t) (hk : isStructKind (kind h t) = true)
      (hn : memberCount h t = .ok els.length)
      (hmembers : ∀ j < els.length, memberType h t j = .ok (members j))
      (hels : ∀ (j : Nat) el, els[j]? = some el → IsValue (members j) el) :
      IsValue tc (.aggregate (kind h t) false els)
  | union {tc t disc m : TcRef} {label v : Content} (hu : unwindTypedefs h tc = .ok t)
      (hk : kind h t = .tkUnion) (hd : discriminatorType h t = .ok disc)
      (hlabel : IsLabel h disc label) (hm : selected h t disc label = .ok m)
      (hvoid : kind h m ≠ .tkVoid) (hvalue : IsValue m v) :
      IsValue tc (.aggregate .tkUnion false [label, v])
  /-- A label that selects no member. -/
  | unselected {tc t disc m : TcRef} {label : Content} (hu : unwindTypedefs h tc = .ok t)
      (hk : kind h t = .tkUnion) (hd : discriminatorType h t = .ok disc)
      (hlabel : IsLabel h disc label) (hm : selected h t disc label = .ok m)
      (hvoid : kind h m = .tkVoid) : IsValue tc (.aggregate .tkUnion false [label])
  | sequence {tc t e : TcRef} {n : Nat} {els : List Content} (hu : unwindTypedefs h tc = .ok t)
      (hk : kind h t = .tkSequence) (hn : length h t = .ok n) (hbound : n = 0 ∨ els.length ≤ n)
      (he : contentType h t = .ok e) (hels : ∀ el ∈ els, IsValue e el) :
      IsValue tc (.aggregate .tkSequence false (.elementary .tkUlong els.length :: els))
  | array {tc t e : TcRef} {els : List Content} (hu : unwindTypedefs h tc = .ok t)
      (hk : kind h t = .tkArray) (hn : length h t = .ok els.length)
      (he : contentType h t = .ok e) (hels : ∀ el ∈ els, IsValue e el) :
      IsValue tc (.aggregate .tkArray false els)

/-! ## The heap grows -/

section Grow

variable {h} (objs : Heap)

theorem object_grow {n : Nat} (hk : kind h (.obj n) ≠ .tkVoid) : (h ++ objs)[n]? = h[n]? := by
  refine List.getElem?_append_left ?_
  by_contra hn
  apply hk
  rw [kind, List.getElem?_eq_none (Nat.le_of_not_lt hn)]
  rfl

variable {t : TcRef}

theorem kind_grow (hk : kind h t ≠ .tkVoid) : kind (h ++ objs) t = kind h t := by
  cases t with
  | ptc k => rfl
  | obj n =>
    rw [kind, kind, object_grow objs hk]

theorem parameters_grow (hk : kind h t ≠ .tkVoid) :
    parameters (h ++ objs) t = parameters h t := by
  cases t with
  | ptc k => cases k <;> rfl
  | obj n =>
    rw [parameters, parameters, object_grow objs hk]

theorem map_grow (hk : kind h t ≠ .tkVoid) : map (h ++ objs) t = map h t := by
  cases t with
  | ptc k => rfl
  | obj n =>
    rw [map, map, object_grow objs hk]

theorem getParameter_grow (hk : kind h t ≠ .tkVoid) (i : Nat) :
    getParameter (h ++ objs) t i = getParameter h t i := by
  unfold getParameter
  rw [parameters_grow objs hk]

theorem getTypeParameter_grow (hk : kind h t ≠ .tkVoid) (i : Nat) :
    getTypeParameter (h ++ objs) t i = getTypeParameter h t i := by
  unfold getTypeParameter
  rw [getParameter_grow objs hk]

theorem parameterCount_grow (hk : kind h t ≠ .tkVoid) :
    parameterCount (h ++ objs) t = parameterCount h t := by
  unfold parameterCount
  rw [parameters_grow objs hk]

theorem memberCount_grow (hk : kind h t ≠ .tkVoid) :
    memberCount (h ++ objs) t = memberCount h t := by
  unfold memberCount
  rw [parameterCount_grow objs hk, kind_grow objs hk]

theorem memberType_grow (hk : kind h t ≠ .tkVoid) (j : Nat) :
    memberType (h ++ objs) t j = memberType h t j := by
  unfold memberType
  simp [parameterCount_grow objs hk, kind_grow objs hk, getTypeParameter_grow objs hk]

theorem memberLabel_grow (hk : kind h t ≠ .tkVoid) (j : Nat) :
    memberLabel (h ++ objs) t j = memberLabel h t j := by
  unfold memberLabel
  simp [parameterCount_grow objs hk, kind_grow objs hk, getParameter_grow objs hk]

theorem contentType_grow (hk : kind h t ≠ .tkVoid) :
    contentType (h ++ objs) t = contentType h t := by
  unfold contentType
  simp [kind_grow objs hk, getTypeParameter_grow objs hk]

theorem discriminatorType_grow (hk : kind h t ≠ .tkVoid) :
    discriminatorType (h ++ objs) t = discriminatorType h t := by
  unfold discriminatorType
  simp [kind_grow objs hk, getTypeParameter_grow objs hk]

theorem unwindTypedefs_go_grow {n m : Nat} {tc : TcRef} (hu : unwindTypedefs.go h n tc = .ok t)
    (hk : kind h t ≠ .tkVoid) (hle : n ≤ m) : unwindTypedefs.go (h ++ objs) m tc = .ok t := by
  induction n generalizing m tc with
  | zero => cases hu
  | succ n ih =>
    obtain ⟨m, rfl⟩ : ∃ k, m = k + 1 := ⟨m - 1, by omega⟩
    rw [unwindTypedefs.go] at hu ⊢
    by_cases hv : kind h tc = .tkVoid
    · rw [if_neg (by rw [hv]; decide)] at hu
      obtain rfl := Except.ok.inj hu
      exact absurd hv hk
    · rw [kind_grow objs hv, contentType_grow objs hv]
      split_ifs at hu ⊢ with ha
      · obtain ⟨e, he, hu⟩ := bind_eq_ok.1 hu
        rw [he, bind_ok]
        exact ih hu (by omega)
      · exact hu

theorem unwindTypedefs_grow {tc : TcRef} (hu : unwindTypedefs h tc = .ok t)
    (hk : kind h t ≠ .tkVoid) : unwindTypedefs (h ++ objs) tc = .ok t :=
  unwindTypedefs_go_grow objs hu hk (by rw [List.length_append]; omega)

theorem fromAny_grow {k : TCKind} {c : Container} {v : Nat} (hv : fromAny h k c = .ok v)
    (hk : k ≠ .tkVoid) : fromAny (h ++ objs) k c = .ok v := by
  unfold fromAny at hv ⊢
  obtain ⟨t, hu, hv⟩ := bind_eq_ok.1 hv
  split_ifs at hv with ht
  have ht' : kind h t ≠ .tkVoid := by rw [ht]; exact hk
  rw [unwindTypedefs_grow objs hu ht', bind_ok, kind_grow objs ht', if_pos ht]
  exact hv

theorem length_grow {n : Nat} (hn : length h t = .ok n) :
    length (h ++ objs) t = .ok n := by
  have hk : kind h t ≠ .tkVoid := by
    intro hk
    rw [length, hk] at hn
    cases hn
  unfold length at hn ⊢
  rw [kind_grow objs hk, getParameter_grow objs hk]
  split at hn
  all_goals first
    | cases hn
    | (obtain ⟨c, hc, hv⟩ := bind_eq_ok.1 hn
       simp only [hc, bind_ok]
       exact fromAny_grow objs hv (by decide))

theorem defaultIndex_grow {d : Int} (hd : defaultIndex h t = .ok d) :
    defaultIndex (h ++ objs) t = .ok d := by
  have hk : kind h t ≠ .tkVoid := by
    intro hk
    rw [defaultIndex, hk] at hd
    cases hd
  unfold defaultIndex at hd ⊢
  rw [kind_grow objs hk, getParameter_grow objs hk]
  split at hd
  · obtain ⟨c, hc, hd⟩ := bind_eq_ok.1 hd
    obtain ⟨v, hv, hd⟩ := bind_eq_ok.1 hd
    simp only [hc, bind_ok, fromAny_grow objs hv (show TCKind.tkLong ≠ .tkVoid by decide)]
    exact hd
  · cases hd

end Grow

end Heap

end PolyORB
