import PolyORB.Any.Labels

/-!
# What one comparison answers

The branches of `Any_Container_Eq` on values of each kind, for nested comparisons that are only
known by what they answer.  From them, by induction on the type: the comparison decides structural
equality for the values of a `Comparable` type (`Comparable.decides`); and by induction on the step
bound: nothing is ever said to differ from itself (`compare_neverFalse`).
-/

namespace PolyORB

namespace Heap

open Checked Filter

variable {h : Heap}

/-! ## Values of each kind -/

variable {k k' : TCKind}

theorem not_struct_of_numeric (hk : isNumericKind k = true) :
    isStructKind k = false := by
  cases k <;> first | rfl | cases hk

variable {e disc : TcRef}

namespace IsValue

variable {tc t : TcRef} {c : Content}

theorem numeric_inv (hv : IsValue h tc c) (hu : unwindTypedefs h tc = .ok t)
    (hk : isNumericKind (kind h t) = true) :
    ∃ v, c = .elementary (kind h t) v ∧
      (isFloatKind (kind h t) = true → isNaN (kind h t) v = false) := by
  have hstruct := not_struct_of_numeric hk
  cases hv with
  | numeric hu' _ _ hnum =>
    obtain rfl := ok_inj hu hu'
    exact ⟨_, rfl, hnum⟩
  | struct hu' hk' =>
    obtain rfl := ok_inj hu hu'
    rw [hstruct] at hk'
    cases hk'
  | any hu' hk' | typeCode hu' hk' | string hu' hk' | wideString hu' hk' | enum hu' hk'
  | union hu' hk' | unselected hu' hk' | sequence hu' hk' | array hu' hk' =>
    obtain rfl := ok_inj hu hu'
    rw [hk'] at hk
    cases hk

theorem string_inv (hv : IsValue h tc c) (hu : unwindTypedefs h tc = .ok t)
    (hk : kind h t = .tkString) : ∃ s n, c = .string s ∧ length h t = .ok n := by
  cases hv with
  | string hu' _ hn =>
    obtain rfl := ok_inj hu hu'
    exact ⟨_, _, rfl, hn⟩
  | numeric hu' hk' | any hu' hk' | typeCode hu' hk' | wideString hu' hk' | enum hu' hk'
  | struct hu' hk' | union hu' hk' | unselected hu' hk' | sequence hu' hk' | array hu' hk' =>
    obtain rfl := ok_inj hu hu'
    rw [hk] at hk'
    cases hk'

theorem wideString_inv (hv : IsValue h tc c) (hu : unwindTypedefs h tc = .ok t)
    (hk : kind h t = .tkWstring) : ∃ s, c = .wideString s := by
  cases hv with
  | wideString => exact ⟨_, rfl⟩
  | numeric hu' hk' | any hu' hk' | typeCode hu' hk' | string hu' hk' | enum hu' hk'
  | struct hu' hk' | union hu' hk' | unselected hu' hk' | sequence hu' hk' | array hu' hk' =>
    obtain rfl := ok_inj hu hu'
    rw [hk] at hk'
    cases hk'

theorem enum_inv (hv : IsValue h tc c) (hu : unwindTypedefs h tc = .ok t)
    (hk : kind h t = .tkEnum) : ∃ v, c = enumValue v := by
  cases hv with
  | enum => exact ⟨_, rfl⟩
  | numeric hu' hk' | any hu' hk' | typeCode hu' hk' | string hu' hk' | wideString hu' hk'
  | struct hu' hk' | union hu' hk' | unselected hu' hk' | sequence hu' hk' | array hu' hk' =>
    obtain rfl := ok_inj hu hu'
    rw [hk] at hk'
    cases hk'

theorem struct_inv (hv : IsValue h tc c) (hu : unwindTypedefs h tc = .ok t)
    (hk : isStructKind (kind h t) = true) :
    ∃ els, c = .aggregate (kind h t) false els ∧ memberCount h t = .ok els.length ∧
      ∀ (j : Nat) el m, els[j]? = some el → memberType h t j = .ok m → IsValue h m el := by
  cases hv with
  | struct hu' _ hn hmembers hels =>
    obtain rfl := ok_inj hu hu'
    refine ⟨_, rfl, hn, fun j el m hel hm => ?_⟩
    have hj := hmembers j (List.getElem?_eq_some_iff.1 hel).1
    obtain rfl := ok_inj hm hj
    exact hels j el hel
  | numeric hu' hk' =>
    obtain rfl := ok_inj hu hu'
    rw [not_struct_of_numeric hk'] at hk
    cases hk
  | any hu' hk' | typeCode hu' hk' | string hu' hk' | wideString hu' hk' | enum hu' hk'
  | union hu' hk' | unselected hu' hk' | sequence hu' hk' | array hu' hk' =>
    obtain rfl := ok_inj hu hu'
    rw [hk'] at hk
    cases hk

theorem union_inv (hv : IsValue h tc c) (hu : unwindTypedefs h tc = .ok t)
    (hk : kind h t = .tkUnion) :
    ∃ disc label m, discriminatorType h t = .ok disc ∧ IsLabel h disc label ∧
      selected h t disc label = .ok m ∧
      (kind h m = .tkVoid ∧ c = .aggregate .tkUnion false [label] ∨
        kind h m ≠ .tkVoid ∧ ∃ v, c = .aggregate .tkUnion false [label, v] ∧ IsValue h m v) := by
  cases hv with
  | @union _ _ disc m label v hu' _ hd hlabel hm hvoid hvalue =>
    obtain rfl := ok_inj hu hu'
    exact ⟨disc, label, m, hd, hlabel, hm, .inr ⟨hvoid, v, rfl, hvalue⟩⟩
  | @unselected _ _ disc m label hu' _ hd hlabel hm hvoid =>
    obtain rfl := ok_inj hu hu'
    exact ⟨disc, label, m, hd, hlabel, hm, .inl ⟨hvoid, rfl⟩⟩
  | numeric hu' hk' | any hu' hk' | typeCode hu' hk' | string hu' hk' | wideString hu' hk'
  | enum hu' hk' | struct hu' hk' | sequence hu' hk' | array hu' hk' =>
    obtain rfl := ok_inj hu hu'
    rw [hk] at hk'
    cases hk'

theorem array_inv (hv : IsValue h tc c) (hu : unwindTypedefs h tc = .ok t)
    (hk : kind h t = .tkArray) (he : contentType h t = .ok e) :
    ∃ els, c = .aggregate .tkArray false els ∧ length h t = .ok els.length ∧
      ∀ el ∈ els, IsValue h e el := by
  cases hv with
  | array hu' _ hn he' hels =>
    obtain rfl := ok_inj hu hu'
    obtain rfl := ok_inj he he'
    exact ⟨_, rfl, hn, hels⟩
  | numeric hu' hk' | any hu' hk' | typeCode hu' hk' | string hu' hk' | wideString hu' hk'
  | enum hu' hk' | struct hu' hk' | union hu' hk' | unselected hu' hk' | sequence hu' hk' =>
    obtain rfl := ok_inj hu hu'
    rw [hk] at hk'
    cases hk'

/-- A value of a well-formed type has a content. -/
theorem isEmpty (hv : IsValue h tc c) : c.isEmpty = false := by
  cases hv <;> rfl

theorem same_self (hv : IsValue h tc c) : c.same c = true := by
  have hlabel {disc label} (hl : IsLabel h disc label) : Content.same label label = true := by
    obtain ⟨t, -, ⟨hk, v, -, rfl⟩ | ⟨-, n, -, v, -, rfl⟩⟩ := hl
    · simp [Content.same, isFloatKind_of_discrete hk]
    · simp [Content.same, Content.same.sameList, enumValue, isFloatKind]
  have hlist {els : List Content} (hall : ∀ el ∈ els, Content.same el el = true) :
      Content.same.sameList els els = true := by
    refine Content.sameList_iff.2 ⟨rfl, fun j d d' hd hd' => ?_⟩
    obtain rfl := Option.some.inj (hd.symm.trans hd')
    exact hall d (List.mem_of_getElem? hd)
  induction hv with
  | numeric _ _ _ hnum =>
    rw [Content.same, beq_self_eq_true, Bool.true_and]
    split_ifs with hk
    · exact floatEq_self (hnum hk)
    · exact beq_self_eq_true _
  | any _ _ _ _ ih =>
    rw [Content.same, ih]
    simp
  | typeCode => simp [Content.same]
  | string => simp [Content.same]
  | wideString => simp [Content.same]
  | enum => simp [Content.same, Content.same.sameList, enumValue, isFloatKind]
  | struct _ _ _ _ _ ih =>
    refine hlist fun el hel => ?_
    obtain ⟨j, hj⟩ := List.getElem?_of_mem hel
    exact ih j el hj
  | union _ _ _ hl _ _ _ ih => simp [Content.same, Content.same.sameList, hlabel hl, ih]
  | unselected _ _ _ hl => simp [Content.same, Content.same.sameList, hlabel hl]
  | sequence _ _ _ _ _ _ ih =>
    rw [Content.same, Content.same.sameList, hlist ih]
    simp [Content.same, isFloatKind]
  | array _ _ _ _ _ ih => exact hlist ih

end IsValue

/-! ## Every type has a value -/

theorem isNaN_zero (k : TCKind) : isNaN k 0 = false := by
  cases k <;> rfl

theorem numericModulus_pos (k : TCKind) : 0 < numericModulus k := by
  unfold numericModulus
  split
  · decide
  · positivity

theorem unwindTypedefs_ptc (hk : k ≠ .tkAlias) :
    unwindTypedefs h (.ptc k) = .ok (.ptc k) := by
  exact if_neg hk

theorem IsType.exists_value {tc : TcRef} (ht : IsType h tc) : ∃ c, IsValue h tc c := by
  induction ht with
  | numeric hu hk =>
    exact ⟨_, .numeric hu hk (numericModulus_pos _) fun _ => isNaN_zero _⟩
  | @self tc t hu hk =>
    by_cases hany : kind h t = .tkAny
    · have hlong : unwindTypedefs h (.ptc .tkLong) = .ok (.ptc .tkLong) :=
        unwindTypedefs_ptc (by decide)
      exact ⟨_, .any hu hany (.numeric hlong rfl)
        (.numeric hlong rfl (numericModulus_pos _) fun _ => isNaN_zero _)⟩
    · refine ⟨_, .typeCode hu ?_ (.ptc .tkVoid)⟩
      revert hk hany
      cases kind h t <;> decide
  | @string tc t n hu hk hn =>
    by_cases hs : kind h t = .tkString
    · exact ⟨_, .string (s := []) hu hs hn (.inr (Nat.zero_le n))⟩
    · refine ⟨_, .wideString (s := []) hu ?_ hn (.inr (Nat.zero_le n))⟩
      revert hk hs
      cases kind h t <;> decide
  | enum hu hk hn hpos => exact ⟨_, .enum hu hk hn hpos⟩
  | @struct tc t n members hu hk hn hmembers _ ih =>
    have hval : ∀ j, ∃ c, j < n → IsValue h (members j) c := by
      intro j
      by_cases hj : j < n
      · obtain ⟨c, hc⟩ := ih j hj
        exact ⟨c, fun _ => hc⟩
      · exact ⟨.noContent, fun hj' => absurd hj' hj⟩
    choose value hvalue using hval
    have hlen : ((List.range n).map value).length = n := by simp
    have hels (j : Nat) (el : Content) (hel : ((List.range n).map value)[j]? = some el) :
        IsValue h (members j) el := by
      obtain ⟨hj, rfl⟩ := List.getElem?_eq_some_iff.1 hel
      rw [hlen] at hj
      simpa using hvalue j hj
    exact ⟨_, .struct hu hk (hlen.symm ▸ hn) (hlen.symm ▸ hmembers) hels⟩
  | @union tc t disc n d members hu hunion _ ih =>
    obtain ⟨label, hl⟩ := hunion.isSwitch.exists_label
    rcases hunion.selected_cases hl with hm | ⟨j, hj, hm⟩
    · exact ⟨_, .unselected hu hunion.kind_eq hunion.switch hl hm rfl⟩
    · by_cases hvoid : kind h (members j) = .tkVoid
      · exact ⟨_, .unselected hu hunion.kind_eq hunion.switch hl hm hvoid⟩
      · obtain ⟨c, hc⟩ := ih j hj
        exact ⟨_, .union hu hunion.kind_eq hunion.switch hl hm hvoid hc⟩
  | @sequence tc t e n hu hk hn _ he _ _ =>
    have hnone : ∀ el ∈ ([] : List Content), IsValue h e el := fun el hel => by cases hel
    have hshort : n = 0 ∨ ([] : List Content).length ≤ n := .inr (Nat.zero_le n)
    exact ⟨_, .sequence hu hk hn hshort he hnone⟩
  | @array tc t e n hu hk hn _ he _ ih =>
    obtain ⟨c, hc⟩ := ih
    have hels : ∀ el ∈ List.replicate n c, IsValue h e el := by
      intro el hel
      rw [List.eq_of_mem_replicate hel]
      exact hc
    have hlen : (List.replicate n c).length = n := List.length_replicate
    exact ⟨_, .array hu hk (hlen.symm ▸ hn) he hels⟩

/-! ## One comparison -/

variable {lels rels els : List Content}

section Comparing

variable {cmp : Comparison → Except Exn Bool} {lt rt tc t : TcRef} {l r : Content}

/-- The kinds that `structuredEq` compares. -/
def isStructuredKind : TCKind → Bool
  | .tkNull | .tkVoid | .tkEnum | .tkAlias => false
  | k => !isDiscreteKind k

theorem contentsEq_structured (hu : unwindTypedefs h tc = .ok t)
    (hk : isStructuredKind (kind h t) = true) :
    contentsEq h cmp lt rt tc l r = structuredEq h cmp lt rt (kind h t) tc l r := by
  unfold contentsEq anyContainerEq
  rw [hu, bind_ok]
  cases hkt : kind h t <;> rw [hkt] at hk <;> first
    | exact absurd hk (by decide)
    | (dsimp only
       rw [hu, bind_ok, hkt])

theorem contentsEq_switch (hu : unwindTypedefs h tc = .ok t)
    (hk : isDiscreteKind (kind h t) = true ∨ kind h t = .tkEnum) :
    contentsEq h cmp lt rt tc l r = labelEq (kind h t) l r :=
  anyContainerEq_switch hu hk _ l r

theorem contentsEq_struct (hu : unwindTypedefs h tc = .ok t)
    (hk : isStructKind (kind h t) = true) :
    contentsEq h cmp lt rt tc l r = structEq h cmp tc l r := by
  have hs : isStructuredKind (kind h t) = true := by
    revert hk
    cases kind h t <;> decide
  rw [contentsEq_structured hu hs]
  cases hkt : kind h t <;> rw [hkt] at hk <;> first
    | rfl
    | cases hk

theorem contentsEq_union (hu : unwindTypedefs h tc = .ok t) (hk : kind h t = .tkUnion) :
    contentsEq h cmp lt rt tc l r = unionEq h cmp tc l r := by
  rw [contentsEq_structured hu (by rw [hk]; rfl), hk]
  rfl

theorem contentsEq_list (hu : unwindTypedefs h tc = .ok t)
    (hk : kind h t = .tkSequence ∨ kind h t = .tkArray) :
    contentsEq h cmp lt rt tc l r = listEq h cmp tc l r := by
  rcases hk with hk | hk
  · rw [contentsEq_structured hu (by rw [hk]; rfl), hk]
    rfl
  · rw [contentsEq_structured hu (by rw [hk]; rfl), hk]
    rfl

theorem contentsEq_float (hu : unwindTypedefs h tc = .ok t)
    (hk : isFloatKind (kind h t) = true) :
    contentsEq h cmp lt rt tc l r = (do
      return floatEq (kind h t) (← uncheckedFromAny (kind h t) l)
        (← uncheckedFromAny (kind h t) r)) := by
  have hs : isStructuredKind (kind h t) = true := by
    revert hk
    cases kind h t <;> decide
  rw [contentsEq_structured hu hs]
  cases hkt : kind h t <;> rw [hkt] at hk <;> first
    | rfl
    | cases hk

theorem aggElementsEqual_inv {left right : Bool × List Content} {j : Nat} {b : Bool}
    (hb : aggElementsEqual cmp lt rt tc left right j = .ok b) :
    ∃ l r, left.2[j]? = some l ∧ right.2[j]? = some r ∧ cmp (.contents lt rt tc l r) = .ok b := by
  have hget {direct : Bool} {els : List Content} {el : Content}
      (hel : getAggregateElement direct els j = .ok el) : els[j]? = some el := by
    unfold getAggregateElement at hel
    split at hel
    · cases hel
    · rename_i el' hj
      split_ifs at hel
      rw [hj, Except.ok.inj hel]
  obtain ⟨l, hl, hb⟩ := bind_eq_ok.1 hb
  obtain ⟨r, hr, hb⟩ := bind_eq_ok.1 hb
  exact ⟨l, r, hget hl, hget hr, hb⟩

theorem aggElementsEqual_eq {j : Nat} (hl : lels[j]? = some l)
    (hr : rels[j]? = some r) (hle : l.isEmpty = false) (hre : r.isEmpty = false) :
    aggElementsEqual cmp lt rt tc (false, lels) (false, rels) j =
      cmp (.contents lt rt tc l r) := by
  rw [aggElementsEqual, getAggregateElement_eq hl hle, getAggregateElement_eq hr hre, bind_ok,
    bind_ok]

/-- A loop that ends with an answer has compared everything, or has met a difference. -/
theorem aggLoop_inv {elementType : Nat → Except Exn TcRef} {left right : Bool × List Content}
    {count index : Nat} {b : Bool}
    (hb : aggLoop cmp elementType left right count index = .ok b) :
    (b = true → ∀ j, index ≤ j → j < index + count → ∃ t, elementType j = .ok t ∧
      aggElementsEqual cmp unsetType unsetType t left right j = .ok true) ∧
    (b = false → ∃ j, index ≤ j ∧ j < index + count ∧ ∃ t, elementType j = .ok t ∧
      aggElementsEqual cmp unsetType unsetType t left right j = .ok false) := by
  induction count generalizing index with
  | zero =>
    obtain rfl := Except.ok.inj hb
    refine ⟨fun _ j h₁ h₂ => ?_, Bool.noConfusion⟩
    omega
  | succ count ih =>
    obtain ⟨t, ht, hb⟩ := bind_eq_ok.1 hb
    obtain ⟨e, he, hb⟩ := bind_eq_ok.1 hb
    cases e with
    | false =>
      obtain rfl := Except.ok.inj hb
      exact ⟨Bool.noConfusion, fun _ => ⟨index, le_refl _, by omega, t, ht, he⟩⟩
    | true =>
      obtain ⟨htrue, hfalse⟩ := ih hb
      constructor
      · intro hbt j h₁ h₂
        rcases Nat.eq_or_lt_of_le h₁ with rfl | h₁
        · exact ⟨t, ht, he⟩
        · exact htrue hbt j h₁ (by omega)
      · intro hbf
        obtain ⟨j, h₁, h₂, hj⟩ := hfalse hbf
        exact ⟨j, by omega, by omega, hj⟩

theorem aggLoop_eq {elementType : Nat → Except Exn TcRef}
    {count index : Nat} (hl : lels.length = index + count) (hr : rels.length = index + count)
    (hcmp : ∀ j l r, index ≤ j → lels[j]? = some l → rels[j]? = some r →
      ∃ t, elementType j = .ok t ∧ aggElementsEqual cmp unsetType unsetType t (false, lels)
        (false, rels) j = .ok (l.same r)) :
    aggLoop cmp elementType (false, lels) (false, rels) count index =
      .ok (Content.same.sameList (lels.drop index) (rels.drop index)) := by
  induction count generalizing index with
  | zero =>
    rw [List.drop_eq_nil_of_le (by omega), List.drop_eq_nil_of_le (by omega)]
    rfl
  | succ count ih =>
    have hlt : index < lels.length := by omega
    have hrt : index < rels.length := by omega
    obtain ⟨t, ht, heq⟩ := hcmp index lels[index] rels[index] (le_refl _)
      (List.getElem?_eq_getElem hlt) (List.getElem?_eq_getElem hrt)
    rw [aggLoop, ht, bind_ok, heq, bind_ok, List.drop_eq_getElem_cons hlt,
      List.drop_eq_getElem_cons hrt, Content.same.sameList]
    cases hs : lels[index].same rels[index] with
    | false => rfl
    | true =>
      exact ih (by omega) (by omega) fun j l r hj => hcmp j l r (by omega)

end Comparing

/-! ## Comparable types -/

/-- The types whose values are compared structurally, `nested` in an aggregate or on their own: no
sequence occurs in them, no wide string with a bound, no empty array, no `Any` and no `TypeCode`;
strings only occur on their own, and every label of a union selects a member. -/
inductive Comparable (h : Heap) : Bool → TcRef → Prop
  | numeric {nested : Bool} {tc t : TcRef} (hu : unwindTypedefs h tc = .ok t)
      (hk : isNumericKind (kind h t) = true) : Comparable h nested tc
  | enum {nested : Bool} {tc t : TcRef} (hu : unwindTypedefs h tc = .ok t)
      (hk : kind h t = .tkEnum) : Comparable h nested tc
  | string {tc t : TcRef} (hu : unwindTypedefs h tc = .ok t) (hk : kind h t = .tkString) :
      Comparable h false tc
  | wideString {tc t : TcRef} (hu : unwindTypedefs h tc = .ok t) (hk : kind h t = .tkWstring)
      (hn : length h t = .ok 0) : Comparable h false tc
  | struct {nested : Bool} {tc t : TcRef} {n : Nat} {members : Nat → TcRef}
      (hu : unwindTypedefs h tc = .ok t) (hk : isStructKind (kind h t) = true)
      (hn : memberCount h t = .ok n) (hmembers : ∀ j < n, memberType h t j = .ok (members j))
      (hall : ∀ j < n, Comparable h true (members j)) : Comparable h nested tc
  | union {nested : Bool} {tc t disc : TcRef} {n : Nat} {d : Int} {members : Nat → TcRef}
      {member : Content → TcRef} (hu : unwindTypedefs h tc = .ok t)
      (hunion : IsUnion h t disc n d members)
      (hm : ∀ label, IsLabel h disc label →
        selected h t disc label = .ok (member label) ∧ kind h (member label) ≠ .tkVoid)
      (hall : ∀ label, IsLabel h disc label → Comparable h true (member label)) :
      Comparable h nested tc
  | array {nested : Bool} {tc t e : TcRef} {n : Nat} (hu : unwindTypedefs h tc = .ok t)
      (hk : kind h t = .tkArray) (hn : length h t = .ok n) (hpos : 0 < n)
      (hsize : n < unsignedLongModulus) (he : contentType h t = .ok e)
      (hall : Comparable h true e) : Comparable h nested tc

variable {n : Nat}

section Decides

variable {tc t : TcRef} {l r : Content} {cmp : Comparison → Except Exn Bool}

theorem numeric_eq (hu : unwindTypedefs h tc = .ok t)
    (hk : isNumericKind (kind h t) = true) (lt rt : TcRef) (v w : Nat) :
    contentsEq h cmp lt rt tc (.elementary (kind h t) v) (.elementary (kind h t) w) =
      .ok (Content.same (.elementary (kind h t) v) (.elementary (kind h t) w)) := by
  rw [isNumericKind, Bool.or_eq_true] at hk
  rw [Content.same, beq_self_eq_true, Bool.true_and]
  rcases hk with hk | hk
  · rw [contentsEq_switch hu (.inl hk), labelEq, if_neg (discrete_ne_enum hk),
      uncheckedFromAny_elementary, uncheckedFromAny_elementary, isFloatKind_of_discrete hk]
    rfl
  · rw [contentsEq_float hu hk, uncheckedFromAny_elementary, uncheckedFromAny_elementary, hk]
    rfl

theorem enum_eq (hu : unwindTypedefs h tc = .ok t)
    (hk : kind h t = .tkEnum) (lt rt : TcRef) (v w : Nat) :
    contentsEq h cmp lt rt tc (enumValue v) (enumValue w) =
      .ok ((enumValue v).same (enumValue w)) := by
  rw [contentsEq_switch hu (.inr hk), labelEq, if_pos hk, enumPosition_enumValue,
    enumPosition_enumValue]
  simp [Content.same, Content.same.sameList, enumValue, isFloatKind]

theorem string_eq
    (hu : unwindTypedefs h tc = .ok t) (hk : kind h t = .tkString) (hn : length h t = .ok n)
    (s s' : List UInt8) :
    contentsEq h cmp tc tc tc (.string s) (.string s') = .ok (s == s') := by
  have hread (s : List UInt8) : fromAnyStandardString h ⟨tc, .string s⟩ = .ok s := by
    unfold fromAnyStandardString
    simp only [hu, bind_ok, hn]
    split_ifs
    · rfl
    · simp [fromAnyString, hu, hk]
  rw [contentsEq_structured hu (by rw [hk]; rfl), hk]
  unfold structuredEq
  rw [hread, hread]
  rfl

theorem wideString_eq (hu : unwindTypedefs h tc = .ok t)
    (hk : kind h t = .tkWstring) (hn : length h t = .ok 0) (s s' : List Nat) :
    contentsEq h cmp tc tc tc (.wideString s) (.wideString s') = .ok (s == s') := by
  have hread (s : List Nat) : fromAnyWideString h ⟨tc, .wideString s⟩ = .ok s := by
    unfold fromAnyWideString
    simp [hu, hk, hn]
  rw [contentsEq_structured hu (by rw [hk]; rfl), hk]
  unfold structuredEq
  rw [hread, hread]
  rfl

theorem struct_eq {members : Nat → TcRef} (hu : unwindTypedefs h tc = .ok t)
    (hk : isStructKind (kind h t) = true) (hn : memberCount h t = .ok n)
    (hl : lels.length = n) (hr : rels.length = n)
    (hmembers : ∀ j < n, memberType h t j = .ok (members j))
    (hcmp : ∀ (j : Nat) l r, lels[j]? = some l → rels[j]? = some r → l.isEmpty = false ∧
      r.isEmpty = false ∧ cmp (.contents unsetType unsetType (members j) l r) = .ok (l.same r))
    (lt rt : TcRef) :
    contentsEq h cmp lt rt tc (.aggregate k false lels) (.aggregate k' false rels) =
      .ok (Content.same (.aggregate k false lels) (.aggregate k' false rels)) := by
  rw [contentsEq_struct hu hk, structEq, hu, bind_ok, hn, bind_ok, asAggregate, asAggregate,
    bind_ok, bind_ok, aggLoop_eq (by omega) (by omega), List.drop_zero, List.drop_zero]
  · rfl
  · intro j l r _ hlj hrj
    obtain ⟨hle, hre, heq⟩ := hcmp j l r hlj hrj
    have hj : j < n := hl ▸ (List.getElem?_eq_some_iff.1 hlj).1
    exact ⟨members j, hmembers j hj, by rw [aggElementsEqual_eq hlj hrj hle hre, heq]⟩

theorem listEq_eq {direct direct' : Bool} (hu : unwindTypedefs h tc = .ok t)
    (hn : length h t = .ok n) (he : contentType h t = .ok e) :
    listEq h cmp tc (.aggregate k direct lels) (.aggregate k' direct' rels) =
      aggLoop cmp (fun _ => .ok e) (direct, lels) (direct', rels) (subUnsignedLong n 1 + 1) 0 := by
  rw [listEq, hu, bind_ok, he, bind_ok, asAggregate, asAggregate, bind_ok, bind_ok, hn, bind_ok]

theorem array_eq (hu : unwindTypedefs h tc = .ok t) (hk : kind h t = .tkArray)
    (hn : length h t = .ok n) (hpos : 0 < n) (hsize : n < unsignedLongModulus)
    (he : contentType h t = .ok e) (hl : lels.length = n) (hr : rels.length = n)
    (hcmp : ∀ (j : Nat) l r, lels[j]? = some l → rels[j]? = some r → l.isEmpty = false ∧
      r.isEmpty = false ∧ cmp (.contents unsetType unsetType e l r) = .ok (l.same r))
    (lt rt : TcRef) :
    contentsEq h cmp lt rt tc (.aggregate k false lels) (.aggregate k' false rels) =
      .ok (Content.same (.aggregate k false lels) (.aggregate k' false rels)) := by
  have hcount : subUnsignedLong n 1 + 1 = n := by
    rw [subUnsignedLong_of_le (by omega) hsize]
    omega
  rw [contentsEq_list hu (.inr hk), listEq_eq hu hn he, hcount, aggLoop_eq (by omega) (by omega),
    List.drop_zero, List.drop_zero]
  · rfl
  · intro j l r _ hlj hrj
    obtain ⟨hle, hre, heq⟩ := hcmp j l r hlj hrj
    exact ⟨e, rfl, by rw [aggElementsEqual_eq hlj hrj hle hre, heq]⟩

/-- The branch of a union whose label selects `m`, once the labels are compared. -/
theorem unionEq_members {d : Int}
    {members : Nat → TcRef} {label label' v w : Content} (hu : unwindTypedefs h tc = .ok t)
    (hunion : IsUnion h t disc n d members) (hl : IsLabel h disc label)
    (hl' : IsLabel h disc label') (hv : v.isEmpty = false) (hw : w.isEmpty = false)
    (k k' : TCKind) :
    unionEq h cmp tc (.aggregate k false [label, v]) (.aggregate k' false [label', w]) = (do
      if ← cmp (.contents unsetType unsetType disc label label') then
        cmp (.contents disc unsetType (← selected h t disc label) v w)
      else return false) := by
  rw [unionEq, asAggregate, asAggregate, bind_ok, bind_ok, hu, bind_ok, hunion.switch, bind_ok]
  rw [if_neg (by simp), aggElementsEqual_eq (l := label) (r := label') rfl rfl hl.isEmpty
      hl'.isEmpty,
    @getAggregateElement_eq [label, v] 0 label rfl hl.isEmpty, bind_ok, hunion.memberTypeWithLabel_eq]
  cases cmp (.contents unsetType unsetType disc label label') with
  | error e => rfl
  | ok b =>
    cases b with
    | false => rfl
    | true =>
      cases hm : selected h t disc label with
      | error e => rfl
      | ok m =>
        exact aggElementsEqual_eq rfl rfl hv hw

end Decides

theorem compare_labels {label label' : Content} (hs : IsSwitchType h disc)
    (hl : IsLabel h disc label) (hl' : IsLabel h disc label') (fuel : Nat) (lt rt : TcRef) :
    compare h (fuel + 1) (.contents lt rt disc label label') = .ok (label.same label') := by
  obtain ⟨u, hu, hk⟩ := hs.unwinds
  rw [compare, contentsEq_switch hu hk, labelEq_labels hu hl hl']

theorem same_labels {label label' : Content} (hl : IsLabel h disc label)
    (hl' : IsLabel h disc label') (hs : label.same label' = true) : label = label' := by
  obtain ⟨t, hu, hl⟩ := hl
  obtain ⟨t', hu', hl'⟩ := hl'
  obtain rfl := ok_inj hu hu'
  rcases hl with ⟨hk, v, -, rfl⟩ | ⟨hk, n, -, v, -, rfl⟩
  · rcases hl' with ⟨-, w, -, rfl⟩ | ⟨hk', -⟩
    · have : v = w := by simpa [Content.same, isFloatKind_of_discrete hk] using hs
      rw [this]
    · exact absurd hk' (discrete_ne_enum hk)
  · rcases hl' with ⟨hk', -⟩ | ⟨-, n', -, w, -, rfl⟩
    · exact absurd hk (discrete_ne_enum hk')
    · have : v = w := by
        simpa [Content.same, Content.same.sameList, enumValue, isFloatKind] using hs
      rw [this]

theorem eventually_elements (hl : lels.length = n) (hr : rels.length = n) (types : Nat → TcRef)
    (hcmp : ∀ j < n, ∀ l r, lels[j]? = some l → rels[j]? = some r → ∀ᶠ fuel in atTop,
      compare h fuel (.contents unsetType unsetType (types j) l r) = .ok (l.same r)) :
    ∀ᶠ fuel in atTop, ∀ j < n, ∀ l r, lels[j]? = some l → rels[j]? = some r →
      compare h fuel (.contents unsetType unsetType (types j) l r) = .ok (l.same r) := by
  refine eventually_forall_lt fun j hj => ?_
  obtain ⟨l, hlj⟩ : ∃ l, lels[j]? = some l := ⟨_, List.getElem?_eq_getElem (hl ▸ hj)⟩
  obtain ⟨r, hrj⟩ : ∃ r, rels[j]? = some r := ⟨_, List.getElem?_eq_getElem (hr ▸ hj)⟩
  refine (hcmp j hj l r hlj hrj).mono fun fuel heq l' r' hl' hr' => ?_
  obtain rfl := Option.some.inj (hlj.symm.trans hl')
  obtain rfl := Option.some.inj (hrj.symm.trans hr')
  exact heq

/-- `Any_Container_Eq` decides structural equality, with every large enough bound. -/
theorem Comparable.decides {nested : Bool} {tc : TcRef} (hc : Comparable h nested tc)
    {l r : Content} (hl : IsValue h tc l) (hr : IsValue h tc r) (lt rt : TcRef)
    (htypes : nested = false → lt = tc ∧ rt = tc) :
    ∀ᶠ fuel in atTop, compare h fuel (.contents lt rt tc l r) = .ok (l.same r) := by
  induction hc generalizing l r lt rt with
  | numeric hu hk =>
    obtain ⟨v, rfl, -⟩ := hl.numeric_inv hu hk
    obtain ⟨w, rfl, -⟩ := hr.numeric_inv hu hk
    exact eventually_of_succ fun fuel => numeric_eq hu hk lt rt v w
  | enum hu hk =>
    obtain ⟨v, rfl⟩ := hl.enum_inv hu hk
    obtain ⟨w, rfl⟩ := hr.enum_inv hu hk
    exact eventually_of_succ fun fuel => enum_eq hu hk lt rt v w
  | string hu hk =>
    obtain ⟨rfl, rfl⟩ := htypes rfl
    obtain ⟨s, n, rfl, hn⟩ := hl.string_inv hu hk
    obtain ⟨s', -, rfl, -⟩ := hr.string_inv hu hk
    exact eventually_of_succ fun fuel => string_eq hu hk hn s s'
  | wideString hu hk hn =>
    obtain ⟨rfl, rfl⟩ := htypes rfl
    obtain ⟨s, rfl⟩ := hl.wideString_inv hu hk
    obtain ⟨s', rfl⟩ := hr.wideString_inv hu hk
    exact eventually_of_succ fun fuel => wideString_eq hu hk hn s s'
  | @struct nested tc t n members hu hk hn hmembers _ ih =>
    obtain ⟨lels, rfl, hln, hlels⟩ := hl.struct_inv hu hk
    obtain ⟨rels, rfl, hrn, hrels⟩ := hr.struct_inv hu hk
    have hllen := ok_inj hln hn
    have hrlen := ok_inj hrn hn
    have hall := eventually_elements hllen hrlen members fun j hj l r hlj hrj =>
      ih j hj (hlels j l _ hlj (hmembers j hj)) (hrels j r _ hrj (hmembers j hj)) unsetType
        unsetType Bool.noConfusion
    refine eventually_succ hall fun fuel heq => ?_
    refine struct_eq hu hk hn hllen hrlen hmembers (fun j l r hlj hrj => ?_) lt rt
    have hj : j < n := hllen ▸ (List.getElem?_eq_some_iff.1 hlj).1
    exact ⟨(hlels j l _ hlj (hmembers j hj)).isEmpty, (hrels j r _ hrj (hmembers j hj)).isEmpty,
      heq j hj l r hlj hrj⟩
  | @union nested tc t disc n d members member hu hunion hm _ ih =>
    obtain ⟨disc', label, m, hd, hlabel, hsel, hl⟩ := hl.union_inv hu hunion.kind_eq
    obtain rfl := ok_inj hunion.switch hd
    obtain ⟨disc', label', m', hd', hlabel', hsel', hr⟩ := hr.union_inv hu hunion.kind_eq
    obtain rfl := ok_inj hunion.switch hd'
    obtain rfl := ok_inj hsel (hm label hlabel).1
    obtain rfl := ok_inj hsel' (hm label' hlabel').1
    obtain ⟨-, v, rfl, hv⟩ := hl.resolve_left fun h => (hm label hlabel).2 h.1
    obtain ⟨-, w, rfl, hw⟩ := hr.resolve_left fun h => (hm label' hlabel').2 h.1
    have hsame : Content.same (.aggregate .tkUnion false [label, v])
        (.aggregate .tkUnion false [label', w]) = (label.same label' && v.same w) := by
      rw [Content.same, Content.same.sameList, Content.same.sameList, Content.same.sameList,
        Bool.and_true]
    have hlabels : ∀ᶠ fuel in atTop, compare h fuel
        (.contents unsetType unsetType disc label label') = .ok (label.same label') :=
      eventually_of_succ fun fuel => compare_labels hunion.isSwitch hlabel hlabel' fuel _ _
    cases hs : label.same label' with
    | false =>
      refine eventually_succ hlabels fun fuel heq => ?_
      rw [compare, contentsEq_union hu hunion.kind_eq, unionEq_members hu hunion hlabel hlabel'
        hv.isEmpty hw.isEmpty, heq, hsame, hs]
      rfl
    | true =>
      obtain rfl := same_labels hlabel hlabel' hs
      refine eventually_succ (hlabels.and (ih label hlabel hv hw disc unsetType Bool.noConfusion))
        fun fuel heq => ?_
      rw [compare, contentsEq_union hu hunion.kind_eq, unionEq_members hu hunion hlabel hlabel'
        hv.isEmpty hw.isEmpty, heq.1, hsame, hs, hsel]
      exact heq.2
  | @array nested tc t e n hu hk hn hpos hsize he _ ih =>
    obtain ⟨lels, rfl, hln, hlels⟩ := hl.array_inv hu hk he
    obtain ⟨rels, rfl, hrn, hrels⟩ := hr.array_inv hu hk he
    have hllen := ok_inj hln hn
    have hrlen := ok_inj hrn hn
    have hall := eventually_elements hllen hrlen (fun _ => e) fun j _ l r hlj hrj =>
      ih (hlels l (List.mem_of_getElem? hlj)) (hrels r (List.mem_of_getElem? hrj)) unsetType
        unsetType Bool.noConfusion
    refine eventually_succ hall fun fuel heq => ?_
    refine array_eq hu hk hn hpos hsize he hllen hrlen (fun j l r hlj hrj => ?_) lt rt
    have hj : j < n := hllen ▸ (List.getElem?_eq_some_iff.1 hlj).1
    exact ⟨(hlels l (List.mem_of_getElem? hlj)).isEmpty,
      (hrels r (List.mem_of_getElem? hrj)).isEmpty, heq j hj l r hlj hrj⟩

/-! ## A value compared with itself -/

theorem same_element {direct : Bool}
    (hs : Content.same (.aggregate k direct els) (.aggregate k direct els) = true) {c : Content}
    (hc : c ∈ els) : c.same c = true := by
  obtain ⟨j, hj⟩ := List.getElem?_of_mem hc
  exact (Content.sameList_iff.1 hs).2 j c c hj hj

/-- Comparisons of a thing with itself never answer that it differs. -/
structure NeverFalse (cmp : Comparison → Except Exn Bool) : Prop where
  contents : ∀ lt rt tc c, c.same c = true → cmp (.contents lt rt tc c c) ≠ .ok false
  typeCodes : ∀ t, cmp (.typeCodes t t) ≠ .ok false

namespace NeverFalse

variable {cmp : Comparison → Except Exn Bool}

theorem elements (hn : NeverFalse cmp) {direct : Bool}
    (hs : ∀ c ∈ els, c.same c = true) (lt rt tc : TcRef) (j : Nat) :
    aggElementsEqual cmp lt rt tc (direct, els) (direct, els) j ≠ .ok false := by
  intro hf
  obtain ⟨l, r, hl, hr, hf⟩ := aggElementsEqual_inv hf
  obtain rfl := Option.some.inj (hl.symm.trans hr)
  exact hn.contents _ _ _ l (hs l (List.mem_of_getElem? hl)) hf

theorem loop (hn : NeverFalse cmp) {direct : Bool}
    (hs : ∀ c ∈ els, c.same c = true) (elementType : Nat → Except Exn TcRef) (count index : Nat) :
    aggLoop cmp elementType (direct, els) (direct, els) count index ≠ .ok false := by
  intro hf
  obtain ⟨j, -, -, t, -, hj⟩ := (aggLoop_inv hf).2 rfl
  exact hn.elements hs _ _ _ _ hj

theorem containers (hn : NeverFalse cmp) {c : Container} (hs : c.value.same c.value = true) :
    containersEq cmp c c ≠ .ok false := by
  intro hf
  obtain ⟨b, hb, hf⟩ := bind_eq_ok.1 hf
  cases b with
  | false => exact hn.typeCodes _ hb
  | true => exact hn.contents _ _ _ _ hs hf

theorem labelEq_ne {c : Content} : labelEq k c c ≠ .ok false := by
  intro hf
  unfold labelEq at hf
  split_ifs at hf
  · obtain ⟨v, hv, hf⟩ := bind_eq_ok.1 hf
    rw [hv] at hf
    simp at hf
  · obtain ⟨v, hv, hf⟩ := bind_eq_ok.1 hf
    rw [hv] at hf
    simp at hf

variable {c : Content} {tc : TcRef}

theorem asAggregate_same (hs : c.same c = true) {els : Bool × List Content}
    (ha : asAggregate c = .ok els) : ∀ el ∈ els.2, el.same el = true := by
  cases c with
  | aggregate k d els' =>
    obtain rfl := Except.ok.inj ha
    exact fun c hc => same_element hs hc
  | _ => cases ha

theorem struct (hn : NeverFalse cmp) (hs : c.same c = true) :
    structEq h cmp tc c c ≠ .ok false := by
  intro hf
  obtain ⟨listType, -, hf⟩ := bind_eq_ok.1 hf
  obtain ⟨count, -, hf⟩ := bind_eq_ok.1 hf
  obtain ⟨l, hl, hf⟩ := bind_eq_ok.1 hf
  obtain ⟨r, hr, hf⟩ := bind_eq_ok.1 hf
  obtain rfl := ok_inj hl hr
  exact hn.loop (asAggregate_same hs hl) _ _ _ hf

theorem union (hn : NeverFalse cmp) (hs : c.same c = true) :
    unionEq h cmp tc c c ≠ .ok false := by
  intro hf
  obtain ⟨l, hl, hf⟩ := bind_eq_ok.1 hf
  obtain ⟨r, hr, hf⟩ := bind_eq_ok.1 hf
  obtain rfl := ok_inj hl hr
  obtain ⟨listType, -, hf⟩ := bind_eq_ok.1 hf
  obtain ⟨switchType, -, hf⟩ := bind_eq_ok.1 hf
  have hels := asAggregate_same hs hl
  split_ifs at hf
  obtain ⟨b, hb, hf⟩ := bind_eq_ok.1 hf
  cases b with
  | false => exact hn.elements hels _ _ _ _ hb
  | true =>
    obtain ⟨label, -, hf⟩ := bind_eq_ok.1 hf
    obtain ⟨member, -, hf⟩ := bind_eq_ok.1 hf
    exact hn.elements hels _ _ _ _ hf

theorem list (hn : NeverFalse cmp) (hs : c.same c = true) :
    listEq h cmp tc c c ≠ .ok false := by
  intro hf
  obtain ⟨listType, -, hf⟩ := bind_eq_ok.1 hf
  obtain ⟨element, -, hf⟩ := bind_eq_ok.1 hf
  obtain ⟨l, hl, hf⟩ := bind_eq_ok.1 hf
  obtain ⟨r, hr, hf⟩ := bind_eq_ok.1 hf
  obtain rfl := ok_inj hl hr
  obtain ⟨len, -, hf⟩ := bind_eq_ok.1 hf
  exact hn.loop (asAggregate_same hs hl) _ _ _ hf

theorem float (hk : isFloatKind k = true) (hs : c.same c = true) :
    (do return floatEq k (← uncheckedFromAny k c) (← uncheckedFromAny k c)) ≠
      (Except.ok false : Except Exn Bool) := by
  intro hf
  obtain ⟨v, hv, hb⟩ := bind_eq_ok.1 hf
  rw [hv] at hb
  cases c with
  | elementary k' v' =>
    unfold uncheckedFromAny at hv
    dsimp only at hv
    split_ifs at hv with hk'
    subst hk'
    obtain rfl := Except.ok.inj hv
    rw [Content.same, hk, beq_self_eq_true, Bool.true_and, if_pos rfl] at hs
    simp [hs] at hb
  | _ => cases hv

theorem any (hn : NeverFalse cmp) (hs : c.same c = true) :
    (do containersEq cmp (← uncheckedAny c) (← uncheckedAny c)) ≠
      (Except.ok false : Except Exn Bool) := by
  intro hf
  obtain ⟨l, hl, hf⟩ := bind_eq_ok.1 hf
  rw [hl] at hf
  cases c with
  | any u v =>
    rw [Content.same, Bool.and_eq_true] at hs
    exact hn.containers hs.2 hf
  | _ => cases hl

theorem string (lt rt : TcRef) :
    (do return (← fromAnyStandardString h ⟨lt, c⟩) == (← fromAnyStandardString h ⟨rt, c⟩)) ≠
      (Except.ok false : Except Exn Bool) := by
  have hread {t : TcRef} {s : List UInt8} (hs : fromAnyStandardString h ⟨t, c⟩ = .ok s) :
      c = .string s := by
    obtain ⟨u, -, hs⟩ := bind_eq_ok.1 hs
    obtain ⟨bound, -, hs⟩ := bind_eq_ok.1 hs
    split_ifs at hs
    · cases c with
      | string s' => rw [Except.ok.inj hs]
      | _ => cases hs
    · obtain ⟨u, -, hs⟩ := bind_eq_ok.1 hs
      split_ifs at hs
      cases c with
      | string s' => rw [Except.ok.inj hs]
      | _ => cases hs
  intro hf
  obtain ⟨s, hs, hf⟩ := bind_eq_ok.1 hf
  obtain ⟨s', hs', hf⟩ := bind_eq_ok.1 hf
  obtain rfl := Content.string.inj ((hread hs).symm.trans (hread hs'))
  simp at hf

theorem wideString (lt rt : TcRef) :
    (do return (← fromAnyWideString h ⟨lt, c⟩) == (← fromAnyWideString h ⟨rt, c⟩)) ≠
      (Except.ok false : Except Exn Bool) := by
  have hread {t : TcRef} {s : List Nat} (hs : fromAnyWideString h ⟨t, c⟩ = .ok s) :
      c = .wideString s := by
    obtain ⟨u, -, hs⟩ := bind_eq_ok.1 hs
    split_ifs at hs
    obtain ⟨bound, -, hs⟩ := bind_eq_ok.1 hs
    split_ifs at hs
    cases c with
    | wideString s' => rw [Except.ok.inj hs]
    | _ => cases hs
  intro hf
  obtain ⟨s, hs, hf⟩ := bind_eq_ok.1 hf
  obtain ⟨s', hs', hf⟩ := bind_eq_ok.1 hf
  obtain rfl := Content.wideString.inj ((hread hs).symm.trans (hread hs'))
  simp at hf

theorem structured (hn : NeverFalse cmp) (lt rt tc : TcRef) (k : TCKind)
    (hs : c.same c = true) : structuredEq h cmp lt rt k tc c c ≠ .ok false := by
  unfold structuredEq
  split
  · exact hn.struct hs
  · exact hn.struct hs
  · exact hn.union hs
  · exact hn.list hs
  · exact hn.list hs
  · exact float rfl hs
  · exact float rfl hs
  · exact float rfl hs
  · exact hn.any hs
  · intro hf
    obtain ⟨l, hl, hf⟩ := bind_eq_ok.1 hf
    obtain ⟨r, hr, hf⟩ := bind_eq_ok.1 hf
    obtain rfl := ok_inj hl hr
    split_ifs at hf
    exact hn.typeCodes _ hf
  · exact string lt rt
  · exact wideString lt rt
  · exact fun hf => by cases hf

theorem kind_cases (k : TCKind) :
    k = .tkNull ∨ k = .tkVoid ∨ k = .tkAlias ∨ (isDiscreteKind k = true ∨ k = .tkEnum) ∨
      isStructuredKind k = true := by
  cases k <;> simp [isDiscreteKind, isStructuredKind]

theorem contentsEq_ne (hn : NeverFalse cmp) (lt rt tc : TcRef) (hs : c.same c = true) :
    contentsEq h cmp lt rt tc c c ≠ .ok false := by
  intro hf
  obtain ⟨t, hu, -⟩ := bind_eq_ok.1 hf
  rcases kind_cases (kind h t) with hk | hk | hk | hk | hk
  · rw [contentsEq, anyContainerEq, hu, bind_ok, hk] at hf
    cases hf
  · rw [contentsEq, anyContainerEq, hu, bind_ok, hk] at hf
    cases hf
  · rw [contentsEq, anyContainerEq, hu, bind_ok, hk] at hf
    cases hf
  · rw [contentsEq_switch hu hk] at hf
    exact labelEq_ne hf
  · rw [contentsEq_structured hu hk] at hf
    exact hn.structured _ _ _ _ hs hf

end NeverFalse

theorem compare_neverFalse (fuel : Nat) : NeverFalse (compare h fuel) := by
  induction fuel with
  | zero =>
    constructor
    · intro lt rt tc c _ hf
      cases hf
    · intro t hf
      cases hf
  | succ fuel ih =>
    refine ⟨fun lt rt tc c hs => ih.contentsEq_ne lt rt tc hs, fun t hf => ?_⟩
    rw [compare, typeCodeEqual, if_pos rfl] at hf
    cases hf

end Heap

end PolyORB
