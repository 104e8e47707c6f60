import PolyORB.Any.Comparing

/-!
# Equality of Anys and structural equality

`"="` is structural equality exactly on the values of the comparable typecodes.  For each of the
others there are two values on which it raises or answers wrongly (`Differs`): a member on which it
is wrong makes it wrong on the aggregate, the other members being the same in both values.
-/

namespace PolyORB

namespace Heap

open Checked Filter

variable {h : Heap}

/-! ## Types whose values are not compared structurally -/

/-- Two values of the type on which the comparison does not answer whether they are the same. -/
def Differs (h : Heap) (nested : Bool) (tc : TcRef) : Prop :=
  ∃ l r, IsValue h tc l ∧ IsValue h tc r ∧ ∀ fuel lt rt,
    (nested = true → rt = unsetType) → (nested = false → lt = tc ∧ rt = tc) →
    compare h fuel (.contents lt rt tc l r) ≠ .ok (l.same r)

variable {n p : Nat}

section Differing

variable {cmp : Comparison → Except Exn Bool} {tc t e : TcRef} {l r : Content}

/-- A loop over elements that are the same but at `p`, where the comparison is wrong. -/
theorem loop_differs (hn : NeverFalse cmp) {elementType : Nat → Except Exn TcRef}
    {lels rels : List Content} {tp : TcRef} (hp : p < n)
    (htype : elementType p = .ok tp) (hl : lels[p]? = some l) (hr : rels[p]? = some r)
    (hothers : ∀ j el el', j ≠ p → lels[j]? = some el → rels[j]? = some el' →
      el = el' ∧ el.same el = true)
    (hne : cmp (.contents unsetType unsetType tp l r) ≠ .ok (l.same r)) :
    aggLoop cmp elementType (false, lels) (false, rels) n 0 ≠ .ok (l.same r) := by
  intro hb
  obtain ⟨htrue, hfalse⟩ := aggLoop_inv hb
  have hat {t : TcRef} {b : Bool} (ht : elementType p = .ok t)
      (hb : aggElementsEqual cmp unsetType unsetType t (false, lels) (false, rels) p = .ok b) :
      cmp (.contents unsetType unsetType tp l r) = .ok b := by
    obtain rfl := ok_inj htype ht
    obtain ⟨l', r', hl', hr', hb⟩ := aggElementsEqual_inv hb
    obtain rfl := Option.some.inj (hl.symm.trans hl')
    obtain rfl := Option.some.inj (hr.symm.trans hr')
    exact hb
  cases hs : l.same r with
  | true =>
    obtain ⟨t, ht, heq⟩ := htrue hs p (Nat.zero_le p) (by omega)
    rw [hs] at hne
    exact hne (hat ht heq)
  | false =>
    obtain ⟨j, -, -, t, ht, heq⟩ := hfalse hs
    by_cases hj : j = p
    · subst hj
      rw [hs] at hne
      exact hne (hat ht heq)
    · obtain ⟨el, el', hel, hel', heq⟩ := aggElementsEqual_inv heq
      obtain ⟨rfl, hself⟩ := hothers j el el' hj hel hel'
      exact hn.contents _ _ _ _ hself heq

theorem sameList_at {lels rels : List Content} (hlen : lels.length = rels.length)
    (hl : lels[p]? = some l) (hr : rels[p]? = some r)
    (hothers : ∀ j el el', j ≠ p → lels[j]? = some el → rels[j]? = some el' →
      el = el' ∧ el.same el = true) : Content.same.sameList lels rels = l.same r := by
  rw [Bool.eq_iff_iff, Content.sameList_iff]
  constructor
  · intro h
    exact h.2 p l r hl hr
  · intro hs
    refine ⟨hlen, fun j el el' hel hel' => ?_⟩
    by_cases hj : j = p
    · subst hj
      obtain rfl := Option.some.inj (hl.symm.trans hel)
      obtain rfl := Option.some.inj (hr.symm.trans hel')
      exact hs
    · obtain ⟨rfl, hself⟩ := hothers j el el' hj hel hel'
      exact hself

def elementsAt (n p : Nat) (value : Nat → Content) (c : Content) : List Content :=
  (List.range n).map fun j => if j = p then c else value j

theorem length_elementsAt (n p : Nat) (value : Nat → Content) (c : Content) :
    (elementsAt n p value c).length = n := by
  rw [elementsAt, List.length_map, List.length_range]

theorem getElem?_elementsAt {j : Nat} {value : Nat → Content} {c el : Content} :
    (elementsAt n p value c)[j]? = some el ↔ j < n ∧ (if j = p then c else value j) = el := by
  rw [elementsAt, List.getElem?_map]
  by_cases hj : j < n
  · simp [hj]
  · simp [hj]

variable {members : Nat → TcRef}

theorem struct_differs (hu : unwindTypedefs h tc = .ok t)
    (hk : isStructKind (kind h t) = true) (hn : memberCount h t = .ok n)
    (hmembers : ∀ j < n, memberType h t j = .ok (members j))
    (htypes : ∀ j < n, IsType h (members j)) (hp : p < n) (hd : Differs h true (members p))
    (nested : Bool) : Differs h nested tc := by
  obtain ⟨l, r, hl, hr, hne⟩ := hd
  have hval : ∀ j, ∃ c, j < n → IsValue h (members j) c := by
    intro j
    by_cases hj : j < n
    · obtain ⟨c, hc⟩ := (htypes j hj).exists_value
      exact ⟨c, fun _ => hc⟩
    · exact ⟨.noContent, fun hj' => absurd hj' hj⟩
  choose value hvalue using hval
  have hstruct {c : Content} (hc : IsValue h (members p) c) :
      IsValue h tc (.aggregate (kind h t) false (elementsAt n p value c)) := by
    have hlen := length_elementsAt n p value c
    refine .struct hu hk (hlen.symm ▸ hn) (hlen.symm ▸ hmembers) fun j el hel => ?_
    obtain ⟨hj, rfl⟩ := getElem?_elementsAt.1 hel
    split_ifs with hjp
    · rw [hjp]
      exact hc
    · exact hvalue j hj
  have hat (c : Content) : (elementsAt n p value c)[p]? = some c :=
    getElem?_elementsAt.2 ⟨hp, if_pos rfl⟩
  have hothers (j : Nat) (el el' : Content) (hj : j ≠ p)
      (hel : (elementsAt n p value l)[j]? = some el)
      (hel' : (elementsAt n p value r)[j]? = some el') : el = el' ∧ el.same el = true := by
    rw [getElem?_elementsAt, if_neg hj] at hel hel'
    obtain ⟨hjn, rfl⟩ := hel
    exact ⟨hel'.2, (hvalue j hjn).same_self⟩
  refine ⟨_, _, hstruct hl, hstruct hr, fun fuel lt rt _ _ => ?_⟩
  rw [Content.same, sameList_at (by rw [length_elementsAt, length_elementsAt]) (hat l) (hat r)
    hothers]
  cases fuel with
  | zero => exact fun hf => by cases hf
  | succ fuel =>
    rw [compare, contentsEq_struct hu hk, structEq, hu, bind_ok, hn, bind_ok, asAggregate,
      asAggregate, bind_ok, bind_ok]
    exact loop_differs (compare_neverFalse fuel) hp (hmembers p hp) (hat l) (hat r) hothers
      (hne fuel _ _ (fun _ => rfl) Bool.noConfusion)

theorem union_differs {disc m : TcRef} {d : Int}
    {label : Content} (hu : unwindTypedefs h tc = .ok t) (hunion : IsUnion h t disc n d members)
    (hlabel : IsLabel h disc label) (hm : selected h t disc label = .ok m)
    (hvoid : kind h m ≠ .tkVoid) (hd : Differs h true m) (nested : Bool) :
    Differs h nested tc := by
  obtain ⟨l, r, hl, hr, hne⟩ := hd
  have hself : label.same label = true := by
    cases hs : label.same label with
    | true => rfl
    | false =>
      obtain ⟨u, hu, hk⟩ := hunion.isSwitch.unwinds
      have hf := labelEq_labels hu hlabel hlabel
      rw [hs] at hf
      exact absurd hf NeverFalse.labelEq_ne
  refine ⟨_, _, .union hu hunion.kind_eq hunion.switch hlabel hm hvoid hl,
    .union hu hunion.kind_eq hunion.switch hlabel hm hvoid hr, fun fuel lt rt _ _ => ?_⟩
  rw [Content.same, Content.same.sameList, hself, Bool.true_and, Content.same.sameList,
    Content.same.sameList, Bool.and_true]
  cases fuel with
  | zero => exact fun hf => by cases hf
  | succ fuel =>
    rw [compare, contentsEq_union hu hunion.kind_eq, unionEq_members hu hunion hlabel hlabel
      hl.isEmpty hr.isEmpty]
    cases fuel with
    | zero => exact fun hf => by cases hf
    | succ fuel =>
      rw [compare_labels hunion.isSwitch hlabel hlabel, hself, hm]
      exact hne (fuel + 1) _ _ (fun _ => rfl) Bool.noConfusion

theorem unselected_differs {disc m : TcRef} {d : Int}
    {label : Content} (hu : unwindTypedefs h tc = .ok t) (hunion : IsUnion h t disc n d members)
    (hlabel : IsLabel h disc label) (hm : selected h t disc label = .ok m)
    (hvoid : kind h m = .tkVoid) (nested : Bool) : Differs h nested tc := by
  have hv : IsValue h tc (.aggregate .tkUnion false [label]) :=
    .unselected hu hunion.kind_eq hunion.switch hlabel hm hvoid
  refine ⟨_, _, hv, hv, fun fuel lt rt _ _ hf => ?_⟩
  cases fuel with
  | zero => cases hf
  | succ fuel =>
    rw [compare, contentsEq_union hu hunion.kind_eq, unionEq, asAggregate, bind_ok, bind_ok, hu,
      bind_ok, hunion.switch, bind_ok] at hf
    cases hf

theorem array_differs (hu : unwindTypedefs h tc = .ok t) (hk : kind h t = .tkArray)
    (hn : length h t = .ok n) (hpos : 0 < n) (hsize : n < unsignedLongModulus)
    (he : contentType h t = .ok e) (htype : IsType h e) (hd : Differs h true e)
    (nested : Bool) : Differs h nested tc := by
  obtain ⟨l, r, hl, hr, hne⟩ := hd
  obtain ⟨v, hv⟩ := htype.exists_value
  have harray {c : Content} (hc : IsValue h e c) :
      IsValue h tc (.aggregate .tkArray false (elementsAt n 0 (fun _ => v) c)) := by
    refine .array hu hk (by rw [length_elementsAt, hn]) he fun el hel => ?_
    obtain ⟨j, hj⟩ := List.getElem?_of_mem hel
    obtain ⟨-, rfl⟩ := getElem?_elementsAt.1 hj
    split_ifs
    · exact hc
    · exact hv
  have hat (c : Content) : (elementsAt n 0 (fun _ => v) c)[0]? = some c :=
    getElem?_elementsAt.2 ⟨hpos, if_pos rfl⟩
  have hothers (j : Nat) (el el' : Content) (hj : j ≠ 0)
      (hel : (elementsAt n 0 (fun _ => v) l)[j]? = some el)
      (hel' : (elementsAt n 0 (fun _ => v) r)[j]? = some el') :
      el = el' ∧ el.same el = true := by
    rw [getElem?_elementsAt, if_neg hj] at hel hel'
    obtain ⟨-, rfl⟩ := hel
    exact ⟨hel'.2, hv.same_self⟩
  have hcount : subUnsignedLong n 1 + 1 = n := by
    rw [subUnsignedLong_of_le (by omega) hsize]
    omega
  refine ⟨_, _, harray hl, harray hr, fun fuel lt rt _ _ => ?_⟩
  rw [Content.same, sameList_at (by rw [length_elementsAt, length_elementsAt]) (hat l) (hat r)
    hothers]
  cases fuel with
  | zero => exact fun hf => by cases hf
  | succ fuel =>
    rw [compare, contentsEq_list hu (.inr hk), listEq_eq hu hn he, hcount]
    exact loop_differs (compare_neverFalse fuel) hpos rfl (hat l) (hat r) hothers
      (hne fuel _ _ (fun _ => rfl) Bool.noConfusion)

theorem list_short {j fuel : Nat} {k : TCKind} {els : List Content} {lt rt : TcRef}
    (hu : unwindTypedefs h tc = .ok t) (hk : kind h t = .tkSequence ∨ kind h t = .tkArray)
    (hn : length h t = .ok n) (he : contentType h t = .ok e) (hj : j < subUnsignedLong n 1 + 1)
    (hels : els.length ≤ j) :
    compare h fuel (.contents lt rt tc (.aggregate k false els) (.aggregate k false els)) ≠
      .ok true := by
  intro hf
  cases fuel with
  | zero => cases hf
  | succ fuel =>
    rw [compare, contentsEq_list hu hk, listEq_eq hu hn he] at hf
    obtain ⟨t, -, hj⟩ := (aggLoop_inv hf).1 rfl j (Nat.zero_le j) (by omega)
    obtain ⟨el, -, hel, -, -⟩ := aggElementsEqual_inv hj
    rw [List.getElem?_eq_none hels] at hel
    cases hel

theorem emptyArray_differs (hu : unwindTypedefs h tc = .ok t) (hk : kind h t = .tkArray)
    (hn : length h t = .ok 0) (he : contentType h t = .ok e) (nested : Bool) :
    Differs h nested tc := by
  have hv : IsValue h tc (.aggregate .tkArray false []) :=
    .array hu hk hn he fun el hel => by cases hel
  exact ⟨_, _, hv, hv, fun fuel lt rt _ _ =>
    list_short hu (.inr hk) hn he (Nat.zero_lt_succ _) (Nat.le_refl 0)⟩

end Differing

variable {tc : TcRef}

section Differing

variable {tc t e : TcRef}

theorem isValue_ulong {t : TcRef} (hu : unwindTypedefs h tc = .ok t)
    (hk : kind h t = .tkUlong) {v : Nat} (hv : v < 2 ^ 32) :
    IsValue h tc (.elementary .tkUlong v) := by
  rw [← hk]
  refine .numeric hu (by rw [hk]; rfl) ?_ ?_
  · rw [hk]
    exact hv
  · rw [hk]
    exact Bool.noConfusion

/-- The length of a sequence is no value of another element type than `unsigned long`. -/
theorem compare_length_ne (he : IsType h e) (hk : unwindTypedefs h e = .ok t)
    (hne : kind h t ≠ .tkUlong) (fuel v : Nat) :
    compare h fuel (.contents unsetType unsetType e (.elementary .tkUlong v)
      (.elementary .tkUlong v)) ≠ .ok true := by
  intro hf
  cases fuel with
  | zero => cases hf
  | succ fuel =>
    rw [compare] at hf
    cases he with
    | numeric hu hnum =>
      obtain rfl := ok_inj hk hu
      have htag : uncheckedFromAny (kind h t) (.elementary .tkUlong v) = .error .constraintError :=
        if_neg (Ne.symm hne)
      rw [isNumericKind, Bool.or_eq_true] at hnum
      rcases hnum with hnum | hnum
      · rw [contentsEq_switch hu (.inl hnum), labelEq, if_neg (discrete_ne_enum hnum), htag] at hf
        cases hf
      · rw [contentsEq_float hu hnum, htag] at hf
        cases hf
    | self hu hmeta =>
      rw [contentsEq_structured hu (by revert hmeta; cases kind h _ <;> decide)] at hf
      unfold structuredEq at hf
      split at hf <;> simp_all [isMetaKind, uncheckedAny, uncheckedTypeCode]
    | string hu hstring _ =>
      rw [contentsEq_structured hu (by revert hstring; cases kind h _ <;> decide)] at hf
      unfold structuredEq at hf
      split at hf <;> simp_all [isStringKind, fromAnyStandardString, fromAnyWideString,
        unsetType, unwindTypedefs_ptc, kind, length]
    | enum hu henum _ _ =>
      rw [contentsEq_switch hu (.inr henum), labelEq, if_pos henum] at hf
      cases hf
    | struct hu hstruct hn _ _ =>
      rw [contentsEq_struct hu hstruct, structEq, hu, bind_ok, hn] at hf
      cases hf
    | union hu hunion _ =>
      rw [contentsEq_union hu hunion.kind_eq] at hf
      cases hf
    | sequence hu hs _ _ he _ =>
      rw [contentsEq_list hu (.inl hs), listEq, hu, bind_ok, he] at hf
      cases hf
    | array hu hs _ _ he _ =>
      rw [contentsEq_list hu (.inr hs), listEq, hu, bind_ok, he] at hf
      cases hf

theorem IsType.unwinds (ht : IsType h tc) : ∃ t, unwindTypedefs h tc = .ok t := by
  cases ht with
  | numeric hu | self hu | string hu | enum hu | struct hu | union hu | sequence hu | array hu =>
    exact ⟨_, hu⟩

/-- Every sequence type has values on which the comparison is wrong. -/
theorem sequence_differs (hu : unwindTypedefs h tc = .ok t)
    (hk : kind h t = .tkSequence) (hn : length h t = .ok n) (hsize : n < unsignedLongModulus)
    (he : contentType h t = .ok e) (htype : IsType h e) (nested : Bool) :
    Differs h nested tc := by
  have hvalue (els : List Content) (hlen : n = 0 ∨ els.length ≤ n)
      (hels : ∀ el ∈ els, IsValue h e el) :
      IsValue h tc (.aggregate .tkSequence false (.elementary .tkUlong els.length :: els)) :=
    .sequence hu hk hn hlen he hels
  have hempty := hvalue [] (.inr (Nat.zero_le n)) (by simp)
  have hself := hempty.same_self
  by_cases h1 : n = 1
  · subst h1
    have hcount : subUnsignedLong 1 1 + 1 = 1 := by
      rw [subUnsignedLong_of_le (le_refl 1) hsize]
    obtain ⟨t', hu'⟩ := htype.unwinds
    by_cases hulong : kind h t' = .tkUlong
    · -- the only comparison is the one of the lengths
      have hone (v : Nat) (hv : v < 2 ^ 32) := hvalue [.elementary .tkUlong v] (.inr (le_refl 1))
        fun el hel => by
          rw [List.mem_singleton.1 hel]
          exact isValue_ulong hu' hulong hv
      refine ⟨_, _, hone 0 (by decide), hone 1 (by decide), fun fuel lt rt _ _ hf => ?_⟩
      have hsame : Content.same
          (.aggregate .tkSequence false [.elementary .tkUlong 1, .elementary .tkUlong 0])
          (.aggregate .tkSequence false [.elementary .tkUlong 1, .elementary .tkUlong 1]) =
            false := by decide
      cases fuel with
      | zero => cases hf
      | succ fuel =>
        rw [compare, contentsEq_list hu (.inl hk), listEq_eq hu hn he, hcount] at hf
        obtain ⟨j, -, hj, t, -, hfalse⟩ := (aggLoop_inv hf).2 hsame
        obtain rfl : j = 0 := by omega
        obtain ⟨l, r, hl, hr, hfalse⟩ := aggElementsEqual_inv hfalse
        obtain rfl := Option.some.inj hl
        obtain rfl := Option.some.inj hr
        exact (compare_neverFalse fuel).contents _ _ _ (.elementary .tkUlong 1) rfl hfalse
    · refine ⟨_, _, hempty, hempty, fun fuel lt rt _ _ hf => ?_⟩
      cases fuel with
      | zero => cases hf
      | succ fuel =>
        rw [compare, contentsEq_list hu (.inl hk), listEq_eq hu hn he, hcount] at hf
        obtain ⟨t, ht, htrue⟩ := (aggLoop_inv hf).1 rfl 0 (le_refl 0) (by decide)
        obtain rfl := Except.ok.inj ht
        obtain ⟨l, r, hl, hr, htrue⟩ := aggElementsEqual_inv htrue
        obtain rfl := Option.some.inj hl
        obtain rfl := Option.some.inj hr
        exact compare_length_ne htype hu' hulong fuel 0 htrue
  · refine ⟨_, _, hempty, hempty, fun fuel lt rt _ _ => ?_⟩
    refine list_short (j := 1) hu (.inl hk) hn he ?_ (le_refl 1)
    by_cases h0 : n = 0
    · subst h0
      decide
    · rw [subUnsignedLong_of_le (by omega) hsize]
      omega

/-- A sequence typecode and a value typecode on the heap. -/
def HasProbes (h : Heap) : Prop :=
  (∃ s, IsType h s ∧ Differs h false s) ∧ ∃ v, kind h v = .tkValue

/-- An `Any` is compared as its value is. -/
theorem any_differs (hprobes : HasProbes h) (hu : unwindTypedefs h tc = .ok t)
    (hk : kind h t = .tkAny) (nested : Bool) : Differs h nested tc := by
  obtain ⟨⟨s, hs, l, r, hl, hr, hne⟩, -⟩ := hprobes
  refine ⟨_, _, .any hu hk hs hl, .any hu hk hs hr, fun fuel lt rt _ _ hf => ?_⟩
  rw [Content.same, beq_self_eq_true, Bool.true_and] at hf
  cases fuel with
  | zero => cases hf
  | succ fuel =>
    rw [compare, contentsEq_structured hu (by rw [hk]; rfl), hk] at hf
    replace hf : containersEq (compare h fuel) ⟨s, l⟩ ⟨s, r⟩ = .ok (l.same r) := hf
    obtain ⟨b, hb, hf⟩ := bind_eq_ok.1 hf
    cases b with
    | false => exact (compare_neverFalse fuel).typeCodes s hb
    | true => exact hne fuel s s Bool.noConfusion (fun _ => ⟨rfl, rfl⟩) hf

theorem typeCode_differs (hprobes : HasProbes h) (hu : unwindTypedefs h tc = .ok t)
    (hk : kind h t = .tkTypeCode) (nested : Bool) : Differs h nested tc := by
  obtain ⟨-, v, hv⟩ := hprobes
  refine ⟨_, _, .typeCode hu hk v, .typeCode hu hk v, fun fuel lt rt _ _ hf => ?_⟩
  cases fuel with
  | zero => cases hf
  | succ fuel =>
    rw [compare, contentsEq_structured hu (by rw [hk]; rfl), hk] at hf
    replace hf : (if kind h v = .tkValue then .error .programError
      else compare h fuel (.typeCodes v v)) = Except.ok (Content.same (.typeCode v) (.typeCode v)) :=
      hf
    rw [if_pos hv] at hf
    cases hf

/-- A string in an aggregate is read from a container without a type. -/
theorem string_differs (hu : unwindTypedefs h tc = .ok t) (hk : kind h t = .tkString)
    (hn : length h t = .ok n) : Differs h true tc := by
  have hv : IsValue h tc (.string []) := .string hu hk hn (.inr (Nat.zero_le n))
  refine ⟨_, _, hv, hv, fun fuel lt rt hrt _ hf => ?_⟩
  obtain rfl := hrt rfl
  cases fuel with
  | zero => cases hf
  | succ fuel =>
    rw [compare, contentsEq_structured hu (by rw [hk]; rfl), hk] at hf
    obtain ⟨s, -, hf⟩ := bind_eq_ok.1 hf
    cases hf

theorem wideString_differs {nested : Bool} (hu : unwindTypedefs h tc = .ok t)
    (hk : kind h t = .tkWstring) (hn : length h t = .ok n)
    (hbad : nested = true ∨ n ≠ 0) : Differs h nested tc := by
  have hv : IsValue h tc (.wideString []) := .wideString hu hk hn (.inr (Nat.zero_le n))
  refine ⟨_, _, hv, hv, fun fuel lt rt hrt hnest hf => ?_⟩
  cases fuel with
  | zero => cases hf
  | succ fuel =>
    rw [compare, contentsEq_structured hu (by rw [hk]; rfl), hk] at hf
    obtain ⟨s, -, hf⟩ := bind_eq_ok.1 hf
    cases nested with
    | true =>
      obtain rfl := hrt rfl
      cases hf
    | false =>
      obtain ⟨rfl, rfl⟩ := hnest rfl
      obtain ⟨s', hs', -⟩ := bind_eq_ok.1 hf
      have h0 := hbad.resolve_left Bool.noConfusion
      simp [fromAnyWideString, hu, hk, hn, h0] at hs'

end Differing

/-! ## The exact condition -/

theorem Comparable.grow (objs : Heap) {nested : Bool} (hc : Comparable h nested tc) :
    Comparable (h ++ objs) nested tc := by
  induction hc with
  | numeric hu hk =>
    have hv := ne_void_of_numeric hk
    exact .numeric (unwindTypedefs_grow objs hu hv) (by rwa [kind_grow objs hv])
  | @enum nested tc t hu hk =>
    have hv : kind h t ≠ .tkVoid := by rw [hk]; decide
    exact .enum (unwindTypedefs_grow objs hu hv) (by rwa [kind_grow objs hv])
  | @string tc t hu hk =>
    have hv : kind h t ≠ .tkVoid := by rw [hk]; decide
    exact .string (unwindTypedefs_grow objs hu hv) (by rwa [kind_grow objs hv])
  | @wideString tc t hu hk hn =>
    have hv : kind h t ≠ .tkVoid := by rw [hk]; decide
    exact .wideString (unwindTypedefs_grow objs hu hv) (by rwa [kind_grow objs hv])
      (length_grow objs hn)
  | struct hu hk hn hmembers _ ih =>
    have hv := ne_void_of_struct hk
    exact .struct (unwindTypedefs_grow objs hu hv) (by rwa [kind_grow objs hv])
      (by rwa [memberCount_grow objs hv])
      (fun j hj => by rw [memberType_grow objs hv, hmembers j hj]) ih
  | @union nested tc t disc n d members member hu hunion hm _ ih =>
    have hm' (label : Content) (hl : IsLabel (h ++ objs) disc label) :
        selected (h ++ objs) t disc label = .ok (member label) ∧
          kind (h ++ objs) (member label) ≠ .tkVoid := by
      rw [isLabel_grow_iff objs hunion.isSwitch] at hl
      obtain ⟨hsel, hvoid⟩ := hm label hl
      rw [hunion.selected_grow objs hl, kind_grow objs hvoid]
      exact ⟨hsel, hvoid⟩
    refine .union (unwindTypedefs_grow objs hu hunion.kind_ne_void) (hunion.grow objs) hm'
      fun label hl => ?_
    rw [isLabel_grow_iff objs hunion.isSwitch] at hl
    exact ih label hl
  | @array nested tc t e n hu hk hn hpos hsize he _ ih =>
    have hv : kind h t ≠ .tkVoid := by rw [hk]; decide
    exact .array (unwindTypedefs_grow objs hu hv) (by rwa [kind_grow objs hv])
      (length_grow objs hn) hpos hsize (by rwa [contentType_grow objs hv]) ih

/-- The typecode of `sequence<octet>`, and a typecode of kind value. -/
def probes : Heap :=
  [⟨.tkSequence, [⟨.ptc .tkUlong, .elementary .tkUlong 0⟩,
      ⟨.ptc .tkTypeCode, .typeCode (.ptc .tkOctet)⟩], none⟩,
    ⟨.tkValue, [], none⟩]

theorem object_probes (h : Heap) (i : Nat) :
    (h ++ probes)[List.length h + i]? = probes[i]? := by
  rw [List.getElem?_append_right (Nat.le_add_right ..), Nat.add_sub_cancel_left]

theorem hasProbes_grow (h : Heap) : HasProbes (h ++ probes) := by
  have hobj := object_probes h 0
  have hkind : kind (h ++ probes) (.obj (List.length h + 0)) = .tkSequence := by
    rw [kind, hobj]
    rfl
  have hu : unwindTypedefs (h ++ probes) (.obj (List.length h + 0)) =
      .ok (.obj (List.length h + 0)) := by
    rw [unwindTypedefs, unwindTypedefs.go, if_neg (by rw [hkind]; decide)]
  have hpar : parameters (h ++ probes) (.obj (List.length h + 0)) =
      [⟨.ptc .tkUlong, .elementary .tkUlong 0⟩,
        ⟨.ptc .tkTypeCode, .typeCode (.ptc .tkOctet)⟩] := by
    rw [parameters, hobj]
    rfl
  have hulong : unwindTypedefs (h ++ probes) (.ptc .tkUlong) = .ok (.ptc .tkUlong) :=
    unwindTypedefs_ptc (by decide)
  have hn : length (h ++ probes) (.obj (List.length h + 0)) = .ok 0 := by
    unfold length getParameter
    rw [hkind, hpar]
    simp [fromAny, hulong, kind]
  have he : contentType (h ++ probes) (.obj (List.length h + 0)) = .ok (.ptc .tkOctet) := by
    unfold contentType getTypeParameter getParameter
    rw [hkind, hpar]
    rfl
  have hoctet : IsType (h ++ probes) (.ptc .tkOctet) :=
    .numeric (unwindTypedefs_ptc (by decide)) rfl
  refine ⟨⟨_, .sequence hu hkind hn (by decide) he hoctet,
    sequence_differs hu hkind hn (by decide) he hoctet false⟩, .obj (List.length h + 1), ?_⟩
  rw [kind, object_probes]
  rfl

theorem IsType.kind_ne_void (ht : IsType h tc) : kind h tc ≠ .tkVoid := by
  intro hv
  have hself : unwindTypedefs h tc = .ok tc := by
    rw [unwindTypedefs, unwindTypedefs.go, if_neg (by rw [hv]; decide)]
  cases ht with
  | union hu hunion =>
    obtain rfl := ok_inj hself hu
    exact hunion.kind_ne_void hv
  | numeric hu hk | self hu hk | string hu hk | enum hu hk | struct hu hk | sequence hu hk
  | array hu hk =>
    obtain rfl := ok_inj hself hu
    rw [hv] at hk
    cases hk

/-- Either the comparison is structural, or it is wrong on two values that an extended heap
allows. -/
theorem comparable_or_differs (ht : IsType h tc) {objs : Heap}
    (hprobes : HasProbes (h ++ objs)) (nested : Bool) :
    Comparable h nested tc ∨ Differs (h ++ objs) nested tc := by
  induction ht generalizing nested with
  | numeric hu hk => exact .inl (.numeric hu hk)
  | @self tc t hu hk =>
    have hv : kind h t ≠ .tkVoid := by
      intro hv
      rw [hv] at hk
      cases hk
    have hu' := unwindTypedefs_grow objs hu hv
    have hk' := kind_grow objs hv
    by_cases hany : kind h t = .tkAny
    · exact .inr (any_differs hprobes hu' (hk'.trans hany) nested)
    · have htc : kind h t = .tkTypeCode := by
        revert hk hany
        cases kind h t <;> decide
      exact .inr (typeCode_differs hprobes hu' (hk'.trans htc) nested)
  | @string tc t n hu hk hn =>
    have hv : kind h t ≠ .tkVoid := by
      intro hv
      rw [hv] at hk
      cases hk
    have hu' := unwindTypedefs_grow objs hu hv
    have hk' := kind_grow objs hv
    by_cases hs : kind h t = .tkString
    · cases nested with
      | false => exact .inl (.string hu hs)
      | true => exact .inr (string_differs hu' (hk'.trans hs) (length_grow objs hn))
    · have hw : kind h t = .tkWstring := by
        revert hk hs
        cases kind h t <;> decide
      by_cases hbad : nested = true ∨ n ≠ 0
      · exact .inr (wideString_differs hu' (hk'.trans hw) (length_grow objs hn) hbad)
      · rw [not_or, Bool.not_eq_true, not_not] at hbad
        obtain ⟨rfl, rfl⟩ := hbad
        exact .inl (.wideString hu hw hn)
  | enum hu hk => exact .inl (.enum hu hk)
  | @struct tc t n members hu hk hn hmembers htypes ih =>
    by_cases hall : ∀ j < n, Comparable h true (members j)
    · exact .inl (.struct hu hk hn hmembers hall)
    · push Not at hall
      obtain ⟨p, hp, hnot⟩ := hall
      have hv := ne_void_of_struct hk
      refine .inr (struct_differs (unwindTypedefs_grow objs hu hv) (by rwa [kind_grow objs hv])
        (by rwa [memberCount_grow objs hv])
        (fun j hj => by rw [memberType_grow objs hv, hmembers j hj])
        (fun j hj => (htypes j hj).grow objs) hp ((ih p hp true).resolve_left hnot) nested)
  | @union tc t disc n d members hu hunion htypes ih =>
    have hu' := unwindTypedefs_grow objs hu hunion.kind_ne_void
    by_cases hall : ∀ label, IsLabel h disc label → ∃ m, selected h t disc label = .ok m ∧
        kind h m ≠ .tkVoid ∧ Comparable h true m
    · have hsel (label : Content) : ∃ m, IsLabel h disc label →
          selected h t disc label = .ok m ∧ kind h m ≠ .tkVoid ∧ Comparable h true m := by
        by_cases hl : IsLabel h disc label
        · obtain ⟨m, hm⟩ := hall label hl
          exact ⟨m, fun _ => hm⟩
        · exact ⟨.ptc .tkVoid, fun hl' => absurd hl' hl⟩
      choose member hmember using hsel
      exact .inl (.union hu hunion (fun label hl => ⟨(hmember label hl).1, (hmember label hl).2.1⟩)
        fun label hl => (hmember label hl).2.2)
    · push Not at hall
      obtain ⟨label, hl, hnone⟩ := hall
      have hl' := (isLabel_grow_iff objs hunion.isSwitch).2 hl
      rcases hunion.selected_cases hl with hm | ⟨j, hj, hm⟩
      · refine .inr (unselected_differs (m := .ptc .tkVoid) hu' (hunion.grow objs) hl' ?_ rfl nested)
        rw [hunion.selected_grow objs hl, hm]
      · have hm' : selected (h ++ objs) t disc label = .ok (members j) := by
          rw [hunion.selected_grow objs hl, hm]
        have hmember := htypes j hj
        have hnot := hnone _ hm hmember.kind_ne_void
        exact .inr (union_differs hu' (hunion.grow objs) hl' hm' (hmember.grow objs).kind_ne_void
          ((ih j hj true).resolve_left hnot) nested)
  | @sequence tc t e n hu hk hn hsize he htype _ =>
    have hv : kind h t ≠ .tkVoid := by rw [hk]; decide
    exact .inr (sequence_differs (unwindTypedefs_grow objs hu hv) (by rwa [kind_grow objs hv])
      (length_grow objs hn) hsize (by rwa [contentType_grow objs hv]) (htype.grow objs) nested)
  | @array tc t e n hu hk hn hsize he htype ih =>
    have hv : kind h t ≠ .tkVoid := by rw [hk]; decide
    have hu' := unwindTypedefs_grow objs hu hv
    have hk' : kind (h ++ objs) t = .tkArray := by rwa [kind_grow objs hv]
    have he' : contentType (h ++ objs) t = .ok e := by rwa [contentType_grow objs hv]
    by_cases hpos : 0 < n
    · rcases ih true with hc | hd
      · exact .inl (.array hu hk hn hpos hsize he hc)
      · exact .inr (array_differs hu' hk' (length_grow objs hn) hpos hsize he' (htype.grow objs)
          hd nested)
    · obtain rfl : n = 0 := by omega
      exact .inr (emptyArray_differs hu' hk' (length_grow objs hn) he' nested)

/-- `"="` returns True. -/
def Equals (h : Heap) (left right : Container) : Prop :=
  ∀ᶠ fuel in atTop, anyEq h fuel left right = .ok true

/-- `"="` is structural equality on the values of the typecode `tc`, on every heap that extends
`h`; so it is an equivalence, and a copy equals its source. -/
structure EqualityIsStructural (h : Heap) (tc : TcRef) : Prop where
  decides : ∀ objs l r, IsValue (h ++ objs) tc l → IsValue (h ++ objs) tc r →
    ∀ᶠ fuel in atTop, anyEq (h ++ objs) fuel ⟨tc, l⟩ ⟨tc, r⟩ = .ok (l.same r)
  reflexive : ∀ objs v, IsValue (h ++ objs) tc v → Equals (h ++ objs) ⟨tc, v⟩ ⟨tc, v⟩
  symmetric : ∀ objs l r, IsValue (h ++ objs) tc l → IsValue (h ++ objs) tc r →
    Equals (h ++ objs) ⟨tc, l⟩ ⟨tc, r⟩ → Equals (h ++ objs) ⟨tc, r⟩ ⟨tc, l⟩
  transitive : ∀ objs u v w, IsValue (h ++ objs) tc u → IsValue (h ++ objs) tc v →
    IsValue (h ++ objs) tc w → Equals (h ++ objs) ⟨tc, u⟩ ⟨tc, v⟩ →
    Equals (h ++ objs) ⟨tc, v⟩ ⟨tc, w⟩ → Equals (h ++ objs) ⟨tc, u⟩ ⟨tc, w⟩
  copies : ∀ objs v, IsValue (h ++ objs) tc v → ∃ c, copyAny (h ++ objs) ⟨tc, v⟩ = .ok c ∧
    Equals (h ++ objs) c ⟨tc, v⟩

theorem IsValue.clone_eq {c : Content} (hv : IsValue h tc c) : clone c = .ok c := by
  have hlist {els : List Content} (hels : ∀ el ∈ els, clone el = .ok el) :
      clone.cloneList els = .ok els := by
    induction els with
    | nil => rfl
    | cons el els ih =>
      rw [clone.cloneList, hels el (List.mem_cons_self ..), bind_ok,
        ih fun c hc => hels c (List.mem_cons_of_mem _ hc)]
      rfl
  have hagg {k : TCKind} {direct : Bool} {els : List Content}
      (hels : ∀ el ∈ els, clone el = .ok el) :
      clone (.aggregate k direct els) = .ok (.aggregate k direct els) := by
    rw [clone, hlist hels]
    rfl
  have hlabel {disc : TcRef} {label : Content} (hl : IsLabel h disc label) :
      clone label = .ok label := by
    obtain ⟨t, -, ⟨-, v, -, rfl⟩ | ⟨-, n, -, v, -, rfl⟩⟩ := hl
    · rfl
    · rfl
  induction hv with
  | numeric | any | typeCode | string | wideString | enum => rfl
  | struct _ _ _ _ _ ih =>
    refine hagg fun el hel => ?_
    obtain ⟨j, hj⟩ := List.getElem?_of_mem hel
    exact ih j el hj
  | union _ _ _ hl _ _ _ ih =>
    refine hagg fun el hel => ?_
    rcases List.mem_cons.1 hel with rfl | hel
    · exact hlabel hl
    · rwa [List.mem_singleton.1 hel]
  | unselected _ _ _ hl =>
    refine hagg fun el hel => ?_
    rw [List.mem_singleton.1 hel]
    exact hlabel hl
  | sequence _ _ _ _ _ _ ih =>
    refine hagg fun el hel => ?_
    rcases List.mem_cons.1 hel with rfl | hel
    · rfl
    · exact ih el hel
  | array _ _ _ _ _ ih => exact hagg ih

theorem Comparable.anyEq_eq (hc : Comparable h false tc) {l r : Content}
    (hl : IsValue h tc l) (hr : IsValue h tc r) :
    ∀ᶠ fuel in atTop, anyEq h fuel ⟨tc, l⟩ ⟨tc, r⟩ = .ok (l.same r) := by
  have htypes : ∀ᶠ fuel in atTop, compare h fuel (.typeCodes tc tc) = .ok true :=
    eventually_of_succ fun fuel => if_pos rfl
  refine (htypes.and (hc.decides hl hr tc tc fun _ => ⟨rfl, rfl⟩)).mono fun fuel heq => ?_
  rw [anyEq, containersEq, heq.1]
  exact heq.2

theorem Comparable.equals_iff (hc : Comparable h false tc) {l r : Content}
    (hl : IsValue h tc l) (hr : IsValue h tc r) :
    Equals h ⟨tc, l⟩ ⟨tc, r⟩ ↔ l.same r = true := by
  have heq := hc.anyEq_eq hl hr
  constructor
  · intro he
    obtain ⟨fuel, h₁, h₂⟩ := (heq.and he).exists
    exact (ok_inj h₂ h₁).symm
  · intro hs
    rwa [hs] at heq

theorem Comparable.unwinds {nested : Bool} (hc : Comparable h nested tc) :
    ∃ t, unwindTypedefs h tc = .ok t := by
  cases hc with
  | numeric hu | enum hu | string hu | wideString hu | struct hu | union hu | array hu =>
    exact ⟨_, hu⟩

/-- For every well-formed typecode, equality of its values is structural exactly when the typecode
is comparable. -/
theorem equalityIsStructural_iff {tc : TcRef} (ht : IsType h tc) :
    EqualityIsStructural h tc ↔ Comparable h false tc := by
  constructor
  · intro heq
    refine (comparable_or_differs ht (hasProbes_grow h) false).resolve_right ?_
    rintro ⟨l, r, hl, hr, hne⟩
    obtain ⟨fuel, hf⟩ := (heq.decides probes l r hl hr).exists
    obtain ⟨b, hb, hf⟩ := bind_eq_ok.1 hf
    cases b with
    | false => exact (compare_neverFalse fuel).typeCodes tc hb
    | true => exact hne fuel tc tc Bool.noConfusion (fun _ => ⟨rfl, rfl⟩) hf
  · intro hc
    refine ⟨?_, ?_, ?_, ?_, ?_⟩
    · intro objs l r hl hr
      exact (hc.grow objs).anyEq_eq hl hr
    · intro objs v hv
      exact ((hc.grow objs).equals_iff hv hv).2 hv.same_self
    · intro objs l r hl hr he
      rw [(hc.grow objs).equals_iff hl hr] at he
      rw [(hc.grow objs).equals_iff hr hl, Content.same_comm, he]
    · intro objs u v w hu hv hw huv hvw
      rw [(hc.grow objs).equals_iff hu hv] at huv
      rw [(hc.grow objs).equals_iff hv hw] at hvw
      exact ((hc.grow objs).equals_iff hu hw).2 (Content.same_trans huv hvw)
    · intro objs v hv
      obtain ⟨t, hu⟩ := (hc.grow objs).unwinds
      refine ⟨⟨tc, v⟩, ?_, ((hc.grow objs).equals_iff hv hv).2 hv.same_self⟩
      rw [copyAny, hu, bind_ok, hv.clone_eq]
      rfl

/-- `struct Point { long x; long y; }` -/
def point : Heap :=
  [⟨.tkStruct, [⟨.ptc .tkString, .string []⟩, ⟨.ptc .tkString, .string []⟩,
    ⟨.ptc .tkTypeCode, .typeCode (.ptc .tkLong)⟩, ⟨.ptc .tkString, .string [120]⟩,
    ⟨.ptc .tkTypeCode, .typeCode (.ptc .tkLong)⟩, ⟨.ptc .tkString, .string [121]⟩], none⟩]

theorem equalityIsStructural_point : EqualityIsStructural point (.obj 0) := by
  have hlong : unwindTypedefs point (.ptc .tkLong) = .ok (.ptc .tkLong) := rfl
  have hself : unwindTypedefs point (.obj 0) = .ok (.obj 0) := rfl
  have hcount : memberCount point (.obj 0) = .ok 2 := rfl
  have hmembers : ∀ j < 2, memberType point (.obj 0) j = .ok (.ptc .tkLong) := by
    intro j hj
    interval_cases j <;> rfl
  exact (equalityIsStructural_iff (.struct hself rfl hcount hmembers
    fun _ _ => .numeric hlong rfl)).2 (.struct hself rfl hcount hmembers
      fun _ _ => .numeric hlong rfl)

/-- Two empty sequences of octets: the comparison of their lengths, as octets, raises. -/
theorem not_equalityIsStructural :
    IsValue probes (.obj 0) (.aggregate .tkSequence false [.elementary .tkUlong 0]) ∧
      anyEq probes 3 ⟨.obj 0, .aggregate .tkSequence false [.elementary .tkUlong 0]⟩
        ⟨.obj 0, .aggregate .tkSequence false [.elementary .tkUlong 0]⟩ =
          .error .constraintError ∧
      ¬EqualityIsStructural probes (.obj 0) := by
  have hself : unwindTypedefs probes (.obj 0) = .ok (.obj 0) := rfl
  have hk : kind probes (.obj 0) = .tkSequence := rfl
  have hlen : length probes (.obj 0) = .ok 0 := rfl
  have he : contentType probes (.obj 0) = .ok (.ptc .tkOctet) := rfl
  have hnone : ∀ el ∈ ([] : List Content), IsValue probes (.ptc .tkOctet) el :=
    fun el hel => by cases hel
  have hv := IsValue.sequence hself hk hlen (.inl rfl) he hnone
  refine ⟨hv, rfl, fun heq => ?_⟩
  obtain ⟨fuel, hf⟩ := (heq.decides [] _ _ hv hv).exists
  obtain ⟨b, hb, hf⟩ := bind_eq_ok.1 hf
  cases b with
  | false => exact (compare_neverFalse fuel).typeCodes _ hb
  | true =>
    have hone : 1 < subUnsignedLong 0 1 + 1 := by decide
    exact list_short hself (.inl hk) hlen he hone (le_refl 1) hf

end Heap

end PolyORB
