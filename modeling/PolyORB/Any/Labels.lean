import PolyORB.Any.Typed

/-!
# The member that a label selects

In a frozen union every label is looked up without an exception, by the table or by the scan, and
selects a member or none (`IsUnion.selected_cases`).  The lookup does not depend on how structured
values are compared, nor on objects that are added to the heap.
-/

namespace PolyORB

namespace Heap

open Checked

variable {h : Heap}

/-! ## Labels -/

/-- The comparison of two labels of kind `k`. -/
def labelEq (k : TCKind) (left right : Content) : Except Exn Bool :=
  if k = .tkEnum then do return (← enumPosition left) == (← enumPosition right)
  else do return (← uncheckedFromAny k left) == (← uncheckedFromAny k right)

variable {tc : TcRef}

theorem anyContainerEq_switch {t : TcRef} (hu : unwindTypedefs h tc = .ok t)
    (hk : isDiscreteKind (kind h t) = true ∨ kind h t = .tkEnum)
    (structured : Heap → TcRef → Content → Content → Except Exn Bool) (left right : Content) :
    anyContainerEq h structured tc left right = labelEq (kind h t) left right := by
  rw [anyContainerEq, hu, bind_ok]
  rcases hk with hk | hk
  · cases hkt : kind h t <;> rw [hkt] at hk <;> first
      | rfl
      | cases hk
  · rw [hk]
    rfl

theorem getAggregateElement_eq {els : List Content} {j : Nat} {el : Content}
    (hel : els[j]? = some el) (he : el.isEmpty = false) :
    getAggregateElement false els j = .ok el := by
  rw [getAggregateElement, hel]
  simp [he]

theorem enumPosition_enumValue (v : Nat) : enumPosition (enumValue v) = .ok v := rfl

theorem uncheckedFromAny_elementary (k : TCKind) (v : Nat) :
    uncheckedFromAny k (.elementary k v) = .ok v := if_pos rfl

variable {k : TCKind}

theorem isFloatKind_of_discrete (hk : isDiscreteKind k = true) :
    isFloatKind k = false := by
  cases k <;> first | rfl | cases hk

theorem discrete_ne_enum (hk : isDiscreteKind k = true) : k ≠ .tkEnum := by
  rintro rfl
  cases hk

theorem IsSwitchType.unwinds (hs : IsSwitchType h tc) :
    ∃ t, unwindTypedefs h tc = .ok t ∧
      (isDiscreteKind (kind h t) = true ∨ kind h t = .tkEnum) := by
  obtain ⟨t, hu, hk⟩ := hs
  exact ⟨t, hu, hk.imp_right And.left⟩

theorem labelEq_labels {t : TcRef} {l r : Content} (hu : unwindTypedefs h tc = .ok t)
    (hl : IsLabel h tc l) (hr : IsLabel h tc r) : labelEq (kind h t) l r = .ok (l.same r) := by
  obtain ⟨t', hu', hl⟩ := hl
  obtain rfl := ok_inj hu hu'
  obtain ⟨t', hu', hr⟩ := hr
  obtain rfl := ok_inj hu hu'
  rcases hl with ⟨hk, v, -, rfl⟩ | ⟨hk, n, -, v, -, rfl⟩
  · rcases hr with ⟨-, w, -, rfl⟩ | ⟨hk', -⟩
    · rw [labelEq, if_neg (discrete_ne_enum hk), uncheckedFromAny_elementary,
        uncheckedFromAny_elementary]
      simp [Content.same, isFloatKind_of_discrete hk]
    · exact absurd hk' (discrete_ne_enum hk)
  · rcases hr with ⟨hk', -⟩ | ⟨-, n', -, w, -, rfl⟩
    · exact absurd hk (discrete_ne_enum hk')
    · rw [labelEq, if_pos hk, enumPosition_enumValue, enumPosition_enumValue]
      simp [Content.same, Content.same.sameList, enumValue, isFloatKind]

theorem IsLabel.isEmpty {c : Content} (hc : IsLabel h tc c) : c.isEmpty = false := by
  obtain ⟨t, -, ⟨-, v, -, rfl⟩ | ⟨-, n, -, v, -, rfl⟩⟩ := hc
  · rfl
  · rfl

theorem IsSwitchType.exists_label (hs : IsSwitchType h tc) :
    ∃ c, IsLabel h tc c := by
  obtain ⟨t, hu, hk | ⟨hk, n, hn, hpos⟩⟩ := hs
  · refine ⟨.elementary (kind h t) 0, t, hu, .inl ⟨hk, 0, ?_, rfl⟩⟩
    unfold numericModulus
    split
    · decide
    · positivity
  · exact ⟨enumValue 0, t, hu, .inr ⟨hk, n, hn, 0, hpos, rfl⟩⟩

/-! ## The lookup table -/

theorem freezeLoop_spec {d : Int} {count index : Nat} {members table : List Int}
    (hf : freezeLoop h tc d count index members = .ok table)
    (hm : ∀ i ∈ members, i = d ∨ ∃ j : Nat, j < index + count ∧ i = j) :
    table.length = members.length ∧
      ∀ i ∈ table, i = d ∨ ∃ j : Nat, j < index + count ∧ i = j := by
  induction count generalizing index members with
  | zero =>
    obtain rfl := Except.ok.inj hf
    exact ⟨rfl, hm⟩
  | succ count ih =>
    rw [freezeLoop] at hf
    rw [show index + (count + 1) = index + 1 + count by omega] at hm ⊢
    split_ifs at hf with hd
    · exact ih hf hm
    · obtain ⟨label, -, hf⟩ := bind_eq_ok.1 hf
      obtain ⟨p, -, hf⟩ := bind_eq_ok.1 hf
      split_ifs at hf with hp
      obtain ⟨hlen, hall⟩ := ih hf (by
        intro i hi
        rcases List.mem_or_eq_of_mem_set hi with hi | rfl
        · exact hm i hi
        · exact .inr ⟨index, by omega, rfl⟩)
      exact ⟨hlen.trans (List.length_set ..), hall⟩

theorem lastIndex_succ {len : Nat} (hpos : 0 < len) (hlt : len < unsignedLongModulus) :
    subUnsignedLong len 1 + 1 = len := by
  rw [subUnsignedLong_of_le (by omega) hlt]
  omega

theorem lastMember_succ {n : Nat} (hpos : 0 < n) (hsize : 3 * n + 4 < unsignedLongModulus) :
    subUnsignedLong (subUnsignedLong (3 * n + 4) 4 / 3) 1 + 1 = n := by
  rw [subUnsignedLong_of_le (by omega) hsize, show (3 * n + 4 - 4) / 3 = n by omega,
    lastIndex_succ hpos (by omega)]

theorem memberCount_lt {n : Nat} (hn : memberCount h tc = .ok n) :
    n < unsignedLongModulus := by
  have hsub : ∀ a b : Nat, subUnsignedLong a b < unsignedLongModulus :=
    fun a b => Nat.mod_lt _ (by decide)
  have hdiv : ∀ a b : Nat, subUnsignedLong a b / 3 < unsignedLongModulus :=
    fun a b => lt_of_le_of_lt (Nat.div_le_self ..) (hsub a b)
  unfold memberCount at hn
  cases hk : kind h tc <;> rw [hk] at hn <;> first
    | exact Except.ok.inj hn ▸ hsub _ _
    | exact Except.ok.inj hn ▸ hdiv _ _
    | exact nomatch hn

theorem IsSwitchType.enumLen_range (hs : IsSwitchType h tc) {len : Nat}
    (hlen : enumLen h tc = .ok (some len)) : 0 < len ∧ len < unsignedLongModulus := by
  obtain ⟨t, hu, hk⟩ := hs
  unfold enumLen at hlen
  split at hlen
  · cases hlen
    decide
  · rename_i he
    have hself : unwindTypedefs h tc = .ok tc := by
      rw [unwindTypedefs, unwindTypedefs.go, if_neg (by rw [he]; decide)]
    obtain rfl := ok_inj hself hu
    rw [he] at hk
    obtain ⟨n, hn, hlen⟩ := bind_eq_ok.1 hlen
    cases hlen
    rcases hk with hk | ⟨-, m, hm, hpos⟩
    · cases hk
    · obtain rfl := ok_inj hn hm
      exact ⟨hpos, memberCount_lt hn⟩
  · cases hlen

variable {label : Content}

namespace IsUnion

variable {t disc : TcRef} {n : Nat} {d : Int} {members : Nat → TcRef}

theorem lastMember (hu : IsUnion h t disc n d members) :
    subUnsignedLong (subUnsignedLong (parameterCount h t) 4 / 3) 1 + 1 = n := by
  rw [hu.count, lastMember_succ hu.pos hu.size]

theorem table (hu : IsUnion h t disc n d members) {table : List Int} (hm : map h t = some table) :
    enumLen h disc = .ok (some table.length) ∧
      ∀ i ∈ table, i = d ∨ ∃ j : Nat, j < n ∧ i = j := by
  have hf := hu.frozen
  rw [freeze, hu.switch, bind_ok, hm] at hf
  obtain ⟨len, hlen, hf⟩ := bind_eq_ok.1 hf
  cases len with
  | none => cases hf
  | some len =>
    simp only [hu.default, bind_ok, hu.lastMember] at hf
    obtain ⟨table', hloop, hf⟩ := bind_eq_ok.1 hf
    obtain rfl : table' = table := by simpa using hf
    obtain ⟨hl, hall⟩ := freezeLoop_spec hloop (by
      intro i hi
      exact .inl (List.eq_of_mem_replicate hi))
    obtain ⟨hpos, hlt⟩ := hu.isSwitch.enumLen_range hlen
    rw [List.length_replicate, lastIndex_succ hpos hlt] at hl
    rw [Nat.zero_add] at hall
    rw [hlen, hl]
    exact ⟨rfl, hall⟩

theorem posFromAny_lt (hu : IsUnion h t disc n d members) {table : List Int}
    (hm : map h t = some table) (hl : IsLabel h disc label) :
    ∃ p, posFromAny h ⟨disc, label⟩ = .ok p ∧ p < table.length := by
  have hlen := (hu.table hm).1
  obtain ⟨u, hunwind, hl⟩ := hl
  unfold enumLen at hlen
  split at hlen
  · rename_i hk
    have hnot : kind h disc ≠ .tkAlias := by rw [hk]; decide
    have hself : unwindTypedefs h disc = .ok disc := by
      rw [unwindTypedefs, unwindTypedefs.go, if_neg hnot]
    obtain rfl := ok_inj hself hunwind
    rw [hk] at hl
    rcases hl with ⟨-, v, hv, rfl⟩ | ⟨hk', -⟩
    · refine ⟨v, ?_, ?_⟩
      · simp [posFromAny, hk, fromAny, hself]
      · obtain hlen := Option.some.inj (Except.ok.inj hlen)
        rw [← hlen]
        exact hv
    · cases hk'
  · rename_i hk
    have hnot : kind h disc ≠ .tkAlias := by rw [hk]; decide
    have hself : unwindTypedefs h disc = .ok disc := by
      rw [unwindTypedefs, unwindTypedefs.go, if_neg hnot]
    obtain rfl := ok_inj hself hunwind
    rw [hk] at hl
    rcases hl with ⟨hk', -⟩ | ⟨-, m, hm', v, hv, rfl⟩
    · cases hk'
    · refine ⟨v, ?_, ?_⟩
      · simp [posFromAny, hk, enumPosition_enumValue]
      · rw [hm'] at hlen
        obtain hlen := Option.some.inj (Except.ok.inj hlen)
        rw [← hlen]
        exact hv
  · cases hlen

/-! ## The scan -/

theorem scanLabels_ok (hu : IsUnion h t disc n d members)
    (structured : Heap → TcRef → Content → Content → Except Exn Bool)
    (hl : IsLabel h disc label) {count index : Nat} (hn : index + count = n) :
    ∃ i, scanLabels h structured t label d count index = .ok i ∧
      (i = -1 ∨ ∃ j : Nat, j < n ∧ i = j) := by
  induction count generalizing index with
  | zero => exact ⟨-1, rfl, .inl rfl⟩
  | succ count ih =>
    obtain ⟨i, hi, hcase⟩ := ih (show index + 1 + count = n by omega)
    unfold scanLabels
    by_cases hd : (index : Int) = d
    · rw [if_neg (not_not.2 hd)]
      exact ⟨i, hi, hcase⟩
    · obtain ⟨c, hc, hlabel⟩ := hu.labels index (by omega) hd
      obtain ⟨u, hunwind, hk⟩ := hu.isSwitch.unwinds
      rw [if_pos hd, hu.switch, hc]
      simp only [bind_ok, anyContainerEq_switch hunwind hk, labelEq_labels hunwind hlabel hl]
      split_ifs
      · exact ⟨index, rfl, .inr ⟨index, by omega, rfl⟩⟩
      · exact ⟨i, hi, hcase⟩

theorem scanLabels_congr (hu : IsUnion h t disc n d members)
    (structured structured' : Heap → TcRef → Content → Content → Except Exn Bool)
    (label : Content) (count index : Nat) :
    scanLabels h structured t label d count index =
      scanLabels h structured' t label d count index := by
  obtain ⟨u, hunwind, hk⟩ := hu.isSwitch.unwinds
  induction count generalizing index with
  | zero => rfl
  | succ count ih =>
    unfold scanLabels
    rw [ih, hu.switch]
    simp [anyContainerEq_switch hunwind hk]

theorem labelToMember_ok (hu : IsUnion h t disc n d members) (hl : IsLabel h disc label) :
    ∃ i, labelToMember h noNested t ⟨disc, label⟩ = .ok i ∧
      (i = -1 ∨ ∃ j : Nat, j < n ∧ i = j) := by
  have hdef : d = -1 ∨ ∃ j : Nat, j < n ∧ d = j := by
    have hrange := hu.range
    by_cases hd : d = -1
    · exact .inl hd
    · exact .inr ⟨d.toNat, by omega, by omega⟩
  unfold labelToMember
  cases hm : map h t with
  | some table =>
    obtain ⟨-, hall⟩ := hu.table hm
    obtain ⟨p, hp, hlt⟩ := hu.posFromAny_lt hm hl
    simp only [hp, bind_ok, List.getElem?_eq_getElem hlt]
    refine ⟨table[p], rfl, ?_⟩
    rcases hall _ (List.getElem_mem hlt) with hd | hj
    · rw [hd]
      exact hdef
    · exact .inr hj
  | none =>
    obtain ⟨i, hi, hcase⟩ := hu.scanLabels_ok noNested hl (Nat.zero_add n)
    simp only [hu.default, bind_ok, hu.lastMember, hi]
    by_cases hi' : i = -1
    · exact ⟨d, by rw [if_pos hi']; rfl, hdef⟩
    · exact ⟨i, by rw [if_neg hi']; rfl, hcase⟩

theorem selected_cases (hu : IsUnion h t disc n d members) (hl : IsLabel h disc label) :
    selected h t disc label = .ok (.ptc .tkVoid) ∨
      ∃ j < n, selected h t disc label = .ok (members j) := by
  obtain ⟨i, hi, hcase⟩ := hu.labelToMember_ok hl
  unfold selected memberTypeWithLabel
  rw [if_neg (not_not.2 hu.kind_eq), hi, bind_ok]
  rcases hcase with rfl | ⟨j, hj, rfl⟩
  · exact .inl (if_pos rfl)
  · refine .inr ⟨j, hj, ?_⟩
    have hsize := hu.size
    have hlt : 3 * j + 5 < unsignedLongModulus := by omega
    rw [if_neg (by omega), if_neg (by omega), Int.toNat_natCast, Nat.mod_eq_of_lt hlt]
    exact hu.types j hj

theorem memberTypeWithLabel_eq (hu : IsUnion h t disc n d members)
    (structured : Heap → TcRef → Content → Content → Except Exn Bool) (label : Content) :
    memberTypeWithLabel h structured t ⟨disc, label⟩ = selected h t disc label := by
  have hmember : labelToMember h structured t ⟨disc, label⟩ =
      labelToMember h noNested t ⟨disc, label⟩ := by
    unfold labelToMember
    rw [hu.default, bind_ok, bind_ok]
    dsimp only
    rw [hu.scanLabels_congr structured noNested]
  rw [selected, memberTypeWithLabel, memberTypeWithLabel, hmember]

end IsUnion

/-! ## The heap grows -/

section Grow

variable (objs : Heap)

theorem ne_void_of_discrete (hk : isDiscreteKind k = true) : k ≠ .tkVoid := by
  rintro rfl
  cases hk

theorem IsSwitchType.grow (hs : IsSwitchType h tc) : IsSwitchType (h ++ objs) tc := by
  obtain ⟨t, hu, hk | ⟨hk, n, hn, hpos⟩⟩ := hs
  · have hv := ne_void_of_discrete hk
    refine ⟨t, unwindTypedefs_grow objs hu hv, .inl ?_⟩
    rwa [kind_grow objs hv]
  · have hv : kind h t ≠ .tkVoid := by rw [hk]; decide
    refine ⟨t, unwindTypedefs_grow objs hu hv, .inr ⟨?_, n, ?_, hpos⟩⟩
    · rwa [kind_grow objs hv]
    · rwa [memberCount_grow objs hv]

theorem isLabel_grow_iff (hs : IsSwitchType h tc) {c : Content} :
    IsLabel (h ++ objs) tc c ↔ IsLabel h tc c := by
  obtain ⟨t, hu, hk⟩ := hs.unwinds
  have hv : kind h t ≠ .tkVoid := by
    rcases hk with hk | hk
    · exact ne_void_of_discrete hk
    · rw [hk]; decide
  have hu' := unwindTypedefs_grow objs hu hv
  constructor
  · rintro ⟨t', ht', hc⟩
    obtain rfl := ok_inj hu' ht'
    rw [kind_grow objs hv, memberCount_grow objs hv] at hc
    exact ⟨t, hu, hc⟩
  · rintro ⟨t', ht', hc⟩
    obtain rfl := ok_inj hu ht'
    refine ⟨t, hu', ?_⟩
    rwa [kind_grow objs hv, memberCount_grow objs hv]

theorem posFromAny_grow {c : Container} {p : Nat} (hp : posFromAny h c = .ok p) :
    posFromAny (h ++ objs) c = .ok p := by
  have hk : kind h c.tc ≠ .tkVoid := by
    intro hk
    rw [posFromAny, hk] at hp
    cases hp
  unfold posFromAny at hp ⊢
  rw [kind_grow objs hk]
  split at hp
  · exact hp
  · exact fromAny_grow objs hp (by decide)
  · obtain ⟨v, hv, hp⟩ := bind_eq_ok.1 hp
    rw [fromAny_grow objs hv (by decide)]
    exact hp
  · exact fromAny_grow objs hp (by decide)
  · obtain ⟨v, hv, hp⟩ := bind_eq_ok.1 hp
    rw [fromAny_grow objs hv (by decide)]
    exact hp
  · exact fromAny_grow objs hp (by decide)
  · cases hp

theorem freezeLoop_grow (hk : kind h tc ≠ .tkVoid) {d : Int} {count index : Nat}
    {members table : List Int} (hf : freezeLoop h tc d count index members = .ok table) :
    freezeLoop (h ++ objs) tc d count index members = .ok table := by
  induction count generalizing index members with
  | zero => exact hf
  | succ count ih =>
    rw [freezeLoop] at hf ⊢
    split_ifs at hf ⊢ with hd
    · exact ih hf
    · obtain ⟨label, hlabel, hf⟩ := bind_eq_ok.1 hf
      obtain ⟨p, hp, hf⟩ := bind_eq_ok.1 hf
      rw [memberLabel_grow objs hk, hlabel, bind_ok, posFromAny_grow objs hp, bind_ok]
      split_ifs at hf ⊢
      exact ih hf

theorem enumLen_grow (hk : kind h tc ≠ .tkVoid) :
    enumLen (h ++ objs) tc = enumLen h tc := by
  unfold enumLen
  rw [kind_grow objs hk, memberCount_grow objs hk]

theorem IsSwitchType.kind_ne_void (hs : IsSwitchType h tc) :
    kind h tc ≠ .tkVoid := by
  intro hv
  obtain ⟨t, hu, hk⟩ := hs.unwinds
  have hself : unwindTypedefs h tc = .ok tc := by
    rw [unwindTypedefs, unwindTypedefs.go, if_neg (by rw [hv]; decide)]
  obtain rfl := ok_inj hself hu
  rw [hv] at hk
  rcases hk with hk | hk
  · cases hk
  · cases hk

namespace IsUnion

variable {t disc : TcRef} {n : Nat} {d : Int} {members : Nat → TcRef}

theorem kind_ne_void (hu : IsUnion h t disc n d members) : kind h t ≠ .tkVoid := by
  rw [hu.kind_eq]
  decide

theorem grow (hu : IsUnion h t disc n d members) : IsUnion (h ++ objs) t disc n d members := by
  have hv := hu.kind_ne_void
  have hdv := hu.isSwitch.kind_ne_void
  have hdef := defaultIndex_grow objs hu.default
  refine ⟨?_, ?_, hu.pos, hu.size, ?_, hu.isSwitch.grow objs, hdef, hu.range, ?_, ?_, ?_⟩
  · rw [kind_grow objs hv, hu.kind_eq]
  · rw [parameterCount_grow objs hv, hu.count]
  · rw [discriminatorType_grow objs hv, hu.switch]
  · intro j hj hd
    obtain ⟨c, hc, hl⟩ := hu.labels j hj hd
    exact ⟨c, by rw [memberLabel_grow objs hv, hc], (isLabel_grow_iff objs hu.isSwitch).2 hl⟩
  · have hf := hu.frozen
    unfold freeze at hf ⊢
    rw [map_grow objs hv, discriminatorType_grow objs hv, parameterCount_grow objs hv, hdef]
    rw [hu.switch, bind_ok] at hf ⊢
    rw [enumLen_grow objs hdv]
    obtain ⟨len, hlen, hf⟩ := bind_eq_ok.1 hf
    rw [hlen, bind_ok]
    cases len with
    | none => exact hf
    | some len =>
      simp only [hu.default, bind_ok, hu.lastMember] at hf ⊢
      obtain ⟨table, hloop, hf⟩ := bind_eq_ok.1 hf
      rw [freezeLoop_grow objs hv hloop, bind_ok]
      exact hf
  · intro j hj
    rw [getTypeParameter_grow objs hv, hu.types j hj]

theorem scanLabels_grow (hu : IsUnion h t disc n d members) (label : Content) (count index : Nat) :
    scanLabels (h ++ objs) noNested t label d count index =
      scanLabels h noNested t label d count index := by
  have hv := hu.kind_ne_void
  obtain ⟨u, hunwind, hk⟩ := hu.isSwitch.unwinds
  have huv : kind h u ≠ .tkVoid := by
    rcases hk with hk | hk
    · exact ne_void_of_discrete hk
    · rw [hk]; decide
  have hunwind' := unwindTypedefs_grow objs hunwind huv
  have hk' := hk
  rw [← kind_grow objs huv] at hk'
  induction count generalizing index with
  | zero => rfl
  | succ count ih =>
    unfold scanLabels
    rw [ih, discriminatorType_grow objs hv, memberLabel_grow objs hv, hu.switch]
    simp [anyContainerEq_switch hunwind hk, anyContainerEq_switch hunwind' hk', kind_grow objs huv]

theorem selected_grow (hu : IsUnion h t disc n d members) (hl : IsLabel h disc label) :
    selected (h ++ objs) t disc label = selected h t disc label := by
  have hv := hu.kind_ne_void
  have hmember : labelToMember (h ++ objs) noNested t ⟨disc, label⟩ =
      labelToMember h noNested t ⟨disc, label⟩ := by
    unfold labelToMember
    rw [map_grow objs hv]
    cases hm : map h t with
    | some table =>
      obtain ⟨p, hp, -⟩ := hu.posFromAny_lt hm hl
      rw [hp, posFromAny_grow objs hp]
    | none =>
      rw [hu.default, defaultIndex_grow objs hu.default, bind_ok, bind_ok]
      dsimp only
      rw [hu.scanLabels_grow objs, parameterCount_grow objs hv]
  obtain ⟨i, hi, -⟩ := hu.labelToMember_ok hl
  rw [selected, selected, memberTypeWithLabel, memberTypeWithLabel, hmember, kind_grow objs hv, hi,
    bind_ok, bind_ok, getTypeParameter_grow objs hv]

end IsUnion

theorem ne_void_of_numeric (hk : isNumericKind k = true) : k ≠ .tkVoid := by
  rintro rfl
  cases hk

theorem ne_void_of_struct (hk : isStructKind k = true) : k ≠ .tkVoid := by
  rintro rfl
  cases hk

theorem IsType.grow (ht : IsType h tc) : IsType (h ++ objs) tc := by
  induction ht with
  | numeric hu hk =>
    have hv := ne_void_of_numeric hk
    exact .numeric (unwindTypedefs_grow objs hu hv) (by rwa [kind_grow objs hv])
  | @self tc t hu hk =>
    have hv : kind h t ≠ .tkVoid := by
      intro hv
      rw [hv] at hk
      cases hk
    exact .self (unwindTypedefs_grow objs hu hv) (by rwa [kind_grow objs hv])
  | @string tc t n hu hk hn =>
    have hv : kind h t ≠ .tkVoid := by
      intro hv
      rw [hv] at hk
      cases hk
    exact .string (unwindTypedefs_grow objs hu hv) (by rwa [kind_grow objs hv])
      (length_grow objs hn)
  | @enum tc t n hu hk hn hpos =>
    have hv : kind h t ≠ .tkVoid := by rw [hk]; decide
    exact .enum (unwindTypedefs_grow objs hu hv) (by rwa [kind_grow objs hv])
      (by rwa [memberCount_grow objs hv]) hpos
  | @struct tc t n members hu hk hn hmembers _ ih =>
    have hv := ne_void_of_struct hk
    exact .struct (unwindTypedefs_grow objs hu hv) (by rwa [kind_grow objs hv])
      (by rwa [memberCount_grow objs hv])
      (fun j hj => by rw [memberType_grow objs hv, hmembers j hj]) ih
  | @union tc t disc n d members hu hunion _ ih =>
    exact .union (unwindTypedefs_grow objs hu hunion.kind_ne_void) (hunion.grow objs) ih
  | @sequence tc t e n hu hk hn hsize he _ ih =>
    have hv : kind h t ≠ .tkVoid := by rw [hk]; decide
    exact .sequence (unwindTypedefs_grow objs hu hv) (by rwa [kind_grow objs hv])
      (length_grow objs hn) hsize (by rwa [contentType_grow objs hv]) ih
  | @array tc t e n hu hk hn hsize he _ ih =>
    have hv : kind h t ≠ .tkVoid := by rw [hk]; decide
    exact .array (unwindTypedefs_grow objs hu hv) (by rwa [kind_grow objs hv])
      (length_grow objs hn) hsize (by rwa [contentType_grow objs hv]) ih

end Grow

end Heap

end PolyORB
