import PolyORB.Any.Labels

/-!
# Lookup tables of unions

`Freeze` replaces the scan of the labels of a union with a boolean or enumerated discriminator by a
table.  The loop that fills the table keeps the last of several members with one label, the scan
stops at the first.
-/

namespace PolyORB

namespace Heap

open Checked

variable (h : Heap)

/-! ## The two lookups -/

/-- `Label_To_Member` of a typecode, a scan of its members. -/
def labelByScan (structured : Heap → TcRef → Content → Content → Except Exn Bool)
    (tc : TcRef) (label : Container) : Except Exn Int := do
  let defIndex ← defaultIndex h tc
  let last := subUnsignedLong (subUnsignedLong (parameterCount h tc) 4 / 3) 1
  let i ← scanLabels h structured tc label.value defIndex (last + 1) 0
  return if i = -1 then defIndex else i

/-- `Label_To_Member` of an `Enum_Union_TC_Map`. -/
def labelByTable (members : List Int) (label : Container) : Except Exn Int := do
  match members[← posFromAny h label]? with
  | some i => return i
  | none => .error .constraintError

variable {h}

/-- A value of the discriminator type `disc`, by its position. -/
inductive HasPosition (h : Heap) (disc : TcRef) : Container → Nat → Prop
  | boolean {tc : TcRef} {p : Nat} : kind h disc = .tkBoolean → kind h tc = .tkBoolean → p < 2 →
      HasPosition h disc ⟨tc, .elementary .tkBoolean p⟩ p
  | enum {tc : TcRef} {k : TCKind} {direct : Bool} {m p : Nat} : kind h disc = .tkEnum →
      kind h tc = .tkEnum → memberCount h disc = .ok m → p < m →
      HasPosition h disc ⟨tc, .aggregate k direct [.elementary .tkUlong p]⟩ p

/-- A union of `n` members with a boolean or an enumerated discriminator and default index `d`;
member `j` has the label at position `pos j`, unless it is the default member. -/
structure IsSwitchUnion (h : Heap) (t disc : TcRef) (n : Nat) (d : Int) (pos : Nat → Nat) :
    Prop where
  kind_eq : kind h t = .tkUnion
  count : parameterCount h t = 3 * n + 4
  size : 3 * n + 4 < unsignedLongModulus
  switch : discriminatorType h t = .ok disc
  isSwitch : kind h disc = .tkBoolean ∨ kind h disc = .tkEnum
  default : defaultIndex h t = .ok d
  labels : ∀ j < n, (j : Int) ≠ d → ∃ c, memberLabel h t j = .ok c ∧ HasPosition h disc c (pos j)

/-- `Freeze` gives a table that says what the scan says, for every value of the discriminator. -/
def FreezesRightly (h : Heap) (structured : Heap → TcRef → Content → Content → Except Exn Bool)
    (t disc : TcRef) : Prop :=
  ∃ table, freeze h t = .ok (some table) ∧ ∀ label p, HasPosition h disc label p →
    ∃ i, labelByTable h table label = .ok i ∧ labelByScan h structured t label = .ok i

/-! ## Positions -/

variable {t disc : TcRef} {n : Nat} {d : Int} {pos : Nat → Nat}

theorem unwindTypedefs_self {tc : TcRef} (hk : kind h tc ≠ .tkAlias) :
    unwindTypedefs h tc = .ok tc := by
  rw [unwindTypedefs, unwindTypedefs.go, if_neg hk]

variable {c label : Container}

theorem HasPosition.posFromAny_eq {p : Nat} (hc : HasPosition h disc c p) :
    posFromAny h c = .ok p := by
  cases hc with
  | boolean _ hk _ =>
    have hu := unwindTypedefs_self (show kind h _ ≠ .tkAlias by rw [hk]; decide)
    simp [posFromAny, hk, fromAny, hu]
  | @enum _ _ direct _ _ _ hk _ _ =>
    cases direct <;> simp [posFromAny, hk, enumPosition, getAggregateElement, uncheckedFromAny,
      Content.isEmpty]

theorem HasPosition.lt_length {p len : Nat} (hc : HasPosition h disc c p)
    (hlen : enumLen h disc = .ok (some len)) : p < subUnsignedLong len 1 + 1 := by
  cases hc with
  | boolean hd _ hp =>
    rw [enumLen, hd] at hlen
    cases hlen
    exact hp
  | enum hd _ hm hp =>
    rw [enumLen, hd] at hlen
    rw [hm, bind_ok] at hlen
    cases hlen
    rw [lastIndex_succ (by omega) (memberCount_lt hm)]
    exact hp

theorem HasPosition.anyContainerEq_eq
    {structured : Heap → TcRef → Content → Content → Except Exn Bool} {c' : Container} {p q : Nat}
    (hc : HasPosition h disc c p) (hc' : HasPosition h disc c' q) :
    anyContainerEq h structured disc c.value c'.value = .ok (p == q) := by
  cases hc with
  | boolean hd _ _ =>
    have hu := unwindTypedefs_self (show kind h disc ≠ .tkAlias by rw [hd]; decide)
    cases hc' with
    | boolean =>
      rw [anyContainerEq_switch hu (by rw [hd]; exact .inl rfl), hd]
      rfl
    | enum hd' =>
      rw [hd] at hd'
      cases hd'
  | @enum _ _ direct _ _ hd _ _ _ =>
    have hu := unwindTypedefs_self (show kind h disc ≠ .tkAlias by rw [hd]; decide)
    cases hc' with
    | boolean hd' =>
      rw [hd] at hd'
      cases hd'
    | @enum _ _ direct' =>
      rw [anyContainerEq_switch hu (by rw [hd]; exact .inr rfl), hd]
      cases direct <;> cases direct' <;> rfl

/-! ## The scan -/

/-- Member `j` has the label at position `p`. -/
def Selects (d : Int) (pos : Nat → Nat) (p j : Nat) : Prop := (j : Int) ≠ d ∧ pos j = p

namespace IsSwitchUnion

theorem scanLabels_first (hu : IsSwitchUnion h t disc n d pos)
    (structured : Heap → TcRef → Content → Content → Except Exn Bool) {p : Nat}
    (hl : HasPosition h disc label p) {count index : Nat} (hn : index + count = n) :
    ∃ i, scanLabels h structured t label.value d count index = .ok i ∧
      ((i = -1 ∧ ∀ j, index ≤ j → j < n → ¬Selects d pos p j) ∨
        ∃ k : Nat, i = k ∧ k < n ∧ Selects d pos p k ∧
          ∀ j, index ≤ j → j < k → ¬Selects d pos p j) := by
  induction count generalizing index with
  | zero => exact ⟨-1, rfl, .inl ⟨rfl, fun j _ _ => by omega⟩⟩
  | succ count ih =>
    obtain ⟨i, hi, hcase⟩ := ih (show index + 1 + count = n by omega)
    -- a member that is not selected does not change the result
    have hskip : ¬Selects d pos p index → (i = -1 ∧ ∀ j, index ≤ j → j < n → ¬Selects d pos p j) ∨
        ∃ k : Nat, i = k ∧ k < n ∧ Selects d pos p k ∧
          ∀ j, index ≤ j → j < k → ¬Selects d pos p j := by
      intro hnot
      have hext : ∀ {m}, (∀ j, index + 1 ≤ j → j < m → ¬Selects d pos p j) →
          ∀ j, index ≤ j → j < m → ¬Selects d pos p j := by
        intro m hrest j hj hm
        rcases Nat.eq_or_lt_of_le hj with rfl | hj
        · exact hnot
        · exact hrest j hj hm
      rcases hcase with ⟨hi, hnone⟩ | ⟨k, hi, hk, hsel, hfirst⟩
      · exact .inl ⟨hi, hext hnone⟩
      · exact .inr ⟨k, hi, hk, hsel, hext hfirst⟩
    unfold scanLabels
    by_cases hd : (index : Int) = d
    · rw [if_neg (not_not.2 hd)]
      exact ⟨i, hi, hskip fun hs => hs.1 hd⟩
    · obtain ⟨c, hc, hpos⟩ := hu.labels index (by omega) hd
      rw [if_pos hd, hu.switch, hc]
      simp only [bind_ok, hpos.anyContainerEq_eq hl]
      by_cases hp : pos index = p
      · refine ⟨index, by rw [if_pos (by simpa using hp)]; rfl, .inr ⟨index, rfl, by omega,
          ⟨hd, hp⟩, fun j _ _ => by omega⟩⟩
      · rw [if_neg (by simpa using hp)]
        exact ⟨i, hi, hskip fun hs => hp hs.2⟩

/-! ## The table -/

theorem freezeLoop_last (hu : IsSwitchUnion h t disc n d pos) {count index : Nat}
    {members : List Int} (hn : index + count = n)
    (hplace : ∀ j, index ≤ j → j < n → (j : Int) ≠ d → pos j < members.length) :
    ∃ table, freezeLoop h t d count index members = .ok table ∧ table.length = members.length ∧
      ∀ p, ((∀ j, index ≤ j → j < n → ¬Selects d pos p j) → table[p]? = members[p]?) ∧
        ∀ k, index ≤ k → k < n → Selects d pos p k →
          (∀ j, k < j → j < n → ¬Selects d pos p j) → table[p]? = some (k : Int) := by
  induction count generalizing index members with
  | zero => exact ⟨members, rfl, rfl, fun p => ⟨fun _ => rfl, fun k _ _ => by omega⟩⟩
  | succ count ih =>
    by_cases hd : (index : Int) = d
    · obtain ⟨table, hloop, hlen, htable⟩ := ih (show index + 1 + count = n by omega)
        (fun j hj => hplace j (by omega))
      refine ⟨table, by rw [freezeLoop, if_pos hd, hloop], hlen, fun p => ⟨fun hnone => ?_, ?_⟩⟩
      · exact (htable p).1 fun j hj => hnone j (by omega)
      · intro k hk hkn hsel hlast
        have hne : k ≠ index := by
          rintro rfl
          exact hsel.1 hd
        exact (htable p).2 k (by omega) hkn hsel hlast
    · obtain ⟨c, hc, hpos⟩ := hu.labels index (by omega) hd
      have hlt := hplace index (Nat.le_refl index) (by omega) hd
      have hplace' : ∀ j, index + 1 ≤ j → j < n → (j : Int) ≠ d →
          pos j < (members.set (pos index) (index : Int)).length := by
        intro j hj hjn hjd
        rw [List.length_set]
        exact hplace j (by omega) hjn hjd
      obtain ⟨table, hloop, hlen, htable⟩ := ih (show index + 1 + count = n by omega) hplace'
      refine ⟨table, ?_, hlen.trans (List.length_set ..), fun p => ⟨fun hnone => ?_, ?_⟩⟩
      · rw [freezeLoop, if_neg hd, hc, bind_ok, hpos.posFromAny_eq, bind_ok, if_pos hlt, hloop]
      · have hp : pos index ≠ p := fun hp => hnone index (Nat.le_refl index) (by omega) ⟨hd, hp⟩
        rw [(htable p).1 fun j hj => hnone j (by omega), List.getElem?_set_ne hp]
      · intro k hk hkn hsel hlast
        rcases Nat.eq_or_lt_of_le hk with rfl | hk
        · rw [(htable p).1 fun j hj => hlast j (by omega), ← hsel.2,
            List.getElem?_set_self hlt]
        · exact (htable p).2 k hk hkn hsel hlast

theorem enumLen_eq (hu : IsSwitchUnion h t disc n d pos) :
    ∃ len, enumLen h disc = .ok (some len) := by
  rcases hu.isSwitch with hd | hd
  · exact ⟨2, by rw [enumLen, hd]⟩
  · refine ⟨subUnsignedLong (parameterCount h disc) 2, ?_⟩
    simp only [enumLen, memberCount, hd]
    rfl

/-- With a member, `Freeze` returns a table whose entries are the last members. -/
theorem freeze_ok (hu : IsSwitchUnion h t disc n d pos) (hn : 0 < n) :
    ∃ table, freeze h t = .ok (some table) ∧ ∀ label p, HasPosition h disc label p →
      ((∀ j < n, ¬Selects d pos p j) → table[p]? = some d) ∧
        ∀ k < n, Selects d pos p k → (∀ j, k < j → j < n → ¬Selects d pos p j) →
          table[p]? = some (k : Int) := by
  obtain ⟨len, hlen⟩ := hu.enumLen_eq
  have hplace : ∀ j, 0 ≤ j → j < n → (j : Int) ≠ d →
      pos j < (List.replicate (subUnsignedLong len 1 + 1) d).length := by
    intro j _ hj hd
    obtain ⟨c, -, hc⟩ := hu.labels j hj hd
    rw [List.length_replicate]
    exact hc.lt_length hlen
  obtain ⟨table, hloop, -, htable⟩ := hu.freezeLoop_last (Nat.zero_add n) hplace
  refine ⟨table, ?_, fun label p hl => ⟨fun hnone => ?_, fun k hk => ?_⟩⟩
  · rw [freeze, hu.switch, bind_ok, hlen, bind_ok]
    simp only [hu.default, bind_ok, hu.count, lastMember_succ hn hu.size, hloop]
    rfl
  · rw [(htable p).1 fun j _ => hnone j, List.getElem?_replicate, if_pos (hl.lt_length hlen)]
  · exact (htable p).2 k (Nat.zero_le k) hk

theorem labelByScan_eq (hu : IsSwitchUnion h t disc n d pos) (hn : 0 < n)
    (structured : Heap → TcRef → Content → Content → Except Exn Bool) {p : Nat}
    (hl : HasPosition h disc label p) :
    ((∀ j < n, ¬Selects d pos p j) ∧ labelByScan h structured t label = .ok d) ∨
      ∃ k < n, Selects d pos p k ∧ (∀ j < k, ¬Selects d pos p j) ∧
        labelByScan h structured t label = .ok (k : Int) := by
  obtain ⟨i, hi, hcase⟩ := hu.scanLabels_first structured hl (Nat.zero_add n)
  have hscan : labelByScan h structured t label = .ok (if i = -1 then d else i) := by
    unfold labelByScan
    simp only [hu.default, bind_ok, hu.count, lastMember_succ hn hu.size, hi]
    rfl
  rcases hcase with ⟨rfl, hnone⟩ | ⟨k, rfl, hk, hsel, hfirst⟩
  · exact .inl ⟨fun j => hnone j (Nat.zero_le j), hscan⟩
  · refine .inr ⟨k, hk, hsel, fun j => hfirst j (Nat.zero_le j), ?_⟩
    rw [hscan, if_neg (by omega)]

theorem freeze_empty (hu : IsSwitchUnion h t disc 0 d pos) : ∃ e, freeze h t = .error e := by
  obtain ⟨len, hlen⟩ := hu.enumLen_eq
  have hlabel : ∀ j, memberLabel h t j = .error .typeCodeBounds := by
    intro j
    simp only [memberLabel, hu.kind_eq]
    rw [if_pos (by rw [hu.count]; omega)]
  have hstop : ∀ {count index : Nat} {members : List Int}, (index : Int) ≠ d →
      freezeLoop h t d (count + 1) index members = .error .typeCodeBounds := by
    intro count index members hd
    rw [freezeLoop, if_neg hd, hlabel]
    rfl
  have hloop : ∀ members, freezeLoop h t d (2 ^ 32) 0 members = .error .typeCodeBounds := by
    intro members
    by_cases hd : ((0 : Nat) : Int) = d
    · rw [show 2 ^ 32 = (2 ^ 32 - 1) + 1 by decide, freezeLoop, if_pos hd,
        show 2 ^ 32 - 1 = (2 ^ 32 - 2) + 1 by decide]
      exact hstop (by omega)
    · exact hstop hd
  refine ⟨.typeCodeBounds, ?_⟩
  rw [freeze, hu.switch, bind_ok, hlen, bind_ok]
  simp only [hu.default, bind_ok, hu.count]
  rw [show subUnsignedLong (subUnsignedLong (3 * 0 + 4) 4 / 3) 1 + 1 = 2 ^ 32 by decide, hloop]
  rfl

end IsSwitchUnion

theorem exists_last {P : Nat → Prop} {k : Nat} (hk : P k) : ∀ m, k < m →
    ∃ l, k ≤ l ∧ l < m ∧ P l ∧ ∀ j, l < j → j < m → ¬P j := by
  intro m
  induction m with
  | zero => exact fun hlt => absurd hlt (Nat.not_lt_zero k)
  | succ m ih =>
    intro hlt
    by_cases hm : P m
    · exact ⟨m, by omega, by omega, hm, fun j _ _ => by omega⟩
    · have hne : k ≠ m := by
        rintro rfl
        exact hm hk
      obtain ⟨l, hkl, hlm, hl, hlast⟩ := ih (by omega)
      refine ⟨l, hkl, by omega, hl, fun j hj hjm => ?_⟩
      rcases Nat.lt_succ_iff_lt_or_eq.1 hjm with hjm | rfl
      · exact hlast j hj hjm
      · exact hm

theorem labelByTable_eq {table : List Int} {p : Nat} {i : Int} (hl : HasPosition h disc label p) :
    labelByTable h table label = .ok i ↔ table[p]? = some i := by
  rw [labelByTable, hl.posFromAny_eq, bind_ok]
  cases table[p]? with
  | none => exact ⟨by rintro ⟨⟩, by rintro ⟨⟩⟩
  | some x => exact ⟨by rintro ⟨⟩; rfl, by rintro ⟨⟩; rfl⟩

/-- For every union with a boolean or an enumerated discriminator, whatever its default member and
its labels: `Freeze` returns, and its table is the scan, exactly if the union has a member and no
two members other than the default one have the same label. -/
theorem freezesRightly_iff (structured : Heap → TcRef → Content → Content → Except Exn Bool)
    (hu : IsSwitchUnion h t disc n d pos) :
    FreezesRightly h structured t disc ↔
      0 < n ∧ ∀ j k, j < n → k < n → (j : Int) ≠ d → (k : Int) ≠ d → pos j = pos k → j = k := by
  constructor
  · rintro ⟨table, hfreeze, htable⟩
    have hn : 0 < n := by
      by_contra hn
      obtain rfl : n = 0 := by omega
      obtain ⟨e, he⟩ := hu.freeze_empty
      rw [he] at hfreeze
      cases hfreeze
    obtain ⟨table', hfreeze', hlast⟩ := hu.freeze_ok hn
    obtain rfl : table' = table := Option.some.inj (ok_inj hfreeze' hfreeze)
    refine ⟨hn, ?_⟩
    -- the first and the last of the members with one label are the same
    have hone : ∀ j k, j < k → k < n → (j : Int) ≠ d → (k : Int) ≠ d → pos j ≠ pos k := by
      intro j k hjk hk hjd hkd heq
      obtain ⟨c, -, hc⟩ := hu.labels j (by omega) hjd
      obtain ⟨l, hkl, hln, hl, hafter⟩ := exists_last (P := Selects d pos (pos j))
        ⟨hkd, heq.symm⟩ n hk
      obtain ⟨i, hi, hscan⟩ := htable c (pos j) hc
      have hil := (labelByTable_eq hc).1 hi
      rw [(hlast c (pos j) hc).2 l hln hl hafter] at hil
      rcases hu.labelByScan_eq hn structured hc with ⟨hnone, -⟩ | ⟨k', -, -, hfirst, hscan'⟩
      · exact hnone j (by omega) ⟨hjd, rfl⟩
      · have hkk := ok_inj hscan hscan'
        cases hil
        have hle : k' ≤ j := by
          by_contra hlt
          exact hfirst j (by omega) ⟨hjd, rfl⟩
        omega
    intro j k hj hk hjd hkd heq
    rcases Nat.lt_trichotomy j k with hlt | rfl | hlt
    · exact absurd heq (hone j k hlt hk hjd hkd)
    · rfl
    · exact absurd heq.symm (hone k j hlt hj hkd hjd)
  · rintro ⟨hn, hinj⟩
    obtain ⟨table, hfreeze, hlast⟩ := hu.freeze_ok hn
    refine ⟨table, hfreeze, fun label p hl => ?_⟩
    rcases hu.labelByScan_eq hn structured hl with ⟨hnone, hscan⟩ | ⟨k, hk, hsel, -, hscan⟩
    · exact ⟨d, (labelByTable_eq hl).2 ((hlast label p hl).1 hnone), hscan⟩
    · refine ⟨k, (labelByTable_eq hl).2 ((hlast label p hl).2 k hk hsel fun j hj hjn hs => ?_),
        hscan⟩
      have := hinj j k hjn hk hs.1 hsel.1 (hs.2.trans hsel.2.symm)
      omega

/-- A union with a boolean discriminator, no default member, and an octet for each label. -/
def booleanUnion (labels : List Nat) : Heap :=
  [⟨.tkUnion, [⟨.ptc .tkString, .string []⟩, ⟨.ptc .tkString, .string []⟩,
    ⟨.ptc .tkTypeCode, .typeCode (.ptc .tkBoolean)⟩,
    ⟨.ptc .tkLong, .elementary .tkLong (ofLong (-1))⟩] ++ labels.flatMap fun p =>
      [⟨.ptc .tkBoolean, .elementary .tkBoolean p⟩, ⟨.ptc .tkTypeCode, .typeCode (.ptc .tkOctet)⟩,
        ⟨.ptc .tkString, .string []⟩], none⟩]

theorem freezesRightly_iff_booleanUnion :
    FreezesRightly (booleanUnion [0, 1]) noNested (.obj 0) (.ptc .tkBoolean) := by
  have hu : IsSwitchUnion (booleanUnion [0, 1]) (.obj 0) (.ptc .tkBoolean) 2 (-1)
      (fun j => j) := by
    refine ⟨rfl, rfl, by decide, rfl, .inl rfl, rfl, fun j hj _ => ?_⟩
    rcases (show j = 0 ∨ j = 1 by omega) with rfl | rfl
    · exact ⟨_, rfl, .boolean rfl rfl Nat.zero_lt_two⟩
    · exact ⟨_, rfl, .boolean rfl rfl Nat.one_lt_two⟩
  exact (freezesRightly_iff noNested hu).2 ⟨by decide, fun j k _ _ _ _ h => h⟩

/-- Two members for `False`: the table has the second one, the scan stops at the first. -/
theorem not_freezesRightly_repeated :
    ¬FreezesRightly (booleanUnion [0, 0]) noNested (.obj 0) (.ptc .tkBoolean) := by
  rintro ⟨table, hfreeze, htable⟩
  have htwo : freeze (booleanUnion [0, 0]) (.obj 0) = .ok (some [1, -1]) := rfl
  obtain rfl := Option.some.inj (ok_inj htwo hfreeze)
  obtain ⟨i, hi, hscan⟩ := htable ⟨.ptc .tkBoolean, .elementary .tkBoolean 0⟩ 0
    (.boolean rfl rfl (by decide))
  cases hi
  cases hscan

end Heap

end PolyORB
