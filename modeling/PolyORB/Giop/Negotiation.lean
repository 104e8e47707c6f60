import PolyORB.Lib.Checked
import PolyORB.Types

/-!
# Code set negotiation

PolyORB.GIOP_P.Code_Sets: the transmission code set of a connection.  Two code sets are compatible
when they encode the same character sets, or share two of them at least.  The generated tables of
Code_Sets.Data are a parameter.
-/

namespace PolyORB

abbrev CodeSetId := UInt32

abbrev CharacterSetId := UInt16

structure CodeSetInfoRecord where
  codeSet : CodeSetId
  first : Nat
  last : Nat

/-- `Data.Info` and `Data.Character_Sets`, whose indices start at 1. -/
structure CodeSetData where
  info : List CodeSetInfoRecord
  characterSets : List CharacterSetId
  ranges : ∀ i ∈ info, 0 < i.first ∧ i.first ≤ i.last ∧ i.last ≤ characterSets.length
  /-- The registry lists each character set of a code set once. -/
  nodup : ∀ i ∈ info, ((characterSets.take i.last).drop (i.first - 1)).Nodup

/-- `TCS`, or `Codeset_Incompatible_E` in `Error`. -/
inductive Negotiated where
  | tcs (c : CodeSetId)
  | codesetIncompatible
  deriving DecidableEq

namespace CodeSetData

variable (d : CodeSetData)

def setsOf (i : CodeSetInfoRecord) : List CharacterSetId :=
  (d.characterSets.take i.last).drop (i.first - 1)

def findInfoIndex (c : CodeSetId) : Nat :=
  match d.info.findIdx? (·.codeSet = c) with
  | some j => j + 1
  | none => 0

/-- `Data.Info (Index)` -/
def infoAt : Nat → Except Exn CodeSetInfoRecord
  | 0 => .error .constraintError
  | j + 1 =>
    match d.info[j]? with
    | some i => .ok i
    | none => .error .constraintError

/-- `Data.Character_Sets (Index)` -/
def characterSet : Nat → Except Exn CharacterSetId
  | 0 => .error .constraintError
  | j + 1 =>
    match d.characterSets[j]? with
    | some x => .ok x
    | none => .error .constraintError

/-- The inner loop of the default case. -/
def hasMatch (j : Nat) : List Nat → Except Exn Bool
  | [] => pure false
  | k :: ks => do
    let x ← d.characterSet j
    let y ← d.characterSet k
    if x = y then pure true else hasMatch j ks

/-- The outer loop, which returns `Count`. -/
def countMatches (ks : List Nat) : List Nat → Except Exn Nat
  | [] => pure 0
  | j :: js => do
    let found ← d.hasMatch j ks
    let count ← countMatches ks js
    pure (if found then count + 1 else count)

/-- The checks of two entries of the information table. -/
def checkInfo (infoA infoB : CodeSetInfoRecord) : Except Exn Bool :=
  if infoA.first = infoB.first ∧ infoA.last = infoB.last then pure true
  else if infoA.last = infoA.first ∧ infoB.last = infoB.first then do
    let x ← d.characterSet infoA.first
    let y ← d.characterSet infoB.first
    pure (x = y)
  else if infoA.last = infoA.first ∨ infoB.last = infoB.first then pure false
  else do
    let count ← d.countMatches (List.range' infoB.first (infoB.last + 1 - infoB.first))
      (List.range' infoA.first (infoA.last + 1 - infoA.first))
    pure (2 ≤ count)

def isCompatible (a b : CodeSetId) : Except Exn Bool :=
  if a = b then .error .assertionError
  else do
    let indexA := d.findInfoIndex a
    let indexB := d.findInfoIndex b
    -- the renamings evaluate the indices before they are compared with 0
    let infoA ← d.infoAt indexA
    let infoB ← d.infoAt indexB
    if indexA = 0 ∨ indexB = 0 then pure false else d.checkInfo infoA infoB

def intersection (as bs : List CodeSetId) : List CodeSetId := as.filter (· ∈ bs)

def negotiateCodeSet (cncs : CodeSetId) (cccs : List CodeSetId) (sncs : CodeSetId)
    (sccs : List CodeSetId) (fallback : CodeSetId) : Except Exn Negotiated :=
  if cncs = sncs then .ok (.tcs cncs)
  else if sncs ∈ cccs then .ok (.tcs sncs)
  else if cncs ∈ sccs then .ok (.tcs cncs)
  else
    match intersection cccs sccs with
    | c :: _ => .ok (.tcs c)
    | [] => do
      if ← d.isCompatible cncs sncs then return .tcs fallback
      return .codesetIncompatible

/-! ## Compatibility -/

def charactersOf (c : CodeSetId) : Option (Finset CharacterSetId) :=
  (d.info.find? (·.codeSet = c)).map fun i => (d.setsOf i).toFinset

def Compatible (a b : CodeSetId) : Prop :=
  ∃ s t, d.charactersOf a = some s ∧ d.charactersOf b = some t ∧ (s = t ∨ 2 ≤ (s ∩ t).card)

/-- The code set is in the information table. -/
def Known (c : CodeSetId) : Prop := ∃ i ∈ d.info, i.codeSet = c

instance (c : CodeSetId) : Decidable (d.Known c) :=
  inferInstanceAs (Decidable (∃ i ∈ d.info, i.codeSet = c))

theorem Compatible.comm {a b : CodeSetId} : d.Compatible a b ↔ d.Compatible b a := by
  constructor
  all_goals
    rintro ⟨s, t, hs, ht, h⟩
    exact ⟨t, s, ht, hs, h.imp Eq.symm fun h => by rwa [Finset.inter_comm]⟩

variable {d}

theorem charactersOf_eq_none {c : CodeSetId} : d.charactersOf c = none ↔ ¬d.Known c := by
  simp [charactersOf, Known]

variable {i : CodeSetInfoRecord}

theorem infoAt_succ {j : Nat} (h : d.info[j]? = some i) :
    d.infoAt (j + 1) = .ok i := by
  rw [infoAt, h]

theorem characterSet_succ {j : Nat} {x : CharacterSetId} (h : d.characterSets[j]? = some x) :
    d.characterSet (j + 1) = .ok x := by
  rw [characterSet, h]

theorem infoAt_findInfoIndex (c : CodeSetId) :
    (¬d.Known c ∧ d.findInfoIndex c = 0) ∨
      ∃ i ∈ d.info, d.findInfoIndex c ≠ 0 ∧ d.infoAt (d.findInfoIndex c) = .ok i ∧
        d.charactersOf c = some (d.setsOf i).toFinset := by
  unfold findInfoIndex
  cases hj : d.info.findIdx? (·.codeSet = c) with
  | none =>
    left
    rw [List.findIdx?_eq_none_iff] at hj
    exact ⟨fun ⟨i, hi, hc⟩ => by simpa [hc] using hj i hi, rfl⟩
  | some j =>
    right
    obtain ⟨hlt, -, -⟩ := List.findIdx?_eq_some_iff_getElem.mp hj
    have hfind : d.info.find? (·.codeSet = c) = d.info[j]? := by
      rw [List.find?_eq_bind_findIdx?_getElem?, hj]
      rfl
    rw [List.getElem?_eq_getElem hlt] at hfind
    refine ⟨d.info[j], List.getElem_mem hlt, Nat.succ_ne_zero j, ?_, ?_⟩
    · exact infoAt_succ (List.getElem?_eq_getElem hlt)
    · rw [charactersOf, hfind]
      rfl

theorem characterSets_range (hi : i ∈ d.info) :
    List.Forall₂ (fun j x => d.characterSet j = .ok x) (List.range' i.first (i.last + 1 - i.first))
      (d.setsOf i) := by
  obtain ⟨hpos, hle, hlast⟩ := d.ranges i hi
  unfold setsOf
  rw [List.forall₂_iff_get]
  refine ⟨by simp; omega, fun k hk hk' => ?_⟩
  rw [List.length_range'] at hk
  simp only [List.get_eq_getElem, List.getElem_range', List.getElem_drop, List.getElem_take]
  obtain ⟨j, hj⟩ : ∃ j, i.first + 1 * k = j + 1 := ⟨i.first - 1 + k, by omega⟩
  have hk : i.first - 1 + k = j := by omega
  rw [hj, characterSet_succ (List.getElem?_eq_getElem (by omega))]
  simp [hk]

theorem hasMatch_eq {j : Nat} {x : CharacterSetId} (hj : d.characterSet j = .ok x) {ks : List Nat}
    {ys : List CharacterSetId} (h : List.Forall₂ (fun k y => d.characterSet k = .ok y) ks ys) :
    d.hasMatch j ks = .ok (decide (x ∈ ys)) := by
  induction h with
  | nil => rfl
  | @cons k y ks ys hk _ ih =>
    rw [hasMatch, hj, Checked.bind_ok, hk, Checked.bind_ok]
    split_ifs with he
    · simp [he]
    · rw [ih]
      simp [he]

theorem countMatches_eq {ks : List Nat} {ys : List CharacterSetId}
    (hks : List.Forall₂ (fun k y => d.characterSet k = .ok y) ks ys) {js : List Nat}
    {xs : List CharacterSetId} (h : List.Forall₂ (fun j x => d.characterSet j = .ok x) js xs) :
    d.countMatches ks js = .ok (xs.countP (· ∈ ys)) := by
  induction h with
  | nil => rfl
  | @cons j x js xs hj _ ih =>
    rw [countMatches, hasMatch_eq hj hks, Checked.bind_ok, ih, Checked.bind_ok, List.countP_cons]
    by_cases hx : x ∈ ys <;> simp [hx]

theorem nodup_setsOf (hi : i ∈ d.info) : (d.setsOf i).Nodup := d.nodup i hi

theorem length_setsOf (hi : i ∈ d.info) :
    (d.setsOf i).length = i.last + 1 - i.first := by
  obtain ⟨hpos, hle, hlast⟩ := d.ranges i hi
  rw [setsOf, List.length_drop, List.length_take]
  omega

theorem countP_setsOf {k : CodeSetInfoRecord} (hi : i ∈ d.info) :
    (d.setsOf i).countP (· ∈ d.setsOf k) =
      ((d.setsOf i).toFinset ∩ (d.setsOf k).toFinset).card := by
  have hfilter : ((d.setsOf i).filter (· ∈ d.setsOf k)).toFinset =
      (d.setsOf i).toFinset ∩ (d.setsOf k).toFinset := by
    ext x
    simp
  rw [← hfilter, List.toFinset_card_of_nodup ((nodup_setsOf hi).filter _),
    List.countP_eq_length_filter]

theorem characterSet_first (hi : i ∈ d.info) (hone : i.last = i.first) :
    ∃ x, d.characterSet i.first = .ok x ∧ d.setsOf i = [x] := by
  have hlen : i.last + 1 - i.first = 1 := by omega
  obtain ⟨x, hx⟩ := List.length_eq_one_iff.mp ((length_setsOf hi).trans hlen)
  have hrange := characterSets_range hi
  rw [hlen, hx] at hrange
  cases hrange with
  | cons hfirst => exact ⟨x, hfirst, hx⟩

theorem checkInfo_eq {k : CodeSetInfoRecord} (hi : i ∈ d.info) (hk : k ∈ d.info) :
    ∃ r, d.checkInfo i k = .ok r ∧ (r = true ↔ (d.setsOf i).toFinset = (d.setsOf k).toFinset ∨
      2 ≤ ((d.setsOf i).toFinset ∩ (d.setsOf k).toFinset).card) := by
  have hcard : ∀ {e}, e ∈ d.info → (d.setsOf e).toFinset.card = e.last + 1 - e.first :=
    fun {e} he => (List.toFinset_card_of_nodup (nodup_setsOf he)).trans (length_setsOf he)
  have hleft : ((d.setsOf i).toFinset ∩ (d.setsOf k).toFinset).card ≤ (d.setsOf i).toFinset.card :=
    Finset.card_le_card Finset.inter_subset_left
  have hright : ((d.setsOf i).toFinset ∩ (d.setsOf k).toFinset).card ≤ (d.setsOf k).toFinset.card :=
    Finset.card_le_card Finset.inter_subset_right
  rw [hcard hi] at hleft
  rw [hcard hk] at hright
  obtain ⟨-, hile, -⟩ := d.ranges i hi
  unfold checkInfo
  split_ifs with hsame hone hsingle
  · exact ⟨true, rfl, by simp [setsOf, hsame]⟩
  · obtain ⟨x, hx, hxs⟩ := characterSet_first hi hone.1
    obtain ⟨y, hy, hys⟩ := characterSet_first hk hone.2
    rw [hx, hy, Checked.bind_ok, Checked.bind_ok]
    refine ⟨_, rfl, ?_⟩
    rw [or_iff_left (by omega), hxs, hys]
    simp
  · refine ⟨false, rfl, iff_of_false Bool.false_ne_true ?_⟩
    rintro (heq | hcommon)
    · have := congrArg Finset.card heq
      rw [hcard hi, hcard hk] at this
      omega
    · omega
  · rw [countMatches_eq (characterSets_range hk) (characterSets_range hi), countP_setsOf hi,
      Checked.bind_ok]
    refine ⟨_, rfl, ?_⟩
    rw [decide_eq_true_iff, iff_or_self]
    intro heq
    rw [← heq, Finset.inter_self, hcard hi]
    omega

theorem isCompatible_eq {a b : CodeSetId} (hab : a ≠ b) :
    (¬(d.Known a ∧ d.Known b) ∧ d.isCompatible a b = .error .constraintError) ∨
      d.Known a ∧ d.Known b ∧
        ∃ r, d.isCompatible a b = .ok r ∧ (r = true ↔ d.Compatible a b) := by
  have hknown : ∀ {c i}, d.charactersOf c = some i → d.Known c := fun {c i} h => by
    by_contra hc
    rw [charactersOf_eq_none.mpr hc] at h
    cases h
  unfold isCompatible
  rw [if_neg hab]
  dsimp only
  rcases infoAt_findInfoIndex (d := d) a with ⟨ha, hia⟩ | ⟨i, hi, hia, hinfo, hsetA⟩
  · exact .inl ⟨fun h => ha h.1, by rw [hia]; rfl⟩
  rcases infoAt_findInfoIndex (d := d) b with ⟨hb, hib⟩ | ⟨k, hk, hib, hinfo', hsetB⟩
  · exact .inl ⟨fun h => hb h.2, by rw [hinfo, hib]; rfl⟩
  right
  refine ⟨hknown hsetA, hknown hsetB, ?_⟩
  rw [hinfo, hinfo', Checked.bind_ok, Checked.bind_ok, if_neg (by rintro (h | h) <;> contradiction)]
  obtain ⟨r, hr, hiff⟩ := checkInfo_eq hi hk
  refine ⟨r, hr, hiff.trans ⟨fun h => ⟨_, _, hsetA, hsetB, h⟩, ?_⟩⟩
  rintro ⟨s, t, hs, ht, h⟩
  rw [hsetA] at hs
  rw [hsetB] at ht
  cases hs
  cases ht
  exact h

/-! ## The negotiation -/

variable (d) (cncs : CodeSetId) (cccs : List CodeSetId) (sncs : CodeSetId) (sccs : List CodeSetId)
  (fallback : CodeSetId)

/-- What the two ends agree on. -/
def Agreed (r : Negotiated) : Prop :=
  if cncs = sncs then r = .tcs cncs
  else if sncs ∈ cccs then r = .tcs sncs
  else if cncs ∈ sccs then r = .tcs cncs
  else
    match sccs.find? (· ∈ cccs) with
    | some c => r = .tcs c
    | none => (d.Compatible cncs sncs → r = .tcs fallback) ∧
        (¬d.Compatible cncs sncs → r = .codesetIncompatible)

/-- Where a common code set is chosen, both ends prefer the same one; where there is none, both
native code sets are in the information table. -/
def Settles : Prop :=
  cncs = sncs ∨ sncs ∈ cccs ∨ cncs ∈ sccs ∨
    cccs.find? (· ∈ sccs) = sccs.find? (· ∈ cccs) ∧
      ((∀ c ∈ cccs, c ∉ sccs) → d.Known cncs ∧ d.Known sncs)

variable {d cncs cccs sncs sccs fallback}

theorem negotiateCodeSet_agreed :
    (∃ r, d.negotiateCodeSet cncs cccs sncs sccs fallback = .ok r ∧
      d.Agreed cncs cccs sncs sccs fallback r) ↔ d.Settles cncs cccs sncs sccs := by
  unfold negotiateCodeSet Agreed Settles
  split_ifs with hnative hclient hserver
  · simp [hnative]
  · simp [hclient]
  · simp [hserver]
  simp only [hnative, hclient, hserver, false_or]
  have hhead : (intersection cccs sccs).head? = cccs.find? (· ∈ sccs) := List.head?_filter
  cases hc : intersection cccs sccs with
  | cons c cs =>
    rw [hc, List.head?_cons] at hhead
    have hmem : c ∈ cccs ∧ c ∈ sccs := by
      have : c ∈ intersection cccs sccs := hc ▸ List.mem_cons_self
      simpa [intersection] using this
    cases hs : sccs.find? (· ∈ cccs) with
    | none => exact absurd hmem.1 (by simpa using List.find?_eq_none.mp hs c hmem.2)
    | some c' =>
      rw [← hhead, Option.some_inj, and_iff_left fun h => absurd hmem.2 (h c hmem.1)]
      simp [eq_comm]
  | nil =>
    rw [hc, List.head?_nil] at hhead
    have hnone : ∀ c ∈ cccs, c ∉ sccs := fun c hc' => by
      simpa using List.find?_eq_none.mp hhead.symm c hc'
    have hnone' : sccs.find? (· ∈ cccs) = none :=
      List.find?_eq_none.mpr fun c hc' => by simpa using fun h => hnone c h hc'
    rw [hnone', ← hhead, and_iff_right rfl, forall_prop_of_true hnone]
    rcases isCompatible_eq (d := d) hnative with ⟨hknown, herr⟩ | ⟨ha, hb, r, hr, hiff⟩
    · rw [herr]
      exact iff_of_false (by rintro ⟨_, ⟨⟩, _⟩) hknown
    · rw [hr, Checked.bind_ok]
      refine iff_of_true ?_ ⟨ha, hb⟩
      cases r with
      | true => exact ⟨_, rfl, fun _ => rfl, fun h => absurd (hiff.mp rfl) h⟩
      | false => exact ⟨_, rfl, ⟨fun h => absurd (hiff.mpr h) Bool.false_ne_true, fun _ => rfl⟩⟩

theorem isCompatible_comm (a b : CodeSetId) : d.isCompatible a b = d.isCompatible b a := by
  by_cases hab : a = b
  · rw [hab]
  rcases isCompatible_eq (d := d) hab with ⟨hknown, herr⟩ | ⟨ha, hb, r, hr, hiff⟩
  · rcases isCompatible_eq (d := d) (Ne.symm hab) with ⟨-, herr'⟩ | ⟨hb, ha, -⟩
    · rw [herr, herr']
    · exact absurd ⟨ha, hb⟩ hknown
  · rcases isCompatible_eq (d := d) (Ne.symm hab) with ⟨hknown, -⟩ | ⟨-, -, r', hr', hiff'⟩
    · exact absurd ⟨hb, ha⟩ hknown
    · rw [hr, hr', Bool.eq_iff_iff.mpr (hiff.trans ((Compatible.comm d).trans hiff'.symm))]

variable (d cncs cccs sncs sccs fallback)

theorem negotiates_iff :
    ((∃ r, d.negotiateCodeSet cncs cccs sncs sccs fallback = .ok r ∧
        d.Agreed cncs cccs sncs sccs fallback r) ↔ d.Settles cncs cccs sncs sccs) ∧
      ∀ a b, d.isCompatible a b = d.isCompatible b a ∧
        (a ≠ b → ((¬(d.Known a ∧ d.Known b) → d.isCompatible a b = .ok false) ↔
          d.Known a ∧ d.Known b)) := by
  refine ⟨negotiateCodeSet_agreed, fun a b => ⟨isCompatible_comm a b, fun hab => ?_⟩⟩
  rcases isCompatible_eq (d := d) hab with ⟨hknown, herr⟩ | ⟨ha, hb, -⟩
  · refine iff_of_false (fun h => ?_) hknown
    have := herr.symm.trans (h hknown)
    cases this
  · exact iff_of_true (fun h => absurd ⟨ha, hb⟩ h) ⟨ha, hb⟩

/-- The entries of ISO 8859-1, UCS-2 and UTF-8. -/
def registered : CodeSetData where
  info := [⟨0x00010001, 1, 1⟩, ⟨0x00010100, 2, 2⟩, ⟨0x05010001, 2, 2⟩]
  characterSets := [0x0011, 0x1000]
  ranges := by decide
  nodup := by decide

/-- The client's preference decides, and an unknown code set raises. -/
theorem not_negotiates :
    ¬((∃ r, registered.negotiateCodeSet 0x00010001 [1, 2] 0x00010100 [2, 1] 0x05010001 = .ok r ∧
        registered.Agreed 0x00010001 [1, 2] 0x00010100 [2, 1] 0x05010001 r)) ∧
      registered.negotiateCodeSet 0x00010001 [] 3 [] 0x05010001 = .error .constraintError ∧
      registered.isCompatible 0x00010001 3 = .error .constraintError := by
  refine ⟨?_, by decide, by decide⟩
  rintro ⟨r, hr, hagreed⟩
  obtain rfl : Negotiated.tcs 1 = r := Except.ok.inj hr
  exact absurd (show Negotiated.tcs 1 = .tcs 2 from hagreed) (by decide)

end CodeSetData

end PolyORB
