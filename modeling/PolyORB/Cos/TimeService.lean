import PolyORB.Types
import PolyORB.Lib.Checked

/-!
# The time service

The servants of CosTime.  Current_Time is a parameter, the activation of the new servants is left
out.  TimeT and InaccuracyT are modular types of 64 bits, TdfT is a signed type of 16 bits.
-/

namespace PolyORB.CosTime

open Checked

abbrev TimeT := BitVec 64

abbrev TdfT := { x : Int // -2 ^ 15 ≤ x ∧ x < 2 ^ 15 }

/-- TimeT'Min. -/
def minTime (a b : TimeT) : TimeT := if a ≤ b then a else b

/-- TimeT'Max. -/
def maxTime (a b : TimeT) : TimeT := if a ≤ b then b else a

structure Uto where
  time : TimeT
  inaccuracy : TimeT
  tdf : TdfT
  deriving DecidableEq

structure UtcT where
  time : TimeT
  inacclo : BitVec 32
  inacchi : BitVec 16
  tdf : TdfT

structure IntervalT where
  lowerBound : TimeT
  upperBound : TimeT
  deriving DecidableEq

inductive TimeComparison where
  | equalTo
  | lessThan
  | greaterThan
  | indeterminate
  deriving DecidableEq

inductive OverlapType where
  | container
  | contained
  | overlap
  | noOverlap
  deriving DecidableEq

/-! ## Time_Utils -/

/-- The conversion of a negative displacement to TimeT fails. -/
def addTdf (a : TimeT) (b : Int) : Except Exn TimeT :=
  if b < 0 then .error .constraintError else .ok (a + BitVec.ofInt 64 b * 600000000#64)

def subTdf (a : TimeT) (b : TdfT) : Except Exn TimeT :=
  if -b.val < 2 ^ 15 then addTdf a (-b.val) else .error .constraintError

def compare (a b : TimeT) : TimeComparison :=
  if a < b then .lessThan else if a = b then .equalTo else .greaterThan

def currentInaccuracy : TimeT := 10000000#64

/-! ## CosTime.UTO.Impl -/

namespace Uto

def absoluteTime (currentTime : TimeT) (u : Uto) : Uto :=
  { u with time := u.time + currentTime, inaccuracy := u.inaccuracy + currentInaccuracy }

/-- `compare_time` with MidC. -/
def compareMid (u v : Uto) : Except Exn TimeComparison := do
  return compare (← addTdf u.time u.tdf) (← addTdf v.time v.tdf)

/-- `compare_time` with IntervalC. -/
def compareInterval (u v : Uto) : Except Exn TimeComparison := do
  let compLow := compare (← addTdf (u.time - u.inaccuracy) u.tdf)
    (← addTdf (v.time - v.inaccuracy) v.tdf)
  let compHigh := compare (← addTdf (u.time + u.inaccuracy) u.tdf)
    (← addTdf (v.time + v.inaccuracy) v.tdf)
  return if compLow = compHigh then compLow else .indeterminate

def getUtcTime (u : Uto) : Except Exn UtcT :=
  if u.inaccuracy.toNat / 2 ^ 32 < 2 ^ 16 then
    .ok ⟨u.time, .ofNat 32 (u.inaccuracy.toNat % 2 ^ 32),
      .ofNat 16 (u.inaccuracy.toNat / 2 ^ 32), u.tdf⟩
  else .error .constraintError

def interval (u : Uto) : Except Exn IntervalT := do
  return ⟨← subTdf u.time u.tdf, ← addTdf u.time u.tdf⟩

def timeToInterval (u v : Uto) : IntervalT := ⟨minTime u.time v.time, maxTime u.time v.time⟩

end Uto

/-- `uto_from_utc`; `2 ** 32` is of the type of `inacchi`, where it is zero. -/
def utoFromUtc (utc : UtcT) : Uto :=
  ⟨utc.time, (utc.inacchi * BitVec.ofNat 16 (2 ^ 32)).setWidth 64 + utc.inacclo.setWidth 64,
    utc.tdf⟩

/-! ## CosTime.TIO.Impl -/

namespace IntervalT

def doOverlap (a b : IntervalT) : OverlapType × IntervalT :=
  if a.upperBound < b.lowerBound ∨ b.upperBound < a.lowerBound then
    (.noOverlap, ⟨minTime a.upperBound b.upperBound, maxTime a.lowerBound b.lowerBound⟩)
  else if a.lowerBound ≤ b.lowerBound ∧ b.upperBound ≤ a.upperBound then (.container, b)
  else if b.lowerBound ≤ a.lowerBound ∧ a.upperBound ≤ b.upperBound then (.contained, a)
  else (.overlap, ⟨maxTime a.lowerBound b.lowerBound, minTime a.upperBound b.upperBound⟩)

def overlaps (a b : IntervalT) : OverlapType × IntervalT := a.doOverlap b

def spans (a : IntervalT) (u : Uto) : OverlapType × IntervalT :=
  a.doOverlap ⟨u.time - u.inaccuracy, u.time + u.inaccuracy⟩

/-- The new object has the default `Tdf`. -/
def time (a : IntervalT) : Uto :=
  ⟨(a.upperBound - a.lowerBound) / 2#64, a.upperBound - a.lowerBound, ⟨0, by decide⟩⟩

end IntervalT

/-! ## What the service has to do -/

namespace Uto

/-- The bounds of the error interval, moved by `offset`, are of type TimeT. -/
def Fits (u : Uto) (offset : Int) : Prop :=
  u.inaccuracy.toNat ≤ u.time.toNat + offset ∧ u.time.toNat + u.inaccuracy.toNat + offset < 2 ^ 64

/-- The displacement, in units of 100 nanoseconds. -/
def displacement (u : Uto) : Int := u.tdf * 600000000

end Uto

def TimeComparison.swap : TimeComparison → TimeComparison
  | .lessThan => .greaterThan
  | .greaterThan => .lessThan
  | c => c

def TimeComparison.ofDifference (d : Int) : TimeComparison :=
  if 0 < d then .lessThan else if d = 0 then .equalTo else .greaterThan

def OverlapType.converse : OverlapType → OverlapType
  | .container => .contained
  | .contained => .container
  | t => t

namespace IntervalT

def instants (a : IntervalT) : Set Nat := Set.Icc a.lowerBound.toNat a.upperBound.toNat

/-- The relation of the two sets of instants and their intersection or the gap between them. -/
def Related (a b : IntervalT) : OverlapType × IntervalT → Prop
  | (.container, i) => b.instants ⊆ a.instants ∧ i.instants = a.instants ∩ b.instants
  | (.contained, i) => a.instants ⊆ b.instants ∧ i.instants = a.instants ∩ b.instants
  | (.overlap, i) => ¬b.instants ⊆ a.instants ∧ ¬a.instants ⊆ b.instants ∧ i.instants.Nonempty ∧
      i.instants = a.instants ∩ b.instants
  | (.noOverlap, i) => a.upperBound < b.lowerBound ∧ i = ⟨a.upperBound, b.lowerBound⟩ ∨
      b.upperBound < a.lowerBound ∧ i = ⟨b.upperBound, a.lowerBound⟩

def OverlapRight (a b : IntervalT) : Prop :=
  a.Related b (a.overlaps b) ∧ b.overlaps a = ((a.overlaps b).1.converse, (a.overlaps b).2)

/-- `time` is the middle of the interval, with the least inaccuracy that covers it. -/
def TimeRight (a : IntervalT) : Prop :=
  (2 * a.time.time.toNat ≤ a.lowerBound.toNat + a.upperBound.toNat + 1 ∧
    a.lowerBound.toNat + a.upperBound.toNat ≤ 2 * a.time.time.toNat + 1) ∧
  IsLeast {r : Nat | a.time.time.toNat ≤ a.lowerBound.toNat + r ∧
    a.upperBound.toNat ≤ a.time.time.toNat + r} a.time.inaccuracy.toNat

def CoversRight (a : IntervalT) : Prop :=
  a.time.Fits 0 → ∃ i, a.time.interval = .ok i ∧ a.instants ⊆ i.instants

def SpansRight (a : IntervalT) (u : Uto) : Prop :=
  u.Fits 0 → a.Related ⟨u.time - u.inaccuracy, u.time + u.inaccuracy⟩ (a.spans u)

end IntervalT

namespace Uto

def IntervalRight (u : Uto) : Prop :=
  u.Fits 0 → u.interval = .ok ⟨u.time - u.inaccuracy, u.time + u.inaccuracy⟩

def UtcRight (u : Uto) : Prop := ∃ utc, u.getUtcTime = .ok utc ∧ utoFromUtc utc = u

def AbsoluteRight (currentTime : TimeT) (u : Uto) : Prop :=
  u.time.toNat + currentTime.toNat < 2 ^ 64 →
    u.inaccuracy.toNat + currentInaccuracy.toNat < 2 ^ 64 →
    (absoluteTime currentTime u).time.toNat = u.time.toNat + currentTime.toNat ∧
    (absoluteTime currentTime u).inaccuracy.toNat = u.inaccuracy.toNat + currentInaccuracy.toNat

def BetweenRight (u v : Uto) : Prop :=
  (u.timeToInterval v).instants = Set.uIcc u.time.toNat v.time.toNat

/-- How much later the moved time of `v` is. -/
def later (u v : Uto) : Int := v.time.toNat + v.displacement - (u.time.toNat + u.displacement)

def MidRight (u v : Uto) : Prop :=
  (∀ w ∈ [u, v], 0 ≤ w.time.toNat + w.displacement ∧ w.time.toNat + w.displacement < 2 ^ 64) →
    u.compareMid v = .ok (.ofDifference (u.later v))

/-- Both inaccuracies together. -/
def margin (u v : Uto) : Int := u.inaccuracy.toNat + v.inaccuracy.toNat

/-- The error intervals overlap where the times are at most `margin` apart. -/
def CompareRight (u v : Uto) : Prop :=
  u.Fits u.displacement → v.Fits v.displacement →
    ∃ c, u.compareInterval v = .ok c ∧ v.compareInterval u = .ok c.swap ∧
      (c = .lessThan → u.margin v < u.later v) ∧ (c = .greaterThan → u.margin v < -u.later v) ∧
      (|u.later v| ≤ u.margin v → 0 < u.margin v → c = .indeterminate)

end Uto

variable {u v : Uto} {a b : IntervalT}

theorem toNat_minTime (s t : TimeT) : (minTime s t).toNat = min s.toNat t.toNat := by
  unfold minTime
  split_ifs <;> bv_omega

theorem toNat_maxTime (s t : TimeT) : (maxTime s t).toNat = max s.toNat t.toNat := by
  unfold maxTime
  split_ifs <;> bv_omega

theorem betweenRight : u.BetweenRight v := by
  rw [Uto.BetweenRight, IntervalT.instants, Uto.timeToInterval, toNat_minTime, toNat_maxTime]
  rfl

theorem minTime_comm (s t : TimeT) : minTime s t = minTime t s :=
  BitVec.eq_of_toNat_eq (by rw [toNat_minTime, toNat_minTime, Nat.min_comm])

theorem maxTime_comm (s t : TimeT) : maxTime s t = maxTime t s :=
  BitVec.eq_of_toNat_eq (by rw [toNat_maxTime, toNat_maxTime, Nat.max_comm])

/-- The interval goes over `Tdf` and not over the inaccuracy, and one of its bounds raises unless
`Tdf` is zero. -/
theorem interval_eq (u : Uto) : u.interval =
    if u.tdf.val = 0 then .ok ⟨u.time, u.time⟩ else .error .constraintError := by
  have hrange := u.tdf.property
  unfold Uto.interval subTdf addTdf
  by_cases htdf : u.tdf.val = 0
  · simp [htdf]
  · rw [if_neg htdf]
    split_ifs <;> first | rfl | omega

theorem intervalRight_iff : u.IntervalRight ↔ (u.Fits 0 → u.tdf.val = 0 ∧ u.inaccuracy = 0) := by
  refine forall_congr' fun hfits => ?_
  unfold Uto.Fits at hfits
  rw [interval_eq]
  constructor
  · intro h
    split_ifs at h with htdf
    refine ⟨htdf, ?_⟩
    have hlower := congrArg IntervalT.lowerBound (Except.ok.inj h)
    dsimp only at hlower
    bv_omega
  · rintro ⟨htdf, hzero⟩
    simp [htdf, hzero]

theorem instants_subset (ha : a.lowerBound ≤ a.upperBound) :
    a.instants ⊆ b.instants ↔ b.lowerBound ≤ a.lowerBound ∧ a.upperBound ≤ b.upperBound :=
  Set.Icc_subset_Icc_iff ha

theorem instants_inter (a b : IntervalT) : a.instants ∩ b.instants =
    IntervalT.instants ⟨maxTime a.lowerBound b.lowerBound, minTime a.upperBound b.upperBound⟩ := by
  rw [IntervalT.instants, IntervalT.instants, IntervalT.instants, Set.Icc_inter_Icc, toNat_maxTime,
    toNat_minTime]

theorem related_doOverlap (ha : a.lowerBound ≤ a.upperBound) (hb : b.lowerBound ≤ b.upperBound) :
    a.Related b (a.doOverlap b) := by
  unfold IntervalT.doOverlap
  split_ifs with hno hcontainer hcontained
  · rcases hno with h | h
    · refine .inl ⟨h, ?_⟩
      rw [minTime, if_pos (by bv_omega), maxTime, if_pos (by bv_omega)]
    · refine .inr ⟨h, ?_⟩
      rw [minTime, if_neg (by bv_omega), maxTime, if_neg (by bv_omega)]
  · have hsub := (instants_subset hb).mpr hcontainer
    exact ⟨hsub, (Set.inter_eq_right.mpr hsub).symm⟩
  · have hsub := (instants_subset ha).mpr hcontained
    exact ⟨hsub, (Set.inter_eq_left.mpr hsub).symm⟩
  · refine ⟨fun h => hcontainer ((instants_subset hb).mp h),
      fun h => hcontained ((instants_subset ha).mp h), ?_, (instants_inter a b).symm⟩
    rw [IntervalT.instants, Set.nonempty_Icc, toNat_maxTime, toNat_minTime]
    bv_omega

/-- Equal intervals are container in both orders. -/
theorem overlapRight_iff (ha : a.lowerBound ≤ a.upperBound) (hb : b.lowerBound ≤ b.upperBound) :
    a.OverlapRight b ↔ a ≠ b := by
  unfold IntervalT.OverlapRight IntervalT.overlaps
  constructor
  · rintro ⟨-, hconverse⟩ rfl
    have hself : a.doOverlap a = (.container, a) := by
      rw [IntervalT.doOverlap, if_neg (by bv_omega), if_pos ⟨BitVec.le_refl _, BitVec.le_refl _⟩]
    rw [hself] at hconverse
    cases hconverse
  · intro hne
    have hbounds : ¬(a.lowerBound = b.lowerBound ∧ a.upperBound = b.upperBound) := fun ⟨hl, hu⟩ =>
      hne (by cases a; cases b; simp_all)
    refine ⟨related_doOverlap ha hb, ?_⟩
    rw [IntervalT.doOverlap, IntervalT.doOverlap, minTime_comm b.upperBound,
      maxTime_comm b.lowerBound]
    split_ifs <;> first | rfl | (exfalso; bv_omega)

/-- The time is half the width, and the inaccuracy is the width. -/
theorem toNat_time (ha : a.lowerBound ≤ a.upperBound) :
    a.time.time.toNat = (a.upperBound.toNat - a.lowerBound.toNat) / 2 ∧
      a.time.inaccuracy.toNat = a.upperBound.toNat - a.lowerBound.toNat := by
  have hwidth : (a.upperBound - a.lowerBound).toNat = a.upperBound.toNat - a.lowerBound.toNat :=
    BitVec.toNat_sub_of_le ha
  exact ⟨by rw [← hwidth]; rfl, hwidth⟩

theorem timeRight_iff (ha : a.lowerBound ≤ a.upperBound) :
    a.TimeRight ↔ a.lowerBound = 0 ∧ a.upperBound ≤ 1 := by
  rw [IntervalT.TimeRight, (toNat_time ha).1, (toNat_time ha).2]
  constructor
  · rintro ⟨⟨-, hhigh⟩, -, hleast⟩
    have hlower : a.lowerBound = 0 := by bv_omega
    have := hleast (a := (a.upperBound.toNat - a.lowerBound.toNat + 1) / 2)
      ⟨by bv_omega, by bv_omega⟩
    exact ⟨hlower, by bv_omega⟩
  · rintro ⟨hlower, hupper⟩
    refine ⟨⟨by bv_omega, by bv_omega⟩, ⟨by bv_omega, by bv_omega⟩, fun r hr => ?_⟩
    obtain ⟨-, hr⟩ := hr
    bv_omega

/-- The high half of the inaccuracy gets lost. -/
theorem utcRight_iff (hu : u.inaccuracy.toNat < 2 ^ 48) :
    u.UtcRight ↔ u.inaccuracy.toNat < 2 ^ 32 := by
  obtain ⟨time, inaccuracy, tdf⟩ := u
  have hback : utoFromUtc ⟨time, .ofNat 32 (inaccuracy.toNat % 2 ^ 32),
      .ofNat 16 (inaccuracy.toNat / 2 ^ 32), tdf⟩ =
      ⟨time, .ofNat 64 (inaccuracy.toNat % 2 ^ 32), tdf⟩ := by
    rw [utoFromUtc, show BitVec.ofNat 16 (2 ^ 32) = 0#16 from rfl]
    simp
    apply BitVec.eq_of_toNat_eq
    simp
  have hsame : BitVec.ofNat 64 (inaccuracy.toNat % 2 ^ 32) = inaccuracy ↔
      inaccuracy.toNat < 2 ^ 32 := by
    rw [← BitVec.toNat_inj, BitVec.toNat_ofNat]
    omega
  rw [Uto.UtcRight, Uto.getUtcTime, if_pos (by dsimp only at hu ⊢; omega)]
  simp only [Except.ok.injEq, exists_eq_left', hback, Uto.mk.injEq, hsame, true_and, and_true]

theorem coversRight_of_timeRight (ha : a.lowerBound ≤ a.upperBound) (h : a.TimeRight) :
    a.CoversRight := by
  obtain ⟨hlower, hupper⟩ := (timeRight_iff ha).mp h
  rintro ⟨hfits, -⟩
  rw [(toNat_time ha).1, (toNat_time ha).2] at hfits
  have hzero : a.upperBound = 0 := by bv_omega
  obtain ⟨lower, upper⟩ := a
  subst hlower hzero
  exact ⟨_, rfl, subset_rfl⟩

theorem absoluteRight {currentTime : TimeT} : u.AbsoluteRight currentTime :=
  fun htime hina => ⟨BitVec.toNat_add_of_lt htime, BitVec.toNat_add_of_lt hina⟩

theorem spansRight (ha : a.lowerBound ≤ a.upperBound) : a.SpansRight u :=
  fun ⟨_, _⟩ => related_doOverlap ha (by bv_omega)

/-! ## Comparisons -/

theorem compare_eq (s t : TimeT) : compare s t = .ofDifference (t.toNat - s.toNat) := by
  unfold compare TimeComparison.ofDifference
  split_ifs <;> first | rfl | (exfalso; bv_omega)

theorem addTdf_eq (s : TimeT) (tdf : TdfT) {x : Int} (hx : x + tdf * 600000000 < 2 ^ 64)
    (hlow : 0 ≤ x + tdf * 600000000) (hs : s.toNat = x % 2 ^ 64) (htdf : 0 ≤ tdf.val) :
    ∃ t, addTdf s tdf = .ok t ∧ (t.toNat : Int) = x + tdf * 600000000 := by
  have hrange := tdf.property.2
  have hofInt : (BitVec.ofInt 64 tdf.val).toNat = tdf.val.toNat := by
    rw [BitVec.toNat_ofInt]
    omega
  refine ⟨_, if_neg (by omega), ?_⟩
  rw [BitVec.toNat_add, BitVec.toNat_mul, hofInt]
  simp
  omega

theorem addTdf_neg {tdf : TdfT} (h : ¬0 ≤ tdf.val) (s : TimeT) :
    addTdf s tdf = .error .constraintError := if_pos (by omega)

theorem fits_bounds (h : u.Fits u.displacement) (htdf : 0 ≤ u.tdf.val) :
    ∃ l m, addTdf (u.time - u.inaccuracy) u.tdf = .ok l ∧
      addTdf (u.time + u.inaccuracy) u.tdf = .ok m ∧
      (l.toNat : Int) = u.time.toNat - u.inaccuracy.toNat + u.displacement ∧
      (m.toNat : Int) = u.time.toNat + u.inaccuracy.toNat + u.displacement := by
  obtain ⟨hlow, hhigh⟩ := h
  unfold Uto.displacement at hlow hhigh ⊢
  obtain ⟨l, hl, hlval⟩ := addTdf_eq (u.time - u.inaccuracy) u.tdf
    (x := u.time.toNat - u.inaccuracy.toNat) (by omega) (by omega) (by bv_omega) htdf
  obtain ⟨m, hm, hmval⟩ := addTdf_eq (u.time + u.inaccuracy) u.tdf
    (x := u.time.toNat + u.inaccuracy.toNat) (by omega) (by omega) (by bv_omega) htdf
  exact ⟨l, m, hl, hm, hlval, hmval⟩

/-- The difference of the inaccuracies. -/
def Uto.wider (u v : Uto) : Int := |(v.inaccuracy.toNat : Int) - u.inaccuracy.toNat|

/-- What `compare_time` answers where it does not raise. -/
def Uto.answer (u v : Uto) : TimeComparison :=
  if u.wider v < u.later v then .lessThan else if u.wider v < -u.later v then .greaterThan
  else if u.later v = 0 ∧ u.wider v = 0 then .equalTo else .indeterminate

theorem compareInterval_eq (hu : u.Fits u.displacement) (hv : v.Fits v.displacement)
    (htdf : 0 ≤ u.tdf.val ∧ 0 ≤ v.tdf.val) : u.compareInterval v = .ok (u.answer v) := by
  obtain ⟨l, m, hl, hm, hlval, hmval⟩ := fits_bounds hu htdf.1
  obtain ⟨l', m', hl', hm', hlval', hmval'⟩ := fits_bounds hv htdf.2
  rw [Uto.compareInterval, hl, bind_ok, hl', bind_ok, hm, bind_ok, hm', bind_ok, pure_eq,
    compare_eq, compare_eq, hlval, hlval', hmval, hmval', Uto.answer, Uto.wider, Uto.later]
  unfold TimeComparison.ofDifference
  rcases abs_cases ((v.inaccuracy.toNat : Int) - u.inaccuracy.toNat) with ⟨h, -⟩ | ⟨h, -⟩
  all_goals
    rw [h]
    grind

theorem answer_swap (u v : Uto) : v.answer u = (u.answer v).swap := by
  have hlater : v.later u = -u.later v := by unfold Uto.later; omega
  have hwider : v.wider u = u.wider v := abs_sub_comm _ _
  have hnonneg : 0 ≤ u.wider v := abs_nonneg _
  rw [Uto.answer, Uto.answer, hlater, hwider]
  split_ifs <;> first | rfl | omega

/-- Neither error interval is so much longer that only it reaches beyond the other one. -/
def Uto.Separate (u v : Uto) : Prop :=
  (u.wider v < |u.later v| → u.margin v < |u.later v|) ∧
    (u.later v = 0 → u.inaccuracy = v.inaccuracy → u.inaccuracy = 0)

theorem compareRight_iff : u.CompareRight v ↔ (u.Fits u.displacement → v.Fits v.displacement →
    0 ≤ u.tdf.val ∧ 0 ≤ v.tdf.val ∧ u.Separate v) := by
  refine forall₂_congr fun hu hv => ?_
  by_cases htdf : 0 ≤ u.tdf.val ∧ 0 ≤ v.tdf.val
  · rw [compareInterval_eq hu hv htdf, compareInterval_eq hv hu htdf.symm, answer_swap u v]
    simp only [Except.ok.injEq, exists_eq_left', true_and, htdf]
    rw [Uto.Separate, Uto.answer, Uto.margin, Uto.wider, ← BitVec.toNat_inj, ← BitVec.toNat_inj]
    generalize u.later v = d, u.inaccuracy.toNat = i, v.inaccuracy.toNat = j
    rcases abs_cases d with ⟨hd, hsign⟩ | ⟨hd, hsign⟩ <;>
      rcases abs_cases ((j : Int) - i) with ⟨hw, hwider⟩ | ⟨hw, hwider⟩
    all_goals
      rw [hd, hw]
      split_ifs <;> simp <;> omega
  · refine iff_of_false ?_ fun h => htdf ⟨h.1, h.2.1⟩
    rintro ⟨c, hc, hswap, -⟩
    by_cases hneg : 0 ≤ u.tdf.val
    · rw [Uto.compareInterval, addTdf_neg fun h => htdf ⟨hneg, h⟩] at hswap
      cases hswap
    · rw [Uto.compareInterval, addTdf_neg hneg] at hc
      cases hc

theorem midRight_iff : u.MidRight v ↔
    ((∀ w ∈ [u, v], 0 ≤ w.time.toNat + w.displacement ∧ w.time.toNat + w.displacement < 2 ^ 64) →
      0 ≤ u.tdf.val ∧ 0 ≤ v.tdf.val) := by
  refine forall_congr' fun hin => ?_
  simp only [List.forall_mem_cons, Uto.displacement] at hin
  obtain ⟨⟨hulow, huhigh⟩, ⟨hvlow, hvhigh⟩, -⟩ := hin
  rw [Uto.compareMid]
  by_cases hu : 0 ≤ u.tdf.val
  · obtain ⟨s, hs, hsval⟩ := addTdf_eq u.time u.tdf huhigh hulow (by omega) hu
    rw [hs, bind_ok]
    by_cases hv : 0 ≤ v.tdf.val
    · obtain ⟨t, ht, htval⟩ := addTdf_eq v.time v.tdf hvhigh hvlow (by omega) hv
      rw [ht, bind_ok, pure_eq, compare_eq, hsval, htval]
      exact iff_of_true rfl ⟨hu, hv⟩
    · rw [addTdf_neg hv]
      exact iff_of_false (fun h => by cases h) fun h => hv h.2
  · rw [addTdf_neg hu]
    exact iff_of_false (fun h => by cases h) fun h => hu h.1

structure Sound (currentTime : TimeT) (u v : Uto) (a b : IntervalT) : Prop where
  absolute : u.AbsoluteRight currentTime
  interval : u.IntervalRight
  utc : u.UtcRight
  between : u.BetweenRight v
  mid : u.MidRight v
  compare : u.CompareRight v
  time : a.TimeRight
  covers : a.CoversRight
  spans : a.SpansRight u
  overlaps : a.OverlapRight b

end PolyORB.CosTime
