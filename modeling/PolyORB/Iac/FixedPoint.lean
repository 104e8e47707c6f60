import Mathlib.Algebra.Order.Floor.Semifield
import Mathlib.Data.Rat.Floor
import PolyORB.Iac.Values
import PolyORB.Lib.Numerals

/-!
# Fixed point constants of iac

Values: the fixed point values of the IDL compiler, a 64-bit magnitude with a sign and a number of
decimals, and the operators on them.  Analyzer: the evaluation of the expression of a constant of
type `fixed<total, scale>`, and when it is exact.
-/

namespace PolyORB

/-- A `Value_Type` of the kind `K_Fixed_Point_Type`: `total` and `scale` have 8 bits. -/
structure FixedValue where
  iVal : Nat
  sign : Int
  total : Nat
  scale : Nat

/-- `Max_Digits` -/
def maxDigits : Nat := 31

/-- `LULL_Div_10` -/
def lullDiv10 : Nat := lastUnsignedLongLong / 10

namespace FixedValue

/-! ## Values -/

def dropDigit (v : FixedValue) : FixedValue :=
  { v with iVal := v.iVal / 10, scale := v.scale - 1, total := (v.total + 255) % 256 }

/-- The loop that reduces the precision. -/
def reduce (scale : Nat) (v : FixedValue) : FixedValue :=
  if scale < v.scale then reduce scale v.dropDigit else v
termination_by v.scale
decreasing_by simp only [dropDigit]; omega

/-- The loop that removes trailing zeros. -/
def strip (v : FixedValue) : FixedValue :=
  if 0 < v.scale ∧ v.iVal % 10 = 0 then strip v.dropDigit else v
termination_by v.scale
decreasing_by simp only [dropDigit]; omega

/-- The loop that counts the digits. -/
def digits (n : Nat) : Nat := if n / 10 = 0 then 1 else digits (n / 10) + 1

/-- `Normalize_Fixed_Point_Value`; `none` is `Bad_Value`. -/
def normalize (total scale : Nat) (v : FixedValue) : Option FixedValue :=
  let w := (v.reduce scale).strip
  if total < digits w.iVal then none else some { w with total := digits w.iVal }

def mul (l r : FixedValue) : Option FixedValue :=
  normalize maxDigits maxDigits
    ⟨l.iVal * r.iVal % 2 ^ 64, l.sign * r.sign, (l.total + r.total) % 256,
      (l.scale + r.scale) % 256⟩

/-- The magnitude with decimals added. -/
def rescale (v : FixedValue) (scale : Nat) : Nat := v.iVal * 10 ^ (scale - v.scale) % 2 ^ 64

def add (l r : FixedValue) : Option FixedValue :=
  let scale := if r.scale < l.scale then l.scale else r.scale
  let nl := if r.scale < l.scale then l.iVal else l.rescale scale
  let nr := if r.scale < l.scale then r.rescale scale else r.iVal
  normalize maxDigits maxDigits <|
    if l.sign = r.sign then ⟨(nl + nr) % 2 ^ 64, r.sign, r.total, scale⟩
    else if nr ≤ nl then ⟨nl - nr, l.sign, r.total, scale⟩
    else ⟨nr - nl, -l.sign, r.total, scale⟩

def neg (r : FixedValue) : FixedValue := { r with sign := -r.sign }

def sub (l r : FixedValue) : Option FixedValue := l.add r.neg

/-- The loop of the division: `none` if it goes on. -/
def scaleUp : Nat → FixedValue → Option FixedValue
  | 0, _ => none
  | fuel + 1, v =>
    if v.iVal < lullDiv10 then
      scaleUp fuel
        { v with
          iVal := v.iVal * 10 % 2 ^ 64
          total := (v.total + 1) % 256
          scale := (v.scale + 1) % 256 }
    else some v

end FixedValue

/-- How an evaluation ends, if it does. -/
inductive FixedOutcome where
  | running
  | raised (e : Exn)
  /-- An error is reported. -/
  | rejected
  | value (v : FixedValue)

namespace FixedOutcome

def bind : FixedOutcome → (FixedValue → FixedOutcome) → FixedOutcome
  | value v, f => f v
  | o, _ => o

def ofOption (o : Option FixedValue) : FixedOutcome := o.elim rejected value

end FixedOutcome

def FixedValue.div (fuel : Nat) (l r : FixedValue) : FixedOutcome :=
  match l.scaleUp fuel with
  | none => .running
  | some nl =>
    if r.iVal = 0 then .raised .constraintError
    else .ofOption <| FixedValue.normalize maxDigits maxDigits
      ⟨nl.iVal / r.iVal, l.sign * r.sign, l.total, (nl.scale + 256 - r.scale) % 256⟩

inductive FixedOperator where
  | star | plus | minus | slash
  deriving DecidableEq

def FixedOperator.apply (fuel : Nat) : FixedOperator → FixedValue → FixedValue → FixedOutcome
  | star, l, r => .ofOption (l.mul r)
  | plus, l, r => .ofOption (l.add r)
  | minus, l, r => .ofOption (l.sub r)
  | slash, l, r => l.div fuel r

/-- The digits before the point, and those after it if there is a point. -/
structure FixedLiteral where
  integer : List (Fin 10)
  fraction : Option (List (Fin 10))
  nonempty : integer ++ fraction.getD [] ≠ []

namespace FixedLiteral

def digits (l : FixedLiteral) : List Nat := (l.integer ++ l.fraction.getD []).map Fin.val

/-- `Decimal_Point_Position` -/
def scale (l : FixedLiteral) : Nat := (l.fraction.getD []).length

/-- `Scan_Numeric_Literal_Value` raises no exception: a point that no digit follows stays in the
buffer, and is no digit; and the numbers of digits are converted to 8 bits. -/
def scans (l : FixedLiteral) : Bool := l.fraction ≠ some [] ∧ l.digits.length ≤ 255

/-- `New_Fixed_Point_Value` -/
def value (l : FixedLiteral) : Option FixedValue :=
  FixedValue.normalize l.digits.length l.scale
    ⟨integerLiteralValue 10 l.digits, 1, l.digits.length, l.scale⟩

end FixedLiteral

inductive FixedExpression where
  | literal (l : FixedLiteral)
  | minus (right : FixedExpression)
  | binary (op : FixedOperator) (left right : FixedExpression)

namespace FixedExpression

def scans : FixedExpression → Bool
  | literal l => l.scans
  | minus e => e.scans
  | binary _ l r => l.scans && r.scans

/-- `Resolve_Expr`; the operands are converted. -/
def resolveExpr (fuel : Nat) : FixedExpression → FixedOutcome
  | literal l => .ofOption l.value
  | minus e => (resolveExpr fuel e).bind fun v =>
    (FixedOutcome.ofOption (v.normalize maxDigits maxDigits)).bind fun v => .value v.neg
  | binary op l r => (resolveExpr fuel l).bind fun lv =>
    (FixedOutcome.ofOption (lv.normalize maxDigits maxDigits)).bind fun lv =>
    (resolveExpr fuel r).bind fun rv =>
    (FixedOutcome.ofOption (rv.normalize maxDigits maxDigits)).bind fun rv => op.apply fuel lv rv

/-- What is recorded for a constant of type `fixed<total, scale>`. -/
def declare (fuel total scale : Nat) (e : FixedExpression) : FixedOutcome :=
  if e.scans = true then
    (resolveExpr fuel e).bind fun v => .ofOption (v.normalize total scale)
  else .raised .constraintError

end FixedExpression

/-! ## Decimals -/

namespace FixedValue

def magnitude (v : FixedValue) : ℚ := v.iVal / 10 ^ v.scale

def value (v : FixedValue) : ℚ := v.sign * v.magnitude

end FixedValue

namespace Decimals

def signOf (q : ℚ) : Int := if q < 0 then -1 else 1

/-- What is left of a number when it is cut off after `s` decimals. -/
def truncated (s : Nat) (q : ℚ) : ℚ := signOf q * (⌊|q| * 10 ^ s⌋₊ / 10 ^ s)

/-- A number is whole with `k` decimals, and `m` is its magnitude. -/
def Whole (k : Nat) (q : ℚ) (m : Nat) : Prop := |q| * 10 ^ k = m

variable {s c k m : Nat} {q x : ℚ} {σ : Int}

theorem signOf_cases (q : ℚ) : signOf q = 1 ∨ signOf q = -1 := by
  unfold signOf
  split
  · exact .inr rfl
  · exact .inl rfl

theorem signOf_mul_abs (q : ℚ) : signOf q * |q| = q := by
  unfold signOf
  split
  · rename_i h
    rw [abs_of_neg h]
    simp
  · rename_i h
    rw [abs_of_nonneg (not_lt.mp h)]
    simp

theorem abs_sign_mul (hσ : σ = 1 ∨ σ = -1) (hx : 0 ≤ x) : |σ * x| = x := by
  rcases hσ with rfl | rfl <;> simp [abs_of_nonneg hx]

theorem truncated_sign (hσ : σ = 1 ∨ σ = -1) (hx : 0 ≤ x) (s : Nat) :
    truncated s (σ * x) = σ * (⌊x * 10 ^ s⌋₊ / 10 ^ s) := by
  rw [truncated, abs_sign_mul hσ hx]
  rcases hx.eq_or_lt with rfl | hpos
  · simp
  · congr 2
    unfold signOf
    rcases hσ with rfl | rfl
    · rw [if_neg (by push_cast; linarith)]
    · rw [if_pos (by push_cast; linarith)]

theorem truncated_neg (s : Nat) (q : ℚ) : truncated s (-q) = -truncated s q := by
  have hneg : -signOf q = 1 ∨ -signOf q = -1 := by
    rcases signOf_cases q with h | h <;> rw [h] <;> simp
  have hq : -q = ((-signOf q : Int) : ℚ) * |q| := by
    rw [Int.cast_neg, neg_mul, signOf_mul_abs]
  rw [hq, truncated_sign hneg (abs_nonneg q), truncated, Int.cast_neg, neg_mul]

theorem Whole.truncated_eq (h : Whole s q m) : truncated s q = q := by
  rw [truncated, h, Nat.floor_natCast, ← h, mul_div_cancel_right₀ _ (by positivity),
    signOf_mul_abs]

theorem truncated_truncated (h : s ≤ c) (q : ℚ) : truncated s (truncated c q) = truncated s q := by
  obtain ⟨d, rfl⟩ := Nat.exists_eq_add_of_le h
  have hcut : (⌊|q| * 10 ^ (s + d)⌋₊ / 10 ^ (s + d) * 10 ^ s : ℚ) =
      ⌊|q| * 10 ^ (s + d)⌋₊ / (10 ^ d : Nat) := by
    push_cast
    rw [pow_add]
    field_simp
  have hfloor : |q| * 10 ^ s = |q| * 10 ^ (s + d) / (10 ^ d : Nat) := by
    push_cast
    rw [pow_add]
    field_simp
  rw [truncated.eq_1 (s + d), truncated_sign (signOf_cases q) (by positivity), hcut,
    Nat.floor_div_eq_div, truncated, hfloor, Nat.floor_div_natCast]

theorem Whole.mono (h : Whole s q m) (d : Nat) : Whole (s + d) q (m * 10 ^ d) := by
  rw [Whole, pow_add, ← mul_assoc, h]
  push_cast
  rfl

end Decimals

open Decimals

namespace FixedValue

/-! ## Normalization -/

variable {t s : Nat} {v w : FixedValue}

def Signed (v : FixedValue) : Prop := v.sign = 1 ∨ v.sign = -1

/-- No decimal of the magnitude is a trailing zero. -/
def Stripped (v : FixedValue) : Prop := v.scale = 0 ∨ v.iVal % 10 ≠ 0

theorem abs_value (h : v.Signed) : |v.value| = v.iVal / 10 ^ v.scale :=
  abs_sign_mul h (by unfold magnitude; positivity)

theorem whole_value (h : v.Signed) : Whole v.scale v.value v.iVal := by
  rw [Whole, abs_value h, div_mul_cancel₀ _ (by positivity)]

theorem reduce_spec (s : Nat) (v : FixedValue) : (v.reduce s).sign = v.sign ∧
    (v.reduce s).scale = min v.scale s ∧ (v.reduce s).iVal = v.iVal / 10 ^ (v.scale - s) := by
  fun_induction reduce s v with
  | case1 v hlt ih =>
    obtain ⟨hsign, hscale, hi⟩ := ih
    refine ⟨hsign, ?_, ?_⟩
    · rw [hscale, dropDigit]
      simp only
      omega
    · have hpow : v.scale - s = v.scale - 1 - s + 1 := by omega
      rw [hi, hpow, pow_succ', ← Nat.div_div_eq_div_mul]
      rfl
  | case2 v hle =>
    refine ⟨rfl, by omega, ?_⟩
    rw [Nat.sub_eq_zero_of_le (not_lt.mp hle), pow_zero, Nat.div_one]

theorem strip_spec (v : FixedValue) : v.strip.sign = v.sign ∧ v.strip.iVal ≤ v.iVal ∧
    v.strip.scale ≤ v.scale ∧ v.strip.Stripped ∧ v.strip.magnitude = v.magnitude := by
  fun_induction strip v with
  | case1 v h ih =>
    obtain ⟨hsign, hi, hscale, hstripped, hmag⟩ := ih
    refine ⟨hsign, hi.trans (Nat.div_le_self ..), hscale.trans (Nat.sub_le ..), hstripped, ?_⟩
    obtain ⟨d, hd⟩ := Nat.dvd_of_mod_eq_zero h.2
    obtain ⟨c, hc⟩ := Nat.exists_eq_succ_of_ne_zero h.1.ne'
    rw [hmag, magnitude, magnitude, dropDigit]
    simp only [hd, hc, Nat.mul_div_cancel_left d (show 0 < 10 by decide), Nat.succ_sub_one,
      Nat.succ_eq_add_one, pow_succ]
    push_cast
    field_simp
  | case2 v h => exact ⟨rfl, le_rfl, le_rfl, by unfold Stripped; omega, rfl⟩

theorem lt_pow_digits (n : Nat) : n < 10 ^ digits n := by
  fun_induction digits n with
  | case1 n h => omega
  | case2 n h ih =>
    omega

theorem digits_le {n k : Nat} (h : n < 10 ^ (k + 1)) : digits n ≤ k + 1 := by
  induction k generalizing n with
  | zero =>
    rw [digits, if_pos (by omega)]
  | succ k ih =>
    rw [digits]
    split
    · omega
    · have := ih (n := n / 10) (by omega)
      omega

/-- What a value of at most `s` decimals stands for, with at most `t` digits. -/
structure Normal (t s : Nat) (v : FixedValue) (q : ℚ) : Prop where
  sign : v.Signed
  iVal : v.iVal < 2 ^ 64
  digits : v.iVal < 10 ^ t
  scale : v.scale ≤ s
  stripped : v.Stripped
  value : v.value = q

theorem normalize_some (h : v.normalize t s = some w) (hsign : v.Signed) (hi : v.iVal < 2 ^ 64) :
    Normal t s w (truncated s v.value) := by
  obtain ⟨hs1, hscale1, hi1⟩ := reduce_spec s v
  obtain ⟨hs2, hi2, hscale2, hstripped, hmag⟩ := strip_spec (v.reduce s)
  simp only [normalize] at h
  split at h
  · cases h
  rename_i hdigits
  obtain rfl := Option.some.inj h
  have hle : (v.reduce s).strip.iVal ≤ v.iVal := by
    rw [hi1] at hi2
    exact hi2.trans (Nat.div_le_self ..)
  have hpow := lt_pow_digits (v.reduce s).strip.iVal
  refine ⟨?_, hle.trans_lt hi, ?_, ?_, hstripped, ?_⟩
  · rw [Signed, hs2, hs1]
    exact hsign
  · exact hpow.trans_le (Nat.pow_le_pow_right (by decide) (by omega))
  · simp only
    omega
  · show ((v.reduce s).strip.sign : ℚ) * (v.reduce s).strip.magnitude = _
    have hcut : (v.reduce s).magnitude = ⌊v.magnitude * 10 ^ s⌋₊ / 10 ^ s := by
      unfold magnitude
      rw [hi1, hscale1]
      rcases le_total v.scale s with hle | hle
      · obtain ⟨d, rfl⟩ := Nat.exists_eq_add_of_le hle
        have hwhole : (v.iVal / 10 ^ v.scale * 10 ^ (v.scale + d) : ℚ) = (v.iVal * 10 ^ d : Nat) := by
          push_cast
          rw [pow_add]
          field_simp
        rw [hwhole, Nat.floor_natCast, min_eq_left hle, Nat.sub_eq_zero_of_le hle, pow_zero,
          Nat.div_one]
        push_cast
        rw [pow_add]
        field_simp
      · obtain ⟨d, hd⟩ := Nat.exists_eq_add_of_le hle
        have hquot : (v.iVal / 10 ^ v.scale * 10 ^ s : ℚ) = v.iVal / (10 ^ d : Nat) := by
          push_cast
          rw [hd, pow_add]
          field_simp
        rw [hquot, Nat.floor_div_eq_div, min_eq_right hle, hd, Nat.add_sub_cancel_left]
    rw [hs2, hs1, hmag, hcut, value, truncated_sign hsign (by unfold magnitude; positivity)]

theorem normalize_of_lt {k : Nat} (h : v.iVal < 10 ^ (k + 1)) :
    ∃ w, v.normalize (k + 1) s = some w := by
  obtain ⟨-, -, hi1⟩ := reduce_spec s v
  obtain ⟨-, hi2, -⟩ := strip_spec (v.reduce s)
  have hle : (v.reduce s).strip.iVal ≤ v.iVal := by
    rw [hi1] at hi2
    exact hi2.trans (Nat.div_le_self ..)
  exact ⟨_, if_neg (not_lt.mpr (digits_le (hle.trans_lt h)))⟩

theorem normalize_maxDigits (hi : v.iVal < 2 ^ 64) (s : Nat) :
    ∃ w, v.normalize maxDigits s = some w :=
  normalize_of_lt (k := 30) (hi.trans (by decide))

/-! ## Operators -/

/-- The value of an operand. -/
abbrev Operand (v : FixedValue) (q : ℚ) : Prop := Normal maxDigits maxDigits v q

variable {l r : FixedValue} {a b q : ℚ} {j k m n p : Nat}

/-- A number that is no smaller in any number of decimals, and so no longer. -/
theorem Normal.whole (h : Normal t s v q) (hk : Whole k q m) :
    v.scale ≤ k ∧ m = v.iVal * 10 ^ (k - v.scale) := by
  have hmag : (v.iVal : ℚ) / 10 ^ v.scale * 10 ^ k = m := by
    rw [← abs_value h.sign, h.value, hk]
  rcases le_or_gt v.scale k with hle | hlt
  · obtain ⟨d, rfl⟩ := Nat.exists_eq_add_of_le hle
    refine ⟨hle, ?_⟩
    rw [pow_add, ← mul_assoc, div_mul_cancel₀ _ (by positivity)] at hmag
    rw [Nat.add_sub_cancel_left]
    exact_mod_cast hmag.symm
  · obtain ⟨d, hd⟩ := Nat.exists_eq_add_of_lt hlt
    have hi : v.iVal = m * 10 ^ (d + 1) := by
      rw [hd, div_mul_eq_mul_div, div_eq_iff (by positivity), add_assoc, pow_add _ k,
        mul_comm ((10 : ℚ) ^ k), ← mul_assoc] at hmag
      exact_mod_cast mul_right_cancel₀ (by positivity) hmag
    rcases h.stripped with hz | hz
    · omega
    · rw [hi, pow_succ, ← mul_assoc, Nat.mul_mod_left] at hz
      exact absurd rfl hz

theorem Normal.exact (h : Normal t s v q) : Whole v.scale q v.iVal := by
  rw [← h.value]
  exact whole_value h.sign

/-- The conversion of an operand. -/
theorem operand_of (hsign : v.Signed) (hi : v.iVal < 2 ^ 64) (hk : Whole maxDigits v.value m) :
    ∃ w, v.normalize maxDigits maxDigits = some w ∧ Operand w v.value := by
  obtain ⟨w, hw⟩ := normalize_maxDigits hi maxDigits
  have := normalize_some hw hsign hi
  rw [hk.truncated_eq] at this
  exact ⟨w, hw, this⟩

theorem neg_operand (h : Operand r b) : Operand r.neg (-b) := by
  refine ⟨?_, h.iVal, h.digits, h.scale, h.stripped, ?_⟩
  · rcases h.sign with hs | hs
    · exact .inr (by rw [neg, hs])
    · exact .inl (by rw [neg, hs]; rfl)
  · rw [← h.value, value, value, neg, Int.cast_neg, neg_mul]
    rfl

/-- The sum of two magnitudes with their signs. -/
theorem add_signed {σ τ : Int} (hσ : σ = 1 ∨ σ = -1) (hτ : τ = 1 ∨ τ = -1) {x y : Nat} (c : Nat)
    (hsum : (σ * x + τ * y).natAbs < 2 ^ 64) :
    ∃ u : FixedValue, (if σ = τ then ⟨(x + y) % 2 ^ 64, τ, t, c⟩
      else if y ≤ x then ⟨x - y, σ, t, c⟩ else ⟨y - x, -σ, t, c⟩) = u ∧ u.Signed ∧
        u.iVal < 2 ^ 64 ∧ u.value = (σ * x + τ * y : Int) / 10 ^ c := by
  have hvalue (i : Nat) (ρ : Int) (h : ρ * i = σ * x + τ * y) :
      (⟨i, ρ, t, c⟩ : FixedValue).value = (σ * x + τ * y : Int) / 10 ^ c := by
    rw [← h, value, magnitude, Int.cast_mul, Int.cast_natCast, mul_div_assoc]
  by_cases hsame : σ = τ
  · subst hsame
    have hi : (x + y) % 2 ^ 64 = x + y := Nat.mod_eq_of_lt (by rcases hσ with rfl | rfl <;> omega)
    rw [if_pos rfl, hi]
    refine ⟨_, rfl, hσ, ?_, hvalue _ _ (by push_cast; ring)⟩
    rcases hσ with rfl | rfl <;> simp only <;> omega
  · obtain rfl : τ = -σ := by omega
    rw [if_neg hsame]
    split
    · refine ⟨_, rfl, hσ, ?_, hvalue _ _ (by push_cast [*]; ring)⟩
      rcases hσ with rfl | rfl <;> simp only <;> omega
    · refine ⟨_, rfl, hτ, ?_, hvalue _ _ ?_⟩
      · rcases hσ with rfl | rfl <;> simp only <;> omega
      · rw [Nat.cast_sub (by omega)]
        ring

theorem add_operand (hl : Operand l a) (hr : Operand r b) (hm : Whole k a m) (hm' : m < 2 ^ 64)
    (hn : Whole k b n) (hn' : n < 2 ^ 64) (hp : Whole k (a + b) p) (hp' : p < 2 ^ 64) :
    ∃ w, l.add r = some w ∧ Operand w (a + b) := by
  obtain ⟨hlk, rfl⟩ := hl.whole hm
  obtain ⟨hrk, rfl⟩ := hr.whole hn
  -- the scale of the sum, and the magnitudes with that many decimals
  obtain ⟨c, hc⟩ : ∃ c, c = if r.scale < l.scale then l.scale else r.scale := ⟨_, rfl⟩
  have hlc : l.scale ≤ c := by split at hc <;> omega
  have hrc : r.scale ≤ c := by split at hc <;> omega
  have hck : c ≤ k := by split at hc <;> omega
  have hshort (v : FixedValue) (hv : v.iVal * 10 ^ (k - v.scale) < 2 ^ 64) :
      v.rescale c = v.iVal * 10 ^ (c - v.scale) :=
    Nat.mod_eq_of_lt ((Nat.mul_le_mul_left _ (Nat.pow_le_pow_right (by decide)
      (by omega))).trans_lt hv)
  have hmag (v : FixedValue) (hv : v.scale ≤ c) :
      v.value = (v.sign * (v.iVal * 10 ^ (c - v.scale) : Nat) : Int) / 10 ^ c := by
    obtain ⟨d, rfl⟩ := Nat.exists_eq_add_of_le hv
    rw [value, magnitude, Nat.add_sub_cancel_left, pow_add]
    push_cast
    field_simp
  have hsum : a + b = (l.sign * (l.iVal * 10 ^ (c - l.scale) : Nat) +
      r.sign * (r.iVal * 10 ^ (c - r.scale) : Nat) : Int) / 10 ^ c := by
    rw [← hl.value, ← hr.value, hmag l hlc, hmag r hrc, Int.cast_add, add_div]
  have hwhole : Whole c (a + b) (l.sign * (l.iVal * 10 ^ (c - l.scale) : Nat) +
      r.sign * (r.iVal * 10 ^ (c - r.scale) : Nat) : Int).natAbs := by
    rw [Whole, hsum, abs_div, abs_of_pos (show (0 : ℚ) < 10 ^ c by positivity),
      div_mul_cancel₀ _ (by positivity), Nat.cast_natAbs, Int.cast_abs]
  have hlt : (l.sign * (l.iVal * 10 ^ (c - l.scale) : Nat) +
      r.sign * (r.iVal * 10 ^ (c - r.scale) : Nat) : Int).natAbs < 2 ^ 64 := by
    obtain ⟨d, rfl⟩ := Nat.exists_eq_add_of_le hck
    have := hwhole.mono d
    rw [Whole, hp] at this
    have := Nat.cast_injective this
    have := Nat.le_mul_of_pos_right (l.sign * (l.iVal * 10 ^ (c - l.scale) : Nat) +
      r.sign * (r.iVal * 10 ^ (c - r.scale) : Nat) : Int).natAbs (show 0 < 10 ^ d by positivity)
    omega
  obtain ⟨u, hu, hsign, hi, hval⟩ := add_signed (t := r.total) hl.sign hr.sign c hlt
  rw [← hsum] at hval
  obtain ⟨w, hw, hop⟩ := operand_of hsign hi (by
    rw [hval]
    have := hwhole.mono (maxDigits - c)
    rwa [Nat.add_sub_cancel' (by have := hl.scale; have := hr.scale; split at hc <;> omega)] at this)
  rw [hval] at hop
  refine ⟨w, ?_, hop⟩
  rw [← hw, ← hu, add]
  simp only [← hc]
  have hnl : (if r.scale < l.scale then l.iVal else l.rescale c) =
      l.iVal * 10 ^ (c - l.scale) := by
    split at hc
    · rw [if_pos ‹_›, hc, Nat.sub_self, pow_zero, Nat.mul_one]
    · rw [if_neg ‹_›, hshort l hm']
  have hnr : (if r.scale < l.scale then r.rescale c else r.iVal) =
      r.iVal * 10 ^ (c - r.scale) := by
    split at hc
    · rw [if_pos ‹_›, hshort r hn']
    · rw [if_neg ‹_›, hc, Nat.sub_self, pow_zero, Nat.mul_one]
  rw [hnl, hnr]

theorem mul_operand (hl : Operand l a) (hr : Operand r b) (hm : Whole j a m) (hn : Whole k b n)
    (hmn : m * n < 2 ^ 64) (hp : Whole maxDigits (a * b) p) :
    ∃ w, l.mul r = some w ∧ Operand w (a * b) := by
  obtain ⟨-, rfl⟩ := hl.whole hm
  obtain ⟨-, rfl⟩ := hr.whole hn
  have hlt : l.iVal * r.iVal < 2 ^ 64 :=
    (Nat.mul_le_mul (Nat.le_mul_of_pos_right _ (by positivity))
      (Nat.le_mul_of_pos_right _ (by positivity))).trans_lt hmn
  have hls := hl.scale
  have hrs := hr.scale
  unfold maxDigits at hls hrs
  have hsign : l.sign * r.sign = 1 ∨ l.sign * r.sign = -1 := by
    rcases hl.sign with h | h <;> rcases hr.sign with h' | h' <;> simp [h, h']
  rw [mul, Nat.mod_eq_of_lt hlt, Nat.mod_eq_of_lt (show l.scale + r.scale < 256 by omega)]
  have hval : (⟨l.iVal * r.iVal, l.sign * r.sign, (l.total + r.total) % 256,
      l.scale + r.scale⟩ : FixedValue).value = a * b := by
    rw [← hl.value, ← hr.value]
    simp only [value, magnitude, pow_add]
    push_cast
    field_simp
  rw [← hval] at hp ⊢
  exact operand_of hsign hlt hp

theorem scaleUp_eq {d fuel : Nat} (hd : lullDiv10 ≤ v.iVal * 10 ^ d) (hlt : v.iVal * 10 ^ d < 2 ^ 64)
    (hleast : ∀ d' < d, v.iVal * 10 ^ d' < lullDiv10) (hscale : v.scale + d < 256)
    (hfuel : d < fuel) :
    ∃ u, v.scaleUp fuel = some u ∧ u.iVal = v.iVal * 10 ^ d ∧ u.scale = v.scale + d := by
  induction d generalizing v fuel with
  | zero =>
    obtain ⟨fuel, rfl⟩ := Nat.exists_eq_succ_of_ne_zero (Nat.ne_zero_of_lt hfuel)
    exact ⟨v, if_neg (by omega), by omega, rfl⟩
  | succ d ih =>
    obtain ⟨fuel, rfl⟩ := Nat.exists_eq_succ_of_ne_zero (Nat.ne_zero_of_lt hfuel)
    have hpow (d : Nat) : v.iVal * 10 * 10 ^ d = v.iVal * 10 ^ (d + 1) := by ring
    have hfirst := hleast 0 (Nat.succ_pos d)
    have hi : v.iVal * 10 % 2 ^ 64 = v.iVal * 10 := by
      unfold lullDiv10 lastUnsignedLongLong at hfirst
      omega
    have hc : (v.scale + 1) % 256 = v.scale + 1 := Nat.mod_eq_of_lt (by omega)
    obtain ⟨u, hu, hui, hus⟩ := ih
      (v := { v with iVal := v.iVal * 10, total := (v.total + 1) % 256, scale := v.scale + 1 })
      (by simp only [hpow]; exact hd) (by simp only [hpow]; exact hlt)
      (fun d' hd' => by simp only [hpow]; exact hleast _ (Nat.succ_lt_succ hd'))
      (by simp only; omega) (Nat.lt_of_succ_lt_succ hfuel)
    refine ⟨u, ?_, by rw [hui, ← hpow], by rw [hus]; simp only; omega⟩
    rw [scaleUp, if_pos (by simpa using hfirst), hi, hc]
    exact hu

/-- The loop of the division does not end. -/
theorem scaleUp_zero (h : Operand v 0) (fuel : Nat) : v.scaleUp fuel = none := by
  obtain ⟨-, h0⟩ := h.whole (k := v.scale) (m := 0) (by norm_num [Whole])
  rw [Nat.sub_self, pow_zero, Nat.mul_one] at h0
  clear h
  induction fuel generalizing v with
  | zero => rfl
  | succ fuel ih =>
    rw [scaleUp, if_pos (by rw [← h0]; decide)]
    exact ih (congrArg (· * 10 % 2 ^ 64) h0)

end FixedValue

/-! ## What is exact -/

/-- The least number of decimals that gives a dividend its digits. -/
def Dividend (k : Nat) (a : ℚ) : Prop :=
  (∃ m, Whole k a m ∧ lullDiv10 ≤ m ∧ m < 2 ^ 64) ∧ ∀ k' < k, ∀ m, Whole k' a m → m < lullDiv10

/-- A quotient is computed to `c` decimals. -/
def Computed (c : Nat) (a b : ℚ) : Prop := b ≠ 0 ∧ ∃ k j n, Dividend k a ∧ Whole j b n ∧ j + c ≤ k

/-- With as many decimals, two numbers and their sum have 64 bits. -/
def Aligned (a b : ℚ) : Prop :=
  ∃ k m n p, (Whole k a m ∧ m < 2 ^ 64) ∧ (Whole k b n ∧ n < 2 ^ 64) ∧
    Whole k (a + b) p ∧ p < 2 ^ 64

namespace FixedValue

variable {l r : FixedValue} {a b : ℚ} {fuel c : Nat}

/-- The quotient is cut off, with more decimals than are asked for. -/
theorem div_eq (hl : Operand l a) (hr : Operand r b) (h : Computed c a b) (hfuel : 20 < fuel) :
    ∃ (u : FixedValue) (d : Nat), l.div fuel r = .ofOption (u.normalize maxDigits maxDigits) ∧ u.Signed ∧
      u.iVal < 2 ^ 64 ∧ c ≤ d ∧ u.value = truncated d (a / b) := by
  obtain ⟨hb, k, j, n, ⟨⟨m, hm, hlull, hlt⟩, hleast⟩, hn, hjk⟩ := h
  obtain ⟨hlk, rfl⟩ := hl.whole hm
  obtain ⟨hrj, -⟩ := hr.whole hn
  obtain ⟨d, rfl⟩ := Nat.exists_eq_add_of_le hlk
  rw [Nat.add_sub_cancel_left] at hlull hlt
  have hls := hl.scale
  unfold maxDigits at hls
  have hpos : 0 < l.iVal := Nat.pos_of_ne_zero fun h0 => by
    rw [h0, Nat.zero_mul] at hlull
    exact absurd hlull (by decide)
  have hd : d < 20 := by
    have hle := (Nat.le_mul_of_pos_left (10 ^ d) hpos).trans_lt hlt
    exact (Nat.pow_lt_pow_iff_right (by decide)).mp (hle.trans (by decide))
  obtain ⟨u, hu, hui, hus⟩ := scaleUp_eq hlull hlt
    (fun d' hd' => hleast (l.scale + d') (by omega) _ (hl.exact.mono d')) (by omega)
    (by omega : d < fuel)
  have hi : r.iVal ≠ 0 := fun h0 => hb (by
    rw [← hr.value, value, magnitude, h0]
    simp)
  obtain ⟨e, he⟩ := Nat.exists_eq_add_of_le (show r.scale ≤ l.scale + d by omega)
  have hscale : (u.scale + 256 - r.scale) % 256 = e := by omega
  have hsign : l.sign * r.sign = 1 ∨ l.sign * r.sign = -1 := by
    rcases hl.sign with h | h <;> rcases hr.sign with h' | h' <;> simp [h, h']
  refine ⟨⟨u.iVal / r.iVal, l.sign * r.sign, l.total, e⟩, e, ?_, hsign, ?_, by omega, ?_⟩
  · rw [div, hu]
    simp [if_neg hi, hscale]
  · exact (Nat.div_le_self ..).trans_lt (by omega)
  · have hquot : a / b = ((l.sign * r.sign : Int) : ℚ) * (l.magnitude / r.magnitude) := by
      rw [← hl.value, ← hr.value, value, value, Int.cast_mul]
      rcases hr.sign with h | h <;> rw [h] <;> push_cast <;> ring
    have hfloor : l.magnitude / r.magnitude * 10 ^ e = (u.iVal : ℚ) / r.iVal := by
      have hpow : (10 : ℚ) ^ l.scale * 10 ^ d = 10 ^ r.scale * 10 ^ e := by
        rw [← pow_add, ← pow_add, he]
      rw [magnitude, magnitude, hui]
      push_cast
      field_simp
      linear_combination -hpow
    rw [hquot, truncated_sign hsign (by unfold magnitude; positivity), hfloor,
      Nat.floor_div_eq_div]
    rfl

end FixedValue

def FixedLiteral.meaning (l : FixedLiteral) : ℚ := Numerals.ofDigits 10 l.digits / 10 ^ l.scale

namespace FixedOperator

def meaning : FixedOperator → ℚ → ℚ → Option ℚ
  | star, a, b => some (a * b)
  | plus, a, b => some (a + b)
  | minus, a, b => some (a - b)
  | slash, a, b => if b = 0 then none else some (a / b)

/-- No bit and no decimal is lost. -/
def Exact : FixedOperator → ℚ → ℚ → Prop
  | star, a, b => (∃ j k m n, Whole j a m ∧ Whole k b n ∧ m * n < 2 ^ 64) ∧
      ∃ p, Whole maxDigits (a * b) p
  | plus, a, b => Aligned a b
  | minus, a, b => Aligned a (-b)
  | slash, a, b => (∃ c p, Computed c a b ∧ Whole c (a / b) p) ∧ ∃ p, Whole maxDigits (a / b) p

variable {op : FixedOperator} {l r : FixedValue} {a b : ℚ} {fuel : Nat}

theorem apply_exact (hl : l.Operand a) (hr : r.Operand b) (h : op.Exact a b) (hfuel : 20 < fuel) :
    ∃ v q, op.meaning a b = some q ∧ op.apply fuel l r = .value v ∧ v.Operand q := by
  cases op with
  | star =>
    obtain ⟨⟨j, k, m, n, hm, hn, hmn⟩, p, hp⟩ := h
    obtain ⟨w, hw, hop⟩ := FixedValue.mul_operand hl hr hm hn hmn hp
    exact ⟨w, _, rfl, by rw [apply, hw]; rfl, hop⟩
  | plus =>
    obtain ⟨k, m, n, p, ⟨hm, hm'⟩, ⟨hn, hn'⟩, hp, hp'⟩ := h
    obtain ⟨w, hw, hop⟩ := FixedValue.add_operand hl hr hm hm' hn hn' hp hp'
    exact ⟨w, _, rfl, by rw [apply, hw]; rfl, hop⟩
  | minus =>
    obtain ⟨k, m, n, p, ⟨hm, hm'⟩, ⟨hn, hn'⟩, hp, hp'⟩ := h
    obtain ⟨w, hw, hop⟩ :=
      FixedValue.add_operand hl (FixedValue.neg_operand hr) hm hm' hn hn' hp hp'
    refine ⟨w, _, rfl, by rw [apply, FixedValue.sub, hw]; rfl, ?_⟩
    rwa [sub_eq_add_neg]
  | slash =>
    obtain ⟨⟨c, p, hc, hp⟩, p', hp'⟩ := h
    obtain ⟨u, d, hu, hsign, hi, hcd, hval⟩ := FixedValue.div_eq hl hr hc hfuel
    obtain ⟨e, rfl⟩ := Nat.exists_eq_add_of_le hcd
    rw [(hp.mono e).truncated_eq] at hval
    rw [← hval] at hp'
    obtain ⟨w, hw, hop⟩ := FixedValue.operand_of hsign hi hp'
    rw [hval] at hop
    exact ⟨w, _, if_neg hc.1, by rw [apply, hu, hw]; rfl, hop⟩

end FixedOperator

def Decimal (q : ℚ) : Prop := ∃ k ≤ maxDigits, ∃ m < 2 ^ 64, Whole k q m

theorem FixedValue.Operand.decimal {v : FixedValue} {q : ℚ} (h : v.Operand q) : Decimal q :=
  ⟨v.scale, h.scale, v.iVal, h.iVal, h.exact⟩

theorem Decimal.abs_lt {q : ℚ} (h : Decimal q) : |q| < 2 ^ 64 := by
  obtain ⟨k, -, m, hm, hq⟩ := h
  have hm' : (m : ℚ) < 2 ^ 64 := by exact_mod_cast hm
  have hle : |q| ≤ m := by
    rw [← hq]
    exact le_mul_of_one_le_right (abs_nonneg q) (one_le_pow₀ (by norm_num))
  exact hle.trans_lt hm'

namespace FixedExpression

def meaning : FixedExpression → Option ℚ
  | literal l => some l.meaning
  | minus e => e.meaning.map (-·)
  | binary op l r => l.meaning.bind fun a => r.meaning.bind fun b => op.meaning a b

/-- All the values fit; of a quotient, the decimals are cut off. -/
def Fits : FixedExpression → Prop
  | literal l => Decimal l.meaning
  | minus e => e.Fits
  | binary op l r => l.Fits ∧ r.Fits ∧
      ∃ q, (binary op l r).meaning = some q ∧ if op = .slash then |q| < 2 ^ 64 else Decimal q

/-- The constant is exact, or rejected. -/
def Sound (total scale : Nat) (e : FixedExpression) : Prop :=
  ∃ fuel, match e.declare fuel total scale with
    | .rejected => True
    | .value v =>
      v.iVal < 10 ^ total ∧ e.Fits ∧ ∃ q, e.meaning = some q ∧ v.value = truncated scale q
    | _ => False

/-- An operand, all of whose values are exact. -/
def Good : FixedExpression → Prop
  | literal l => l.scans = true ∧ Numerals.ofDigits 10 l.digits < 2 ^ 64 ∧ Decimal l.meaning
  | minus e => e.Good
  | binary op l r => l.Good ∧ r.Good ∧
      ∀ a b, l.meaning = some a → r.meaning = some b → op.Exact a b

/-- A quotient that is no operand of another operator may have more decimals than the constant. -/
def Exact (scale : Nat) : FixedExpression → Prop
  | minus e => e.Exact scale
  | binary .slash l r => l.Good ∧ r.Good ∧ ∀ a b, l.meaning = some a → r.meaning = some b →
      FixedOperator.slash.Exact a b ∨ Computed scale a b ∧ |a / b| < 2 ^ 64
  | e => e.Good

variable {e l r : FixedExpression} {op : FixedOperator} {fuel total scale : Nat} {a b : ℚ}
  {v w : FixedValue}

theorem integerLiteralValue_eq (digits : List Nat) :
    integerLiteralValue 10 digits = Numerals.ofDigits 10 digits % 2 ^ 64 := by
  induction digits using List.reverseRecOn with
  | nil => rfl
  | append_singleton ds d ih =>
    rw [Numerals.ofDigits_concat, integerLiteralValue, List.foldl_append]
    show (integerLiteralValue 10 ds * 10 + d) % 2 ^ 64 = _
    omega

theorem literal_operand {l : FixedLiteral} (h : (literal l).Good) :
    ∃ v, l.value = some v ∧ v.Operand l.meaning := by
  obtain ⟨-, hlt, k, hk, m, -, hm⟩ := h
  have hi := (integerLiteralValue_eq l.digits).trans (Nat.mod_eq_of_lt hlt)
  have hdigits : Numerals.ofDigits 10 l.digits < 10 ^ l.digits.length := by
    refine Numerals.ofDigits_lt fun d hd => ?_
    obtain ⟨c, -, rfl⟩ := List.mem_map.mp hd
    exact c.isLt
  have hlength : l.digits.length ≠ 0 := by
    rw [FixedLiteral.digits, List.length_map]
    exact mt List.length_eq_zero_iff.mp l.nonempty
  obtain ⟨n, hn⟩ := Nat.exists_eq_succ_of_ne_zero hlength
  obtain ⟨v, hv⟩ := FixedValue.normalize_of_lt (s := l.scale) (k := n)
    (v := ⟨integerLiteralValue 10 l.digits, 1, l.digits.length, l.scale⟩)
    (by rw [hi, ← Nat.succ_eq_add_one, ← hn]; exact hdigits)
  rw [← Nat.succ_eq_add_one, ← hn] at hv
  have hnormal := FixedValue.normalize_some hv (.inl rfl) (by rw [hi]; exact hlt)
  have hvalue : (⟨integerLiteralValue 10 l.digits, 1, l.digits.length, l.scale⟩ :
      FixedValue).value = l.meaning := by
    rw [FixedValue.value, FixedValue.magnitude, hi, Int.cast_one, one_mul, FixedLiteral.meaning]
  have hwhole := FixedValue.whole_value (.inl rfl :
    FixedValue.Signed ⟨integerLiteralValue 10 l.digits, 1, l.digits.length, l.scale⟩)
  rw [hwhole.truncated_eq, hvalue] at hnormal
  refine ⟨v, hv, hnormal.sign, hnormal.iVal, ?_, (hnormal.whole hm).1.trans hk, hnormal.stripped,
    hnormal.value⟩
  exact hnormal.iVal.trans (by decide)

theorem converted_operand (h : v.Operand a) :
    ∃ w, v.normalize maxDigits maxDigits = some w ∧ w.Operand a := by
  have hwhole := h.exact.mono (maxDigits - v.scale)
  rw [Nat.add_sub_cancel' h.scale, ← h.value] at hwhole
  have := FixedValue.operand_of h.sign h.iVal hwhole
  rwa [h.value] at this

theorem resolveExpr_binary (op : FixedOperator) (hl : l.resolveExpr fuel = .value v)
    (hv : v.Operand a) (hr : r.resolveExpr fuel = .value w) (hw : w.Operand b) :
    ∃ v' w', (binary op l r).resolveExpr fuel = op.apply fuel v' w' ∧ v'.Operand a ∧
      w'.Operand b := by
  obtain ⟨v', hv', hva⟩ := converted_operand hv
  obtain ⟨w', hw', hwb⟩ := converted_operand hw
  refine ⟨v', w', ?_, hva, hwb⟩
  rw [resolveExpr, hl, hr]
  simp [FixedOutcome.bind, hv', hw', FixedOutcome.ofOption]

theorem resolveExpr_good (h : e.Good) (hfuel : 20 < fuel) : e.scans = true ∧ e.Fits ∧
    ∃ v q, e.meaning = some q ∧ e.resolveExpr fuel = .value v ∧ v.Operand q := by
  induction e with
  | literal l =>
    obtain ⟨v, hv, hop⟩ := literal_operand h
    exact ⟨h.1, h.2.2, v, _, rfl, by rw [resolveExpr, hv]; rfl, hop⟩
  | minus e ih =>
    obtain ⟨hscans, hfits, v, q, hq, hv, hop⟩ := ih h
    obtain ⟨w, hw, hop⟩ := converted_operand hop
    refine ⟨hscans, hfits, w.neg, -q, by rw [meaning, hq]; rfl, ?_, FixedValue.neg_operand hop⟩
    rw [resolveExpr, hv]
    simp [FixedOutcome.bind, hw, FixedOutcome.ofOption]
  | binary op l r ihl ihr =>
    obtain ⟨hl, hr, hexact⟩ := h
    obtain ⟨hls, hlf, v, a, ha, hv, hva⟩ := ihl hl
    obtain ⟨hrs, hrf, w, b, hb, hw, hwb⟩ := ihr hr
    obtain ⟨v', w', hbin, hva, hwb⟩ := resolveExpr_binary op hv hva hw hwb
    obtain ⟨u, q, hq, hu, hop⟩ := FixedOperator.apply_exact hva hwb (hexact a b ha hb) hfuel
    have hmeaning : (binary op l r).meaning = some q := by
      rw [meaning, ha, hb]
      exact hq
    refine ⟨by rw [scans, hls, hrs]; rfl, ⟨hlf, hrf, q, hmeaning, ?_⟩, u, q, hmeaning,
      hbin.trans hu, hop⟩
    split
    · exact hop.decimal.abs_lt
    · exact hop.decimal

/-- The value that is converted into the type. -/
theorem resolveExpr_exact (h : e.Exact scale) (hscale : scale ≤ maxDigits) (hfuel : 20 < fuel) :
    e.scans = true ∧ e.Fits ∧ ∃ v q q', e.meaning = some q ∧ e.resolveExpr fuel = .value v ∧
      v.Operand q' ∧ truncated scale q' = truncated scale q := by
  fun_induction Exact scale e with
  | case1 e ih =>
    obtain ⟨hscans, hfits, v, q, q', hq, hv, hop, hcut⟩ := ih h
    obtain ⟨w, hw, hop⟩ := converted_operand hop
    refine ⟨hscans, hfits, w.neg, -q, -q', by rw [meaning, hq]; rfl, ?_,
      FixedValue.neg_operand hop, by rw [truncated_neg, truncated_neg, hcut]⟩
    rw [resolveExpr, hv]
    simp [FixedOutcome.bind, hw, FixedOutcome.ofOption]
  | case2 l r =>
    obtain ⟨hl, hr, hquot⟩ := h
    obtain ⟨hls, hlf, v, a, ha, hv, hva⟩ := resolveExpr_good hl hfuel
    obtain ⟨hrs, hrf, w, b, hb, hw, hwb⟩ := resolveExpr_good hr hfuel
    rcases hquot a b ha hb with hexact | ⟨hc, hlt⟩
    · have hgood : (binary .slash l r).Good := ⟨hl, hr, fun a' b' ha' hb' => by
        rw [ha] at ha'
        rw [hb] at hb'
        cases ha'
        cases hb'
        exact hexact⟩
      obtain ⟨hscans, hfits, u, q, hq, hu, hop⟩ := resolveExpr_good hgood hfuel
      exact ⟨hscans, hfits, u, q, q, hq, hu, hop, rfl⟩
    · obtain ⟨v', w', hbin, hva, hwb⟩ := resolveExpr_binary .slash hv hva hw hwb
      obtain ⟨u, d, hu, hsign, hi, hcd, hval⟩ := FixedValue.div_eq hva hwb hc hfuel
      obtain ⟨x, hx⟩ := FixedValue.normalize_maxDigits hi maxDigits
      have hop := FixedValue.normalize_some hx hsign hi
      have hmeaning : (binary .slash l r).meaning = some (a / b) := by
        rw [meaning, ha, hb]
        exact if_neg hc.1
      refine ⟨by rw [scans, hls, hrs]; rfl, ⟨hlf, hrf, _, hmeaning, hlt⟩, x, _, _, hmeaning, ?_,
        hop, ?_⟩
      · rw [hbin, FixedOperator.apply, hu, hx]
        rfl
      · rw [truncated_truncated hscale, hval, truncated_truncated hcd]
  | case3 e _ _ =>
    obtain ⟨hscans, hfits, v, q, hq, hv, hop⟩ := resolveExpr_good h hfuel
    exact ⟨hscans, hfits, v, q, q, hq, hv, hop, rfl⟩

theorem fixedConstant_sound (hscale : scale ≤ maxDigits) (h : e.Exact scale) :
    e.Sound total scale := by
  obtain ⟨hscans, hfits, v, q, q', hq, hv, hop, hcut⟩ :=
    resolveExpr_exact h hscale (show 20 < 21 by decide)
  refine ⟨21, ?_⟩
  rw [declare, if_pos hscans, hv]
  show match FixedOutcome.ofOption (v.normalize total scale) with
    | .rejected => True
    | .value v =>
      v.iVal < 10 ^ total ∧ e.Fits ∧ ∃ q, e.meaning = some q ∧ v.value = truncated scale q
    | _ => False
  cases hw : v.normalize total scale with
  | none => trivial
  | some w =>
    have hnormal := FixedValue.normalize_some hw hop.sign hop.iVal
    refine ⟨hnormal.digits, hfits, q, hq, ?_⟩
    rw [hnormal.value, hop.value, hcut]

/-- `1D / 3D` -/
theorem fixedConstant_sound_third :
    (binary .slash (literal ⟨[1], none, by decide⟩) (literal ⟨[3], none, by decide⟩)).Sound 5 3 := by
  have hone : Whole 0 1 1 := by norm_num [Whole]
  have hthree : Whole 0 3 3 := by norm_num [Whole]
  have hmeaning : FixedLiteral.meaning ⟨[1], none, by decide⟩ = 1 := by
    norm_num [FixedLiteral.meaning, FixedLiteral.digits, FixedLiteral.scale, Numerals.ofDigits]
  have hmeaning' : FixedLiteral.meaning ⟨[3], none, by decide⟩ = 3 := by
    norm_num [FixedLiteral.meaning, FixedLiteral.digits, FixedLiteral.scale, Numerals.ofDigits]
  have hdividend : Dividend 19 1 := by
    refine ⟨⟨10 ^ 19, by norm_num [Whole], by decide, by decide⟩, fun k hk m hm => ?_⟩
    have hm' : m = 10 ^ k := by
      rw [Whole, abs_one, one_mul] at hm
      exact_mod_cast hm.symm
    rw [hm']
    exact (Nat.pow_le_pow_right (by decide) (Nat.le_of_lt_succ hk)).trans_lt (by decide)
  refine fixedConstant_sound (by decide) ⟨⟨by decide, by decide, 0, by decide, 1, by decide, ?_⟩,
    ⟨by decide, by decide, 0, by decide, 3, by decide, ?_⟩, fun a b ha hb => .inr ?_⟩
  · rwa [hmeaning]
  · rwa [hmeaning']
  · obtain rfl := (Option.some.inj ha).symm.trans hmeaning
    obtain rfl := (Option.some.inj hb).symm.trans hmeaning'
    exact ⟨⟨by norm_num, 19, 0, 3, hdividend, hthree, by decide⟩, by norm_num⟩

/-- `const F X = 0D / 1D` for `typedef fixed<5,2> F`. -/
theorem not_sound_zero :
    ¬(binary .slash (literal ⟨[0], none, by decide⟩) (literal ⟨[1], none, by decide⟩)).Sound 5 2 := by
  have hzero : FixedLiteral.meaning ⟨[0], none, by decide⟩ = 0 := by
    norm_num [FixedLiteral.meaning, FixedLiteral.digits, FixedLiteral.scale, Numerals.ofDigits]
  have hone : FixedLiteral.meaning ⟨[1], none, by decide⟩ = 1 := by
    norm_num [FixedLiteral.meaning, FixedLiteral.digits, FixedLiteral.scale, Numerals.ofDigits]
  obtain ⟨v, hv, hv0⟩ := literal_operand (l := ⟨[0], none, by decide⟩)
    ⟨by decide, by decide, 0, by decide, 0, by decide, by rw [hzero]; norm_num [Whole]⟩
  obtain ⟨w, hw, hw1⟩ := literal_operand (l := ⟨[1], none, by decide⟩)
    ⟨by decide, by decide, 0, by decide, 1, by decide, by rw [hone]; norm_num [Whole]⟩
  rw [hzero] at hv0
  rintro ⟨fuel, h⟩
  have hleft : resolveExpr fuel (literal ⟨[0], none, by decide⟩) = .value v := by
    rw [resolveExpr, hv]
    rfl
  have hright : resolveExpr fuel (literal ⟨[1], none, by decide⟩) = .value w := by
    rw [resolveExpr, hw]
    rfl
  obtain ⟨v', w', hbin, hv', -⟩ := resolveExpr_binary .slash hleft hv0 hright hw1
  rw [declare, if_pos (by decide), hbin, FixedOperator.apply, FixedValue.div,
    FixedValue.scaleUp_zero hv'] at h
  exact h

end FixedExpression

end PolyORB
