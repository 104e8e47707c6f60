import PolyORB.Iac.Values
import Mathlib.Data.Int.Bitwise
import Mathlib.Data.Nat.Bitwise

/-!
# Operators on integer constants

What an operator of a constant expression means, and for which operands the operator of iac, with
the conversion of its result, agrees with that.
-/

namespace PolyORB

/-! ## The meaning of an expression -/

namespace IntegerKind

/-- The types that are evaluated in 64 bits. -/
def wide (t : IntegerKind) : Bool := t == .longLong || t == .unsignedLongLong

def isSigned (t : IntegerKind) : Bool := t == .short || t == .long || t == .longLong

/-- Operands up to this one are signed. -/
def lastSigned (t : IntegerKind) : Int := if t.wide = true then 2 ^ 63 - 1 else 2 ^ 31 - 1

/-- The evaluation range of a type: that of the signed or the unsigned type of 32 or 64 bits. -/
def Evaluates (t : IntegerKind) (r : Int) : Prop :=
  -t.lastSigned - 1 ≤ r ∧ r ≤ 2 * t.lastSigned + 1

instance (t : IntegerKind) (r : Int) : Decidable (t.Evaluates r) :=
  inferInstanceAs (Decidable (_ ∧ _))

def restrict (t : IntegerKind) (r : Int) : Option Int := if t.Evaluates r then some r else none

end IntegerKind

/-- Two's complement, within the bits of the type if it is unsigned. -/
def UnaryOperator.meaning (t : IntegerKind) : UnaryOperator → Int → Int
  | .plus, a => a
  | .minus, a => -a
  | .tilde, a => if t.isSigned = true ∨ a < 0 then -a - 1 else 2 * t.lastSigned + 1 - a

def BinaryOperator.meaning : BinaryOperator → Int → Int → Option Int
  | .star, a, b => some (a * b)
  | .slash, a, b => if b = 0 then none else some (a.tdiv b)
  | .percent, a, b => if b = 0 then none else some (a.tmod b)
  | .plus, a, b => some (a + b)
  | .minus, a, b => some (a - b)
  | .lessLess, a, b => if 0 ≤ b ∧ b ≤ 63 then some (a * 2 ^ b.toNat) else none
  | .greaterGreater, a, b => if 0 ≤ b ∧ b ≤ 63 then some (a / 2 ^ b.toNat) else none
  | .ampersand, a, b => some (a.land b)
  | .bar, a, b => some (a.lor b)
  | .circumflex, a, b => some (a.xor b)

/-! ## When iac agrees -/

/-- The magnitude is taken modulo `2 ^ 64`. -/
def wrap (r : Int) : Int :=
  if r < 0 then -((r.natAbs % 2 ^ 64 : Nat) : Int) else (r.natAbs % 2 ^ 64 : Nat)

/-- No bits are lost, or what is left is out of range all the same. -/
def Unwrapped (t : IntegerKind) (r : Int) : Prop := wrap r = r ∨ ¬t.Evaluates (wrap r)

/-- No zero, and no positive number that has no negative counterpart of 64 bits; no complement but
of an unsigned value. -/
def UnaryOperator.Good (t : IntegerKind) : UnaryOperator → Int → Prop
  | .plus, _ => True
  | .minus, a => a ≠ 0 ∧ (t.wide = true → a ≤ 2 ^ 63)
  | .tilde, a => t.isSigned = false ∧ 0 ≤ a

/-- For operands of the same type. -/
def BinaryOperator.Good (t : IntegerKind) : BinaryOperator → Int → Int → Prop
  | .star, a, b => ¬(a * b = 0 ∧ (a < 0 ∨ b < 0)) ∧ Unwrapped t (a * b)
  | .slash, a, b => b ≠ 0 ∧ ¬(a.natAbs < b.natAbs ∧ ¬(a < 0 ↔ b < 0))
  | .percent, a, b => b ≠ 0 ∧ (if a.tmod b = 0 then (a < 0 ↔ b < 0) else 0 < b)
  | .plus, a, b => ¬(a < 0 ∧ a + b = 0) ∧ Unwrapped t (a + b)
  | .minus, a, b => ¬(a < 0 ∧ a = b)
  | .lessLess, a, b => 0 ≤ b ∧ b ≤ 63 ∧ Unwrapped t (a * 2 ^ b.toNat)
  | .greaterGreater, a, b =>
    (0 ≤ b ∧ b ≤ 63 ∧ (a < 0 → 2 ^ b.toNat ∣ a)) ∨
      (b < 0 ∧ -2 ^ 31 < b ∧ ¬t.Evaluates (wrap (a * 2 ^ b.natAbs)))
  | .ampersand, a, b => ¬(a < 0 ∧ b < 0) ∧ (a < 0 → (a - 1).land b = a.land b) ∧
      (b < 0 → a.land (b - 1) = a.land b)
  | .bar, a, b => 0 ≤ a ∧ 0 ≤ b
  | .circumflex, a, b =>
    (0 ≤ a ∧ 0 ≤ b) ∨ (a < 0 ∧ b < 0 ∧ (a - 1).xor (b - 1) = a.xor b)

/-! ## Conversions -/

namespace IntegerValue

variable {v : IntegerValue} {t k : IntegerKind}

/-- A zero may be negative. -/
structure Wide (v : IntegerValue) : Prop where
  iVal : v.iVal < 2 ^ 64
  sign : v.sign = 1 ∨ v.sign = -1

theorem Normal.wide (h : v.Normal) : v.Wide := ⟨h.iVal, h.sign.imp_right And.left⟩

theorem Wide.normal_iff (h : v.Wide) : v.Normal ↔ (v.iVal = 0 → v.sign = 1) := by
  constructor
  · rintro ⟨-, hs⟩ hz
    omega
  · intro hz
    refine ⟨h.iVal, ?_⟩
    rcases h.sign with hs | hs
    · exact .inl hs
    · exact .inr ⟨hs, Nat.pos_of_ne_zero fun h0 => by rw [hz h0] at hs; cases hs⟩

theorem Wide.fits_iff (h : v.Wide) :
    v.fits k = true ↔ (k.first ≤ v.value ∧ v.value ≤ k.last) ∧ (v.sign = -1 → k.first < 0) := by
  unfold fits inRange value
  rcases h.sign with hs | hs
  · rw [hs, if_neg (by decide), decide_eq_true_eq]
    cases k <;> simp [IntegerKind.first, IntegerKind.last]
  · rw [hs, if_pos (by decide), Bool.and_eq_true, decide_eq_true_eq, decide_eq_true_eq]
    cases k <;> simp [IntegerKind.first, IntegerKind.last]

end IntegerValue

namespace IntegerKind

variable {t : IntegerKind} {r : Int}

theorem lastSigned_cases (t : IntegerKind) : (t.wide = true ∧ t.lastSigned = 2 ^ 63 - 1) ∨
    (t.wide = false ∧ t.lastSigned = 2 ^ 31 - 1) := by
  unfold lastSigned
  cases t.wide with
  | true => exact .inl ⟨rfl, rfl⟩
  | false => exact .inr ⟨rfl, rfl⟩

theorem signed_range (t : IntegerKind) :
    t.signed.first = -t.lastSigned - 1 ∧ (t.signed.last : Int) = t.lastSigned := by
  cases t <;> exact ⟨by decide, by decide⟩

theorem unsigned_range (t : IntegerKind) :
    t.unsigned.first = 0 ∧ (t.unsigned.last : Int) = 2 * t.lastSigned + 1 := by
  cases t <;> exact ⟨by decide, by decide⟩

theorem restrict_of (h : t.Evaluates r) : t.restrict r = some r := if_pos h

theorem restrict_of_not (h : ¬t.Evaluates r) : t.restrict r = none := if_neg h

end IntegerKind

/-- What iac has come to is what the expression means. -/
def Matches (o : Except Exn (Option IntegerValue)) (m : Option Int) : Prop :=
  match o with
  | .error _ => False
  | .ok none => m = none
  | .ok (some v) => v.Normal ∧ m = some v.value

namespace IntegerValue

variable {v : IntegerValue} {t k : IntegerKind}

def operandKind (t : IntegerKind) (a : Int) : IntegerKind :=
  if a ≤ t.lastSigned then t.signed else t.unsigned

theorem convert_of_evaluates (h : v.Wide) (he : t.Evaluates v.value) :
    v.convert t = some { v with k := operandKind t v.value } := by
  obtain ⟨hf, hl⟩ := t.signed_range
  obtain ⟨hf', hl'⟩ := t.unsigned_range
  obtain ⟨hlow, hhigh⟩ := he
  unfold convert operandKind
  by_cases hle : v.value ≤ t.lastSigned
  · rw [if_pos (h.fits_iff.mpr ⟨⟨by omega, by omega⟩, fun _ => by omega⟩), if_pos hle]
  · have hpos : v.sign ≠ -1 := fun hneg => by
      have : v.value = -(v.iVal : Int) := by rw [value, hneg, Int.neg_one_mul]
      omega
    rw [if_neg fun hfit => hle (by have := (h.fits_iff.mp hfit).1.2; omega),
      if_pos (h.fits_iff.mpr ⟨⟨by omega, by omega⟩, fun hneg => absurd hneg hpos⟩), if_neg hle]

theorem convert_of_not (h : v.Wide) (he : ¬t.Evaluates v.value) :
    v.convert t = if v.k = t.unsigned then some v else none := by
  obtain ⟨hf, hl⟩ := t.signed_range
  obtain ⟨hf', hl'⟩ := t.unsigned_range
  unfold convert
  rw [if_neg fun hfit => he ?_, if_neg fun hfit => he ?_]
  · obtain ⟨⟨h1, h2⟩, -⟩ := h.fits_iff.mp hfit
    exact ⟨by omega, by omega⟩
  · obtain ⟨⟨h1, h2⟩, -⟩ := h.fits_iff.mp hfit
    exact ⟨by omega, by omega⟩

theorem smallest_eq (h : v.Wide) :
    ∃ k, v.smallest = { v with k := k } ∧
      (v.fits k = true ∨ (k = v.k ∧ v.value < -2 ^ 63)) := by
  unfold smallest
  split
  · exact ⟨_, rfl, .inl (by assumption)⟩
  split
  · exact ⟨_, rfl, .inl (by assumption)⟩
  split
  · exact ⟨_, rfl, .inl (by assumption)⟩
  split
  · exact ⟨_, rfl, .inl (by assumption)⟩
  split
  · exact ⟨_, rfl, .inl (by assumption)⟩
  split
  · exact ⟨_, rfl, .inl (by assumption)⟩
  split
  · exact ⟨_, rfl, .inl (by assumption)⟩
  · rename_i hll hull
    refine ⟨v.k, rfl, .inr ⟨rfl, ?_⟩⟩
    have hi := h.iVal
    rw [h.fits_iff] at hll hull
    simp only [IntegerKind.first, IntegerKind.last, value] at hll hull ⊢
    rcases h.sign with hs | hs
    · rw [hs] at hll hull
      omega
    · rw [hs] at hll hull ⊢
      omega

theorem matches_iff (h : v.Wide) (hk : v.value < -2 ^ 63 → v.k ≠ t.unsigned) (m : Option Int) :
    Matches (.ok (v.smallest.convert t)) (m.bind t.restrict) ↔
      (t.Evaluates v.value → v.Normal ∧ m = some v.value) ∧
        (¬t.Evaluates v.value → ∀ r ∈ m, ¬t.Evaluates r) := by
  obtain ⟨k, hsmall, hfit⟩ := smallest_eq h
  have hw : ({ v with k := k } : IntegerValue).Wide := ⟨h.iVal, h.sign⟩
  rw [hsmall]
  by_cases he : t.Evaluates v.value
  · rw [convert_of_evaluates hw he]
    have hn : ({ v with k := operandKind t v.value } : IntegerValue).Normal ↔ v.Normal :=
      ⟨fun hn => ⟨hn.iVal, hn.sign⟩, fun hn => ⟨hn.iVal, hn.sign⟩⟩
    show _ ∧ _ ↔ _
    constructor
    · rintro ⟨hnorm, hm⟩
      refine ⟨fun _ => ⟨hn.mp hnorm, ?_⟩, fun hne => absurd he hne⟩
      cases m with
      | none => cases hm
      | some r =>
        simp only [Option.bind_some, IntegerKind.restrict] at hm
        split at hm
        · exact hm
        · cases hm
    · rintro ⟨h1, -⟩
      obtain ⟨hnorm, rfl⟩ := h1 he
      exact ⟨hn.mpr hnorm, IntegerKind.restrict_of he⟩
  · have hk' : k ≠ t.unsigned := by
      rcases hfit with hfit | ⟨rfl, hlow⟩
      · rintro rfl
        obtain ⟨hf, hl⟩ := t.unsigned_range
        obtain ⟨⟨h1, h2⟩, -⟩ := h.fits_iff.mp hfit
        exact he ⟨by omega, by omega⟩
      · exact hk hlow
    rw [convert_of_not hw he, if_neg hk']
    show _ = none ↔ _
    constructor
    · intro hm
      refine ⟨fun he' => absurd he' he, ?_⟩
      rintro _ r rfl
      intro hr
      rw [Option.bind_some, IntegerKind.restrict_of hr] at hm
      cases hm
    · rintro ⟨-, h2⟩
      cases m with
      | none => rfl
      | some r => exact IntegerKind.restrict_of_not (h2 he r rfl)

theorem Wide.cases (h : v.Wide) :
    (v.sign = 1 ∧ v.value = v.iVal) ∨ (v.sign = -1 ∧ v.value = -(v.iVal : Int)) := by
  unfold value
  rcases h.sign with hs | hs
  · exact .inl ⟨hs, by rw [hs, Int.one_mul]⟩
  · exact .inr ⟨hs, by rw [hs, Int.neg_one_mul]⟩

theorem neg_wide (h : v.Wide) : v.neg.Wide ∧ v.neg.value = -v.value := by
  refine ⟨⟨h.iVal, ?_⟩, by simp [neg, value]⟩
  rcases h.sign with hs | hs
  · exact .inr (by rw [neg, hs])
  · exact .inl (by rw [neg, hs]; rfl)

theorem wrap_sign_mul {s : Int} (hs : s = 1 ∨ s = -1) (m : Nat) :
    wrap (s * m) = s * (m % 2 ^ 64 : Nat) := by
  unfold wrap
  rcases hs with rfl | rfl
  · omega
  · split <;> omega

/-! ## Operands -/

structure Operand (t : IntegerKind) (v : IntegerValue) (a : Int) : Prop where
  normal : v.Normal
  value : v.value = a
  evaluates : t.Evaluates a
  k : v.k = operandKind t a

variable {l r : IntegerValue} {a b : Int}

theorem Operand.cases (h : Operand t v a) :
    (v.sign = 1 ∧ a = v.iVal) ∨ (v.sign = -1 ∧ 0 < v.iVal ∧ a = -(v.iVal : Int)) := by
  have hv := h.value
  unfold IntegerValue.value at hv
  rcases h.normal.sign with hs | ⟨hs, hpos⟩
  · rw [hs] at hv
    exact .inl ⟨hs, by omega⟩
  · rw [hs] at hv
    exact .inr ⟨hs, hpos, by omega⟩

theorem operandKind_ne (t : IntegerKind) (h : a ≤ t.lastSigned) :
    operandKind t a ≠ t.unsigned := by
  unfold operandKind
  rw [if_pos h]
  cases t <;> decide

theorem operandKind_eq_iff : operandKind t a = operandKind t b ↔
    (a ≤ t.lastSigned ↔ b ≤ t.lastSigned) := by
  have hne : t.signed ≠ t.unsigned := by cases t <;> decide
  unfold operandKind
  by_cases ha : a ≤ t.lastSigned <;> by_cases hb : b ≤ t.lastSigned <;>
    simp [ha, hb, hne, hne.symm]

/-! ## Unary operators -/

theorem plus_matches (h : Operand t r a) :
    Matches (.ok (r.smallest.convert t)) ((some a).bind t.restrict) := by
  have hk : r.value < -2 ^ 63 → r.k ≠ t.unsigned := fun _ => by
    have := h.value
    have hs := t.lastSigned_cases
    rw [h.k]
    exact operandKind_ne t (by omega)
  rw [matches_iff h.normal.wide hk, h.value]
  exact ⟨fun _ => ⟨h.normal, rfl⟩, fun hne => absurd h.evaluates hne⟩

theorem neg_matches (h : Operand t r a) :
    Matches (.ok (r.neg.smallest.convert t)) ((some (-a)).bind t.restrict) ↔
      UnaryOperator.minus.Good t a := by
  obtain ⟨hw, hval⟩ := neg_wide h.normal.wide
  rw [h.value] at hval
  have hs := t.lastSigned_cases
  have he := h.evaluates
  unfold IntegerKind.Evaluates at he
  by_cases hbig : t.wide = true ∧ 2 ^ 63 < a
  · obtain ⟨hwide, hlt⟩ := hbig
    obtain ⟨k, hsmall, hfit⟩ := smallest_eq hw
    have hk : k = r.neg.k := by
      rcases hfit with hfit | ⟨hk, -⟩
      · have hrange := (hw.fits_iff.mp hfit).1.1
        cases k <;> simp only [IntegerKind.first] at hrange <;> omega
      · exact hk
    have hun : r.k = t.unsigned := by
      rw [h.k, operandKind, if_neg (by omega)]
    have hnot : ¬t.Evaluates r.neg.value := fun hin => by
      have := hin.1
      omega
    rw [hsmall, hk, convert_of_not hw hnot,
      if_pos (show r.neg.k = t.unsigned from hun)]
    refine iff_of_false (fun hag => ?_) fun hgood => by have := hgood.2 hwide; omega
    rw [Option.bind_some, IntegerKind.restrict_of_not (by rw [← hval]; exact hnot)] at hag
    exact absurd hag.2 nofun
  · have hk : r.neg.value < -2 ^ 63 → r.neg.k ≠ t.unsigned := fun _ => by
      rcases hs with ⟨hwide, -⟩ | ⟨-, hs⟩
      · exact absurd ⟨hwide, by omega⟩ hbig
      · omega
    rw [matches_iff hw hk, hw.normal_iff, hval]
    constructor
    · rintro ⟨h1, -⟩
      refine ⟨fun hzero => ?_, fun hwide => ?_⟩
      · obtain ⟨hsign, -⟩ := h1 (by unfold IntegerKind.Evaluates; omega)
        rcases h.cases with ⟨hpos, hz⟩ | ⟨-, hpos, hz⟩
        · have hneg : -r.sign = 1 := hsign (show r.iVal = 0 by omega)
          omega
        · omega
      · by_contra hlt
        exact hbig ⟨hwide, by omega⟩
    · rintro ⟨hzero, -⟩
      refine ⟨fun _ => ⟨fun hz => absurd ?_ hzero, rfl⟩, fun hne x hx => ?_⟩
      · have hz' : r.iVal = 0 := hz
        rcases h.cases with ⟨-, ha⟩ | ⟨-, -, ha⟩ <;> omega
      · obtain rfl := Option.some.inj hx
        exact hne

theorem not_eq (h : Operand t r a) :
    r.not = .ok { r with iVal := (2 * t.lastSigned + 1).toNat - r.iVal } := by
  have he := h.evaluates
  have hk := h.k
  unfold IntegerKind.Evaluates at he
  rcases t.lastSigned_cases with ⟨hwide, hs⟩ | ⟨hwide, hs⟩
  · have hkind : r.k = .longLong ∨ r.k = .unsignedLongLong := by
      rw [hk, operandKind]
      unfold IntegerKind.wide at hwide
      split <;> cases t <;> simp_all [IntegerKind.signed, IntegerKind.unsigned]
    rw [hs]
    rcases hkind with hkind | hkind <;> simp [IntegerValue.not, hkind]
  · have hkind : r.k = .long ∨ r.k = .unsignedLong := by
      rw [hk, operandKind]
      unfold IntegerKind.wide at hwide
      split <;> cases t <;> simp_all [IntegerKind.signed, IntegerKind.unsigned]
    have hlt : r.iVal < 2 ^ 32 := by
      rcases h.cases with ⟨-, ha⟩ | ⟨-, -, ha⟩ <;> omega
    rw [hs]
    rcases hkind with hkind | hkind <;> simp [IntegerValue.not, hkind] <;> omega

theorem tilde_matches (h : Operand t r a) :
    Matches (ConstantExpression.converted t (ConstantExpression.resolveUnary .tilde (.ok (some r))))
      ((some (UnaryOperator.tilde.meaning t a)).bind t.restrict) ↔
      UnaryOperator.tilde.Good t a := by
  have hs := t.lastSigned_cases
  have he := h.evaluates
  unfold IntegerKind.Evaluates at he
  have happly : ConstantExpression.converted t
      (ConstantExpression.resolveUnary .tilde (.ok (some r))) =
      .ok (({ r with iVal := (2 * t.lastSigned + 1).toNat - r.iVal } :
        IntegerValue).smallest.convert t) := by
    simp only [ConstantExpression.resolveUnary, UnaryOperator.apply, not_eq h]
    rfl
  rw [happly]
  generalize hv : ({ r with iVal := (2 * t.lastSigned + 1).toNat - r.iVal } : IntegerValue) = v
  have hvi : v.iVal = (2 * t.lastSigned + 1).toNat - r.iVal := by rw [← hv]
  have hvs : v.sign = r.sign := by rw [← hv]
  have hvk : v.k = r.k := by rw [← hv]
  have hw : v.Wide := ⟨by omega, by rw [hvs]; exact h.normal.wide.sign⟩
  rcases h.cases with ⟨hsign, ha⟩ | ⟨hsign, hpos, ha⟩
  · have hval : v.value = 2 * t.lastSigned + 1 - a := by
      rw [value, hvs, hsign, hvi]
      omega
    have hin : t.Evaluates (2 * t.lastSigned + 1 - a) := by
      unfold IntegerKind.Evaluates
      omega
    rw [matches_iff hw (fun _ => by omega), hw.normal_iff, hval, hvs]
    simp only [UnaryOperator.meaning, UnaryOperator.Good]
    constructor
    · rintro ⟨h1, -⟩
      have hmeaning := Option.some.inj (h1 hin).2
      refine ⟨?_, by omega⟩
      by_contra hne
      rw [if_pos (.inl (by simpa using hne))] at hmeaning
      omega
    · rintro ⟨hun, hpos⟩
      refine ⟨fun _ => ⟨fun _ => hsign, ?_⟩, fun hne => absurd hin hne⟩
      rw [if_neg fun hor => hor.elim (fun hsg => absurd (hun.symm.trans hsg) nofun) (by omega)]
  · have hval : v.value = -(2 * t.lastSigned + 1 + a) := by
      rw [value, hvs, hsign, hvi]
      omega
    have hk : v.value < -2 ^ 63 → v.k ≠ t.unsigned := fun _ => by
      rw [hvk, h.k]
      exact operandKind_ne t (by omega)
    rw [matches_iff hw hk, hval]
    simp only [UnaryOperator.meaning, UnaryOperator.Good]
    rw [if_pos (.inr (by omega))]
    refine iff_of_false ?_ fun hgood => by omega
    rintro ⟨h1, h2⟩
    by_cases hin : t.Evaluates (-(2 * t.lastSigned + 1 + a))
    · have := Option.some.inj (h1 hin).2
      omega
    · refine h2 hin (-a - 1) rfl ?_
      unfold IntegerKind.Evaluates
      omega

/-! ## Binary operators -/

theorem wrap_of_evaluates {x : Int} (h : t.Evaluates x) : wrap x = x := by
  have hs := t.lastSigned_cases
  unfold IntegerKind.Evaluates at h
  unfold wrap
  split <;> omega

theorem evaluates_zero (t : IntegerKind) : t.Evaluates 0 := by
  have hs := t.lastSigned_cases
  unfold IntegerKind.Evaluates
  omega

theorem add_spec (hl : l.Wide) (hr : r.Wide) :
    (l.add r).value = wrap (l.value + r.value) ∧ (l.add r).Wide ∧
      (l.value + r.value = 0 → (l.add r).sign = l.sign) ∧ (l.add r).k = r.k := by
  have hil := hl.iVal
  have hir := hr.iVal
  have hsign : (l.add r).sign =
      if l.sign = r.sign then r.sign else if r.iVal ≤ l.iVal then l.sign else -l.sign := by
    unfold add
    split_ifs <;> rfl
  have hi : (l.add r).iVal =
      if l.sign = r.sign then (l.iVal + r.iVal) % 2 ^ 64
      else if r.iVal ≤ l.iVal then l.iVal - r.iVal else r.iVal - l.iVal := by
    unfold add
    split_ifs <;> rfl
  have hk : (l.add r).k = r.k := by
    unfold add
    split_ifs <;> rfl
  refine ⟨?_, ⟨?_, ?_⟩, ?_, hk⟩
  · rw [value, hsign, hi]
    unfold wrap
    rcases hl.cases with ⟨hsl, ha⟩ | ⟨hsl, ha⟩ <;> rcases hr.cases with ⟨hsr, hb⟩ | ⟨hsr, hb⟩ <;>
      rw [hsl, hsr, ha, hb] <;> split_ifs <;> first | contradiction | omega
  · rw [hi]
    split_ifs <;> omega
  · rw [hsign]
    rcases hl.sign with hsl | hsl <;> rcases hr.sign with hsr | hsr <;> rw [hsl, hsr] <;>
      split_ifs <;> first | contradiction | omega
  · intro hzero
    rw [hsign]
    rcases hl.cases with ⟨hsl, ha⟩ | ⟨hsl, ha⟩ <;> rcases hr.cases with ⟨hsr, hb⟩ | ⟨hsr, hb⟩ <;>
      rw [hsl, hsr] <;> split_ifs <;> first | contradiction | omega

theorem evaluates_negSucc {k : Nat} (h : (k : Int) ≤ t.lastSigned) :
    t.Evaluates (Int.negSucc k) := by
  unfold IntegerKind.Evaluates
  omega

section Binary

variable (hl : Operand t l a) (hr : Operand t r b)
  (hsame : a ≤ t.lastSigned ↔ b ≤ t.lastSigned)

include hl hr hsame

theorem result_matches (hw : v.Wide) (hk : v.k = l.k ∨ v.k = r.k)
    (hlow : t.lastSigned < a → t.lastSigned < b → -2 ^ 63 ≤ v.value) (m : Option Int) :
    Matches (.ok (v.smallest.convert t)) (m.bind t.restrict) ↔
      (t.Evaluates v.value → (v.iVal = 0 → v.sign = 1) ∧ m = some v.value) ∧
        (¬t.Evaluates v.value → ∀ x ∈ m, ¬t.Evaluates x) := by
  have hne : v.value < -2 ^ 63 → v.k ≠ t.unsigned := fun hlt => by
    by_cases ha : a ≤ t.lastSigned
    · have hb := hsame.mp ha
      rcases hk with hk | hk
      · rw [hk, hl.k]
        exact operandKind_ne t ha
      · rw [hk, hr.k]
        exact operandKind_ne t hb
    · omega
  rw [matches_iff hw hne, hw.normal_iff]

theorem wrapped_matches (hw : v.Wide) (hk : v.k = l.k ∨ v.k = r.k) {x : Int}
    (hval : v.value = wrap x) (hlow : t.lastSigned < a → t.lastSigned < b → -2 ^ 63 ≤ wrap x) :
    Matches (.ok (v.smallest.convert t)) ((some x).bind t.restrict) ↔
      (x = 0 → v.sign = 1) ∧ Unwrapped t x := by
  rw [result_matches hl hr hsame hw hk (by rwa [hval]), hval]
  have hzero : v.iVal = 0 ↔ wrap x = 0 := by
    rw [← hval]
    unfold value
    rcases hw.sign with hs | hs <;> rw [hs] <;> omega
  constructor
  · rintro ⟨h1, h2⟩
    by_cases he : t.Evaluates (wrap x)
    · obtain ⟨hsign, hx⟩ := h1 he
      have hx := Option.some.inj hx
      exact ⟨fun hx0 => hsign (hzero.mpr (by omega)), .inl hx.symm⟩
    · refine ⟨fun hx0 => ?_, .inr he⟩
      rw [hx0, wrap_of_evaluates (evaluates_zero t)] at he
      exact absurd (evaluates_zero t) he
  · rintro ⟨hsign, hun⟩
    refine ⟨fun he => ?_, fun hne y hy hey => ?_⟩
    · have hx : wrap x = x := hun.resolve_right fun hne => hne he
      rw [hx] at hzero ⊢
      exact ⟨fun h0 => hsign (hzero.mp h0), rfl⟩
    · obtain rfl := Option.some.inj hy
      rw [wrap_of_evaluates hey] at hne
      exact hne hey

omit hr hsame in
theorem sign_eq_one_iff : l.sign = 1 ↔ ¬a < 0 := by
  rcases hl.cases with ⟨hs, ha⟩ | ⟨hs, hp, ha⟩ <;> rw [hs] <;> omega

theorem add_matches :
    Matches (.ok ((l.add r).smallest.convert t)) ((some (a + b)).bind t.restrict) ↔
      BinaryOperator.plus.Good t a b := by
  obtain ⟨hval, hw, hzero, hk⟩ := add_spec hl.normal.wide hr.normal.wide
  rw [hl.value, hr.value] at hval hzero
  rw [wrapped_matches hl hr hsame hw (.inr hk) hval fun ha hb => by
    have := t.lastSigned_cases
    unfold wrap
    split <;> omega]
  simp only [BinaryOperator.Good, not_and]
  refine and_congr ⟨fun h ha h0 => ?_, fun h h0 => ?_⟩ Iff.rfl
  · have hone := h h0
    rw [hzero h0, sign_eq_one_iff hl] at hone
    exact hone ha
  · rw [hzero h0, sign_eq_one_iff hl]
    exact fun ha => h ha h0

omit hsame in
theorem sub_spec : (l.sub r).value = wrap (a - b) ∧ (l.sub r).Wide ∧
    (a - b = 0 → (l.sub r).sign = l.sign) ∧ (l.sub r).k = r.k := by
  obtain ⟨hwr, hvr⟩ := neg_wide hr.normal.wide
  have hspec := add_spec hl.normal.wide hwr
  rwa [hl.value, hvr, hr.value, ← Int.sub_eq_add_neg] at hspec

theorem sub_matches :
    Matches (.ok ((l.sub r).smallest.convert t)) ((some (a - b)).bind t.restrict) ↔
      BinaryOperator.minus.Good t a b := by
  obtain ⟨hval, hw, hzero, hk⟩ := sub_spec hl hr
  have hs := t.lastSigned_cases
  have hea := hl.evaluates
  have heb := hr.evaluates
  unfold IntegerKind.Evaluates at hea heb
  have hwrap : wrap (a - b) = a - b := by
    unfold wrap
    split <;> omega
  rw [wrapped_matches hl hr hsame hw (.inr hk) hval fun ha hb => by omega]
  simp only [BinaryOperator.Good, not_and]
  constructor
  · rintro ⟨h, -⟩ ha heq
    have hone := h (by omega)
    rw [hzero (by omega), sign_eq_one_iff hl] at hone
    exact hone ha
  · intro h
    refine ⟨fun h0 => ?_, .inl hwrap⟩
    rw [hzero h0, sign_eq_one_iff hl]
    exact fun ha => h ha (by omega)

omit hsame in
theorem sign_mul : l.sign * r.sign = 1 ∨ l.sign * r.sign = -1 := by
  rcases hl.normal.wide.sign with hsl | hsl <;> rcases hr.normal.wide.sign with hsr | hsr <;>
    rw [hsl, hsr] <;> decide

omit hsame in
theorem sign_mul_eq_one_iff : l.sign * r.sign = 1 ↔ (a < 0 ↔ b < 0) := by
  have ha := sign_eq_one_iff hl
  have hb := sign_eq_one_iff hr
  rcases hl.normal.wide.sign with hsl | hsl <;> rcases hr.normal.wide.sign with hsr | hsr <;>
    rw [hsl] at ha ⊢ <;> rw [hsr] at hb ⊢ <;> simp at ha hb ⊢ <;> omega

omit hsame in
theorem mul_spec : (l.mul r).value = wrap (a * b) ∧ (l.mul r).Wide := by
  have hprod : a * b = l.sign * r.sign * (l.iVal * r.iVal : Nat) := by
    rw [← hl.value, ← hr.value, value, value]
    push_cast
    ring
  refine ⟨?_, Nat.mod_lt _ (by omega), sign_mul hl hr⟩
  rw [hprod, wrap_sign_mul (sign_mul hl hr)]
  rfl

theorem mul_matches :
    Matches (.ok ((l.mul r).smallest.convert t)) ((some (a * b)).bind t.restrict) ↔
      BinaryOperator.star.Good t a b := by
  have hs := t.lastSigned_cases
  obtain ⟨hval, hw⟩ := mul_spec hl hr
  rw [wrapped_matches hl hr hsame hw (.inl rfl) hval fun ha hb => by
    have : 0 ≤ a * b := Int.mul_nonneg (by omega) (by omega)
    unfold wrap
    split <;> omega]
  refine and_congr ?_ Iff.rfl
  show (a * b = 0 → l.sign * r.sign = 1) ↔ _
  rw [sign_mul_eq_one_iff hl hr, not_and]
  refine imp_congr_right fun hzero => ?_
  rcases Int.mul_eq_zero.mp hzero with h0 | h0 <;> omega

theorem exact_matches (hw : v.Wide) (hk : v.k = l.k ∨ v.k = r.k) {x : Int} (hval : v.value = x)
    (hlow : t.lastSigned < a → t.lastSigned < b → -2 ^ 63 ≤ x) :
    Matches (.ok (v.smallest.convert t)) ((some x).bind t.restrict) ↔ (x = 0 → v.sign = 1) := by
  have hwrap : wrap x = x := by
    have hi := hw.iVal
    have hc := hw.cases
    unfold wrap
    split <;> omega
  rw [wrapped_matches hl hr hsame hw hk (by rwa [hwrap]) (by rwa [hwrap])]
  exact and_iff_left (.inl hwrap)

omit hsame in
theorem tdiv_eq : a.tdiv b = l.sign * r.sign * (l.iVal / r.iVal : Nat) := by
  rw [← hl.value, ← hr.value, value, value]
  rcases hl.normal.wide.sign with hsl | hsl <;> rcases hr.normal.wide.sign with hsr | hsr <;>
    rw [hsl, hsr] <;> simp [Int.neg_tdiv, Int.tdiv_neg]

omit hsame in
theorem tmod_eq : a.tmod b = l.sign * (l.iVal % r.iVal : Nat) := by
  rw [← hl.value, ← hr.value, value, value, Int.ofNat_tmod]
  rcases hl.normal.wide.sign with hsl | hsl <;> rcases hr.normal.wide.sign with hsr | hsr <;>
    rw [hsl, hsr] <;> simp [Int.neg_tmod, Int.tmod_neg]

omit hr hsame in
theorem natAbs_eq : a.natAbs = l.iVal := by
  rcases hl.cases with ⟨-, ha⟩ | ⟨-, -, ha⟩ <;> omega

omit hl hsame in
theorem iVal_eq_zero_iff : r.iVal = 0 ↔ b = 0 := by
  rw [← natAbs_eq hr, Int.natAbs_eq_zero]

theorem resolveBinary_ok (op : BinaryOperator) (happly : op.apply l r = .ok v) :
    ConstantExpression.converted t
      (ConstantExpression.resolveBinary op (.ok (some l)) (.ok (some r))) =
      .ok (v.smallest.convert t) := by
  have hk : ¬l.k ≠ r.k := by
    rw [hl.k, hr.k, not_ne_iff, operandKind_eq_iff]
    exact hsame
  simp only [ConstantExpression.resolveBinary, if_neg hk, happly]
  rfl

theorem resolveBinary_error (op : BinaryOperator) {e : Exn} (happly : op.apply l r = .error e)
    (m : Option Int) :
    ¬Matches (ConstantExpression.converted t
      (ConstantExpression.resolveBinary op (.ok (some l)) (.ok (some r)))) m := by
  have hk : ¬l.k ≠ r.k := by
    rw [hl.k, hr.k, not_ne_iff, operandKind_eq_iff]
    exact hsame
  simp only [ConstantExpression.resolveBinary, if_neg hk, happly]
  exact fun h => h

theorem div_matches : Matches (ConstantExpression.converted t
      (ConstantExpression.resolveBinary .slash (.ok (some l)) (.ok (some r))))
      ((BinaryOperator.slash.meaning a b).bind t.restrict) ↔ BinaryOperator.slash.Good t a b := by
  have hs := t.lastSigned_cases
  simp only [BinaryOperator.meaning, BinaryOperator.Good]
  by_cases hb : b = 0
  · have happly : BinaryOperator.slash.apply l r = .error .constraintError :=
      if_pos ((iVal_eq_zero_iff hr).mpr hb)
    exact iff_of_false (resolveBinary_error hl hr hsame .slash happly _) fun h => h.1 hb
  · have hne : ¬r.iVal = 0 := fun h => hb ((iVal_eq_zero_iff hr).mp h)
    have happly : BinaryOperator.slash.apply l r = .ok { l with
        base := if l.base = r.base then 10 else l.base
        sign := l.sign * r.sign
        iVal := l.iVal / r.iVal } := if_neg hne
    have hi := hl.normal.iVal
    have hw : ({ l with
        base := if l.base = r.base then 10 else l.base
        sign := l.sign * r.sign
        iVal := l.iVal / r.iVal } : IntegerValue).Wide :=
      ⟨lt_of_le_of_lt (Nat.div_le_self ..) hi, sign_mul hl hr⟩
    rw [resolveBinary_ok hl hr hsame .slash happly, if_neg hb,
      exact_matches hl hr hsame hw (.inl rfl) (tdiv_eq hl hr).symm fun ha hb => ?_]
    · show (_ → l.sign * r.sign = 1) ↔ _
      have hzero : a.tdiv b = 0 ↔ a.natAbs < b.natAbs := by
        rw [tdiv_eq hl hr, natAbs_eq hl, natAbs_eq hr,
          ← Nat.div_eq_zero_iff_lt (Nat.pos_of_ne_zero hne)]
        rcases sign_mul hl hr with h | h <;> rw [h] <;> omega
      rw [sign_mul_eq_one_iff hl hr, hzero]
      exact ⟨fun h => ⟨hb, fun hand => hand.2 (h hand.1)⟩, fun h hlt => by
        by_contra hn
        exact h.2 ⟨hlt, hn⟩⟩
    · have := Int.tdiv_nonneg (show 0 ≤ a by omega) (show 0 ≤ b by omega)
      omega

theorem mod_matches : Matches (ConstantExpression.converted t
      (ConstantExpression.resolveBinary .percent (.ok (some l)) (.ok (some r))))
      ((BinaryOperator.percent.meaning a b).bind t.restrict) ↔
      BinaryOperator.percent.Good t a b := by
  have hs := t.lastSigned_cases
  simp only [BinaryOperator.meaning, BinaryOperator.Good]
  by_cases hb : b = 0
  · have happly : BinaryOperator.percent.apply l r = .error .constraintError :=
      if_pos ((iVal_eq_zero_iff hr).mpr hb)
    exact iff_of_false (resolveBinary_error hl hr hsame .percent happly _) fun h => h.1 hb
  · have hne : ¬r.iVal = 0 := fun h => hb ((iVal_eq_zero_iff hr).mp h)
    have happly : BinaryOperator.percent.apply l r = .ok { l with
        base := if l.base ≠ r.base then 10 else l.base
        sign := l.sign * r.sign
        iVal := l.iVal % r.iVal } := if_neg hne
    generalize hv : ({ l with
        base := if l.base ≠ r.base then 10 else l.base
        sign := l.sign * r.sign
        iVal := l.iVal % r.iVal } : IntegerValue) = v at happly
    have hvs : v.sign = l.sign * r.sign := by rw [← hv]
    have hvi : v.iVal = l.iVal % r.iVal := by rw [← hv]
    have hvk : v.k = l.k := by rw [← hv]
    have hle : v.iVal ≤ l.iVal := by
      rw [hvi]
      exact Nat.mod_le ..
    have hi := hl.normal.iVal
    have hw : v.Wide := ⟨by omega, by rw [hvs]; exact sign_mul hl hr⟩
    have hea := hl.evaluates
    have heb := hr.evaluates
    unfold IntegerKind.Evaluates at hea heb
    have hsign := sign_mul_eq_one_iff hl hr
    rw [← hvs] at hsign
    have hin : t.Evaluates v.value := by
      have hc := hw.cases
      unfold IntegerKind.Evaluates
      rcases hl.cases with ⟨-, ha'⟩ | ⟨-, -, ha'⟩ <;>
        rcases hr.cases with ⟨-, hb'⟩ | ⟨-, -, hb'⟩ <;>
        omega
    have hmod : a.tmod b = l.sign * v.iVal := by rw [tmod_eq hl hr, hvi]
    rw [resolveBinary_ok hl hr hsame .percent happly, if_neg hb,
      result_matches hl hr hsame hw (.inl hvk) (fun _ _ => by have := hin.1; omega)]
    have hval : v.value = v.sign * v.iVal := rfl
    have hrb := sign_eq_one_iff hr
    constructor
    · rintro ⟨h1, -⟩
      obtain ⟨hzero, heq⟩ := h1 hin
      have heq := Option.some.inj heq
      refine ⟨hb, ?_⟩
      split
      · rename_i hz
        rw [hmod] at hz
        refine hsign.mp (hzero ?_)
        rcases hl.normal.wide.sign with h | h <;> rw [h] at hz <;> omega
      · rename_i hz
        rw [hmod, hval, hvs] at heq
        rw [hmod] at hz
        rcases hl.normal.wide.sign with h | h <;> rcases hr.normal.wide.sign with h' | h' <;>
          rw [h] at heq hz <;> rw [h'] at heq hrb <;> omega
    · rintro ⟨-, hgood⟩
      refine ⟨fun _ => ?_, fun hno => absurd hin hno⟩
      split at hgood
      · rename_i hz
        refine ⟨fun _ => hsign.mpr hgood, ?_⟩
        rw [hz, hval, hsign.mpr hgood]
        rw [hmod] at hz
        rcases hl.normal.wide.sign with h | h <;> rw [h] at hz <;> congr 1 <;> omega
      · rename_i hz
        have hone : r.sign = 1 := hrb.mpr (by omega)
        rw [hmod] at hz
        refine ⟨fun h0 => absurd ?_ hz, ?_⟩
        · rw [h0]
          exact Int.mul_zero _
        · rw [hmod, hval, hvs, hone, Int.mul_one]

/-! ### Shifts -/

omit hl hsame in
theorem amount_eq :
    r.amount = if b.natAbs < 2 ^ 31 then .ok b.natAbs else .error .constraintError := by
  rw [natAbs_eq hr]
  rfl

omit hl hsame in
theorem sign_neg_iff : r.sign < 0 ↔ b < 0 := by
  have := sign_eq_one_iff hr
  rcases hr.normal.wide.sign with h | h <;> rw [h] at this ⊢ <;> omega

theorem none_matches (hw : v.Wide) (hk : v.k = l.k)
    (hlow : t.lastSigned < a → t.lastSigned < b → -2 ^ 63 ≤ v.value) :
    Matches (.ok (v.smallest.convert t)) ((none : Option Int).bind t.restrict) ↔
      ¬t.Evaluates v.value := by
  rw [result_matches hl hr hsame hw (.inl hk) hlow]
  constructor
  · rintro ⟨h, -⟩ he
    exact absurd (h he).2 nofun
  · exact fun hne => ⟨fun he => absurd he hne, fun _ _ hx => nomatch hx⟩

omit hr hsame in
theorem shifted_left (n : Nat) : ({ l with iVal := l.iVal * 2 ^ n % 2 ^ 64 } : IntegerValue).Wide ∧
    ({ l with iVal := l.iVal * 2 ^ n % 2 ^ 64 } : IntegerValue).value = wrap (a * 2 ^ n) := by
  refine ⟨⟨Nat.mod_lt _ (by omega), hl.normal.wide.sign⟩, ?_⟩
  have hprod : a * 2 ^ n = l.sign * (l.iVal * 2 ^ n : Nat) := by
    rw [← hl.value, value]
    push_cast
    ring
  rw [hprod, wrap_sign_mul hl.normal.wide.sign]
  rfl

omit hr hsame in
theorem shifted_right (n : Nat) : ({ l with iVal := l.iVal / 2 ^ n } : IntegerValue).Wide ∧
    t.Evaluates ({ l with iVal := l.iVal / 2 ^ n } : IntegerValue).value := by
  have hi := hl.normal.iVal
  have hle : l.iVal / 2 ^ n ≤ l.iVal := Nat.div_le_self ..
  have he := hl.evaluates
  refine ⟨⟨lt_of_le_of_lt hle hi, hl.normal.wide.sign⟩, ?_⟩
  generalize l.iVal / 2 ^ n = m at hle
  unfold IntegerKind.Evaluates value at *
  simp only
  rcases hl.cases with ⟨h, ha⟩ | ⟨h, -, ha⟩ <;> rw [h] <;> omega

theorem shiftLeft_matches : Matches (ConstantExpression.converted t
      (ConstantExpression.resolveBinary .lessLess (.ok (some l)) (.ok (some r))))
      ((BinaryOperator.lessLess.meaning a b).bind t.restrict) ↔
      BinaryOperator.lessLess.Good t a b := by
  have hs := t.lastSigned_cases
  have hamount := amount_eq hr
  have hneg := sign_neg_iff hr
  simp only [BinaryOperator.meaning, BinaryOperator.Good]
  by_cases hbig : b.natAbs < 2 ^ 31
  swap
  · rw [if_neg hbig] at hamount
    have happly : BinaryOperator.lessLess.apply l r = .error .constraintError := by
      simp [BinaryOperator.apply, shiftLeft, shiftMagnitudeLeft, shiftMagnitudeRight, hamount]
    exact iff_of_false (resolveBinary_error hl hr hsame .lessLess happly _) fun h => by omega
  rw [if_pos hbig] at hamount
  by_cases hb : b < 0
  · have happly : BinaryOperator.lessLess.apply l r =
        .ok { l with iVal := l.iVal / 2 ^ b.natAbs } := by
      simp [BinaryOperator.apply, shiftLeft, hneg, hb, shiftMagnitudeRight, hamount]
    obtain ⟨hw, hin⟩ := shifted_right hl b.natAbs
    rw [resolveBinary_ok hl hr hsame .lessLess happly, if_neg (by omega),
      none_matches hl hr hsame hw rfl fun _ hpos => by omega]
    exact iff_of_false (fun h => h hin) fun h => by omega
  · have happly : BinaryOperator.lessLess.apply l r =
        .ok { l with iVal := l.iVal * 2 ^ b.natAbs % 2 ^ 64 } := by
      simp [BinaryOperator.apply, shiftLeft, hneg, hb, shiftMagnitudeLeft, hamount]
    have hn : b.toNat = b.natAbs := by omega
    obtain ⟨hw, hval⟩ := shifted_left hl b.natAbs
    rw [resolveBinary_ok hl hr hsame .lessLess happly, hn]
    by_cases h63 : b ≤ 63
    · have hlow : t.lastSigned < a → t.lastSigned < b → -2 ^ 63 ≤ wrap (a * 2 ^ b.natAbs) :=
        fun _ hb => by omega
      rw [if_pos ⟨by omega, h63⟩, wrapped_matches hl hr hsame hw (.inl rfl) hval hlow]
      constructor
      · exact fun h => ⟨by omega, h63, h.2⟩
      · refine fun h => ⟨fun hzero => ?_, h.2.2⟩
        have ha : a = 0 := (Int.mul_eq_zero.mp hzero).resolve_right (by positivity)
        exact (sign_eq_one_iff hl).mpr (by omega)
    · have hzero : wrap (a * 2 ^ b.natAbs) = 0 := by
        have hmod : (a * 2 ^ b.natAbs).natAbs % 2 ^ 64 = 0 := by
          rw [Int.natAbs_mul, Int.natAbs_pow]
          exact Nat.mod_eq_zero_of_dvd (dvd_mul_of_dvd_right (pow_dvd_pow 2 (by omega)) _)
        unfold wrap
        rw [hmod]
        split <;> rfl
      rw [if_neg (by omega), none_matches hl hr hsame hw rfl fun _ _ => by rw [hval, hzero]; decide,
        hval, hzero]
      exact iff_of_false (fun h => h (evaluates_zero t)) fun h => h63 h.2.1

theorem shiftRight_matches : Matches (ConstantExpression.converted t
      (ConstantExpression.resolveBinary .greaterGreater (.ok (some l)) (.ok (some r))))
      ((BinaryOperator.greaterGreater.meaning a b).bind t.restrict) ↔
      BinaryOperator.greaterGreater.Good t a b := by
  have hs := t.lastSigned_cases
  have hamount := amount_eq hr
  have hneg := sign_neg_iff hr
  simp only [BinaryOperator.meaning, BinaryOperator.Good]
  by_cases hbig : b.natAbs < 2 ^ 31
  swap
  · rw [if_neg hbig] at hamount
    have happly : BinaryOperator.greaterGreater.apply l r = .error .constraintError := by
      simp [BinaryOperator.apply, shiftRight, shiftMagnitudeLeft, shiftMagnitudeRight, hamount]
    exact iff_of_false (resolveBinary_error hl hr hsame .greaterGreater happly _) fun h => by omega
  rw [if_pos hbig] at hamount
  by_cases hb : b < 0
  · have happly : BinaryOperator.greaterGreater.apply l r =
        .ok { l with iVal := l.iVal * 2 ^ b.natAbs % 2 ^ 64 } := by
      simp [BinaryOperator.apply, shiftRight, hneg, hb, shiftMagnitudeLeft, hamount]
    obtain ⟨hw, hval⟩ := shifted_left hl b.natAbs
    rw [resolveBinary_ok hl hr hsame .greaterGreater happly, if_neg (by omega),
      none_matches hl hr hsame hw rfl fun _ hpos => by omega, hval]
    constructor
    · exact fun h => .inr ⟨hb, by omega, h⟩
    · rintro (h | h)
      · omega
      · exact h.2.2
  · have happly : BinaryOperator.greaterGreater.apply l r =
        .ok { l with iVal := l.iVal / 2 ^ b.natAbs } := by
      simp [BinaryOperator.apply, shiftRight, hneg, hb, shiftMagnitudeRight, hamount]
    have hn : b.toNat = b.natAbs := by omega
    obtain ⟨hw, hin⟩ := shifted_right hl b.natAbs
    rw [resolveBinary_ok hl hr hsame .greaterGreater happly, hn]
    by_cases h63 : b ≤ 63
    · rw [if_pos ⟨by omega, h63⟩,
        result_matches hl hr hsame hw (.inl rfl) (fun _ _ => by omega)]
      have hdvd : (2 : Int) ^ b.natAbs ∣ a ↔ 2 ^ b.natAbs ∣ l.iVal := by
        rw [← natAbs_eq hl, ← Int.natAbs_dvd_natAbs, Int.natAbs_pow]
        rfl
      have hquot : a / 2 ^ b.natAbs =
          ({ l with iVal := l.iVal / 2 ^ b.natAbs } : IntegerValue).value ↔
            (a < 0 → (2 : Int) ^ b.natAbs ∣ a) := by
        rw [hdvd, value]
        rcases hl.cases with ⟨h, ha⟩ | ⟨h, hpos, ha⟩
        · rw [h, ha]
          simp
        · have hpow : Int.sign (2 ^ b.natAbs) = 1 := Int.sign_eq_one_of_pos (by positivity)
          have hcast : ((2 ^ b.natAbs : Nat) : Int) ∣ l.iVal ↔ 2 ^ b.natAbs ∣ l.iVal :=
            Int.natCast_dvd_natCast
          rw [h, ha, Int.neg_ediv, hpow]
          push_cast
          split
          · rename_i hyes
            exact iff_of_true (by omega) fun _ => hcast.mp hyes
          · rename_i hno
            exact iff_of_false (by omega) fun hd => hno (hcast.mpr (hd (by omega)))
      constructor
      · rintro ⟨h1, -⟩
        exact .inl ⟨by omega, h63, hquot.mp (Option.some.inj (h1 hin).2)⟩
      · rintro (⟨-, -, hd⟩ | hno)
        · refine ⟨fun _ => ⟨fun hzero => ?_, congrArg some (hquot.mpr hd)⟩, fun h => absurd hin h⟩
          refine (sign_eq_one_iff hl).mpr fun ha => ?_
          have hle := Nat.le_of_dvd (by have := natAbs_eq hl; omega) (hdvd.mp (hd ha))
          have hzero : l.iVal / 2 ^ b.natAbs = 0 := hzero
          have := Nat.div_pos hle (by positivity)
          omega
        · exact absurd hno.1 hb
    · rw [if_neg (by omega), none_matches hl hr hsame hw rfl fun _ _ => by omega]
      exact iff_of_false (fun h => h hin) fun h => by omega

/-! ### Bits -/

end Binary

theorem complement_and {x n : Nat} (hx : x < 2 ^ 64) (hn : n < 2 ^ 64) :
    (lastUnsignedLongLong - x) &&& n = Nat.ldiff n x := by
  have hsub : lastUnsignedLongLong - x = 2 ^ 64 - (x + 1) := by
    unfold lastUnsignedLongLong
    omega
  refine Nat.eq_of_testBit_eq fun i => ?_
  rw [hsub, Nat.testBit_and, Nat.testBit_two_pow_sub_succ hx, Nat.testBit_ldiff]
  by_cases hi : i < 64
  · rw [decide_eq_true hi, Bool.true_and, Bool.and_comm]
  · rw [Nat.testBit_lt_two_pow (lt_of_lt_of_le hn (Nat.pow_le_pow_right (by omega) (by omega)))]
    simp

theorem complement_xor {x y : Nat} (hx : x < 2 ^ 64) (hy : y < 2 ^ 64) :
    (lastUnsignedLongLong - x) ^^^ (lastUnsignedLongLong - y) = x ^^^ y := by
  have hsub (z : Nat) (hz : z < 2 ^ 64) : lastUnsignedLongLong - z = 2 ^ 64 - (z + 1) := by
    unfold lastUnsignedLongLong
    omega
  refine Nat.eq_of_testBit_eq fun i => ?_
  rw [hsub x hx, hsub y hy, Nat.testBit_xor, Nat.testBit_xor, Nat.testBit_two_pow_sub_succ hx,
    Nat.testBit_two_pow_sub_succ hy]
  by_cases hi : i < 64
  · simp [hi]
  · have hpow : 2 ^ 64 ≤ 2 ^ i := Nat.pow_le_pow_right (by omega) (by omega)
    rw [Nat.testBit_lt_two_pow (lt_of_lt_of_le hx hpow),
      Nat.testBit_lt_two_pow (lt_of_lt_of_le hy hpow)]
    simp [hi]

theorem ldiff_le (n x : Nat) : Nat.ldiff n x ≤ n := by
  refine Nat.le_of_testBit fun i h => ?_
  rw [Nat.testBit_ldiff, Bool.and_eq_true] at h
  exact h.1

section Bits

variable (hl : Operand t l a) (hr : Operand t r b)
  (hsame : a ≤ t.lastSigned ↔ b ≤ t.lastSigned)

theorem Operand.bits (h : Operand t v a) :
    (∃ m : Nat, a = m ∧ v.pattern = m ∧ m ≤ 2 * t.lastSigned + 1) ∨
      ∃ k : Nat, a = Int.negSucc k ∧ v.pattern = lastUnsignedLongLong - (k + 1) ∧
        k ≤ t.lastSigned := by
  have he := h.evaluates
  unfold IntegerKind.Evaluates at he
  unfold pattern
  rcases h.cases with ⟨hs, ha⟩ | ⟨hs, hpos, ha⟩
  · exact .inl ⟨v.iVal, ha, if_neg (by omega), by omega⟩
  · refine .inr ⟨v.iVal - 1, by omega, ?_, by omega⟩
    rw [if_pos (by omega), Nat.sub_add_cancel hpos]

include hl hr hsame

theorem bitwise_matches {f : Nat → Nat → Nat} (hlt : f l.pattern r.pattern < 2 ^ 64) (x : Int) :
    Matches (.ok ((bitwise f l r).smallest.convert t)) ((some x).bind t.restrict) ↔
      (t.Evaluates (f l.pattern r.pattern : Nat) → x = (f l.pattern r.pattern : Nat)) ∧
        (¬t.Evaluates (f l.pattern r.pattern : Nat) → ¬t.Evaluates x) := by
  have hval : (bitwise f l r).value = (f l.pattern r.pattern : Nat) := Int.one_mul _
  have hw : (bitwise f l r).Wide := ⟨hlt, .inl rfl⟩
  rw [result_matches hl hr hsame hw (.inl rfl) (fun _ _ => by omega), hval]
  refine and_congr (imp_congr_right fun _ => ?_) (imp_congr_right fun _ => ?_)
  · exact ⟨fun h => Option.some.inj h.2, fun h => ⟨fun _ => rfl, congrArg some h⟩⟩
  · exact ⟨fun h => h x rfl, fun h y hy => by obtain rfl := Option.some.inj hy; exact h⟩

theorem bitwise_negative {f : Nat → Nat → Nat} (hlt : f l.pattern r.pattern < 2 ^ 64) {x : Int}
    (hx : x < 0) (he : t.Evaluates x) :
    ¬Matches (.ok ((bitwise f l r).smallest.convert t)) ((some x).bind t.restrict) := by
  rw [bitwise_matches hl hr hsame hlt]
  rintro ⟨h1, h2⟩
  by_cases hin : t.Evaluates (f l.pattern r.pattern : Nat)
  · have := h1 hin
    omega
  · exact h2 hin he

theorem bitwise_exact {f : Nat → Nat → Nat} (hin : t.Evaluates (f l.pattern r.pattern : Nat))
    (x : Int) :
    Matches (.ok ((bitwise f l r).smallest.convert t)) ((some x).bind t.restrict) ↔
      x = (f l.pattern r.pattern : Nat) := by
  have hs := t.lastSigned_cases
  have hlt : f l.pattern r.pattern < 2 ^ 64 := by
    have := hin.2
    omega
  rw [bitwise_matches hl hr hsame hlt]
  exact ⟨fun h => h.1 hin, fun h => ⟨fun _ => h, fun hno => absurd hin hno⟩⟩

theorem and_matches : Matches (.ok ((l.and r).smallest.convert t))
      ((some (a.land b)).bind t.restrict) ↔ BinaryOperator.ampersand.Good t a b := by
  have hs := t.lastSigned_cases
  simp only [BinaryOperator.Good]
  rcases hl.bits with ⟨m, rfl, hpl, hm⟩ | ⟨k, rfl, hpl, hk⟩ <;>
    rcases hr.bits with ⟨n, rfl, hpr, hn⟩ | ⟨j, rfl, hpr, hj⟩
  · have hle : m &&& n ≤ m := Nat.and_le_left
    have hin : t.Evaluates ((l.pattern &&& r.pattern : Nat) : Int) := by
      rw [hpl, hpr]
      unfold IntegerKind.Evaluates
      omega
    rw [IntegerValue.and, bitwise_exact hl hr hsame hin, hpl, hpr]
    exact iff_of_true rfl ⟨by omega, by omega, by omega⟩
  · have hbits : l.pattern &&& r.pattern = Nat.ldiff m (j + 1) := by
      rw [hpl, hpr, Nat.and_comm, complement_and (by omega) (by omega)]
    have hle := ldiff_le m (j + 1)
    have hin : t.Evaluates ((l.pattern &&& r.pattern : Nat) : Int) := by
      unfold IntegerKind.Evaluates
      omega
    have hpred : Int.negSucc j - 1 = Int.negSucc (j + 1) := by omega
    rw [IntegerValue.and, bitwise_exact hl hr hsame hin, hbits, hpred]
    show ((Nat.ldiff m j : Nat) : Int) = _ ↔ _
    refine ⟨fun h => ⟨by omega, by omega, fun _ => h.symm⟩, fun h => (h.2.2 (by omega)).symm⟩
  · have hbits : l.pattern &&& r.pattern = Nat.ldiff n (k + 1) := by
      rw [hpl, hpr, complement_and (by omega) (by omega)]
    have hle := ldiff_le n (k + 1)
    have hin : t.Evaluates ((l.pattern &&& r.pattern : Nat) : Int) := by
      unfold IntegerKind.Evaluates
      omega
    have hpred : Int.negSucc k - 1 = Int.negSucc (k + 1) := by omega
    rw [IntegerValue.and, bitwise_exact hl hr hsame hin, hbits, hpred]
    show ((Nat.ldiff n k : Nat) : Int) = _ ↔ _
    exact ⟨fun h => ⟨by omega, fun _ => h.symm, by omega⟩, fun h => (h.2.1 (by omega)).symm⟩
  · have hlt : l.pattern &&& r.pattern < 2 ^ 64 := by
      have hle : l.pattern &&& r.pattern ≤ l.pattern := Nat.and_le_left
      unfold lastUnsignedLongLong at hpl
      omega
    have hor : k ||| j ≤ t.lastSigned.toNat := by
      rcases hs with ⟨-, hs⟩ | ⟨-, hs⟩
      · have : k ||| j < 2 ^ 63 := Nat.or_lt_two_pow (by omega) (by omega)
        omega
      · have : k ||| j < 2 ^ 31 := Nat.or_lt_two_pow (by omega) (by omega)
        omega
    exact iff_of_false (bitwise_negative hl hr hsame hlt (Int.negSucc_lt_zero (k ||| j))
      (evaluates_negSucc (by omega))) fun h => h.1 ⟨Int.negSucc_lt_zero k, Int.negSucc_lt_zero j⟩

theorem or_matches : Matches (.ok ((l.or r).smallest.convert t))
      ((some (a.lor b)).bind t.restrict) ↔ BinaryOperator.bar.Good t a b := by
  have hs := t.lastSigned_cases
  have hlt : l.pattern ||| r.pattern < 2 ^ 64 := by
    refine Nat.or_lt_two_pow ?_ ?_
    · rcases hl.bits with ⟨m, -, hpl, hm⟩ | ⟨k, -, hpl, hk⟩
      · omega
      · unfold lastUnsignedLongLong at hpl
        omega
    · rcases hr.bits with ⟨m, -, hpr, hm⟩ | ⟨k, -, hpr, hk⟩
      · omega
      · unfold lastUnsignedLongLong at hpr
        omega
  rcases hl.bits with ⟨m, rfl, hpl, hm⟩ | ⟨k, rfl, hpl, hk⟩ <;>
    rcases hr.bits with ⟨n, rfl, hpr, hn⟩ | ⟨j, rfl, hpr, hj⟩
  · have hin : t.Evaluates ((l.pattern ||| r.pattern : Nat) : Int) := by
      rw [hpl, hpr]
      unfold IntegerKind.Evaluates
      rcases hs with ⟨-, hs⟩ | ⟨-, hs⟩
      · have : m ||| n < 2 ^ 64 := Nat.or_lt_two_pow (by omega) (by omega)
        omega
      · have : m ||| n < 2 ^ 32 := Nat.or_lt_two_pow (by omega) (by omega)
        omega
    rw [IntegerValue.or, bitwise_exact hl hr hsame hin, hpl, hpr]
    exact iff_of_true rfl ⟨by omega, by omega⟩
  · have hle := ldiff_le j m
    exact iff_of_false (bitwise_negative hl hr hsame hlt (Int.negSucc_lt_zero (Nat.ldiff j m))
      (evaluates_negSucc (by omega))) fun h => absurd h.2 (not_le.mpr (Int.negSucc_lt_zero j))
  · have hle := ldiff_le k n
    exact iff_of_false (bitwise_negative hl hr hsame hlt (Int.negSucc_lt_zero (Nat.ldiff k n))
      (evaluates_negSucc (by omega))) fun h => absurd h.1 (not_le.mpr (Int.negSucc_lt_zero k))
  · have hle : k &&& j ≤ k := Nat.and_le_left
    exact iff_of_false (bitwise_negative hl hr hsame hlt (Int.negSucc_lt_zero (k &&& j))
      (evaluates_negSucc (by omega))) fun h => absurd h.1 (not_le.mpr (Int.negSucc_lt_zero k))

theorem xor_matches : Matches (.ok ((l.xor r).smallest.convert t))
      ((some (a.xor b)).bind t.restrict) ↔ BinaryOperator.circumflex.Good t a b := by
  have hs := t.lastSigned_cases
  simp only [BinaryOperator.Good]
  have hlt : l.pattern ^^^ r.pattern < 2 ^ 64 := by
    refine Nat.xor_lt_two_pow ?_ ?_
    · rcases hl.bits with ⟨m, -, hpl, hm⟩ | ⟨k, -, hpl, hk⟩
      · omega
      · unfold lastUnsignedLongLong at hpl
        omega
    · rcases hr.bits with ⟨m, -, hpr, hm⟩ | ⟨k, -, hpr, hk⟩
      · omega
      · unfold lastUnsignedLongLong at hpr
        omega
  have hsmall {x y : Nat} (hx : x ≤ t.lastSigned) (hy : y ≤ t.lastSigned) :
      t.Evaluates (Int.negSucc (x ^^^ y)) := by
    refine evaluates_negSucc ?_
    rcases hs with ⟨-, hs⟩ | ⟨-, hs⟩
    · have : x ^^^ y < 2 ^ 63 := Nat.xor_lt_two_pow (by omega) (by omega)
      omega
    · have : x ^^^ y < 2 ^ 31 := Nat.xor_lt_two_pow (by omega) (by omega)
      omega
  have hlarge {x y : Nat} (hx : x ≤ 2 * t.lastSigned + 1) (hy : y ≤ 2 * t.lastSigned + 1) :
      t.Evaluates ((x ^^^ y : Nat) : Int) := by
    unfold IntegerKind.Evaluates
    rcases hs with ⟨-, hs⟩ | ⟨-, hs⟩
    · have : x ^^^ y < 2 ^ 64 := Nat.xor_lt_two_pow (by omega) (by omega)
      omega
    · have : x ^^^ y < 2 ^ 32 := Nat.xor_lt_two_pow (by omega) (by omega)
      omega
  rcases hl.bits with ⟨m, rfl, hpl, hm⟩ | ⟨k, rfl, hpl, hk⟩ <;>
    rcases hr.bits with ⟨n, rfl, hpr, hn⟩ | ⟨j, rfl, hpr, hj⟩
  · have hin : t.Evaluates ((l.pattern ^^^ r.pattern : Nat) : Int) := by
      rw [hpl, hpr]
      exact hlarge hm hn
    rw [IntegerValue.xor, bitwise_exact hl hr hsame hin, hpl, hpr]
    exact iff_of_true rfl (.inl ⟨by omega, by omega⟩)
  · have hm' : (m : Int) ≤ t.lastSigned := hsame.mpr (by omega)
    exact iff_of_false (bitwise_negative hl hr hsame hlt (Int.negSucc_lt_zero (m ^^^ j))
      (hsmall hm' hj)) fun h => by omega
  · have hn' : (n : Int) ≤ t.lastSigned := hsame.mp (by omega)
    exact iff_of_false (bitwise_negative hl hr hsame hlt (Int.negSucc_lt_zero (k ^^^ n))
      (hsmall hk hn')) fun h => by omega
  · have hbits : l.pattern ^^^ r.pattern = (k + 1) ^^^ (j + 1) := by
      rw [hpl, hpr, complement_xor (by omega) (by omega)]
    have hin : t.Evaluates ((l.pattern ^^^ r.pattern : Nat) : Int) := by
      rw [hbits]
      exact hlarge (by omega) (by omega)
    have hpredk : Int.negSucc k - 1 = Int.negSucc (k + 1) := by omega
    have hpredj : Int.negSucc j - 1 = Int.negSucc (j + 1) := by omega
    rw [IntegerValue.xor, bitwise_exact hl hr hsame hin, hbits, hpredk, hpredj]
    show ((k ^^^ j : Nat) : Int) = _ ↔ _
    constructor
    · exact fun h => .inr ⟨Int.negSucc_lt_zero k, Int.negSucc_lt_zero j, h.symm⟩
    · rintro (h | h)
      · exact absurd h.1 (not_le.mpr (Int.negSucc_lt_zero k))
      · exact h.2.2.symm

end Bits

end IntegerValue

end PolyORB
