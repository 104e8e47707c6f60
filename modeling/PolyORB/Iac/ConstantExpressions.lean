import PolyORB.Iac.Operators

/-!
# Constant expressions

The meaning of a constant expression, and exactly when iac evaluates it and all its operands as they
are meant, for a constant declaration, a case label or an array bound.
-/

namespace PolyORB

open IntegerValue

variable {op : BinaryOperator} {v : IntegerValue}

namespace ConstantExpression

variable {t : IntegerKind} {e l r : ConstantExpression} {a b : Int}

/-- The number that a literal denotes. -/
def number (base : Nat) (digits : List Nat) : Nat := digits.foldl (fun v d => v * base + d) 0

/-- The mathematical value, if it and all intermediate values are in the evaluation range. -/
def meaning (t : IntegerKind) : ConstantExpression → Option Int
  | .literal base digits => t.restrict (number base digits)
  | .scopedName recorded => (recorded.map fun v => v.val.value).bind t.restrict
  | .unary op right => (meaning t right).bind fun a => t.restrict (op.meaning t a)
  | .binary op left right =>
    (meaning t left).bind fun a => (meaning t right).bind fun b => (op.meaning a b).bind t.restrict

/-- `P` holds of the expression and of all its operands. -/
def Throughout (P : ConstantExpression → Prop) : ConstantExpression → Prop
  | .literal base digits => P (.literal base digits)
  | .scopedName recorded => P (.scopedName recorded)
  | .unary op right => Throughout P right ∧ P (.unary op right)
  | .binary op left right => Throughout P left ∧ Throughout P right ∧ P (.binary op left right)

/-- Operands are of the same type if both or none of them are too large for the signed type. -/
def SameType (t : IntegerKind) (a b : Int) : Prop := a ≤ t.lastSigned ↔ b ≤ t.lastSigned

/-- The operator of an expression is evaluated as it is meant. -/
def Good (t : IntegerKind) : ConstantExpression → Prop
  | .literal base digits => Unwrapped t (number base digits)
  | .scopedName _ => True
  | .unary op right => ∀ a ∈ meaning t right, op.Good t a
  | .binary op left right => ∀ a ∈ meaning t left, ∀ b ∈ meaning t right,
      (SameType t a b → op.Good t a b) ∧
      (¬SameType t a b → (op.meaning a b).bind t.restrict = none)

theorem throughout_self {P : ConstantExpression → Prop} (h : Throughout P e) : P e := by
  cases e with
  | literal base digits => exact h
  | scopedName recorded => exact h
  | unary op right => exact h.2
  | binary op left right => exact h.2.2

theorem integerLiteralValue_eq (base : Nat) (digits : List Nat) :
    integerLiteralValue base digits = number base digits % 2 ^ 64 := by
  suffices hgen : ∀ v w : Nat, v = w % 2 ^ 64 →
      digits.foldl (fun v d => (v * base + d) % 2 ^ 64) v =
        digits.foldl (fun v d => v * base + d) w % 2 ^ 64 from hgen 0 0 rfl
  induction digits with
  | nil => exact fun _ _ h => h
  | cons d digits ih =>
    intro v w hvw
    refine ih _ _ ?_
    rw [hvw]
    exact ((Nat.mod_modEq w (2 ^ 64)).mul_right base).add_right d

theorem evaluates_of_meaning (h : a ∈ meaning t e) : t.Evaluates a := by
  have hrestrict {x : Int} (hx : a ∈ t.restrict x) : t.Evaluates a := by
    unfold IntegerKind.restrict at hx
    split at hx
    · rename_i he
      obtain rfl := Option.some.inj hx
      exact he
    · cases hx
  cases e with
  | literal base digits => exact hrestrict h
  | scopedName recorded =>
    obtain ⟨x, -, hx⟩ := Option.bind_eq_some_iff.mp h
    exact hrestrict hx
  | unary op right =>
    obtain ⟨x, -, hx⟩ := Option.bind_eq_some_iff.mp h
    exact hrestrict hx
  | binary op left right =>
    obtain ⟨x, -, hx⟩ := Option.bind_eq_some_iff.mp h
    obtain ⟨y, -, hy⟩ := Option.bind_eq_some_iff.mp hx
    obtain ⟨z, -, hz⟩ := Option.bind_eq_some_iff.mp hy
    exact hrestrict hz

/-! ## What is resolved -/

/-- A resolved value is of a type that it fits in, unless there is none. -/
structure Resolved (v : IntegerValue) : Prop where
  wide : v.Wide
  fits : v.fits v.k = true ∨ v.value < -2 ^ 63

theorem resolved_smallest (h : v.Wide) :
    Resolved v.smallest ∧ v.smallest.value = v.value := by
  obtain ⟨k, hsmall, hfit⟩ := smallest_eq h
  rw [hsmall]
  exact ⟨⟨⟨h.iVal, h.sign⟩, hfit.imp_right And.right⟩, rfl⟩

theorem convert_fields {w : IntegerValue} (h : v.convert t = some w) :
    w.iVal = v.iVal ∧ w.sign = v.sign := by
  unfold IntegerValue.convert at h
  split_ifs at h <;> obtain rfl := Option.some.inj h <;> exact ⟨rfl, rfl⟩

theorem operand_cases (h : Matches (operand t e) (meaning t e)) :
    (operand t e = .ok none ∧ meaning t e = none) ∨
      ∃ v a, operand t e = .ok (some v) ∧ meaning t e = some a ∧ Operand t v a := by
  cases ho : operand t e with
  | error e =>
    rw [ho] at h
    exact absurd h id
  | ok o =>
    cases o with
    | none =>
      rw [ho] at h
      exact .inl ⟨rfl, h⟩
    | some v =>
      rw [ho] at h
      obtain ⟨hnorm, hm⟩ := h
      have hin := evaluates_of_meaning hm
      refine .inr ⟨v, v.value, rfl, hm, hnorm, rfl, hin, ?_⟩
      unfold operand at ho
      cases hr : resolveExpr t e with
      | error e =>
        rw [hr] at ho
        cases ho
      | ok o =>
        cases o with
        | none =>
          rw [hr] at ho
          cases ho
        | some w =>
          rw [hr] at ho
          have hconv : w.convert t = some v := Except.ok.inj ho
          obtain ⟨hi, hsign⟩ := convert_fields hconv
          have hval : w.value = v.value := by
            unfold value
            rw [hi, hsign]
          have hw : w.Wide := by
            refine ⟨?_, ?_⟩
            · rw [← hi]
              exact hnorm.iVal
            · rw [← hsign]
              exact hnorm.wide.sign
          rw [convert_of_evaluates hw (by rwa [hval]), hval] at hconv
          exact congrArg IntegerValue.k (Option.some.inj hconv).symm

/-! ## Every operand -/

theorem literal_matches (base : Nat) (digits : List Nat) :
    Matches (operand t (.literal base digits)) (meaning t (.literal base digits)) ↔
      Good t (.literal base digits) := by
  have hs := t.lastSigned_cases
  simp only [operand, resolveExpr, converted, meaning, Good, integerLiteralValue_eq]
  generalize number base digits = n
  generalize hv : (⟨.unsignedLongLong, n % 2 ^ 64, 1, base⟩ : IntegerValue) = v
  have hw : v.Wide := by
    rw [← hv]
    exact ⟨Nat.mod_lt _ (by omega), .inl rfl⟩
  have hval : v.value = wrap n := by
    rw [← hv, value, wrap, if_neg (by omega)]
    exact Int.one_mul _
  unfold Unwrapped
  by_cases hin : t.Evaluates v.value
  · rw [convert_of_evaluates hw hin, ← hval]
    have hn : v.Normal := hw.normal_iff.mpr fun _ => by rw [← hv]
    constructor
    · rintro ⟨-, hm⟩
      unfold IntegerKind.restrict at hm
      split at hm
      · exact .inl (Option.some.inj hm).symm
      · cases hm
    · rintro (h | h)
      · refine ⟨⟨hn.iVal, hn.sign⟩, ?_⟩
        rw [← h, IntegerKind.restrict_of hin]
        rfl
      · exact absurd hin h
  · have hk : v.k ≠ t.unsigned := fun hk => hin ?_
    · rw [convert_of_not hw hin, if_neg hk, ← hval]
      refine iff_of_true (IntegerKind.restrict_of_not fun hn => hin ?_) (.inr hin)
      rw [hval, wrap_of_evaluates hn]
      exact hn
    · rw [← hv] at hk
      have hwide : t.wide = true := by cases t <;> first | rfl | cases hk
      rcases hs with ⟨-, hs⟩ | ⟨hno, -⟩
      · rw [hval]
        unfold IntegerKind.Evaluates wrap
        split <;> omega
      · rw [hwide] at hno
        cases hno

theorem scopedName_matches (recorded : Option RecordedValue) :
    Matches (operand t (.scopedName recorded)) (meaning t (.scopedName recorded)) := by
  cases recorded with
  | none => rfl
  | some v =>
    simp only [operand, resolveExpr, converted, meaning, Option.map_some, Option.bind_some]
    by_cases hin : t.Evaluates v.val.value
    · rw [convert_of_evaluates v.normal.wide hin]
      exact ⟨⟨v.normal.iVal, v.normal.sign⟩, IntegerKind.restrict_of hin⟩
    · have hk : v.val.k ≠ t.unsigned := fun hk => hin ?_
      · rw [convert_of_not v.normal.wide hin, if_neg hk]
        exact IntegerKind.restrict_of_not hin
      · obtain ⟨hlow, hhigh⟩ := v.range
        obtain ⟨hf, hl⟩ := t.unsigned_range
        rw [hk] at hlow hhigh
        unfold IntegerKind.Evaluates
        omega

theorem unary_matches {op : UnaryOperator} (h : Matches (operand t r) (meaning t r)) :
    Matches (operand t (.unary op r)) (meaning t (.unary op r)) ↔ Good t (.unary op r) := by
  have hop : operand t (.unary op r) = converted t (resolveUnary op (operand t r)) := rfl
  rw [hop]
  simp only [meaning, Good]
  rcases operand_cases h with ⟨ho, hm⟩ | ⟨v, a, ho, hm, hv⟩
  · rw [ho, hm]
    exact iff_of_true rfl nofun
  · rw [ho, hm]
    have hall : (∀ x ∈ some a, op.Good t x) ↔ op.Good t a :=
      ⟨fun hx => hx a rfl, fun ha x hx => by obtain rfl := Option.some.inj hx; exact ha⟩
    rw [hall]
    cases op with
    | plus => exact iff_of_true (plus_matches hv) trivial
    | minus => exact neg_matches hv
    | tilde => exact tilde_matches hv

theorem same_matches {lv rv : IntegerValue} (hl : Operand t lv a)
    (hr : Operand t rv b) (hsame : SameType t a b) :
    Matches (converted t (resolveBinary op (.ok (some lv)) (.ok (some rv))))
      ((op.meaning a b).bind t.restrict) ↔ op.Good t a b := by
  cases op with
  | star =>
    rw [resolveBinary_ok hl hr hsame .star rfl]
    exact mul_matches hl hr hsame
  | slash => exact div_matches hl hr hsame
  | percent => exact mod_matches hl hr hsame
  | plus =>
    rw [resolveBinary_ok hl hr hsame .plus rfl]
    exact add_matches hl hr hsame
  | minus =>
    rw [resolveBinary_ok hl hr hsame .minus rfl]
    exact sub_matches hl hr hsame
  | lessLess => exact shiftLeft_matches hl hr hsame
  | greaterGreater => exact shiftRight_matches hl hr hsame
  | ampersand =>
    rw [resolveBinary_ok hl hr hsame .ampersand rfl]
    exact and_matches hl hr hsame
  | bar =>
    rw [resolveBinary_ok hl hr hsame .bar rfl]
    exact or_matches hl hr hsame
  | circumflex =>
    rw [resolveBinary_ok hl hr hsame .circumflex rfl]
    exact xor_matches hl hr hsame

theorem resolveBinary_of_not_same {lv rv : IntegerValue}
    (hl : Operand t lv a) (hr : Operand t rv b) (hne : ¬SameType t a b) :
    resolveBinary op (.ok (some lv)) (.ok (some rv)) = .ok none := by
  have hk : lv.k ≠ rv.k := by
    rw [hl.k, hr.k, Ne, operandKind_eq_iff]
    exact hne
  simp [resolveBinary, if_pos hk]

theorem binary_matches (hl : Matches (operand t l) (meaning t l))
    (hr : Matches (operand t r) (meaning t r)) :
    Matches (operand t (.binary op l r)) (meaning t (.binary op l r)) ↔
      Good t (.binary op l r) := by
  have hop : operand t (.binary op l r) =
    converted t (resolveBinary op (operand t l) (operand t r)) := rfl
  rw [hop]
  simp only [meaning, Good]
  rcases operand_cases hl with ⟨hol, hml⟩ | ⟨lv, a, hol, hml, hlv⟩
  · rw [hol, hml]
    exact iff_of_true rfl nofun
  rcases operand_cases hr with ⟨hor, hmr⟩ | ⟨rv, b, hor, hmr, hrv⟩
  · rw [hol, hml, hor, hmr]
    exact iff_of_true rfl nofun
  rw [hol, hml, hor, hmr]
  simp only [Option.bind_some, Option.mem_some, forall_eq']
  by_cases hsame : SameType t a b
  · rw [same_matches hlv hrv hsame]
    exact ⟨fun h => ⟨fun _ => h, fun hne => absurd hsame hne⟩, fun h => h.1 hsame⟩
  · rw [resolveBinary_of_not_same hlv hrv hsame]
    exact ⟨fun h => ⟨fun hs => absurd hs hsame, fun _ => h⟩, fun h => h.2 hsame⟩

theorem throughout_matches_iff :
    Throughout (fun e => Matches (operand t e) (meaning t e)) e ↔ Throughout (Good t) e := by
  induction e with
  | literal base digits => exact literal_matches base digits
  | scopedName recorded => exact iff_of_true (scopedName_matches recorded) trivial
  | unary op right ih =>
    constructor
    · exact fun h => ⟨ih.mp h.1, (unary_matches (throughout_self h.1)).mp h.2⟩
    · intro h
      have hright := ih.mpr h.1
      exact ⟨hright, (unary_matches (throughout_self hright)).mpr h.2⟩
  | binary op left right ihl ihr =>
    constructor
    · exact fun h => ⟨ihl.mp h.1, ihr.mp h.2.1,
        (binary_matches (throughout_self h.1) (throughout_self h.2.1)).mp h.2.2⟩
    · intro h
      have hleft := ihl.mpr h.1
      have hright := ihr.mpr h.2.1
      exact ⟨hleft, hright,
        (binary_matches (throughout_self hleft) (throughout_self hright)).mpr h.2.2⟩

end ConstantExpression

/-! ## What is recorded -/

/-- Where a constant expression stands. -/
inductive ConstantContext where
  | constantDeclaration (t : IntegerKind)
  | caseLabel (switchType : IntegerKind)
  | arrayBound
  deriving DecidableEq

namespace ConstantContext

def type : ConstantContext → IntegerKind
  | .constantDeclaration t | .caseLabel t => t
  | .arrayBound => .unsignedLongLong

open ConstantExpression

/-- What iac records. -/
def recorded (e : ConstantExpression) : ConstantContext → Except Exn (Option IntegerValue)
  | .constantDeclaration t => declare t e
  | .caseLabel t => ConstantExpression.caseLabel t e
  | .arrayBound => ConstantExpression.arrayBound e

/-- What is to be recorded: the meaning, if it is in the range of the type. -/
def expected (c : ConstantContext) (e : ConstantExpression) : Option Int :=
  (meaning c.type e).bind fun a => if c.type.first ≤ a ∧ a ≤ c.type.last then some a else none

/-- The expression is evaluated as CORBA specifies, and so are its operands. -/
def Evaluated (c : ConstantContext) (e : ConstantExpression) : Prop :=
  Throughout (fun e => Matches (operand c.type e) (meaning c.type e)) e ∧
    Matches (c.recorded e) (c.expected e)

end ConstantContext

/-- The result of an operator, as far as it can be below the range of 64 bits. -/
def BinaryOperator.lost : BinaryOperator → Int → Int → Int
  | .star, a, b => wrap (a * b)
  | .plus, a, b => wrap (a + b)
  | .minus, a, b => wrap (a - b)
  | .lessLess, a, b => if 0 ≤ b then wrap (a * 2 ^ b.toNat) else 0
  | .greaterGreater, a, b => if b < 0 then wrap (a * 2 ^ b.natAbs) else 0
  | .slash, _, _ | .percent, _, _ | .ampersand, _, _ | .bar, _, _ | .circumflex, _, _ => 0

namespace ConstantExpression

/-- The outermost operator of a declaration of type `long` or `long long` does not get below the
range of `long long`. -/
def Declarable (t : IntegerKind) : ConstantExpression → Prop
  | .literal _ _ | .scopedName _ | .unary _ _ => True
  | .binary op l r => t = t.signed → ∀ a ∈ meaning t l, ∀ b ∈ meaning t r,
      SameType t a b → -2 ^ 63 ≤ op.lost a b

/-- There is an error in an operand, or the operands are not of the same type. -/
def Rejected (t : IntegerKind) : ConstantExpression → Prop
  | .literal _ _ => False
  | .scopedName recorded => recorded = none
  | .unary _ r => meaning t r = none
  | .binary _ l r => ∀ a ∈ meaning t l, ∀ b ∈ meaning t r, ¬SameType t a b

variable {t : IntegerKind} {e l r : ConstantExpression} {a b : Int} {lv rv w : IntegerValue}

theorem quotient_ge (hl : Operand t lv a) (hr : Operand t rv b) (hsame : SameType t a b) {m : Nat}
    (hle : m ≤ lv.iVal) : -2 ^ 63 ≤ lv.sign * rv.sign * m := by
  have hs := t.lastSigned_cases
  have hea := hl.evaluates
  unfold IntegerKind.Evaluates at hea
  unfold SameType at hsame
  rcases hl.cases with ⟨hsl, ha⟩ | ⟨hsl, -, ha⟩ <;>
    rcases hr.cases with ⟨hsr, hb⟩ | ⟨hsr, -, hb⟩ <;>
    rw [hsl, hsr] <;> omega

theorem apply_value (hl : Operand t lv a) (hr : Operand t rv b)
    (hsame : SameType t a b) (happly : op.apply lv rv = .ok w) :
    w.Wide ∧ w.k = lv.k ∧ (w.value < -2 ^ 63 ↔ op.lost a b < -2 ^ 63) ∧
      (t.lastSigned < a → -2 ^ 63 ≤ w.value) := by
  have hs := t.lastSigned_cases
  have hk : rv.k = lv.k := by
    rw [hl.k, hr.k, eq_comm, operandKind_eq_iff]
    exact hsame
  have hnonneg {x : Int} (hx : 0 ≤ x) : -2 ^ 63 ≤ wrap x := by
    unfold wrap
    split <;> omega
  have hbits {f : Nat → Nat → Nat} (hlt : f lv.pattern rv.pattern < 2 ^ 64) :
      (bitwise f lv rv).Wide ∧ (bitwise f lv rv).k = lv.k ∧
        ((bitwise f lv rv).value < -2 ^ 63 ↔ (0 : Int) < -2 ^ 63) ∧
        (t.lastSigned < a → -2 ^ 63 ≤ (bitwise f lv rv).value) := by
    have hval : (bitwise f lv rv).value = (f lv.pattern rv.pattern : Nat) := Int.one_mul _
    refine ⟨⟨hlt, .inl rfl⟩, rfl, ?_, fun _ => ?_⟩ <;> rw [hval] <;> omega
  have hpattern {v : IntegerValue} {c : Int} (hv : Operand t v c) : v.pattern < 2 ^ 64 := by
    rcases hv.bits with ⟨m, -, hm, hle⟩ | ⟨k, -, hm, -⟩
    · omega
    · unfold lastUnsignedLongLong at hm
      omega
  have hpos (ha : t.lastSigned < a) : 0 < b := by
    unfold SameType at hsame
    omega
  have exact {m base : Nat} (hle : m ≤ lv.iVal) :
      ({ lv with base := base, sign := lv.sign * rv.sign, iVal := m } : IntegerValue).Wide ∧
        lv.k = lv.k ∧ (lv.sign * rv.sign * m < -2 ^ 63 ↔ (0 : Int) < -2 ^ 63) ∧
        (t.lastSigned < a → -2 ^ 63 ≤ lv.sign * rv.sign * m) := by
    have hge := quotient_ge hl hr hsame hle
    exact ⟨⟨lt_of_le_of_lt hle hl.normal.iVal, sign_mul hl hr⟩, rfl, by omega, fun _ => hge⟩
  have hleft (happly : lv.shiftMagnitudeLeft rv = .ok w) : w.Wide ∧ w.k = lv.k ∧
      (w.value < -2 ^ 63 ↔ wrap (a * 2 ^ b.natAbs) < -2 ^ 63) ∧
      (t.lastSigned < a → -2 ^ 63 ≤ w.value) := by
    rw [shiftMagnitudeLeft, amount_eq hr] at happly
    split at happly
    · cases happly
    · rename_i n hn
      split at hn
      · obtain rfl := Except.ok.inj hn
        obtain rfl := Except.ok.inj happly
        obtain ⟨hw, hval⟩ := shifted_left hl b.natAbs
        rw [hval]
        exact ⟨hw, rfl, Iff.rfl, fun ha => hnonneg (Int.mul_nonneg (by omega) (by positivity))⟩
      · cases hn
  have hright (happly : lv.shiftMagnitudeRight rv = .ok w) : w.Wide ∧ w.k = lv.k ∧
      (w.value < -2 ^ 63 ↔ (0 : Int) < -2 ^ 63) ∧ (t.lastSigned < a → -2 ^ 63 ≤ w.value) := by
    rw [shiftMagnitudeRight, amount_eq hr] at happly
    split at happly
    · cases happly
    · rename_i n hn
      split at hn
      · obtain rfl := Except.ok.inj hn
        obtain rfl := Except.ok.inj happly
        obtain ⟨hw, hin⟩ := shifted_right hl b.natAbs
        have hlow := hin.1
        exact ⟨hw, rfl, by omega, fun _ => by omega⟩
      · cases hn
  cases op with
  | star =>
    obtain rfl := Except.ok.inj happly
    obtain ⟨hval, hw⟩ := mul_spec hl hr
    rw [hval]
    exact ⟨hw, rfl, Iff.rfl, fun ha => hnonneg (Int.mul_nonneg (by omega) (hpos ha).le)⟩
  | slash =>
    simp only [BinaryOperator.apply, div] at happly
    split at happly
    · cases happly
    obtain rfl := Except.ok.inj happly
    exact exact (Nat.div_le_self ..)
  | percent =>
    simp only [BinaryOperator.apply, mod] at happly
    split at happly
    · cases happly
    obtain rfl := Except.ok.inj happly
    exact exact (Nat.mod_le ..)
  | plus =>
    obtain rfl := Except.ok.inj happly
    obtain ⟨hval, hw, -, hk'⟩ := add_spec hl.normal.wide hr.normal.wide
    rw [hl.value, hr.value] at hval
    rw [hval]
    exact ⟨hw, hk'.trans hk, Iff.rfl, fun ha => hnonneg (by omega)⟩
  | minus =>
    obtain rfl := Except.ok.inj happly
    obtain ⟨hval, hw, -, hk'⟩ := sub_spec hl hr
    rw [hval]
    refine ⟨hw, hk'.trans hk, Iff.rfl, fun ha => ?_⟩
    have hin := hr.evaluates
    unfold IntegerKind.Evaluates at hin
    unfold wrap
    split <;> omega
  | lessLess =>
    simp only [BinaryOperator.apply, shiftLeft] at happly
    simp only [BinaryOperator.lost]
    split at happly
    · rename_i hneg
      rw [if_neg (not_le.mpr ((sign_neg_iff hr).mp hneg))]
      exact hright happly
    · rename_i hneg
      have hb := not_lt.mp (mt (sign_neg_iff hr).mpr hneg)
      rw [if_pos hb, show b.toNat = b.natAbs by omega]
      exact hleft happly
  | greaterGreater =>
    simp only [BinaryOperator.apply, shiftRight] at happly
    simp only [BinaryOperator.lost]
    split at happly
    · rename_i hneg
      rw [if_pos ((sign_neg_iff hr).mp hneg)]
      exact hleft happly
    · rename_i hneg
      rw [if_neg (mt (sign_neg_iff hr).mpr hneg)]
      exact hright happly
  | ampersand =>
    obtain rfl := Except.ok.inj happly
    exact hbits (lt_of_le_of_lt Nat.and_le_left (hpattern hl))
  | bar =>
    obtain rfl := Except.ok.inj happly
    exact hbits (Nat.or_lt_two_pow (hpattern hl) (hpattern hr))
  | circumflex =>
    obtain rfl := Except.ok.inj happly
    exact hbits (Nat.xor_lt_two_pow (hpattern hl) (hpattern hr))

abbrev Correct (t : IntegerKind) (e : ConstantExpression) : Prop :=
  Throughout (fun e => Matches (operand t e) (meaning t e)) e

theorem leaf_resolved (hn : v.Normal) (hlow : v.k.first ≤ v.value)
    (hhigh : v.value ≤ v.k.last) : Resolved v ∧ -2 ^ 63 ≤ v.value := by
  have hfirst : -2 ^ 63 ≤ v.k.first := by cases v.k <;> decide
  refine ⟨⟨hn.wide, .inl (hn.wide.fits_iff.mpr ⟨⟨hlow, hhigh⟩, fun hs => ?_⟩)⟩, by omega⟩
  rcases hn.wide.cases with ⟨hs', -⟩ | ⟨-, hv⟩
  · rw [hs] at hs'
    cases hs'
  · rcases hn.sign with hs' | ⟨-, hpos⟩
    · rw [hs] at hs'
      cases hs'
    · omega

theorem unary_value {op : UnaryOperator} (hv : Operand t v a)
    (hgood : op.Good t a) (happly : op.apply v = .ok w) : w.Wide ∧ -2 ^ 63 ≤ w.value := by
  have hs := t.lastSigned_cases
  have hin := hv.evaluates
  unfold IntegerKind.Evaluates at hin
  cases op with
  | plus =>
    obtain rfl := Except.ok.inj happly
    exact ⟨hv.normal.wide, by rw [hv.value]; omega⟩
  | minus =>
    obtain rfl := Except.ok.inj happly
    obtain ⟨hw, hval⟩ := neg_wide hv.normal.wide
    rw [hval, hv.value]
    refine ⟨hw, ?_⟩
    rcases hs with ⟨hwide, -⟩ | ⟨-, hs⟩
    · have := hgood.2 hwide
      omega
    · omega
  | tilde =>
    rw [UnaryOperator.apply, not_eq hv] at happly
    obtain rfl := Except.ok.inj happly
    have hpos := (sign_eq_one_iff hv).mpr (not_lt.mpr hgood.2)
    refine ⟨⟨?_, .inl hpos⟩, ?_⟩
    · show (2 * t.lastSigned + 1).toNat - v.iVal < 2 ^ 64
      omega
    · show _ ≤ v.sign * _
      rw [hpos]
      omega

theorem resolved_of_correct (h : Correct t e) :
    (∀ v, resolveExpr t e = .ok (some v) → Resolved v) ∧
      (Declarable t e ↔
        ∀ v, resolveExpr t e = .ok (some v) → ¬(v.value < -2 ^ 63 ∧ v.k = t)) := by
  cases e with
  | literal base digits =>
    simp only [resolveExpr, Except.ok.injEq, Option.some.injEq, forall_eq']
    have hlt : integerLiteralValue base digits < 2 ^ 64 := by
      rw [integerLiteralValue_eq]
      exact Nat.mod_lt _ (by omega)
    have hval : (⟨.unsignedLongLong, integerLiteralValue base digits, 1, base⟩ :
        IntegerValue).value = integerLiteralValue base digits := Int.one_mul _
    obtain ⟨hr, hlow⟩ := leaf_resolved
      (v := ⟨.unsignedLongLong, integerLiteralValue base digits, 1, base⟩) ⟨hlt, .inl rfl⟩
      (by exact Int.natCast_nonneg _)
      (by rw [hval]; exact_mod_cast Nat.le_pred_of_lt hlt)
    exact ⟨hr, iff_of_true trivial fun hno => by omega⟩
  | scopedName recorded =>
    cases recorded with
    | none => exact ⟨by rintro _ ⟨⟩, iff_of_true trivial (by rintro _ ⟨⟩)⟩
    | some v =>
      simp only [resolveExpr, Option.map_some, Except.ok.injEq, Option.some.injEq, forall_eq']
      obtain ⟨hr, hlow⟩ := leaf_resolved v.normal v.range.1 v.range.2
      exact ⟨hr, iff_of_true trivial fun hno => by omega⟩
  | unary op right =>
    have hgood := (unary_matches (throughout_self h.1)).mp h.2
    have hres : resolveExpr t (.unary op right) = resolveUnary op (operand t right) := rfl
    rw [hres]
    rcases operand_cases (throughout_self h.1) with ⟨ho, -⟩ | ⟨v, a, ho, hm, hv⟩
    · rw [ho]
      exact ⟨by rintro _ ⟨⟩, iff_of_true trivial (by rintro _ ⟨⟩)⟩
    · rw [ho]
      cases happly : op.apply v with
      | error x =>
        simp only [resolveUnary, happly]
        exact ⟨by rintro _ ⟨⟩, iff_of_true trivial (by rintro _ ⟨⟩)⟩
      | ok w =>
        obtain ⟨hw, hlow⟩ := unary_value hv (hgood a hm) happly
        obtain ⟨hr, hval⟩ := resolved_smallest hw
        simp only [resolveUnary, happly, Except.map, Except.ok.injEq, Option.some.injEq, forall_eq']
        exact ⟨hr, iff_of_true trivial fun hno => by omega⟩
  | binary op left right =>
    have hres : resolveExpr t (.binary op left right) =
      resolveBinary op (operand t left) (operand t right) := rfl
    rw [hres]
    simp only [Declarable]
    rcases operand_cases (throughout_self h.1) with ⟨hol, hml⟩ | ⟨lv, a, hol, hml, hlv⟩
    · rw [hol, hml]
      exact ⟨by rintro _ ⟨⟩, iff_of_true (by simp) (by rintro _ ⟨⟩)⟩
    rcases operand_cases (throughout_self h.2.1) with ⟨hor, hmr⟩ | ⟨rv, b, hor, hmr, hrv⟩
    · rw [hol, hor, hmr]
      exact ⟨by rintro _ ⟨⟩, iff_of_true (by simp) (by rintro _ ⟨⟩)⟩
    rw [hol, hml, hor, hmr]
    simp only [Option.mem_some, forall_eq']
    by_cases hsame : SameType t a b
    swap
    · rw [resolveBinary_of_not_same hlv hrv hsame]
      exact ⟨by simp, iff_of_true (fun _ hs => absurd hs hsame) (by simp)⟩
    have hroot : Matches (operand t (.binary op left right)) (meaning t (.binary op left right)) :=
      h.2.2
    cases happly : op.apply lv rv with
    | error x =>
      have hop : operand t (.binary op left right) =
        converted t (resolveBinary op (operand t left) (operand t right)) := rfl
      rw [hop, hol, hor] at hroot
      exact absurd hroot (resolveBinary_error hlv hrv hsame op happly _)
    | ok w =>
      obtain ⟨hw, hk, hlost, hpos⟩ := apply_value hlv hrv hsame happly
      obtain ⟨k, hsmall, hfit⟩ := smallest_eq hw
      have hkinds : ¬lv.k ≠ rv.k := by
        rw [hlv.k, hrv.k, not_ne_iff, operandKind_eq_iff]
        exact hsame
      simp only [resolveBinary, if_neg hkinds, happly, Except.map, Except.ok.injEq,
        Option.some.injEq, forall_eq']
      refine ⟨(resolved_smallest hw).1, ?_⟩
      rw [(resolved_smallest hw).2, hsmall]
      simp only [hsame, forall_true_left]
      have hkind (hlow : w.value < -2 ^ 63) : k = t.signed := by
        rcases hfit with hfit | ⟨hfit, -⟩
        · have hfirst : -2 ^ 63 ≤ k.first := by cases k <;> decide
          have := (hw.fits_iff.mp hfit).1.1
          omega
        · have ha : a ≤ t.lastSigned := by
            by_contra ha
            omega
          rw [hfit, hk, hlv.k, operandKind, if_pos ha]
      constructor
      · rintro hdecl ⟨hlow, hkt⟩
        have := hdecl (hkt.symm.trans (hkind hlow))
        omega
      · intro hno hsigned
        by_contra hlt
        have hlow := hlost.mpr (by omega)
        exact hno ⟨hlow, (hkind hlow).trans hsigned.symm⟩

end ConstantExpression

namespace ConstantContext

open ConstantExpression

/-- What the context adds: a declaration is converted exactly, a case label only into the evaluation
range of its type, an array bound not at all. -/
def Fitting (e : ConstantExpression) : ConstantContext → Prop
  | .constantDeclaration t => Declarable t e
  | .caseLabel t => ∀ a ∈ meaning t e, t.first ≤ a ∧ a ≤ t.last
  | .arrayBound => (∃ a ∈ meaning .unsignedLongLong e, 0 ≤ a) ∨ Rejected .unsignedLongLong e

variable {t : IntegerKind} {e : ConstantExpression}

theorem range_evaluates (t : IntegerKind) {a : Int} (h : t.first ≤ a ∧ a ≤ t.last) :
    t.Evaluates a := by
  have hle : t.first ≥ -t.lastSigned - 1 ∧ (t.last : Int) ≤ 2 * t.lastSigned + 1 := by
    cases t <;> decide
  exact ⟨by omega, by omega⟩

theorem fits_of_normal (h : v.Normal) :
    v.fits t = true ↔ t.first ≤ v.value ∧ v.value ≤ t.last := by
  rw [h.wide.fits_iff]
  refine ⟨And.left, fun hr => ⟨hr, fun hs => ?_⟩⟩
  rcases h.sign with hs' | ⟨-, hpos⟩
  · rw [hs] at hs'
    cases hs'
  · rcases h.wide.cases with ⟨hs', -⟩ | ⟨-, hv⟩
    · rw [hs] at hs'
      cases hs'
    · omega

theorem declare_matches (h : Correct t e) :
    Matches (declare t e) (expected (.constantDeclaration t) e) ↔ Declarable t e := by
  obtain ⟨hresolved, hdecl⟩ := resolved_of_correct h
  have hroot : Matches (operand t e) (meaning t e) := throughout_self h
  rw [hdecl]
  unfold operand at hroot
  unfold declare expected
  cases hres : resolveExpr t e with
  | error x =>
    rw [hres] at hroot
    exact absurd hroot id
  | ok o =>
    rw [hres] at hroot
    cases o with
    | none =>
      have hm : meaning t e = none := hroot
      refine iff_of_true ?_ nofun
      show (meaning t e).bind _ = none
      rw [hm]
      rfl
    | some v =>
      have hv := hresolved v hres
      have hroot : Matches (.ok (v.convert t)) (meaning t e) := hroot
      show Matches (.ok (v.convertExactly t)) ((meaning t e).bind fun a =>
        if t.first ≤ a ∧ a ≤ t.last then some a else none) ↔ _
      simp only [Except.ok.injEq, Option.some.injEq, forall_eq']
      unfold convertExactly
      by_cases hin : t.Evaluates v.value
      · rw [convert_of_evaluates hv.wide hin] at hroot
        obtain ⟨hn, hm⟩ := hroot
        have hn : v.Normal := ⟨hn.iVal, hn.sign⟩
        have hm : meaning t e = some v.value := hm
        have hlow : ¬v.value < -2 ^ 63 := by
          have := hin.1
          have := t.lastSigned_cases
          omega
        refine iff_of_true ?_ fun hno => hlow hno.1
        rw [hm, Option.bind_some]
        by_cases hfit : v.fits t = true
        · rw [if_pos hfit, if_pos ((fits_of_normal hn).mp hfit)]
          exact ⟨⟨hn.iVal, hn.sign⟩, rfl⟩
        · have hk : v.k ≠ t := by
            rintro rfl
            exact hv.fits.elim hfit hlow
          rw [if_neg hfit, if_neg hk, if_neg (mt (fits_of_normal hn).mpr hfit)]
          rfl
      · have hfit : ¬v.fits t = true := fun hfit =>
          hin (range_evaluates t (hv.wide.fits_iff.mp hfit).1)
        have hm : meaning t e = none := by
          rw [convert_of_not hv.wide hin] at hroot
          split at hroot
          · exact absurd (evaluates_of_meaning hroot.2) hin
          · exact hroot
        rw [if_neg hfit, hm]
        by_cases hk : v.k = t
        · have hlow : v.value < -2 ^ 63 := hv.fits.resolve_left fun hf => hfit (by rwa [hk] at hf)
          rw [if_pos hk]
          exact iff_of_false (fun hag => nomatch hag.2) fun hno => hno ⟨hlow, hk⟩
        · rw [if_neg hk]
          exact iff_of_true rfl fun hno => hk hno.2

theorem caseLabel_matches (h : Correct t e) :
    Matches (ConstantExpression.caseLabel t e) (expected (.caseLabel t) e) ↔
      ∀ a ∈ meaning t e, t.first ≤ a ∧ a ≤ t.last := by
  show Matches (operand t e) ((meaning t e).bind fun a =>
    if t.first ≤ a ∧ a ≤ t.last then some a else none) ↔ _
  rcases operand_cases (throughout_self h) with ⟨ho, hm⟩ | ⟨v, a, ho, hm, hv⟩
  · rw [ho, hm]
    exact iff_of_true rfl nofun
  · rw [ho, hm]
    simp only [Option.bind_some, Option.mem_some, forall_eq']
    by_cases hr : t.first ≤ a ∧ a ≤ t.last
    · rw [if_pos hr]
      exact iff_of_true ⟨hv.normal, congrArg some hv.value.symm⟩ hr
    · rw [if_neg hr]
      exact iff_of_false (fun hag => nomatch hag.2) hr

theorem resolve_eq_none_iff (h : Correct t e) : resolveExpr t e = .ok none ↔ Rejected t e := by
  cases e with
  | literal base digits => exact iff_of_false (by rintro ⟨⟩) id
  | scopedName recorded =>
    simp only [resolveExpr, Except.ok.injEq, Option.map_eq_none_iff]
    exact Iff.rfl
  | unary op right =>
    have hres : resolveExpr t (.unary op right) = resolveUnary op (operand t right) := rfl
    rw [hres]
    simp only [Rejected]
    rcases operand_cases (throughout_self h.1) with ⟨ho, hm⟩ | ⟨v, a, ho, hm, -⟩
    · rw [ho, hm]
      exact iff_of_true rfl rfl
    · rw [ho, hm]
      refine iff_of_false ?_ (by simp)
      cases happly : op.apply v <;> simp [resolveUnary, happly, Except.map]
  | binary op left right =>
    have hres : resolveExpr t (.binary op left right) =
      resolveBinary op (operand t left) (operand t right) := rfl
    rw [hres]
    simp only [Rejected]
    rcases operand_cases (throughout_self h.1) with ⟨hol, hml⟩ | ⟨lv, a, hol, hml, hlv⟩
    · rw [hol, hml]
      exact iff_of_true rfl (by simp)
    rcases operand_cases (throughout_self h.2.1) with ⟨hor, hmr⟩ | ⟨rv, b, hor, hmr, hrv⟩
    · rw [hol, hor, hmr]
      exact iff_of_true rfl (by simp)
    rw [hol, hml, hor, hmr]
    simp only [Option.mem_some, forall_eq']
    by_cases hsame : SameType t a b
    · have hk : ¬lv.k ≠ rv.k := by
        rw [hlv.k, hrv.k, not_ne_iff, operandKind_eq_iff]
        exact hsame
      refine iff_of_false ?_ (not_not.mpr hsame)
      cases happly : op.apply lv rv <;> simp [resolveBinary, hk, happly, Except.map]
    · rw [resolveBinary_of_not_same hlv hrv hsame]
      exact iff_of_true rfl hsame

theorem arrayBound_matches (h : Correct .unsignedLongLong e) :
    Matches (ConstantExpression.arrayBound e) (expected .arrayBound e) ↔ Fitting e .arrayBound := by
  have hroot : Matches (operand .unsignedLongLong e) (meaning .unsignedLongLong e) :=
    throughout_self h
  unfold ConstantExpression.arrayBound expected Fitting
  rw [← resolve_eq_none_iff h]
  unfold operand at hroot
  cases hres : resolveExpr .unsignedLongLong e with
  | error x =>
    rw [hres] at hroot
    exact absurd hroot id
  | ok o =>
    rw [hres] at hroot
    cases o with
    | none =>
      have hm : meaning .unsignedLongLong e = none := hroot
      refine iff_of_true ?_ (.inr rfl)
      show (meaning .unsignedLongLong e).bind _ = none
      rw [hm]
      rfl
    | some v =>
      have hv := (resolved_of_correct h).1 v hres
      have hroot : Matches (.ok (v.convert .unsignedLongLong)) (meaning .unsignedLongLong e) :=
        hroot
      show Matches (.ok (some v)) ((meaning .unsignedLongLong e).bind fun a =>
        if IntegerKind.first .unsignedLongLong ≤ a ∧ a ≤ IntegerKind.last .unsignedLongLong
        then some a else none) ↔ _
      by_cases hin : IntegerKind.Evaluates .unsignedLongLong v.value
      · rw [convert_of_evaluates hv.wide hin] at hroot
        obtain ⟨hn, hm⟩ := hroot
        rw [hm, Option.bind_some]
        have hlast : v.value ≤ IntegerKind.last .unsignedLongLong := hin.2
        by_cases hpos : 0 ≤ v.value
        · rw [if_pos ⟨hpos, hlast⟩]
          exact iff_of_true ⟨⟨hn.iVal, hn.sign⟩, rfl⟩ (.inl ⟨_, rfl, hpos⟩)
        · rw [if_neg fun h => hpos h.1]
          refine iff_of_false (fun hag => nomatch hag.2) ?_
          rintro (⟨a, ha, hle⟩ | hno)
          · obtain rfl := Option.some.inj ha
            exact hpos hle
          · cases hno
      · have hm : meaning .unsignedLongLong e = none := by
          rw [convert_of_not hv.wide hin] at hroot
          split at hroot
          · exact absurd (evaluates_of_meaning hroot.2) hin
          · exact hroot
        rw [hm]
        refine iff_of_false (fun hag => nomatch hag.2) ?_
        rintro (⟨a, ha, -⟩ | hno)
        · cases ha
        · cases hno

/-- A constant expression is evaluated as CORBA specifies, with all its operands, exactly if every
operator is `Good` and the value is `Fitting` for the context. -/
theorem evaluated_iff (c : ConstantContext) (e : ConstantExpression) :
    c.Evaluated e ↔ Throughout (Good c.type) e ∧ c.Fitting e := by
  rw [← throughout_matches_iff]
  refine and_congr_right fun h => ?_
  cases c with
  | constantDeclaration t => exact declare_matches h
  | caseLabel t => exact caseLabel_matches h
  | arrayBound => exact arrayBound_matches h

/-- What a declaration records under these conditions is a value that other constants can refer to. -/
theorem exists_recordedValue (hgood : Throughout (Good t) e)
    (hfit : Fitting e (.constantDeclaration t)) (hv : declare t e = .ok (some v)) :
    ∃ r : RecordedValue, r.val = v := by
  have hm : Matches (declare t e) (expected (.constantDeclaration t) e) :=
    (declare_matches (throughout_matches_iff.mpr hgood)).mpr hfit
  rw [hv] at hm
  obtain ⟨hn, hexpected⟩ := hm
  obtain ⟨a, -, ha⟩ := Option.bind_eq_some_iff.mp hexpected
  have hrange : t.first ≤ v.value ∧ v.value ≤ t.last := by
    split_ifs at ha with hr
    obtain rfl := Option.some.inj ha
    exact hr
  have hk : v.k = t := by
    unfold declare at hv
    cases hres : resolveExpr t e with
    | error x =>
      rw [hres] at hv
      cases hv
    | ok o =>
      rw [hres] at hv
      obtain ⟨w, -, hw⟩ := Option.bind_eq_some_iff.mp (Except.ok.inj hv)
      unfold convertExactly at hw
      split_ifs at hw with hfits hkind
      · obtain rfl := Option.some.inj hw
        rfl
      · obtain rfl := Option.some.inj hw
        exact hkind
  exact ⟨⟨v, ⟨hn.iVal, hn.sign⟩, hk ▸ hrange⟩, rfl⟩

/-- `const unsigned long X = (-3) + 3;` -/
theorem not_evaluated_zero :
    ¬∀ (c : ConstantContext) (e : ConstantExpression), c.Evaluated e := by
  intro h
  have he := h (.constantDeclaration .unsignedLong)
    (.binary .plus (.unary .minus (.literal 10 [3])) (.literal 10 [3]))
  have hrejected : declare .unsignedLong
      (.binary .plus (.unary .minus (.literal 10 [3])) (.literal 10 [3])) = .ok none := by decide
  have hzero : expected (.constantDeclaration .unsignedLong)
      (.binary .plus (.unary .minus (.literal 10 [3])) (.literal 10 [3])) = some 0 := by decide
  have hag : Matches (declare .unsignedLong _) (expected (.constantDeclaration .unsignedLong) _) :=
    he.2
  exact Option.some_ne_none (0 : Int) hag

end ConstantContext

end PolyORB
