import Mathlib.Data.Nat.Digits.Lemmas
import Mathlib.Tactic

/-!
# Numerals, and images and values of integers

`toDigits b n v` writes `v` on `n` digits in base `b`, most significant first, and `ofDigits` reads
digits back the way a loop does, multiplying what it has by the base before it adds the next digit.

`decimal` is the image of a natural number, and `integerValue` the value of a text: blanks around an
integer literal with an optional sign, where a literal has underlines between digits, a base
between 2 and 16, or an exponent.  Characters are octets.
-/

namespace Numerals

variable {b : Nat}

def toDigits (b : Nat) : Nat → Nat → List Nat
  | 0, _ => []
  | n + 1, v => toDigits b n (v / b) ++ [v % b]

def ofDigits (b : Nat) (ds : List Nat) : Nat := ds.foldl (fun r d => r * b + d) 0

@[simp] theorem ofDigits_nil : ofDigits b [] = 0 := rfl

@[simp] theorem ofDigits_concat (ds : List Nat) (d : Nat) :
    ofDigits b (ds ++ [d]) = ofDigits b ds * b + d := by
  simp [ofDigits, List.foldl_append]

@[simp] theorem length_toDigits (b n v : Nat) : (toDigits b n v).length = n := by
  induction n generalizing v with
  | zero => rfl
  | succ n ih => simp [toDigits, ih]

theorem lt_of_mem_toDigits (hb : 0 < b) {n v d : Nat} (h : d ∈ toDigits b n v) : d < b := by
  induction n generalizing v with
  | zero => simp [toDigits] at h
  | succ n ih =>
    rcases List.mem_append.1 h with h | h
    · exact ih h
    · rw [List.mem_singleton.1 h]
      exact Nat.mod_lt _ hb

theorem ofDigits_lt {ds : List Nat} (h : ∀ d ∈ ds, d < b) : ofDigits b ds < b ^ ds.length := by
  induction ds using List.reverseRecOn with
  | nil => simp
  | append_singleton ds d ih =>
    have hd := h d (by simp)
    have hds := ih fun x hx => h x (by simp [hx])
    rw [ofDigits_concat, List.length_append, List.length_singleton, pow_succ]
    calc ofDigits b ds * b + d < ofDigits b ds * b + b := by omega
      _ = (ofDigits b ds + 1) * b := by ring
      _ ≤ b ^ ds.length * b := Nat.mul_le_mul_right b hds

theorem ofDigits_toDigits {n v : Nat} (h : v < b ^ n) : ofDigits b (toDigits b n v) = v := by
  induction n generalizing v with
  | zero => simp_all [toDigits]
  | succ n ih =>
    have hdiv : v / b < b ^ n := Nat.div_lt_of_lt_mul (by rwa [pow_succ, Nat.mul_comm] at h)
    rw [toDigits, ofDigits_concat, ih hdiv, Nat.mul_comm]
    exact Nat.div_add_mod v b

theorem toDigits_ofDigits {ds : List Nat} (h : ∀ d ∈ ds, d < b) :
    toDigits b ds.length (ofDigits b ds) = ds := by
  induction ds using List.reverseRecOn with
  | nil => rfl
  | append_singleton ds d ih =>
    have hd := h d (by simp)
    have hds := ih fun x hx => h x (by simp [hx])
    have hdiv : (ofDigits b ds * b + d) / b = ofDigits b ds := by
      rw [Nat.mul_comm, Nat.mul_add_div (by omega), Nat.div_eq_of_lt hd, Nat.add_zero]
    have hmod : (ofDigits b ds * b + d) % b = d := by
      rw [Nat.mul_comm, Nat.mul_add_mod, Nat.mod_eq_of_lt hd]
    rw [ofDigits_concat, List.length_append, List.length_singleton, toDigits, hdiv, hmod, hds]

end Numerals

namespace Literals

def digitValue (c : UInt8) : Option Nat :=
  if 48 ≤ c.toNat ∧ c.toNat ≤ 57 then some (c.toNat - 48)
  else if 65 ≤ c.toNat ∧ c.toNat ≤ 70 then some (c.toNat - 55)
  else if 97 ≤ c.toNat ∧ c.toNat ≤ 102 then some (c.toNat - 87)
  else none

/-- The value of a digit of base `b`. -/
def digitIn (b : Nat) (c : UInt8) : Option Nat := (digitValue c).filter (· < b)

/-- The numeral that goes on after the value `v`, and what follows it. -/
def numeralRest (b : Nat) : Nat → List UInt8 → Nat × List UInt8
  | v, [] => (v, [])
  | v, [c] =>
    match digitIn b c with
    | some d => (v * b + d, [])
    | none => (v, [c])
  | v, c :: c' :: cs =>
    match digitIn b c with
    | some d => numeralRest b (v * b + d) (c' :: cs)
    | none =>
      if c = 95 then
        match digitIn b c' with
        | some d => numeralRest b (v * b + d) cs
        | none => (v, c :: c' :: cs)
      else (v, c :: c' :: cs)

def numeral (b : Nat) : List UInt8 → Option (Nat × List UInt8)
  | [] => none
  | c :: cs => (digitIn b c).map fun d => numeralRest b d cs

/-- The exponent, 0 if there is none, and what follows it. -/
def exponent : List UInt8 → Nat × List UInt8
  | [] => (0, [])
  | c :: cs =>
    if c = 69 ∨ c = 101 then
      match numeral 10 (if cs.head? = some 43 then cs.tail else cs) with
      | some r => r
      | none => (0, c :: cs)
    else (0, c :: cs)

/-- What stands after the base, between two equal delimiters. -/
def basedValue (base : Nat) (delimiter : UInt8) (cs : List UInt8) : Option (Nat × List UInt8) := do
  let (m, rest) ← if 2 ≤ base ∧ base ≤ 16 then numeral base cs else none
  if rest.head? = some delimiter then
    let (e, rest) := exponent rest.tail
    some (m * base ^ e, rest)
  else none

def literal (cs : List UInt8) : Option (Nat × List UInt8) := do
  let (n, rest) ← numeral 10 cs
  match rest with
  | [] => some (n, [])
  | c :: rest =>
    if c = 35 ∨ c = 58 then basedValue n c rest
    else
      let (e, rest) := exponent (c :: rest)
      some (n * 10 ^ e, rest)

def skipBlanks (cs : List UInt8) : List UInt8 := cs.dropWhile (· == 32)

def integerValue (s : List UInt8) : Option Int := do
  let s := skipBlanks s
  let negative := s.head? == some 45
  let (v, rest) ← literal (if negative = true ∨ s.head? = some 43 then s.tail else s)
  let i : Int := if negative = true then -v else v
  if skipBlanks rest = [] ∧ -2147483648 ≤ i ∧ i ≤ 2147483647 then some i else none

/-- The value of a text, if it is that of an integer between `first` and `last`. -/
def valueIn (first last : Int) (s : List UInt8) : Option Int := do
  let s := skipBlanks s
  let negative := s.head? == some 45
  let (v, rest) ← literal (if negative = true ∨ s.head? = some 43 then s.tail else s)
  let i : Int := if negative = true then -v else v
  if skipBlanks rest = [] ∧ first ≤ i ∧ i ≤ last then some i else none

theorem integerValue_eq (s : List UInt8) :
    integerValue s = valueIn (-2147483648) 2147483647 s := rfl

def digitChar (d : Nat) : UInt8 := UInt8.ofNat (48 + d)

/-- The image of a number, without a leading blank. -/
def decimal (n : Nat) : List UInt8 :=
  if n = 0 then [48] else (Nat.digits 10 n).reverse.map digitChar

theorem digitIn_digitChar {d : Nat} (h : d < 10) : digitIn 10 (digitChar d) = some d := by
  interval_cases d <;> rfl

theorem digitChar_ne {d : Nat} (h : d < 10) :
    digitChar d ≠ 32 ∧ digitChar d ≠ 43 ∧ digitChar d ≠ 45 := by
  interval_cases d <;> decide

theorem numeralRest_digits (ds : List Nat) (h : ∀ d ∈ ds, d < 10) (v : Nat) :
    numeralRest 10 v (ds.map digitChar) = (ds.foldl (fun r d => r * 10 + d) v, []) := by
  induction ds generalizing v with
  | nil => rfl
  | cons d ds ih =>
    have hd := digitIn_digitChar (h d (List.mem_cons_self ..))
    have hds := ih fun x hx => h x (List.mem_cons_of_mem _ hx)
    cases ds with
    | nil => simp [numeralRest, hd]
    | cons e ds =>
      rw [List.map_cons, List.map_cons, numeralRest, hd]
      exact hds _

theorem literal_digits {d : Nat} (ds : List Nat) (hd : d < 10) (h : ∀ d ∈ ds, d < 10) :
    literal ((d :: ds).map digitChar) =
      some (ds.foldl (fun r d => r * 10 + d) d, []) := by
  rw [literal, List.map_cons, numeral, digitIn_digitChar hd, Option.map_some,
    numeralRest_digits ds h]
  rfl

theorem decimal_eq (n : Nat) : ∃ d ds, decimal n = (d :: ds).map digitChar ∧ d < 10 ∧
    (∀ d ∈ ds, d < 10) ∧ ds.foldl (fun r d => r * 10 + d) d = n := by
  by_cases h0 : n = 0
  · exact ⟨0, [], by rw [decimal, if_pos h0]; rfl, by decide, by simp, h0.symm⟩
  · have hlt : ∀ d ∈ (Nat.digits 10 n).reverse, d < 10 := fun d hd =>
      Nat.digits_lt_base (by decide) (List.mem_reverse.1 hd)
    have hfold : (Nat.digits 10 n).reverse.foldl (fun r d => r * 10 + d) 0 = n := by
      rw [List.foldl_reverse]
      conv_rhs => rw [← Nat.ofDigits_digits 10 n, Nat.ofDigits_eq_foldr]
      congr 1
      funext x y
      simp [Nat.add_comm, Nat.mul_comm]
    have hrev : (Nat.digits 10 n).reverse ≠ [] := by
      rw [ne_eq, List.reverse_eq_nil_iff, Nat.digits_eq_nil_iff_eq_zero]
      exact h0
    obtain ⟨d, ds, heq⟩ := List.exists_cons_of_ne_nil hrev
    rw [heq] at hlt hfold
    refine ⟨d, ds, by rw [decimal, if_neg h0, heq], hlt d (List.mem_cons_self ..),
      fun x hx => hlt x (List.mem_cons_of_mem _ hx), ?_⟩
    simpa using hfold

theorem literal_decimal (n : Nat) : literal (decimal n) = some (n, []) := by
  obtain ⟨d, ds, hdec, hd, hds, hval⟩ := decimal_eq n
  rw [hdec, literal_digits ds hd hds, hval]

theorem valueIn_decimal {first last : Int} {n : Nat} (hfirst : first ≤ n) (hlast : n ≤ last) :
    valueIn first last (decimal n) = some n := by
  obtain ⟨d, ds, hdec, hd, -, -⟩ := decimal_eq n
  obtain ⟨hblank, hplus, hminus⟩ := digitChar_ne hd
  have hskip : skipBlanks (decimal n) = decimal n := by
    rw [hdec, List.map_cons, skipBlanks, List.dropWhile_cons_of_neg (by simpa using hblank)]
  have hhead : (decimal n).head? = some (digitChar d) := by rw [hdec]; rfl
  have hneg : (some (digitChar d) == some (45 : UInt8)) = false := by simpa using hminus
  simp only [valueIn, hskip, hhead, hneg, Option.some.injEq, hplus, or_self, if_false,
    Bool.false_eq_true, literal_decimal, Option.bind_eq_bind, Option.bind_some]
  exact if_pos ⟨rfl, hfirst, hlast⟩

theorem integerValue_decimal {n : Nat} (h : n ≤ 2147483647) :
    integerValue (decimal n) = some n := by
  rw [integerValue_eq, valueIn_decimal (by omega) (by omega)]

theorem mem_decimal {n : Nat} {c : UInt8} (h : c ∈ decimal n) : 48 ≤ c.toNat ∧ c.toNat ≤ 57 := by
  obtain ⟨d, ds, hdec, hd, hds, -⟩ := decimal_eq n
  rw [hdec, List.mem_map] at h
  obtain ⟨x, hx, rfl⟩ := h
  have hlt : x < 10 := (List.mem_cons.1 hx).elim (fun h => h ▸ hd) (hds x)
  interval_cases x <;> decide

theorem length_decimal {n : Nat} (hlow : 100 ≤ n) (hhigh : n < 1000) : (decimal n).length = 3 := by
  have hlog : Nat.log 10 n = 2 := by
    rw [Nat.log_eq_iff (Or.inl two_ne_zero)]
    omega
  rw [decimal, if_neg (by omega), List.length_map, List.length_reverse,
    Nat.length_digits 10 n (by decide) (by omega), hlog]

end Literals
