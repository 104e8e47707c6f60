import Mathlib.Order.Filter.AtTopBot.Basic
import Mathlib.Order.Filter.Finite
import Mathlib.Order.Interval.Finset.Nat
import Mathlib.Data.Set.Finite.Lattice

/-!
# Computations that may fail, and step bounds

Rules to take a computation in `Except` apart, and for a recursive function with a step bound `n`:
what holds "for every large enough bound" is `∀ᶠ n in atTop`, and a function that calls itself with
one step less has it as soon as its nested calls do (`eventually_succ`).
-/

namespace Checked

open Filter

variable {ε α β : Type}

@[simp] theorem pure_eq (a : α) : (pure a : Except ε α) = .ok a := rfl

@[simp] theorem bind_ok (a : α) (f : α → Except ε β) : (Except.ok a >>= f) = f a := rfl

@[simp] theorem bind_error (e : ε) (f : α → Except ε β) : (Except.error e >>= f) = .error e := rfl

theorem bind_eq_ok {x : Except ε α} {f : α → Except ε β} {b : β} :
    (x >>= f) = .ok b ↔ ∃ a, x = .ok a ∧ f a = .ok b := by
  cases x with
  | error e => simp
  | ok a => simp

theorem ok_inj {x : Except ε α} {a b : α} (ha : x = .ok a) (hb : x = .ok b) : a = b := by
  rw [ha] at hb
  exact Except.ok.inj hb

theorem eventually_succ {p q : Nat → Prop} (hp : ∀ᶠ n in atTop, p n)
    (hq : ∀ n, p n → q (n + 1)) : ∀ᶠ n in atTop, q n := by
  obtain ⟨N, hN⟩ := eventually_atTop.1 hp
  refine eventually_atTop.2 ⟨N + 1, fun n hn => ?_⟩
  obtain ⟨m, rfl⟩ : ∃ m, n = m + 1 := ⟨n - 1, by omega⟩
  exact hq m (hN m (by omega))

theorem eventually_of_succ {q : Nat → Prop} (hq : ∀ n, q (n + 1)) : ∀ᶠ n in atTop, q n :=
  eventually_succ (Eventually.of_forall fun _ => trivial) fun n (_ : True) => hq n

theorem eventually_forall_lt {p : Nat → Nat → Prop} {m : Nat}
    (h : ∀ j < m, ∀ᶠ n in atTop, p j n) : ∀ᶠ n in atTop, ∀ j < m, p j n :=
  (eventually_all_finite (Set.finite_lt_nat m)).2 h

end Checked
