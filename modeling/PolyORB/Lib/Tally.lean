import Mathlib.Tactic

/-!
# Counting the members of a population

A population of processes is a list; each has its place in it.  The counts of those that satisfy a
predicate change by one when one process changes.
-/

namespace Tally

variable {τ : Type}

/-- One member counts, or not. -/
def weight (p : τ → Bool) (t : τ) : Nat := if p t = true then 1 else 0

variable {ts : List τ}

theorem countP_set_add (p : τ → Bool) {i : Nat} {t : τ} (t' : τ) (h : ts[i]? = some t) :
    (ts.set i t').countP p + weight p t = ts.countP p + weight p t' := by
  induction ts generalizing i with
  | nil => cases h
  | cons a ts ih =>
    cases i with
    | zero =>
      obtain rfl := Option.some.inj h
      simp only [List.set_cons_zero, List.countP_cons, weight]
      omega
    | succ i =>
      have := ih (by simpa using h)
      simp only [List.set_cons_succ, List.countP_cons]
      omega

theorem sum_map_set_add (f : τ → Nat) {i : Nat} {t : τ} (t' : τ) (h : ts[i]? = some t) :
    ((ts.set i t').map f).sum + f t = (ts.map f).sum + f t' := by
  induction ts generalizing i with
  | nil => cases h
  | cons a ts ih =>
    cases i with
    | zero =>
      obtain rfl := Option.some.inj h
      simp only [List.set_cons_zero, List.map_cons, List.sum_cons]
      omega
    | succ i =>
      have := ih (by simpa using h)
      simp only [List.set_cons_succ, List.map_cons, List.sum_cons]
      omega

theorem le_sum_map (f : τ → Nat) {i : Nat} {t : τ} (h : ts[i]? = some t) :
    f t ≤ (ts.map f).sum :=
  List.single_le_sum (fun _ _ => Nat.zero_le _) _ (List.mem_map_of_mem (List.mem_of_getElem? h))

theorem sum_map_eq_zero {f : τ → Nat} (h : ∀ t ∈ ts, f t = 0) :
    (ts.map f).sum = 0 := by
  induction ts with
  | nil => rfl
  | cons a ts ih =>
    rw [List.map_cons, List.sum_cons, h a List.mem_cons_self,
      ih fun t ht => h t (List.mem_cons_of_mem a ht)]

theorem countP_append_singleton (p : τ → Bool) (ts : List τ) (t : τ) :
    (ts ++ [t]).countP p = ts.countP p + weight p t := by
  rw [List.countP_append, List.countP_singleton, weight]

theorem countP_map_of (p q : τ → Bool) (f : τ → τ) (h : ∀ t, p (f t) = q t) (ts : List τ) :
    (ts.map f).countP p = ts.countP q := by
  rw [List.countP_map]
  exact congrArg (ts.countP ·) (funext h)

theorem countP_pos_of_getElem? {p : τ → Bool} {i : Nat} {t : τ} (h : ts[i]? = some t)
    (hp : p t = true) : 0 < ts.countP p :=
  List.countP_pos_iff.mpr ⟨t, List.mem_of_getElem? h, hp⟩

end Tally
