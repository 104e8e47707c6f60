import Mathlib.Tactic

/-!
# Queues threaded through an array

The members of a queue are places of an array; each place has the link to the next one.  `Chained`
says that the links from a place on go through the members of a list.
-/

namespace ArrayQueue

variable {next next' : Nat → Option Nat} {p q : Option Nat} {a b : Nat} {l : List Nat}

/-- The last place met from `current` on, in at most `fuel` places. -/
def walk (next : Nat → Option Nat) : Nat → Option Nat → Option Nat → Option Nat
  | 0, _, precedent => precedent
  | _ + 1, none, precedent => precedent
  | fuel + 1, some a, _ => walk next fuel (next a) (some a)

/-- No place is met twice from `current` on, and `ok` holds of those that are met. -/
def check (next : Nat → Option Nat) (ok : Nat → Bool) : Nat → List Nat → Option Nat → Bool
  | 0, _, _ => false
  | _ + 1, _, none => true
  | fuel + 1, marked, some a =>
    !marked.contains a && ok a && check next ok fuel (a :: marked) (next a)

def Chained (next : Nat → Option Nat) : Option Nat → List Nat → Prop
  | p, [] => p = none
  | p, a :: l => p = some a ∧ Chained next (next a) l

theorem Chained.congr (h : Chained next p l) (heq : ∀ a ∈ l, next' a = next a) :
    Chained next' p l := by
  induction l generalizing p with
  | nil => exact h
  | cons a l ih =>
    refine ⟨h.1, ?_⟩
    rw [heq a List.mem_cons_self]
    exact ih h.2 fun b hb => heq b (List.mem_cons_of_mem a hb)

theorem Chained.eq_none_iff (h : Chained next p l) : p = none ↔ l = [] := by
  cases l with
  | nil => exact iff_of_true h rfl
  | cons a l =>
    rw [h.1]
    simp

theorem Chained.walk (h : Chained next p l) {fuel : Nat} (hf : l.length ≤ fuel) :
    walk next fuel p q = l.getLast?.or q := by
  induction l generalizing p q fuel with
  | nil =>
    subst h
    cases fuel <;> rfl
  | cons a l ih =>
    obtain ⟨rfl, h⟩ := h
    cases fuel with
    | zero => simp at hf
    | succ fuel =>
      rw [ArrayQueue.walk, ih h (by simpa using hf), List.getLast?_cons]
      cases l.getLast? <;> rfl

theorem Chained.check (h : Chained next p l) {ok : Nat → Bool} {fuel : Nat}
    {marked : List Nat} (hf : l.length < fuel) (hok : ∀ a ∈ l, ok a = true) (hnd : l.Nodup)
    (hm : ∀ a ∈ l, a ∉ marked) : check next ok fuel marked p = true := by
  induction l generalizing p fuel marked with
  | nil =>
    subst h
    cases fuel with
    | zero => cases hf
    | succ fuel => rfl
  | cons a l ih =>
    obtain ⟨rfl, h⟩ := h
    obtain ⟨ha, hnd⟩ := List.nodup_cons.mp hnd
    cases fuel with
    | zero => cases hf
    | succ fuel =>
      have hrest : ArrayQueue.check next ok fuel (a :: marked) (next a) = true := by
        refine ih h (by simpa using hf) (fun b hb => hok b (List.mem_cons_of_mem a hb)) hnd ?_
        intro b hb hmem
        rcases List.mem_cons.mp hmem with rfl | hmem
        · exact ha hb
        · exact hm b (List.mem_cons_of_mem a hb) hmem
      have hfresh : marked.contains a = false := by
        simpa using hm a List.mem_cons_self
      rw [ArrayQueue.check, hrest, hok a List.mem_cons_self, hfresh]
      rfl

theorem Chained.snoc (next' : Nat → Option Nat) (h : Chained next p l) (hnd : l.Nodup) (ha : a ∉ l)
    (hlast : ∀ b ∈ l.getLast?, next' b = some a) (hnew : next' a = none)
    (hframe : ∀ b, b ≠ a → b ∉ l.getLast? → next' b = next b) :
    Chained next' (if l = [] then some a else p) (l ++ [a]) := by
  induction l generalizing p with
  | nil => exact ⟨rfl, hnew⟩
  | cons b l ih =>
    obtain ⟨rfl, h⟩ := h
    obtain ⟨hb, hnd⟩ := List.nodup_cons.mp hnd
    refine ⟨rfl, ?_⟩
    have hba : b ≠ a := by
      rintro rfl
      exact ha List.mem_cons_self
    cases l with
    | nil =>
      rw [hlast b rfl]
      exact ⟨rfl, hnew⟩
    | cons c l =>
      have hgl : (b :: c :: l).getLast? = (c :: l).getLast? := List.getLast?_cons_cons
      have hmem : b ∉ (c :: l).getLast? := fun hmem => hb (List.mem_of_mem_getLast? hmem)
      rw [hframe b hba (by rwa [hgl])]
      have hrest := ih h hnd (fun hmem => ha (List.mem_cons_of_mem b hmem)) (by rwa [← hgl])
        (by rwa [← hgl])
      rwa [if_neg (List.cons_ne_nil c l)] at hrest

end ArrayQueue
