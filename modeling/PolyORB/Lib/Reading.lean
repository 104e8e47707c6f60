import PolyORB.Lib.Program

/-!
# Reading from the front of a list

A reader is a program whose state is what is left of a list.  `Decodes p xs a` says that `p` takes
exactly `xs` and returns `a`, whatever follows; it composes along the binds of a reader, and over
lists of items.
-/

namespace Reading

variable {ε τ α β : Type}

def Decodes (p : EStateM ε (List τ) α) (xs : List τ) (a : α) : Prop :=
  ∀ rest, p (xs ++ rest) = .ok a rest

def next (e : ε) : EStateM ε (List τ) τ := fun
  | [] => .error e []
  | x :: xs => .ok x xs

def many (e : ε) (n : Nat) : EStateM ε (List τ) (List τ) := fun xs =>
  if n ≤ xs.length then .ok (xs.take n) (xs.drop n) else .error e xs

def times (p : EStateM ε (List τ) α) : Nat → EStateM ε (List τ) (List α)
  | 0 => return []
  | n + 1 => do
    let a ← p
    return a :: (← times p n)

namespace Decodes

theorem pure (a : α) : Decodes (pure a : EStateM ε (List τ) α) [] a := fun _ => rfl

variable {p : EStateM ε (List τ) α} {k : α → EStateM ε (List τ) β}

theorem bind {xs ys : List τ} {a : α}
    {b : β} (h : Decodes p xs a) (hk : Decodes (k a) ys b) : Decodes (p >>= k) (xs ++ ys) b := by
  intro rest
  rw [List.append_assoc, Program.bind_ok (h _), hk]

theorem skip {xs : List τ} {a : α}
    {b : β} (h : Decodes p [] a) (hk : Decodes (k a) xs b) : Decodes (p >>= k) xs b :=
  h.bind hk

theorem map {xs : List τ} {a : α}
    {b : β} (h : Decodes p xs a) (hk : ∀ rest, k a rest = .ok b rest) : Decodes (p >>= k) xs b := by
  intro rest
  rw [Program.bind_ok (h rest), hk]

theorem next (e : ε) (x : τ) : Decodes (Reading.next e) [x] x := fun _ => rfl

theorem many (e : ε) (xs : List τ) : Decodes (Reading.many e xs.length) xs xs := by
  intro rest
  have hle : xs.length ≤ (xs ++ rest).length := by simp
  rw [Reading.many, if_pos hle, List.take_left, List.drop_left]

theorem times_zero (p : EStateM ε (List τ) α) : Decodes (times p 0) [] [] := .pure []

theorem times_succ {n : Nat} {xs ys : List τ} {a : α} {as : List α}
    (h : Decodes p xs a) (hn : Decodes (times p n) ys as) :
    Decodes (times p (n + 1)) (xs ++ ys) (a :: as) :=
  h.bind (hn.map fun _ => rfl)

theorem exact {xs : List τ} {a : α} (h : Decodes p xs a) :
    p xs = .ok a [] := by
  simpa using h []

end Decodes

end Reading
