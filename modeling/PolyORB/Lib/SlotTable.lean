import Mathlib.Tactic

/-!
# Tables of slots

A table that grows at its end and reuses the slots that were cleared.  What a table holds is a
multiset, `occupants` up to permutation: `insert` adds one element to it, `take` removes one.
-/

namespace SlotTable

variable {α : Type}

/-- What the slots of a table hold. -/
def occupants : List (Option α) → List α
  | [] => []
  | none :: t => occupants t
  | some x :: t => x :: occupants t

/-- Put `x` into the first free slot, else into a new one. -/
def insert (x : α) : List (Option α) → List (Option α)
  | [] => [some x]
  | none :: t => some x :: t
  | some y :: t => some y :: insert x t

/-- The first occupant with a property, and the table once its slot was cleared. -/
def take (p : α → Bool) : List (Option α) → Option (α × List (Option α))
  | [] => none
  | none :: t => (take p t).map fun r => (r.1, none :: r.2)
  | some y :: t =>
    if p y then some (y, none :: t) else (take p t).map fun r => (r.1, some y :: r.2)

theorem insert_perm (x : α) (t : List (Option α)) :
    (occupants (insert x t)).Perm (x :: occupants t) := by
  induction t with
  | nil => exact .refl _
  | cons s t ih =>
    cases s with
    | none => exact .refl _
    | some y => exact (ih.cons y).trans (.swap x y _)

variable {p : α → Bool} {t : List (Option α)}

theorem take_eq_none :
    take p t = none ↔ ∀ x ∈ occupants t, p x = false := by
  induction t with
  | nil => simp [take, occupants]
  | cons s t ih =>
    cases s with
    | none => simp [take, occupants, ih]
    | some y =>
      by_cases h : p y = true
      · simp [take, occupants, h]
      · simp [take, occupants, h, ih]

theorem take_eq_some {t' : List (Option α)} {x : α}
    (h : take p t = some (x, t')) : p x = true ∧ (occupants t).Perm (x :: occupants t') := by
  induction t generalizing t' with
  | nil => cases h
  | cons s t ih =>
    cases s with
    | none =>
      simp only [take, Option.map_eq_some_iff, Prod.mk.injEq] at h
      obtain ⟨⟨y, u⟩, hu, rfl, rfl⟩ := h
      obtain ⟨hy, hperm⟩ := ih hu
      exact ⟨hy, hperm⟩
    | some y =>
      simp only [take] at h
      split_ifs at h with hp
      · injection h with h
        injection h with h1 h2
        subst h1 h2
        exact ⟨hp, .refl _⟩
      · simp only [Option.map_eq_some_iff, Prod.mk.injEq] at h
        obtain ⟨⟨z, u⟩, hu, rfl, rfl⟩ := h
        obtain ⟨hz, hperm⟩ := ih hu
        exact ⟨hz, (hperm.cons y).trans (.swap z y _)⟩

theorem exists_take {x : α} (hx : x ∈ occupants t)
    (hp : p x = true) : ∃ y t', take p t = some (y, t') := by
  cases h : take p t with
  | none =>
    have hf := take_eq_none.mp h x hx
    rw [hp] at hf
    cases hf
  | some r => exact ⟨r.1, r.2, rfl⟩

theorem mem_of_take {t' : List (Option α)} {x : α}
    (h : take p t = some (x, t')) : x ∈ occupants t :=
  (take_eq_some h).2.mem_iff.mpr (List.mem_cons_self ..)

/-- The occupants of the slots before the first free one. -/
def front : List (Option α) → List α
  | some x :: t => x :: front t
  | _ => []

theorem take_insert {x : α} (hx : p x = true) (h : ∀ y ∈ front t, p y = false) :
    ∃ t', take p (insert x t) = some (x, t') ∧ occupants t' = occupants t := by
  induction t with
  | nil => exact ⟨[none], by simp [insert, take, hx], rfl⟩
  | cons s t ih =>
    cases s with
    | none => exact ⟨none :: t, by simp [insert, take, hx], rfl⟩
    | some y =>
      obtain ⟨t', htake, hocc⟩ := ih fun z hz => h z (List.mem_cons_of_mem y hz)
      refine ⟨some y :: t', ?_, congrArg (y :: ·) hocc⟩
      simp [insert, take, h y List.mem_cons_self, htake]

theorem take_insert_front {x y : α} (hy : y ∈ front t)
    (hp : p y = true) : ∃ z ∈ front t, ∃ t', take p (insert x t) = some (z, t') ∧
      x ∈ occupants t' := by
  induction t with
  | nil => cases hy
  | cons s t ih =>
    cases s with
    | none => cases hy
    | some w =>
      by_cases hw : p w = true
      · refine ⟨w, List.mem_cons_self, none :: insert x t, by simp [insert, take, hw], ?_⟩
        exact (insert_perm x t).mem_iff.2 List.mem_cons_self
      · have hmem : y ∈ front t := by
          rcases List.mem_cons.1 hy with rfl | hy
          · exact absurd hp hw
          · exact hy
        obtain ⟨z, hz, t', htake, hx⟩ := ih hmem
        refine ⟨z, List.mem_cons_of_mem w hz, some w :: t', ?_, List.mem_cons_of_mem w hx⟩
        simp [insert, take, hw, htake]

end SlotTable
