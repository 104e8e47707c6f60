import Mathlib.Tactic

/-!
# Runs of a deterministic system

A run is a list of actions that a system performs from a state.  `Along P` says that `P` holds at
each of its steps; the two rules derive it from an invariant.
-/

namespace Runs

variable {σ α : Type} {step : σ → α → σ}

/-- `P` holds of the state and the action of each step of the run. -/
def Along (step : σ → α → σ) (P : σ → α → Prop) : σ → List α → Prop
  | _, [] => True
  | s, a :: as => P s a ∧ Along step P (step s a) as

instance decidableAlong {P : σ → α → Prop} [∀ s a, Decidable (P s a)] :
    ∀ (s : σ) (as : List α), Decidable (Along step P s as)
  | _, [] => inferInstanceAs (Decidable True)
  | s, a :: as =>
    have := decidableAlong (P := P) (step s a) as
    inferInstanceAs (Decidable (P s a ∧ Along step P (step s a) as))

/-- The state that a run leads to. -/
def reach (step : σ → α → σ) (s : σ) (as : List α) : σ := as.foldl step s

theorem along_true (as : List α) : ∀ s : σ, Along step (fun _ _ => True) s as := by
  induction as with
  | nil => intro _; trivial
  | cons a as ih => exact fun s => ⟨trivial, ih (step s a)⟩

theorem along_and {P Q : σ → α → Prop} (as : List α) :
    ∀ {s : σ}, Along step P s as → Along step Q s as → Along step (fun s a => P s a ∧ Q s a) s as := by
  induction as with
  | nil => intro _ _ _; trivial
  | cons a as ih => exact fun hp hq => ⟨⟨hp.1, hq.1⟩, ih hp.2 hq.2⟩

/-- What a step that meets its assumptions keeps and brings about, every step of a run does. -/
theorem along_of_inv {Inv : σ → Prop} {A P : σ → α → Prop}
    (h : ∀ s a, Inv s → A s a → P s a ∧ Inv (step s a)) (as : List α) :
    ∀ s, Inv s → Along step A s as → Along step P s as := by
  induction as with
  | nil => intro _ _ _; trivial
  | cons a as ih =>
    rintro s hs ⟨ha, has⟩
    obtain ⟨hp, hs'⟩ := h s a hs ha
    exact ⟨hp, ih _ hs' has⟩

/-- An invariant that each step under its assumptions keeps holds where the run leads. -/
theorem reach_of_inv {Inv : σ → Prop} {A : σ → α → Prop}
    (h : ∀ s a, Inv s → A s a → Inv (step s a)) (as : List α) :
    ∀ s, Inv s → Along step A s as → Inv (reach step s as) := by
  induction as with
  | nil => exact fun _ hs _ => hs
  | cons a as ih =>
    rintro s hs ⟨ha, has⟩
    exact ih _ (h s a hs ha) has

/-- A property of runs is equivalent to a condition on their steps, if each condition that is met
keeps the invariant and, under it, is equivalent to the property of its own step. -/
theorem along_iff {Inv : σ → Prop} {A P C : σ → α → Prop}
    (h : ∀ s a, Inv s → A s a → (P s a → C s a) ∧ (C s a → P s a ∧ Inv (step s a)))
    (as : List α) :
    ∀ s, Inv s → Along step A s as → (Along step P s as ↔ Along step C s as) := by
  induction as with
  | nil => intro _ _ _; exact Iff.rfl
  | cons a as ih =>
    rintro s hs ⟨ha, has⟩
    obtain ⟨hpc, hcp⟩ := h s a hs ha
    constructor
    · rintro ⟨hp, hps⟩
      have hc := hpc hp
      exact ⟨hc, (ih _ (hcp hc).2 has).mp hps⟩
    · rintro ⟨hc, hcs⟩
      obtain ⟨hp, hs'⟩ := hcp hc
      exact ⟨hp, (ih _ hs' has).mpr hcs⟩

end Runs
