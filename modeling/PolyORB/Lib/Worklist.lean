import Mathlib.Logic.Relation
import Mathlib.Tactic

/-!
# Worklists

A loop takes a pending element and puts its successors in its place, but for those it has seen,
until nothing is pending.  What it has seen then is what the roots reach (`Covers.seen_iff`); it ends when
some measure of its states goes down (`exists_run`).
-/

namespace Worklist

open Relation

section Loop

variable {ε σ : Type} (step : σ → Except ε (Option σ))

/-- At most `n` rounds of the loop, the error `none` when they are not enough. -/
def run : Nat → σ → Except (Option ε) σ
  | 0, _ => .error none
  | n + 1, s =>
    match step s with
    | .error e => .error (some e)
    | .ok none => .ok s
    | .ok (some s') => run n s'

variable {step}

theorem exists_run {Inv : σ → Prop} (μ : σ → Nat)
    (hstep : ∀ s, Inv s → step s = .ok none ∨ ∃ s', step s = .ok (some s') ∧ Inv s' ∧ μ s' < μ s)
    {s : σ} (h : Inv s) :
    ∃ s', Inv s' ∧ step s' = .ok none ∧ ∀ n, μ s < n → run step n s = .ok s' := by
  induction hm : μ s using Nat.strong_induction_on generalizing s with
  | _ m ih =>
    have hrun : ∀ {n : Nat}, m < n → ∃ n', n = n' + 1 ∧ m ≤ n' := fun {n} hn =>
      ⟨n - 1, by omega, by omega⟩
    rcases hstep s h with hs | ⟨s₁, hs, h₁, hlt⟩
    · refine ⟨s, h, hs, fun n hn => ?_⟩
      obtain ⟨n, rfl, -⟩ := hrun hn
      rw [run, hs]
    · obtain ⟨s', h', hend, hn'⟩ := ih (μ s₁) (hm ▸ hlt) h₁ rfl
      refine ⟨s', h', hend, fun n hn => ?_⟩
      obtain ⟨n, rfl, hn⟩ := hrun hn
      rw [run, hs]
      exact hn' n (by omega)

theorem countP_lt {α : Type} {p q : α → Bool} {as : List α} (h : ∀ a ∈ as, p a = true → q a = true)
    {a : α} (ha : a ∈ as) (hp : p a = false) (hq : q a = true) : as.countP p < as.countP q := by
  obtain ⟨as, bs, rfl⟩ := List.append_of_mem ha
  have h₁ : as.countP p ≤ as.countP q :=
    List.countP_mono_left fun b hb => h b (List.mem_append_left _ hb)
  have h₂ : bs.countP p ≤ bs.countP q :=
    List.countP_mono_left fun b hb => h b (by simp [hb])
  simp only [List.countP_append, List.countP_cons, hp, hq, if_true, Bool.false_eq_true, if_false]
  omega

end Loop

section Covers

variable {α : Type} {R : α → α → Prop} {roots seen pending seen' pending' : α → Prop} {x : α}

/-- What has been seen or is pending is what the roots reach so far. -/
structure Covers (R : α → α → Prop) (roots seen pending : α → Prop) : Prop where
  started : ∀ r, roots r → seen r ∨ pending r
  closed : ∀ x y, seen x → R x y → seen y ∨ pending y
  sound : ∀ x, seen x ∨ pending x → ∃ r, roots r ∧ ReflTransGen R r x

theorem Covers.take (h : Covers R roots seen pending) (hx : seen x ∨ pending x)
    (hseen : ∀ y, seen' y ↔ seen y ∨ y = x)
    (hkeep : ∀ y, pending y → seen' y ∨ pending' y)
    (hnext : ∀ y, R x y → seen' y ∨ pending' y)
    (hnew : ∀ y, pending' y → pending y ∨ R x y) : Covers R roots seen' pending' := by
  have hmono : ∀ y, seen y ∨ pending y → seen' y ∨ pending' y := by
    rintro y (hy | hy)
    · exact Or.inl ((hseen y).mpr (Or.inl hy))
    · exact hkeep y hy
  constructor
  · exact fun r hr => hmono r (h.started r hr)
  · intro y z hy hz
    rcases (hseen y).mp hy with hy | rfl
    · exact hmono z (h.closed y z hy hz)
    · exact hnext z hz
  · rintro y (hy | hy)
    · rcases (hseen y).mp hy with hy | rfl
      · exact h.sound y (Or.inl hy)
      · exact h.sound y hx
    · rcases hnew y hy with hy | hy
      · exact h.sound y (Or.inr hy)
      · obtain ⟨r, hr, hreach⟩ := h.sound x hx
        exact ⟨r, hr, hreach.tail hy⟩

theorem Covers.seen_iff (h : Covers R roots seen pending) (hend : ∀ y, ¬pending y) (y : α) :
    seen y ↔ ∃ r, roots r ∧ ReflTransGen R r y := by
  refine ⟨fun hy => h.sound y (Or.inl hy), ?_⟩
  rintro ⟨r, hr, hreach⟩
  induction hreach with
  | refl => exact (h.started r hr).resolve_right (hend r)
  | tail _ hyz ih => exact (h.closed _ _ ih hyz).resolve_right (hend _)

theorem Covers.addRoot (h : Covers R roots seen pending) (hpending : ∀ y, pending y → pending' y)
    (hx : seen x ∨ pending' x) (hnew : ∀ y, pending' y → pending y ∨ y = x) :
    Covers R (fun r => roots r ∨ r = x) seen pending' := by
  have hsound : ∀ y, seen y ∨ pending y → ∃ r, (roots r ∨ r = x) ∧ ReflTransGen R r y :=
    fun y hy => (h.sound y hy).imp fun _ hr => ⟨Or.inl hr.1, hr.2⟩
  constructor
  · rintro r (hr | rfl)
    · exact (h.started r hr).imp_right (hpending r)
    · exact hx
  · exact fun y z hy hz => (h.closed y z hy hz).imp_right (hpending z)
  · rintro y (hy | hy)
    · exact hsound y (Or.inl hy)
    · rcases hnew y hy with hy | rfl
      · exact hsound y (Or.inr hy)
      · exact ⟨_, Or.inr rfl, ReflTransGen.refl⟩

end Covers

end Worklist
