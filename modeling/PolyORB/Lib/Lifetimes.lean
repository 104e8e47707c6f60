import Mathlib.Tactic

/-!
# The life of a counted object

An object is counted by its references, and a registry lists it without counting.  A lookup in the
registry raises the counter first, and takes that back when the object had no reference.  The step
that gives up the last reference starts the finalization, which takes the object off the registry
before it dismantles and frees it.
-/

namespace Lifetimes

@[ext]
structure Life where
  born : Bool
  counter : Int
  references : Nat
  /-- Increments of lookups that found no reference, not yet taken back. -/
  attempts : Nat
  /-- Finalizations that have not looked at the registry yet. -/
  finalizing : Nat
  dismantling : Nat
  /-- Registrations on their way. -/
  registering : Nat
  listed : Nat
  marked : Bool
  registrations : Nat
  removals : Nat
  finalizations : Nat
  frees : Nat

namespace Life

/-- The object is counted right, finalized once it has lost its references and freed by its
finalization, and listed only before that. -/
structure Sound (l : Life) : Prop where
  counter : l.counter = l.references + l.attempts
  finalizations : l.finalizations = if l.born = true ∧ l.references = 0 then 1 else 0
  frees : l.frees + l.finalizing + l.dismantling = l.finalizations
  listed : 0 < l.listed → l.marked = true ∧ l.frees = 0
  removals : l.removals + l.listed = l.registrations
  registrations : l.registrations + l.registering ≤ 1

structure Inv (limit : Int) (l : Life) : Prop extends l.Sound where
  bounded : l.counter ≤ limit
  attempts : 0 < l.attempts → l.references = 0
  marked : l.marked = true ↔ 0 < l.listed
  standing : 0 < l.listed → l.dismantling = 0
  unborn : l.born = false →
    l.references = 0 ∧ l.attempts = 0 ∧ l.registrations = 0 ∧ l.registering = 0

/-- The steps of a life, with a counter that goes up to `limit`. -/
inductive Step (limit : Int) : Life → Life → Prop
  | stay (l : Life) : Step limit l l
  | bear (l : Life) : l.born = false → 1 ≤ limit →
      Step limit l { l with born := true, counter := 1, references := 1 }
  | refer (l : Life) : 0 < l.references → l.counter < limit →
      Step limit l { l with counter := l.counter + 1, references := l.references + 1 }
  | attempt (l : Life) : l.born = true → l.references = 0 → l.counter < limit →
      Step limit l { l with counter := l.counter + 1, attempts := l.attempts + 1 }
  | giveUp (l : Life) (n : Nat) : l.attempts = n + 1 →
      Step limit l { l with counter := l.counter - 1, attempts := n }
  | release (l : Life) (n : Nat) : l.references = n + 2 →
      Step limit l { l with counter := l.counter - 1, references := n + 1 }
  | releaseLast (l : Life) : l.references = 1 →
      Step limit l
        { l with
          counter := l.counter - 1
          references := 0
          finalizations := l.finalizations + 1
          finalizing := l.finalizing + 1 }
  | announce (l : Life) : l.born = true → l.registrations + l.registering = 0 →
      Step limit l { l with registering := l.registering + 1 }
  | register (l : Life) (n : Nat) : l.registering = n + 1 → l.frees = 0 → l.dismantling = 0 →
      Step limit l
        { l with
          registering := n
          listed := l.listed + 1
          marked := true
          registrations := l.registrations + 1 }
  | purge (l : Life) (n : Nat) : l.listed = n + 1 →
      Step limit l { l with listed := n, marked := false, removals := l.removals + 1 }
  | unregister (l : Life) (n k : Nat) : l.finalizing = n + 1 → l.listed = k + 1 →
      Step limit l
        { l with
          finalizing := n
          dismantling := l.dismantling + 1
          listed := k
          marked := false
          removals := l.removals + 1 }
  | unlisted (l : Life) (n : Nat) : l.finalizing = n + 1 → l.listed = 0 →
      Step limit l { l with finalizing := n, dismantling := l.dismantling + 1 }
  | free (l : Life) (n : Nat) : l.dismantling = n + 1 →
      Step limit l { l with dismantling := n, frees := l.frees + 1 }

variable {limit : Int} {l l' : Life}

theorem Step.to {l₁ : Life} (hs : Step limit l l₁) (h : l' = l₁) : Step limit l l' := h ▸ hs

theorem Inv.listed_le (h : l.Inv limit) : l.listed ≤ 1 := by
  have := h.removals
  have := h.registrations
  omega

theorem Inv.born_of_references (h : l.Inv limit) (hr : 0 < l.references) : l.born = true := by
  cases hb : l.born with
  | true => rfl
  | false => exact absurd (h.unborn hb).1 (by omega)

theorem Inv.finalizations_of_references (h : l.Inv limit) (hr : 0 < l.references) :
    l.finalizations = 0 := by
  rw [h.finalizations, if_neg (by omega)]

theorem Inv.step (h : l.Inv limit) (hs : Step limit l l') : l'.Inv limit := by
  obtain ⟨⟨hcounter, hfinal, hfrees, hlisted, hremovals, hregs⟩, hbounded, hattempts, hmarked,
    hstand, hunborn⟩ := h
  cases hs with
  | stay => exact ⟨⟨hcounter, hfinal, hfrees, hlisted, hremovals, hregs⟩, hbounded, hattempts,
      hmarked, hstand, hunborn⟩
  | bear hb hlimit =>
    obtain ⟨hrefs, hatt, hreg, hing⟩ := hunborn hb
    refine ⟨⟨?_, ?_, hfrees, hlisted, hremovals, hregs⟩, hlimit, ?_, hmarked, hstand, nofun⟩
    · simp [hatt]
    · simpa [hb] using hfinal
    · intro hpos
      simp only at hpos
      omega
  | refer hr hroom =>
    refine ⟨⟨?_, ?_, hfrees, hlisted, hremovals, hregs⟩, Int.add_one_le_iff.mpr hroom, ?_,
      hmarked, hstand, ?_⟩
    · simp only
      omega
    · rw [hfinal]
      simp only [Nat.add_eq_zero_iff, one_ne_zero, and_false, if_false, ite_eq_right_iff, and_imp]
      omega
    · intro hpos
      exact absurd (hattempts hpos) (by omega)
    · intro hb
      exact absurd (hunborn hb).1 (by omega)
  | attempt hb hr hroom =>
    refine ⟨⟨?_, hfinal, hfrees, hlisted, hremovals, hregs⟩, Int.add_one_le_iff.mpr hroom,
      fun _ => hr, hmarked, hstand, ?_⟩
    · simp only
      omega
    · intro hb'
      simp [hb] at hb'
  | giveUp n hn =>
    refine ⟨⟨?_, hfinal, hfrees, hlisted, hremovals, hregs⟩, Int.sub_one_lt_of_le hbounded |>.le,
      ?_, hmarked, hstand, ?_⟩
    · simp only
      omega
    · intro _
      exact hattempts (by omega)
    · intro hb
      exact absurd (hunborn hb).2.1 (by omega)
  | release n hn =>
    refine ⟨⟨?_, ?_, hfrees, hlisted, hremovals, hregs⟩, Int.sub_one_lt_of_le hbounded |>.le, ?_,
      hmarked, hstand, ?_⟩
    · simp only
      omega
    · rw [hfinal]
      simp [hn]
    · intro hpos
      exact absurd (hattempts hpos) (by omega)
    · intro hb
      exact absurd (hunborn hb).1 (by omega)
  | releaseLast hr =>
    have hborn : l.born = true := by
      by_contra hb
      exact absurd (hunborn (by simpa using hb)).1 (by omega)
    have hzero : l.finalizations = 0 := by
      rw [hfinal, if_neg (by omega)]
    refine ⟨⟨?_, ?_, ?_, hlisted, hremovals, hregs⟩, Int.sub_one_lt_of_le hbounded |>.le,
      fun _ => rfl, hmarked, hstand, ?_⟩
    · simp only
      omega
    · simp [hborn, hzero]
    · simp only
      omega
    · intro hb
      simp [hborn] at hb
  | announce hb hz =>
    refine ⟨⟨hcounter, hfinal, hfrees, hlisted, hremovals, ?_⟩, hbounded, hattempts, hmarked,
      hstand, ?_⟩
    · simp only
      omega
    · intro hb'
      simp [hb] at hb'
  | register n hn hf hd =>
    refine ⟨⟨hcounter, hfinal, hfrees, fun _ => ⟨rfl, hf⟩, ?_, ?_⟩, hbounded, hattempts, by simp,
      fun _ => hd, ?_⟩
    · simp only
      omega
    · simp only
      omega
    · intro hb
      exact absurd (hunborn hb).2.2.2 (by omega)
  | purge n hn =>
    refine ⟨⟨hcounter, hfinal, hfrees, ?_, ?_, hregs⟩, hbounded, hattempts, ?_, ?_, hunborn⟩
    · simp only
      omega
    · simp only
      omega
    · simp only [Bool.false_eq_true, false_iff]
      omega
    · simp only
      omega
  | unregister n k hn hk =>
    refine ⟨⟨hcounter, hfinal, ?_, ?_, ?_, hregs⟩, hbounded, hattempts, ?_, ?_, hunborn⟩
    · simp only
      omega
    · simp only
      omega
    · simp only
      omega
    · simp only [Bool.false_eq_true, false_iff]
      omega
    · simp only
      omega
  | unlisted n hn hz =>
    refine ⟨⟨hcounter, hfinal, ?_, hlisted, hremovals, hregs⟩, hbounded, hattempts, hmarked, ?_,
      hunborn⟩
    · simp only
      omega
    · simp only
      omega
  | free n hn =>
    refine ⟨⟨hcounter, hfinal, ?_, ?_, hremovals, hregs⟩, hbounded, hattempts, hmarked, ?_, hunborn⟩
    · simp only
      omega
    · simp only
      omega
    · simp only
      omega

end Life

end Lifetimes
