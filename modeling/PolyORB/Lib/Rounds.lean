import Mathlib.Logic.Function.Basic
import Mathlib.Tactic

/-!
# Workers on their rounds

Workers do jobs one at a time; a job is to visit the places of a list in turn.  Jobs are numbered as
they are begun.  Each place keeps a log of the jobs that visited it: no job visits a place twice,
and the jobs of one worker visit it in the order they were begun (`Log`).
-/

namespace Rounds

variable {σ : Type}

/-- The workers of the jobs that were begun, and what is left to visit for the job of a worker. -/
structure Book (σ : Type) where
  jobs : List σ
  work : σ → Option (Nat × List Nat)

namespace Book

variable {b : Book σ} {s : σ} {n j : Nat} {places log : List Nat} {due : Nat → Prop}

/-- The work in progress is on jobs of the workers themselves. -/
def Valid (b : Book σ) : Prop :=
  ∀ s n places, b.work s = some (n, places) → b.jobs[n]? = some s ∧ places.Nodup

/-- No worker is at job `n` any more. -/
def Ended (b : Book σ) (n : Nat) : Prop := ∀ s places, b.work s ≠ some (n, places)

structure Log (b : Book σ) (j : Nat) (log : List Nat) : Prop where
  ordered : log.Pairwise fun m n => b.jobs[m]? = b.jobs[n]? → m < n
  bounded : ∀ m ∈ log, m < b.jobs.length
  latest : ∀ s n places, b.work s = some (n, places) → ∀ m ∈ log, b.jobs[m]? = some s → m ≤ n
  ahead : ∀ s n places, b.work s = some (n, places) → j ∈ places → n ∉ log

/-- The jobs of `due` have visited place `j`, or are going to. -/
def Serves (b : Book σ) (j : Nat) (log : List Nat) (due : Nat → Prop) : Prop :=
  ∀ n, due n → n ∈ log ∨ ∃ s places, b.work s = some (n, places) ∧ j ∈ places

theorem Valid.lt (h : b.Valid) (hw : b.work s = some (n, places)) : n < b.jobs.length :=
  (List.getElem?_eq_some_iff.1 (h s n places hw).1).1

theorem Valid.unique (h : b.Valid) {s' : σ} {places' : List Nat} (hw : b.work s = some (n, places))
    (hw' : b.work s' = some (n, places')) : s' = s := by
  have h1 := (h s n places hw).1
  rw [(h s' n places' hw').1] at h1
  exact Option.some.inj h1

theorem Log.empty (b : Book σ) (j : Nat) : b.Log j [] where
  ordered := .nil
  bounded := by simp
  latest := by simp
  ahead := by simp

/-- What ended jobs were due to visit, they have visited. -/
theorem Serves.mem_of_ended (h : b.Serves j log due) (hn : due n) (he : b.Ended n) : n ∈ log := by
  rcases h n hn with hlog | ⟨s, places, hw, -⟩
  · exact hlog
  · exact absurd hw (he s places)

variable [DecidableEq σ]

def begin (b : Book σ) (s : σ) (places : List Nat) : Book σ :=
  ⟨b.jobs ++ [s], Function.update b.work s (some (b.jobs.length, places))⟩

def setWork (b : Book σ) (s : σ) (w : Option (Nat × List Nat)) : Book σ :=
  ⟨b.jobs, Function.update b.work s w⟩

theorem work_begin (b : Book σ) (s s' : σ) (places : List Nat) : (b.begin s places).work s' =
    if s' = s then some (b.jobs.length, places) else b.work s' := Function.update_apply ..

theorem work_setWork (b : Book σ) (s s' : σ) (w : Option (Nat × List Nat)) :
    (b.setWork s w).work s' = if s' = s then w else b.work s' := Function.update_apply ..

theorem jobs_begin (b : Book σ) (s : σ) (places : List Nat) {m : Nat} (h : m < b.jobs.length) :
    (b.begin s places).jobs[m]? = b.jobs[m]? := List.getElem?_append_left h

theorem jobs_begin_length (b : Book σ) (s : σ) (places : List Nat) :
    (b.begin s places).jobs[b.jobs.length]? = some s := by
  simp [begin]

namespace Valid

theorem begin (h : b.Valid) (hp : places.Nodup) : (b.begin s places).Valid := by
  intro s' n' places' hw
  rw [work_begin] at hw
  split at hw
  · rename_i heq
    obtain ⟨rfl, rfl⟩ := Prod.mk.inj (Option.some.inj hw)
    exact ⟨heq ▸ jobs_begin_length b s places, hp⟩
  · have hv := h s' n' places' hw
    exact ⟨(jobs_begin b s places (h.lt hw)).trans hv.1, hv.2⟩

theorem stop (h : b.Valid) (s : σ) : (b.setWork s none).Valid := by
  intro s' n' places' hw
  rw [work_setWork] at hw
  split at hw
  · cases hw
  · exact h s' n' places' hw

theorem visit (h : b.Valid) (hw : b.work s = some (n, j :: places)) :
    (b.setWork s (some (n, places))).Valid := by
  intro s' n' places' hw'
  rw [work_setWork] at hw'
  split at hw'
  · rename_i heq
    obtain ⟨rfl, rfl⟩ := Prod.mk.inj (Option.some.inj hw')
    have hv := h s n _ hw
    exact ⟨heq ▸ hv.1, hv.2.of_cons⟩
  · exact h s' n' places' hw'

end Valid

namespace Log

theorem begin (h : b.Log j log) (s : σ) (places : List Nat) : (b.begin s places).Log j log where
  ordered := by
    refine h.ordered.imp_of_mem fun {m n} hm hn hlt heq => hlt ?_
    rwa [jobs_begin b s places (h.bounded m hm), jobs_begin b s places (h.bounded n hn)] at heq
  bounded m hm := by
    have hlt := h.bounded m hm
    simp [Book.begin]
    omega
  latest s' n' places' hw m hm hs := by
    rw [work_begin] at hw
    have hlt := h.bounded m hm
    split at hw
    · obtain ⟨rfl, rfl⟩ := Prod.mk.inj (Option.some.inj hw)
      omega
    · rw [jobs_begin b s places hlt] at hs
      exact h.latest s' n' places' hw m hm hs
  ahead s' n' places' hw hj := by
    rw [work_begin] at hw
    split at hw
    · obtain ⟨rfl, rfl⟩ := Prod.mk.inj (Option.some.inj hw)
      intro hm
      have := h.bounded _ hm
      omega
    · exact h.ahead s' n' places' hw hj

theorem stop (h : b.Log j log) (s : σ) : (b.setWork s none).Log j log where
  ordered := h.ordered
  bounded := h.bounded
  latest s' n' places' hw := by
    rw [work_setWork] at hw
    split at hw
    · cases hw
    · exact h.latest s' n' places' hw
  ahead s' n' places' hw := by
    rw [work_setWork] at hw
    split at hw
    · cases hw
    · exact h.ahead s' n' places' hw

theorem pass (h : b.Log j log) {i : Nat} (hw : b.work s = some (n, i :: places)) :
    (b.setWork s (some (n, places))).Log j log where
  ordered := h.ordered
  bounded := h.bounded
  latest s' n' places' hw' := by
    rw [work_setWork] at hw'
    split at hw'
    · rename_i heq
      obtain ⟨rfl, rfl⟩ := Prod.mk.inj (Option.some.inj hw')
      exact heq ▸ h.latest s n _ hw
    · exact h.latest s' n' places' hw'
  ahead s' n' places' hw' hj := by
    rw [work_setWork] at hw'
    split at hw'
    · obtain ⟨rfl, rfl⟩ := Prod.mk.inj (Option.some.inj hw')
      exact h.ahead s n _ hw (List.mem_cons_of_mem i hj)
    · exact h.ahead s' n' places' hw' hj

theorem visit (h : b.Log j log) (hv : b.Valid) (hw : b.work s = some (n, j :: places)) :
    (b.setWork s (some (n, places))).Log j (log ++ [n]) := by
  have hpass := h.pass hw
  have hs := (hv s n _ hw).1
  have hfresh := h.ahead s n _ hw List.mem_cons_self
  constructor
  · refine List.pairwise_append.2 ⟨hpass.ordered, List.pairwise_singleton _ _, ?_⟩
    intro m hm n' hn' heq
    obtain rfl := List.mem_singleton.1 hn'
    have hle := h.latest s _ _ hw m hm (heq.trans hs)
    have hne : m ≠ n' := fun hmn => hfresh (hmn ▸ hm)
    omega
  · intro m hm
    rcases List.mem_append.1 hm with hm | hm
    · exact h.bounded m hm
    · obtain rfl := List.mem_singleton.1 hm
      exact hv.lt hw
  · intro s' n' places' hw' m hm hms
    rcases List.mem_append.1 hm with hm | hm
    · exact hpass.latest s' n' places' hw' m hm hms
    · obtain rfl := List.mem_singleton.1 hm
      obtain rfl : s' = s := Option.some.inj (hms.symm.trans hs)
      rw [work_setWork, if_pos rfl] at hw'
      obtain ⟨rfl, -⟩ := Prod.mk.inj (Option.some.inj hw')
      exact le_rfl
  · intro s' n' places' hw' hj hm
    rcases List.mem_append.1 hm with hm | hm
    · exact hpass.ahead s' n' places' hw' hj hm
    · obtain rfl := List.mem_singleton.1 hm
      rw [work_setWork] at hw'
      split at hw'
      · obtain ⟨-, rfl⟩ := Prod.mk.inj (Option.some.inj hw')
        exact (List.nodup_cons.1 (hv s _ _ hw).2).1 hj
      · rename_i hne
        exact hne (hv.unique hw hw')

end Log

namespace Serves

theorem begin (h : b.Serves j log due) (hs : b.work s = none) {due' : Nat → Prop}
    (hdue : ∀ n, due' n → due n ∨ n = b.jobs.length ∧ j ∈ places) :
    (b.begin s places).Serves j log due' := by
  intro n hn
  rcases hdue n hn with hn | ⟨rfl, hj⟩
  · rcases h n hn with hlog | ⟨s', places', hw, hj⟩
    · exact .inl hlog
    · have hne : s' ≠ s := by
        rintro rfl
        rw [hs] at hw
        cases hw
      exact .inr ⟨s', places', by rw [work_begin, if_neg hne, hw], hj⟩
  · exact .inr ⟨s, places, by rw [work_begin, if_pos rfl], hj⟩

theorem stop (h : b.Serves j log due) (hw : b.work s = some (n, places))
    (hdue : due n → j ∈ places → n ∈ log) : (b.setWork s none).Serves j log due := by
  intro m hm
  rcases h m hm with hlog | ⟨s', places', hw', hj⟩
  · exact .inl hlog
  · by_cases hs : s' = s
    · subst hs
      rw [hw] at hw'
      obtain ⟨rfl, rfl⟩ := Prod.mk.inj (Option.some.inj hw')
      exact .inl (hdue hm hj)
    · exact .inr ⟨s', places', by rw [work_setWork, if_neg hs, hw'], hj⟩

theorem pass (h : b.Serves j log due) {i : Nat} (hw : b.work s = some (n, i :: places))
    (hij : i ≠ j) : (b.setWork s (some (n, places))).Serves j log due := by
  intro m hm
  rcases h m hm with hlog | ⟨s', places', hw', hj⟩
  · exact .inl hlog
  · by_cases hs : s' = s
    · subst hs
      rw [hw] at hw'
      obtain ⟨rfl, rfl⟩ := Prod.mk.inj (Option.some.inj hw')
      refine .inr ⟨s', places, by rw [work_setWork, if_pos rfl], ?_⟩
      exact (List.mem_cons.1 hj).resolve_left (Ne.symm hij)
    · exact .inr ⟨s', places', by rw [work_setWork, if_neg hs, hw'], hj⟩

theorem visit (h : b.Serves j log due) (hw : b.work s = some (n, j :: places)) :
    (b.setWork s (some (n, places))).Serves j (log ++ [n]) due := by
  intro m hm
  rcases h m hm with hlog | ⟨s', places', hw', hj⟩
  · exact .inl (List.mem_append_left _ hlog)
  · by_cases hs : s' = s
    · subst hs
      rw [hw] at hw'
      obtain ⟨rfl, rfl⟩ := Prod.mk.inj (Option.some.inj hw')
      rcases List.mem_cons.1 hj with - | hj
      · exact .inl (by simp)
      · exact .inr ⟨s', places, by rw [work_setWork, if_pos rfl], hj⟩
    · exact .inr ⟨s', places', by rw [work_setWork, if_neg hs, hw'], hj⟩

end Serves

end Book

end Rounds
