import PolyORB.Types
import PolyORB.Lib.Runs

/-!
# Advanced mutexes

PolyORB.Tasking.Advanced_Mutexes.  `Enter` up to its first Wait, what follows a Wait up to the next
one, and `Leave` are sections under `MMutex`, one step each.  A call that raises keeps `MMutex`.
-/

namespace PolyORB.AdvancedMutexes

abbrev ThreadId := Nat

structure AdvMutex where
  empty : Bool
  current : ThreadId
  level : Nat
  passing : Bool

namespace AdvMutex

def create (creator : ThreadId) : AdvMutex where
  empty := true
  current := creator
  level := 0
  passing := true

/-- The open sections of a task, by what the mutex says. -/
def sections (m : AdvMutex) (t : ThreadId) : Nat :=
  if m.empty = false ∧ m.current = t then m.level else 0

/-- The loop of `Enter` from its condition: whether it ends in a Wait, the mutex then, and the
number of iterations that did not wait. -/
def enterLoop (m : AdvMutex) (self : ThreadId) : Bool × AdvMutex × Nat :=
  if m.empty = false ∧ m.current ≠ self then
    if m.passing = false then (true, m, 0)
    else
      let r := enterLoop { m with passing := false } self
      (r.1, r.2.1, r.2.2 + 1)
  else (false, m, 0)
termination_by m.passing.toNat
decreasing_by
  have : m.passing = true := by simp_all
  rw [this]
  decide

/-- What `Enter` does after the loop. -/
def take (m : AdvMutex) (self : ThreadId) : AdvMutex :=
  { m with empty := false, level := m.level + 1, current := self }

theorem enterLoop_free {m : AdvMutex} {self : ThreadId} (h : m.empty = true ∨ m.current = self) :
    m.enterLoop self = (false, m, 0) := by
  rw [enterLoop, if_neg]
  rintro ⟨hempty, hcurrent⟩
  rcases h with h | h
  · rw [h] at hempty
    cases hempty
  · exact hcurrent h

/-- The loop of a task that finds another owner ends in a Wait, after one iteration if `Passing`. -/
theorem enterLoop_owned {m : AdvMutex} {self : ThreadId} (hempty : m.empty = false)
    (hcurrent : m.current ≠ self) :
    m.enterLoop self = (true, { m with passing := false }, m.passing.toNat) := by
  obtain ⟨empty, current, level, passing⟩ := m
  cases passing with
  | false => rw [enterLoop, if_pos ⟨hempty, hcurrent⟩, if_pos rfl]; rfl
  | true =>
    rw [enterLoop, if_pos ⟨hempty, hcurrent⟩, if_neg (by simp), enterLoop,
      if_pos ⟨hempty, hcurrent⟩, if_pos rfl]
    rfl

end AdvMutex

structure System where
  mutex : AdvMutex
  /-- `MMutex`, between the steps. -/
  held : Bool
  /-- The tasks in Wait that were not signalled, and those that were and have not run since. -/
  waiting : List ThreadId
  awakened : List ThreadId
  /-- History: the critical sections that each task has open. -/
  depth : ThreadId → Nat
  /-- History: the iterations of `Enter` without waiting, and the calls of `Leave` that emptied the
  mutex. -/
  passes : Nat
  emptied : Nat

inductive Action where
  | enter (t : ThreadId)
  | resume (t : ThreadId)
  /-- The signal of `Leave`, if it makes one, awakens the task `chosen`. -/
  | leave (t chosen : ThreadId)

namespace System

abbrev Result := EStateM.Result Exn System Unit

def initial (creator : ThreadId) : System where
  mutex := .create creator
  held := false
  waiting := []
  awakened := []
  depth := fun _ => 0
  passes := 0
  emptied := 0

/-- The loop of `Enter`, and what follows it unless it waits. -/
def proceed (s : System) (t : ThreadId) : Result :=
  match s.mutex.enterLoop t with
  | (true, m, n) => .ok () { s with mutex := m, passes := s.passes + n, waiting := t :: s.waiting }
  | (false, m, n) =>
    if naturalLast ≤ m.level then
      .error .constraintError
        { s with mutex := { m with empty := false }, passes := s.passes + n, held := true }
    else .ok () { s with
      mutex := m.take t
      passes := s.passes + n
      depth := Function.update s.depth t (s.depth t + 1) }

/-- The end of Wait, and what follows it. -/
def resume (s : System) (t : ThreadId) : Result :=
  { s with
    awakened := s.awakened.erase t
    mutex := { s.mutex with passing := false } }.proceed t

def signal (s : System) (chosen : ThreadId) : System :=
  if chosen ∈ s.waiting then
    { s with waiting := s.waiting.erase chosen, awakened := chosen :: s.awakened }
  else s

def leave (s : System) (t chosen : ThreadId) : Result :=
  if s.mutex.current ≠ t ∨ s.mutex.level = 0 then .error .assertionError { s with held := true }
  else
    let s := { s with
      mutex := { s.mutex with level := s.mutex.level - 1 }
      depth := Function.update s.depth t (s.depth t - 1) }
    if s.mutex.level = 0 then
      .ok () ({ s with
        mutex := { s.mutex with empty := true, passing := true }
        emptied := s.emptied + 1 }.signal chosen)
    else .ok () s

def perform (s : System) : Action → Result
  | .enter t => s.proceed t
  | .resume t => s.resume t
  | .leave t chosen => s.leave t chosen

def step (s : System) (a : Action) : System :=
  match s.perform a with
  | .ok _ s' | .error _ s' => s'

/-- A task that does not wait enters, or leaves what it entered; a task that was awakened goes on.
A signal finds one of the waiting tasks. -/
def Possible (s : System) (a : Action) : Prop :=
  s.held = false ∧
    match a with
    | .enter t => t ∉ s.waiting ∧ t ∉ s.awakened
    | .resume t => t ∈ s.awakened
    | .leave t chosen => t ∉ s.waiting ∧ t ∉ s.awakened ∧ 0 < s.depth t ∧
        (s.waiting ≠ [] → chosen ∈ s.waiting)

/-- `Level` is of type Natural. -/
def Shallow (s : System) : Action → Prop
  | .enter t => s.depth t < naturalLast
  | _ => True

/-! ## What an advanced mutex has to do -/

structure Sound (s : System) : Prop where
  exclusive : ∀ t u, 0 < s.depth t → 0 < s.depth u → t = u
  level : ∀ t, 0 < s.depth t → s.mutex.level = s.depth t
  empty : s.mutex.empty = true ↔ s.mutex.level = 0
  free : s.mutex.level = 0 → ∀ t, s.depth t = 0
  /-- A mutex that is not empty has its owner inside. -/
  owned : s.mutex.empty = false → 0 < s.depth s.mutex.current
  awake : s.mutex.empty = true → s.waiting ≠ [] → s.awakened ≠ []
  passes : s.passes ≤ s.emptied + 1

/-- The step raises nothing, leads to a sound state, and opens a section at once if it is a nested
`Enter`. -/
structure Proper (s : System) (a : Action) : Prop where
  returns : ∃ s', s.perform a = .ok () s'
  sound : (s.step a).Sound
  nested : ∀ t, a = .enter t → 0 < s.depth t →
    (s.step a).waiting = s.waiting ∧ (s.step a).passes = s.passes ∧
      (s.step a).depth t = s.depth t + 1

/-! ## The invariant -/

/-- What holds also between a Wait and what follows it. -/
structure Core (s : System) : Prop where
  released : s.held = false
  depth : s.depth = AdvMutex.sections s.mutex
  empty : s.mutex.empty = true ↔ s.mutex.level = 0
  outside : ∀ t ∈ s.waiting ++ s.awakened, s.depth t = 0
  nodup : (s.waiting ++ s.awakened).Nodup
  passes : s.passes + s.mutex.passing.toNat ≤ s.emptied + 1

structure Inv (s : System) : Prop extends s.Core where
  awake : s.mutex.empty = true → s.waiting ≠ [] → s.awakened ≠ []

variable {s : System} {t : ThreadId}

theorem inv_initial (creator : ThreadId) : (initial creator).Inv :=
  ⟨⟨rfl, rfl, by simp [initial, AdvMutex.create], fun _ h => absurd h List.not_mem_nil,
    List.nodup_nil, le_rfl⟩, fun _ h => absurd rfl h⟩

theorem Core.owner (h : s.Core) (ht : 0 < s.depth t) :
    s.mutex.empty = false ∧ s.mutex.current = t ∧ s.mutex.level = s.depth t := by
  rw [h.depth] at ht ⊢
  unfold AdvMutex.sections at ht ⊢
  split_ifs at ht ⊢ with hm
  · exact ⟨hm.1, hm.2, rfl⟩
  · exact absurd ht (lt_irrefl 0)

/-- A task that is not kept out has as many sections open as the level. -/
theorem Core.level_eq (h : s.Core) (hfree : s.mutex.empty = true ∨ s.mutex.current = t) :
    s.mutex.level = s.depth t := by
  rw [h.depth, AdvMutex.sections]
  split_ifs with hm
  · rfl
  · rw [← h.empty]
    rcases hfree with hempty | hcurrent
    · exact hempty
    · by_contra hempty
      exact hm ⟨by simpa using hempty, hcurrent⟩

theorem Core.depth_other {u : ThreadId} (h : s.Core)
    (hfree : s.mutex.empty = true ∨ s.mutex.current = t) (hu : u ≠ t) : s.depth u = 0 := by
  by_contra hne
  obtain ⟨hempty, hcurrent, -⟩ := h.owner (Nat.pos_of_ne_zero hne)
  rcases hfree with hfree | hfree
  · rw [hempty] at hfree
    cases hfree
  · exact hu (hcurrent.symm.trans hfree)

theorem Inv.sound (h : s.Inv) : s.Sound := by
  refine ⟨fun t u ht hu => ?_, fun t ht => (h.owner ht).2.2, h.empty, fun hlevel t => ?_,
    fun hempty => ?_, h.awake, ?_⟩
  · rw [← (h.owner ht).2.1, ← (h.owner hu).2.1]
  · by_contra hne
    have := (h.owner (Nat.pos_of_ne_zero hne)).2.2
    omega
  · rw [← h.level_eq (.inr rfl)]
    refine Nat.pos_of_ne_zero fun hzero => ?_
    rw [h.empty.2 hzero] at hempty
    cases hempty
  · have := h.passes
    omega

/-! ## The steps -/

/-- The loop does not wait for the owner or if the mutex is empty. -/
theorem Core.proceed_free (h : s.Core) (hfree : s.mutex.empty = true ∨ s.mutex.current = t)
    (ht : s.depth t < naturalLast) (hout : t ∉ s.waiting ++ s.awakened) :
    ∃ s', s.proceed t = .ok () s' ∧ s'.Inv ∧ s'.waiting = s.waiting ∧ s'.passes = s.passes ∧
      s'.depth t = s.depth t + 1 := by
  have hlevel := h.level_eq hfree
  refine ⟨{ s with
    mutex := s.mutex.take t
    depth := Function.update s.depth t (s.depth t + 1) }, ?_, ⟨⟨h.released, ?_, ?_, ?_, h.nodup,
      h.passes⟩, fun hempty => by cases hempty⟩, rfl, rfl, Function.update_self ..⟩
  · rw [proceed, AdvMutex.enterLoop_free hfree]
    simp [hlevel, if_neg (not_le.mpr ht)]
  · funext u
    by_cases hu : u = t
    · subst hu
      simp [AdvMutex.sections, AdvMutex.take, hlevel]
    · simp [AdvMutex.sections, AdvMutex.take, Function.update_of_ne hu, h.depth_other hfree hu,
        Ne.symm hu]
  · simp [AdvMutex.take]
  · intro u hu
    have hne : u ≠ t := fun heq => hout (heq ▸ hu)
    exact (Function.update_of_ne hne ..).trans (h.outside u hu)

theorem Core.proceed_owned (h : s.Core) (hempty : s.mutex.empty = false)
    (hcurrent : s.mutex.current ≠ t) (hout : t ∉ s.waiting ++ s.awakened) :
    ∃ s', s.proceed t = .ok () s' ∧ s'.Inv := by
  have hzero : s.depth t = 0 := by
    by_contra hne
    exact hcurrent (h.owner (Nat.pos_of_ne_zero hne)).2.1
  refine ⟨{ s with
    mutex := { s.mutex with passing := false }
    passes := s.passes + s.mutex.passing.toNat
    waiting := t :: s.waiting }, by rw [proceed, AdvMutex.enterLoop_owned hempty hcurrent],
    ⟨⟨h.released, h.depth, h.empty, ?_, List.nodup_cons.mpr ⟨hout, h.nodup⟩, h.passes⟩, ?_⟩⟩
  · intro u hu
    rcases List.mem_cons.mp hu with rfl | hu
    · exact hzero
    · exact h.outside u hu
  · intro he
    rw [show s.mutex.empty = true from he] at hempty
    cases hempty

theorem Core.proceed (h : s.Core) (ht : s.depth t < naturalLast)
    (hout : t ∉ s.waiting ++ s.awakened) : ∃ s', s.proceed t = .ok () s' ∧ s'.Inv := by
  by_cases hfree : s.mutex.empty = true ∨ s.mutex.current = t
  · obtain ⟨s', hs', hinv, -⟩ := h.proceed_free hfree ht hout
    exact ⟨s', hs', hinv⟩
  · rw [not_or, Bool.not_eq_true] at hfree
    exact h.proceed_owned hfree.1 hfree.2 hout

/-- A task that was awakened has no section open, and clears `Passing`. -/
theorem Inv.resume (h : s.Inv) (ht : t ∈ s.awakened) : ∃ s', s.resume t = .ok () s' ∧ s'.Inv := by
  have hout : t ∉ s.waiting ++ s.awakened.erase t := by
    obtain ⟨hawakened, hwaiting, hdisjoint⟩ := List.nodup_append.mp h.nodup
    rw [List.mem_append, not_or]
    exact ⟨fun hw => hdisjoint t hw t ht rfl, hwaiting.not_mem_erase⟩
  have hcore : Core { s with
      awakened := s.awakened.erase t, mutex := { s.mutex with passing := false } } := by
    have hsub : (s.waiting ++ s.awakened.erase t).Sublist (s.waiting ++ s.awakened) :=
      List.erase_sublist.append_left s.waiting
    refine ⟨h.released, h.depth, h.empty, fun u hu => h.outside u (hsub.subset hu),
      h.nodup.sublist hsub, ?_⟩
    have := h.passes
    show s.passes + 0 ≤ s.emptied + 1
    omega
  have hzero : s.depth t = 0 := h.outside t (List.mem_append_right _ ht)
  exact hcore.proceed (by rw [hzero]; decide) hout

theorem signal_core (h : s.Core) (chosen : ThreadId) : (s.signal chosen).Core := by
  unfold signal
  split_ifs with hmem
  · have hperm : (s.waiting.erase chosen ++ chosen :: s.awakened).Perm (s.waiting ++ s.awakened) :=
      List.perm_middle.trans ((List.perm_cons_erase hmem).symm.append_right s.awakened)
    exact ⟨h.released, h.depth, h.empty, fun u hu => h.outside u (hperm.mem_iff.mp hu),
      hperm.nodup_iff.mpr h.nodup, h.passes⟩
  · exact h

theorem signal_awake (h : s.waiting ≠ [] → t ∈ s.waiting) (hne : (s.signal t).waiting ≠ []) :
    (s.signal t).awakened ≠ [] := by
  unfold signal at hne ⊢
  split_ifs at hne ⊢ with hmem
  · nofun
  · exact absurd (h hne) hmem

/-- A `Leave` of the outermost section awakens a task if one waits. -/
theorem Inv.leave {chosen : ThreadId} (h : s.Inv) (ht : 0 < s.depth t)
    (hchosen : s.waiting ≠ [] → chosen ∈ s.waiting) :
    ∃ s', s.leave t chosen = .ok () s' ∧ s'.Inv := by
  obtain ⟨hempty, hcurrent, hlevel⟩ := h.owner ht
  have hothers : ∀ u ≠ t, s.depth u = 0 := fun u hu => h.depth_other (.inr hcurrent) hu
  have houtside : ∀ u ∈ s.waiting ++ s.awakened,
      Function.update s.depth t (s.depth t - 1) u = 0 := by
    intro u hu
    by_cases heq : u = t
    · rw [heq, Function.update_self, h.outside t (heq ▸ hu)]
    · rw [Function.update_of_ne heq, h.outside u hu]
  have hraise : ¬(s.mutex.current ≠ t ∨ s.mutex.level = 0) := by
    rintro (hne | hzero)
    · exact hne hcurrent
    · omega
  rw [System.leave, if_neg hraise]
  dsimp only
  split_ifs with hzero
  · refine ⟨_, rfl, signal_core ?_ chosen, fun _ => signal_awake hchosen⟩
    refine ⟨h.released, ?_, iff_of_true rfl hzero, houtside, h.nodup, ?_⟩
    · funext u
      by_cases hu : u = t
      · subst hu
        simp [AdvMutex.sections]
        omega
      · simp [AdvMutex.sections, Function.update_of_ne hu, hothers u hu]
    · have := h.passes
      show s.passes + 1 ≤ s.emptied + 1 + 1
      omega
  · refine ⟨_, rfl, ⟨h.released, ?_, ?_, houtside, h.nodup, h.passes⟩, fun he => ?_⟩
    · funext u
      by_cases hu : u = t
      · subst hu
        simp [AdvMutex.sections, hempty, hcurrent, hlevel]
      · simp [AdvMutex.sections, Function.update_of_ne hu, hothers u hu, hcurrent, Ne.symm hu]
    · simp [hempty]
      omega
    · rw [show s.mutex.empty = true from he] at hempty
      cases hempty

theorem Inv.perform {a : Action} (h : s.Inv) (ha : s.Possible a) (hshallow : s.Shallow a) :
    ∃ s', s.perform a = .ok () s' ∧ s'.Inv := by
  obtain ⟨-, ha⟩ := ha
  cases a with
  | enter t => exact h.proceed hshallow (by simp [ha.1, ha.2])
  | resume t => exact h.resume ha
  | leave t chosen => exact h.leave ha.2.2.1 ha.2.2.2

theorem step_proper {a : Action} (h : s.Inv) (ha : s.Possible a) (hshallow : s.Shallow a) :
    s.Proper a ∧ (s.step a).Inv := by
  obtain ⟨s', hs', hinv⟩ := h.perform ha hshallow
  have hstep : s.step a = s' := by rw [step, hs']
  refine ⟨⟨⟨s', hs'⟩, hstep ▸ hinv.sound, ?_⟩, hstep ▸ hinv⟩
  rintro t rfl ht
  have hout : t ∉ s.waiting ++ s.awakened := by simp [ha.2.1, ha.2.2]
  obtain ⟨s'', hs'', -, hrest⟩ := h.proceed_free (.inr (h.owner ht).2.1) hshallow hout
  have heq : s' = s'' := by
    have := hs'.symm.trans hs''
    injection this
  rw [hstep, heq]
  exact hrest

/-- The owner's `Enter` raises when the level can not grow. -/
theorem Inv.shallow {a : Action} (h : s.Inv) (ha : s.Proper a) : s.Shallow a := by
  cases a with
  | enter t =>
    by_contra hdeep
    have hlast : naturalLast ≤ s.depth t := not_lt.mp hdeep
    obtain ⟨-, hcurrent, hlevel⟩ := h.owner ((show 0 < naturalLast by decide).trans_le hlast)
    obtain ⟨s', hs'⟩ := ha.returns
    rw [System.perform, System.proceed, AdvMutex.enterLoop_free (.inr hcurrent)] at hs'
    dsimp only at hs'
    rw [if_pos (hlevel ▸ hlast)] at hs'
    cases hs'
  | resume t => trivial
  | leave t chosen => trivial

/-- Every run of tasks that leave only what they entered, and enter no deeper than `Level` counts,
is one of an advanced mutex. -/
theorem advMutex_run (creator : ThreadId) (as : List Action)
    (h : Runs.Along step Possible (initial creator) as)
    (hshallow : Runs.Along step Shallow (initial creator) as) :
    Runs.Along step Proper (initial creator) as ∧ (Runs.reach step (initial creator) as).Sound := by
  have hstep : ∀ s a, Inv s → Possible s a ∧ Shallow s a → Inv (step s a) :=
    fun _ _ hs ha => (step_proper hs ha.1 ha.2).2
  have has := Runs.along_and as h hshallow
  exact ⟨Runs.along_of_inv (fun _ _ hs ha => step_proper hs ha.1 ha.2) as _ (inv_initial creator)
      has,
    (Runs.reach_of_inv hstep as _ (inv_initial creator) has).sound⟩

/-- A nested section, and a task that waits for it. -/
theorem advMutex_run_nested :
    (Runs.reach step (initial 0)
      [.enter 0, .enter 0, .enter 1, .leave 0 1, .leave 0 1, .resume 1]).Sound :=
  (advMutex_run 0 [.enter 0, .enter 0, .enter 1, .leave 0 1, .leave 0 1, .resume 1]
    (by simp [Runs.Along, step, perform, leave, proceed, signal, AdvMutex.enterLoop, initial,
      AdvMutex.create, AdvMutex.take, Possible, naturalLast])
    (by simp [Runs.Along, step, perform, proceed, AdvMutex.enterLoop, initial, AdvMutex.create,
      AdvMutex.take, Shallow, naturalLast])).2

theorem advMutex_proper_iff (creator : ThreadId) (as : List Action)
    (h : Runs.Along step Possible (initial creator) as) :
    Runs.Along step Proper (initial creator) as ↔ Runs.Along step Shallow (initial creator) as :=
  Runs.along_iff (fun _ _ hs ha => ⟨hs.shallow, step_proper hs ha⟩) as _ (inv_initial creator) h

/-- A task enters before the one that was awakened, which waits again. -/
theorem advMutex_proper_barging :
    Runs.Along step Proper (initial 0)
      [.enter 0, .enter 1, .leave 0 1, .enter 2, .resume 1, .leave 2 1, .resume 1, .leave 1 0] :=
  (advMutex_proper_iff 0
    [.enter 0, .enter 1, .leave 0 1, .enter 2, .resume 1, .leave 2 1, .resume 1, .leave 1 0]
    (by simp [Runs.Along, step, perform, leave, resume, proceed, signal, AdvMutex.enterLoop,
      initial, AdvMutex.create, AdvMutex.take, Possible, naturalLast])).mpr
    (by simp [Runs.Along, step, perform, leave, proceed, signal, AdvMutex.enterLoop, initial,
      AdvMutex.create, AdvMutex.take, Shallow, naturalLast])

/-- `Create` lets one task pass the loop without a Wait before any `Leave`. -/
theorem not_passes_le_emptied :
    Runs.Along step Possible (initial 0) [.enter 0, .enter 1] ∧
      ¬(Runs.reach step (initial 0) [.enter 0, .enter 1]).passes ≤
        (Runs.reach step (initial 0) [.enter 0, .enter 1]).emptied := by
  simp [Runs.Along, Runs.reach, step, perform, proceed, AdvMutex.enterLoop, initial,
    AdvMutex.create, AdvMutex.take, Possible, naturalLast]

end System

end PolyORB.AdvancedMutexes
