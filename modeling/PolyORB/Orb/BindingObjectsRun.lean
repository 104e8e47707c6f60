import PolyORB.Orb.BindingLives
import PolyORB.Lib.Runs

/-!
# The lifetime of binding objects

Each step of the system is a step in the life of every binding object, as long as the counters have
room and no binding object is put on the list after its finalization has looked for it there.
-/

namespace PolyORB

/-- Inside the critical section of `Get_Binding_Objects`. -/
def BindingFrame.inScan : BindingFrame → Bool
  | .scanning _ _ _ | .giving _ _ _ _ | .holding _ _ _ _ | .dropping _ _ _ _ => true
  | _ => false

/-- The objects of the list that are still to be looked at. -/
def BindingFrame.rest : BindingFrame → List Nat
  | .scanning _ rest _ | .giving _ _ rest _ | .holding _ _ rest _ | .dropping _ _ rest _ => rest
  | _ => []

/-- The result has the object whose local reference is to be finalized. -/
def BindingFrame.Kept : BindingFrame → Prop
  | .dropping o _ _ result => o ∈ result
  | _ => True

namespace BindingSystem

open Lifetimes

variable {s s' : BindingSystem} {t r o p : Nat} {f g : BindingFrame}
  {st st' below : List BindingFrame}

/-! ## The stacks -/

/-- A lookup is at the top of the stack of the task that has the lock. -/
def StackOk (s : BindingSystem) (t : Nat) : List BindingFrame → Prop
  | [] => s.lock ≠ some t
  | f :: below =>
    (f.inScan = true ↔ s.lock = some t) ∧ (f.rest.Nodup ∧ ∀ o ∈ f.rest, o ∈ s.bindingObjects) ∧
      (f ≠ .failed ∧ f.Kept) ∧ ∀ g ∈ below, g.inScan = false ∧ g ≠ .failed

structure BindingInv (s : BindingSystem) : Prop where
  counts : ∀ o, s.Counts o
  shape : ∀ t st, s.tasks[t]? = some st → s.StackOk t st
  holder : ∀ t, s.lock = some t → t < s.tasks.length
  assigned : ∀ r, 0 < s.assignments r →
    s.assignments r = 1 ∧ r < s.refs.length ∧ s.target r = none

theorem shape_update (hs : ∀ t st, s.tasks[t]? = some st → s.StackOk t st)
    (htasks : s'.tasks = s.tasks.set t st') (hlock : ∀ u ≠ t, s'.lock = some u ↔ s.lock = some u)
    (hlist : ∀ u ≠ t, s.lock = some u → ∀ o ∈ s.bindingObjects, o ∈ s'.bindingObjects)
    (hown : s'.StackOk t st') : ∀ u st, s'.tasks[u]? = some st → s'.StackOk u st := by
  intro u st hu
  rw [htasks] at hu
  by_cases hut : u = t
  · subst hut
    have hlt : u < s.tasks.length := by
      have := (List.getElem?_eq_some_iff.mp hu).1
      rwa [List.length_set] at this
    rw [List.getElem?_set_self hlt] at hu
    obtain rfl := Option.some.inj hu
    exact hown
  · rw [List.getElem?_set_ne (Ne.symm hut)] at hu
    have := hs u st hu
    cases st with
    | nil =>
      intro hl
      exact this ((hlock u hut).mp hl)
    | cons f below =>
      obtain ⟨htop, ⟨hnd, hrest⟩, hdeep⟩ := this
      refine ⟨htop.trans (hlock u hut).symm, ⟨hnd, fun o ho => ?_⟩, hdeep⟩
      have hscan : f.inScan = true := by
        cases f <;> first | rfl | exact absurd ho List.not_mem_nil
      exact hlist u hut (htop.mp hscan) o (hrest o ho)

theorem assignments_setTask (h : s.tasks[t]? = some st) (r : Nat) (st' : List BindingFrame) :
    (s.setTask t st').assignments r + st.countP (isAssigning r) =
      s.assignments r + st'.countP (isAssigning r) :=
  Tally.sum_map_set_add (·.countP (isAssigning r)) st' h

theorem assignments_of_tasks (h : s.tasks[t]? = some st) (htasks : s'.tasks = s.tasks.set t st')
    (r : Nat) : s'.assignments r + st.countP (isAssigning r) =
      s.assignments r + st'.countP (isAssigning r) := by
  have := assignments_setTask h r st'
  unfold assignments at this ⊢
  rwa [htasks]

theorem tasks_set_self (h : s.tasks[t]? = some st) : s.tasks = s.tasks.set t st := by
  obtain ⟨hlt, hget⟩ := List.getElem?_eq_some_iff.mp h
  rw [← hget, List.set_getElem_self]

/-- No lookup, and no failure. -/
def Plain (st : List BindingFrame) : Prop := ∀ g ∈ st, g.inScan = false ∧ g ≠ .failed

theorem StackOk.unlocked (h : s.StackOk t (f :: below)) (hf : f.inScan = false) :
    s.lock ≠ some t := fun hl => by
  rw [h.1.mpr hl] at hf
  cases hf

theorem StackOk.plain (h : s.StackOk t st) (hl : s.lock ≠ some t) : Plain st := by
  cases st with
  | nil => exact fun g hg => absurd hg List.not_mem_nil
  | cons f below =>
    obtain ⟨htop, -, ⟨hf, -⟩, hdeep⟩ := h
    intro g hg
    rcases List.mem_cons.mp hg with rfl | hg
    · exact ⟨Bool.eq_false_iff.mpr fun h => hl (htop.mp h), hf⟩
    · exact hdeep g hg

theorem Plain.stackOk (h : Plain st) (hl : s.lock ≠ some t) : s.StackOk t st := by
  cases st with
  | nil => exact hl
  | cons f below =>
    have hf := h f List.mem_cons_self
    have hrest : f.rest = [] := by
      cases f <;> first | rfl | exact absurd hf.1 (by simp [BindingFrame.inScan])
    have hkept : f.Kept := by
      cases f <;> first | trivial | exact absurd hf.1 (by simp [BindingFrame.inScan])
    refine ⟨iff_of_false (by simp [hf.1]) hl, ?_, ⟨hf.2, hkept⟩,
      fun g hg => h g (List.mem_cons_of_mem f hg)⟩
    rw [hrest]
    exact ⟨List.nodup_nil, fun o ho => absurd ho List.not_mem_nil⟩

theorem Plain.cons (h : Plain st) (hf : f.inScan = false) (hne : f ≠ .failed) :
    Plain (f :: st) := by
  intro g hg
  rcases List.mem_cons.mp hg with rfl | hg
  · exact ⟨hf, hne⟩
  · exact h g hg

theorem Plain.tail (h : Plain (f :: st)) : Plain st := fun g hg => h g (List.mem_cons_of_mem f hg)

theorem BindingInv.update (h : s.BindingInv) (ht : s.tasks[t]? = some st)
    (hlife : ∀ o, Life.Step lastCounter (s.life o) (s'.life o))
    (htasks : s'.tasks = s.tasks.set t st') (hlock : ∀ u ≠ t, s'.lock = some u ↔ s.lock = some u)
    (hlist : ∀ u ≠ t, s.lock = some u → ∀ o ∈ s.bindingObjects, o ∈ s'.bindingObjects)
    (hown : s'.StackOk t st')
    (hassigned : ∀ r, 0 < s'.assignments r →
      s'.assignments r = 1 ∧ r < s'.refs.length ∧ s'.target r = none) : s'.BindingInv where
  counts o := (h.counts o).step (hlife o)
  shape := shape_update h.shape htasks hlock hlist hown
  holder u hu := by
    rw [htasks, List.length_set]
    by_cases hut : u = t
    · subst hut
      exact (List.getElem?_eq_some_iff.mp ht).1
    · exact h.holder u ((hlock u hut).mp hu)
  assigned := hassigned

/-! ## Assignments under way -/

variable {e : Option Nat}

theorem target_set_of_ne {r' : Nat} (hrefs : s'.refs = s.refs.set r e)
    (h : r' ≠ r) : s'.target r' = s.target r' := by
  unfold target
  rw [hrefs, List.getElem?_set_ne (Ne.symm h)]

theorem target_append {l : List (Option Nat)} (hrefs : s'.refs = s.refs ++ l)
    (h : r < s.refs.length) : s'.target r = s.target r := by
  unfold target
  rw [hrefs, List.getElem?_append_left h]

theorem BindingInv.assigned_keep (h : s.BindingInv) (ht : s.tasks[t]? = some st)
    (htasks : s'.tasks = s.tasks.set t st')
    (hcount : ∀ r, st'.countP (isAssigning r) = st.countP (isAssigning r))
    (hrefs : ∀ r, 0 < s.assignments r → r < s.refs.length → s.target r = none →
      r < s'.refs.length ∧ s'.target r = none) (r : Nat) (hr : 0 < s'.assignments r) :
    s'.assignments r = 1 ∧ r < s'.refs.length ∧ s'.target r = none := by
  have := assignments_of_tasks ht htasks r
  have := hcount r
  have heq : s'.assignments r = s.assignments r := by omega
  rw [heq] at hr ⊢
  obtain ⟨hone, hlt, hnil⟩ := h.assigned r hr
  exact ⟨hone, hrefs r hr hlt hnil⟩

/-! ## Starting an operation -/

theorem BindingInv.idle (h : s.BindingInv) (hi : s.idle t = true) :
    ∃ st, s.tasks[t]? = some st ∧ s.lock ≠ some t ∧ Plain st := by
  unfold BindingSystem.idle at hi
  split at hi
  · rename_i ht
    have hl := h.shape t [] ht
    exact ⟨[], ht, hl, (h.shape t [] ht).plain hl⟩
  · rename_i p below ht
    have hl := (h.shape t _ ht).unlocked rfl
    exact ⟨_, ht, hl, (h.shape t _ ht).plain hl⟩
  · cases hi

theorem BindingInv.aside (h : s.BindingInv) (ht : s.tasks[t]? = some st) (hl : s.lock ≠ some t)
    (hlife : ∀ o, Life.Step lastCounter (s.life o) (s'.life o))
    (htasks : s'.tasks = s.tasks.set t st') (hlock : s'.lock = s.lock)
    (hlist : s'.bindingObjects = s.bindingObjects) (hplain : Plain st')
    (hassigned : ∀ r, 0 < s'.assignments r →
      s'.assignments r = 1 ∧ r < s'.refs.length ∧ s'.target r = none) : s'.BindingInv :=
  h.update ht hlife htasks (fun u _ => by rw [hlock]) (fun u _ _ o ho => hlist ▸ ho)
    (hplain.stackOk (by rwa [hlock])) hassigned

theorem references_pos_of_target (h : s.target r = some o) : 0 < s.references o := by
  have hmem : some o ∈ s.refs := by
    unfold target at h
    cases hr : s.refs[r]? with
    | none => rw [hr] at h; cases h
    | some e =>
      rw [hr] at h
      obtain rfl := h
      exact List.mem_of_getElem? hr
  have := List.count_pos_iff.mpr hmem
  unfold references
  omega

theorem BindingInv.adjustable (h : s.BindingInv) (he : ∀ p ∈ e, 0 < s.references p)
    (hroom : ∀ p ∈ e, s.references p + s.total p .attempt < 2147483647) : s.Adjustable e := by
  intro p hp
  have hcounter := (h.counts p).counter_eq
  have := hroom p hp
  refine ⟨h.counts p, he p hp, ?_⟩
  unfold lastCounter
  omega

theorem adjust_rest (s : BindingSystem) (e : Option Nat) :
    (s.adjust e).lock = s.lock ∧ (s.adjust e).bindingObjects = s.bindingObjects := by
  cases e with
  | none => exact ⟨rfl, rfl⟩
  | some p =>
    unfold adjust incUsage
    simp only
    split <;> exact ⟨rfl, rfl⟩

/-- The stack with the pointer whose `Dec_Usage` is to come. -/
def pushed (e : Option Nat) (st : List BindingFrame) : List BindingFrame :=
  match e with
  | some o => .releasing o :: st
  | none => st

theorem release_tasks (ht : s.tasks[t]? = some st) (e : Option Nat) :
    (s.release t e).tasks = s.tasks.set t (pushed e st) := by
  cases e with
  | none => exact tasks_set_self ht
  | some o =>
    unfold release call
    rw [stack_of_tasks ht]
    rfl

theorem release_rest (s : BindingSystem) (t : Nat) (e : Option Nat) :
    (s.release t e).refs = s.refs ∧ (s.release t e).lock = s.lock ∧
      (s.release t e).bindingObjects = s.bindingObjects := by
  cases e with
  | none => exact ⟨rfl, rfl, rfl⟩
  | some p => exact ⟨rfl, rfl, rfl⟩

theorem Plain.pushed (h : Plain st) (e : Option Nat) : Plain (pushed e st) := by
  cases e with
  | none => exact h
  | some o => exact h.cons rfl nofun

theorem countP_pushed (e : Option Nat) (r : Nat) :
    (pushed e st).countP (isAssigning r) = st.countP (isAssigning r) := by
  cases e with
  | none => rfl
  | some o => simp [pushed, isAssigning]

theorem Writable.keep (hw : s.Writable r) {r' : Nat}
    (hrefs : s'.refs = s.refs.set r e) (hr : 0 < s.assignments r') (hlt : r' < s.refs.length)
    (hnil : s.target r' = none) : r' < s'.refs.length ∧ s'.target r' = none := by
  have hne : r' ≠ r := by
    rintro rfl
    exact absurd hw.2 (by omega)
  rw [target_set_of_ne hrefs hne, hrefs, List.length_set]
  exact ⟨hlt, hnil⟩

theorem BindingInv.setEntity (h : s.BindingInv) (ht : s.tasks[t]? = some st) (hl : s.lock ≠ some t)
    (hplain : Plain st) (hw : s.Writable r) (he : s.Adjustable e) :
    (s.setEntity t r e).BindingInv := by
  have hlife := step_setEntity he hw.1 ht
  unfold BindingSystem.setEntity at hlife ⊢
  simp only at hlife ⊢
  split
  · exact h
  · rename_i hne
    simp only [if_neg hne] at hlife
    have htasks : ((s.adjust e).setRef r e).tasks[t]? = some st := by
      change (s.adjust e).tasks[t]? = some st
      rwa [(s.adjust_parts e).2]
    obtain ⟨hrefs, hlock, hlist⟩ := ((s.adjust e).setRef r e).release_rest t (s.target r)
    have hset : (((s.adjust e).setRef r e).release t (s.target r)).tasks =
        s.tasks.set t (BindingSystem.pushed (s.target r) st) := by
      rw [release_tasks htasks]
      change (s.adjust e).tasks.set t _ = _
      rw [(s.adjust_parts e).2]
    have hrefs' : (((s.adjust e).setRef r e).release t (s.target r)).refs = s.refs.set r e := by
      rw [hrefs]
      change (s.adjust e).refs.set r e = _
      rw [(s.adjust_parts e).1]
    refine h.aside ht hl hlife hset ?_ ?_ (hplain.pushed _) (h.assigned_keep ht hset
      (countP_pushed _) fun r' => hw.keep hrefs')
    · rw [hlock]
      exact (s.adjust_rest e).1
    · rw [hlist]
      exact (s.adjust_rest e).2

theorem BindingInv.finalizeRef (h : s.BindingInv) (ht : s.tasks[t]? = some st)
    (hl : s.lock ≠ some t) (hplain : Plain st) (hw : s.Writable r) :
    (s.finalizeRef t r).BindingInv := by
  have hlife := step_finalizeRef hw.1 ht
  obtain ⟨hrefs, hlock, hlist⟩ := (s.setRef r none).release_rest t (s.target r)
  have hset := release_tasks (s := s.setRef r none) ht (s.target r)
  exact h.aside ht hl hlife hset hlock hlist (hplain.pushed _)
    (h.assigned_keep ht hset (countP_pushed _) fun r' => hw.keep hrefs)

theorem BindingInv.assign (h : s.BindingInv) (ht : s.tasks[t]? = some st)
    (hl : s.lock ≠ some t) (hplain : Plain st) (hw : s.Writable r) (source : Nat) :
    ((s.call t (.assigning r source)).finalizeRef t r).BindingInv := by
  have hcall : s.call t (.assigning r source) = s.setTask t (.assigning r source :: st) := by
    rw [call, stack_of_tasks ht]
  obtain ⟨hlt, -⟩ := List.getElem?_eq_some_iff.mp ht
  have ht' : (s.setTask t (.assigning r source :: st)).tasks[t]? =
      some (.assigning r source :: st) := List.getElem?_set_self hlt
  rw [hcall]
  have hlife (o : Nat) : Life.Step lastCounter (s.life o)
      (((s.setTask t (.assigning r source :: st)).finalizeRef t r).life o) := by
    have := step_finalizeRef (s := s.setTask t (.assigning r source :: st)) (r := r) hw.1 ht' o
    rwa [life_setTask (o := o) ht fun role => by cases role <;> simp [weight]] at this
  unfold BindingSystem.finalizeRef at hlife ⊢
  have hsame : (s.setTask t (.assigning r source :: st)).target r = s.target r := rfl
  simp only [hsame] at hlife ⊢
  have hset := release_tasks (s := (s.setTask t (.assigning r source :: st)).setRef r none) ht'
    (s.target r)
  obtain ⟨hrefs, hlock, hlist⟩ :=
    ((s.setTask t (.assigning r source :: st)).setRef r none).release_rest t (s.target r)
  have hset' : ((s.setTask t (.assigning r source :: st)).setRef r none |>.release t
      (s.target r)).tasks = s.tasks.set t (pushed (s.target r) (.assigning r source :: st)) := by
    rw [hset]
    exact List.set_set ..
  have hplain' : Plain (.assigning r source :: st) := hplain.cons rfl (by simp)
  refine h.aside ht hl hlife hset' hlock hlist (hplain'.pushed _) fun r' hr' => ?_
  have hcount := assignments_of_tasks ht hset' r'
  rw [countP_pushed, List.countP_cons] at hcount
  by_cases hrr : r' = r
  · subst hrr
    have hzero := hw.2
    simp only [isAssigning, beq_self_eq_true, if_true] at hcount
    refine ⟨by omega, ?_, ?_⟩
    · rw [hrefs]
      simpa [setRef, setTask] using hw.1
    · have hget : (s.refs.set r' none)[r']? = some none := List.getElem?_set_self hw.1
      rw [target, hrefs]
      exact congrArg (Option.getD · none) hget
  · simp only [isAssigning, beq_eq_false_iff_ne.mpr (Ne.symm hrr), Bool.false_eq_true, if_false]
      at hcount
    obtain ⟨hone, hlt', hnil⟩ := h.assigned r' (by omega)
    exact ⟨by omega, hw.keep hrefs (by omega) hlt' hnil⟩

theorem BindingInv.addRef (h : s.BindingInv) (ht : s.tasks[t]? = some st) (hl : s.lock ≠ some t)
    (hplain : Plain st) (he : s.Adjustable e) :
    ((s.adjust e).addRef e).BindingInv := by
  have hrefs : ((s.adjust e).addRef e).refs = s.refs ++ [e] :=
    congrArg (· ++ [e]) (s.adjust_parts e).1
  have htasks : ((s.adjust e).addRef e).tasks = s.tasks.set t st :=
    (s.adjust_parts e).2.trans (tasks_set_self ht)
  refine h.aside ht hl (step_copy he) htasks (s.adjust_rest e).1 (s.adjust_rest e).2 hplain
    (h.assigned_keep ht htasks (fun _ => rfl) fun r _ hlt hnil => ⟨?_, ?_⟩)
  · rw [hrefs, List.length_append]
    omega
  · rwa [target_append hrefs hlt]

theorem BindingInv.setup (h : s.BindingInv) (ht : s.tasks[t]? = some st) (hl : s.lock ≠ some t)
    (hplain : Plain st) (hw : s.Writable r) :
    ({ s with created := s.created + 1 }.setEntity t r (some s.created)).BindingInv := by
  have hunborn := (h.counts s.created).unborn (decide_eq_false (Nat.lt_irrefl _))
  have hrefs : s.references s.created = 0 := hunborn.1
  have hzero : (s.object s.created).counter = 0 := by
    have hattempt : s.total s.created .attempt = 0 := hunborn.2.1
    have := (h.counts s.created).counter_eq
    omega
  have hne : s.target r ≠ some s.created := fun htarget =>
    absurd (references_pos_of_target htarget) (by omega)
  have hinc : ({ s with created := s.created + 1 }.incUsage s.created) =
      { s with created := s.created + 1 }.setObject s.created
        { s.object s.created with counter := 1 } := by
    unfold incUsage
    simp only [hzero]
    rfl
  have hset : ({ s with created := s.created + 1 }.setEntity t r (some s.created)) =
      (({ s with created := s.created + 1 }.setObject s.created
        { s.object s.created with counter := 1 }).setRef r (some s.created)).release t
          (s.target r) := by
    unfold BindingSystem.setEntity
    simp only [adjust, hinc]
    exact if_neg hne
  have hlife (o : Nat) : ({ s with created := s.created + 1 }.setObject s.created
      { s.object s.created with counter := 1 }).life o =
        { s.life o with
          born := decide (o < s.created + 1)
          counter := if s.created = o then 1 else (s.life o).counter } := by
    by_cases ho : o = s.created
    · subst ho
      simp only [life, setObject, Function.update_self, if_true]
      rfl
    · rw [life_setObject_of_ne ho, if_neg (Ne.symm ho)]
      rfl
  rw [hset]
  have htasks := release_tasks
    (s := ({ s with created := s.created + 1 }.setObject s.created
        { s.object s.created with counter := 1 }).setRef r (some s.created)) ht (s.target r)
  obtain ⟨hrefs', hlock, hlist⟩ := (({ s with created := s.created + 1 }.setObject s.created
    { s.object s.created with counter := 1 }).setRef r (some s.created)).release_rest t (s.target r)
  refine h.aside ht hl (fun o => ?_) htasks hlock hlist (hplain.pushed _)
    (h.assigned_keep ht htasks (countP_pushed _) fun r' => hw.keep hrefs')
  have hmove := life_moveRef (o := o)
    (s := { s with created := s.created + 1 }.setObject s.created
      { s.object s.created with counter := 1 }) hw.1 ht (some s.created)
  refine Life.Step.to ?_ hmove
  have hsame : ({ s with created := s.created + 1 }.setObject s.created
      { s.object s.created with counter := 1 }).references o = s.references o := rfl
  rw [hlife, hsame]
  by_cases ho : o = s.created
  · subst ho
    rw [hrefs]
    simp only [if_true, Nat.lt_succ_self, decide_true]
    exact .bear _ (decide_eq_false (Nat.lt_irrefl _)) (by unfold lastCounter; omega)
  · have hborn : decide (o < s.created + 1) = decide (o < s.created) := by
      simp only [decide_eq_decide]
      omega
    rw [hborn, if_neg (Ne.symm ho), if_neg fun he => ho (Option.some.inj he).symm]
    exact .stay _

theorem BindingInv.registerBindingObject (h : s.BindingInv) (ht : s.tasks[t]? = some st)
    (hl : s.lock ≠ some t) (hplain : Plain st) (htarget : s.target r = some p)
    (hnew : (s.object p).registrations + s.total p .registering = 0) :
    (s.call t (.registering p)).BindingInv := by
  have hlife := step_registerBindingObject (h.counts p) ht (references_pos_of_target htarget) hnew
  have hcall : s.call t (.registering p) = s.setTask t (.registering p :: st) := by
    rw [call, stack_of_tasks ht]
  rw [hcall] at hlife ⊢
  exact h.aside ht hl hlife rfl rfl rfl (hplain.cons rfl (by simp))
    (h.assigned_keep ht rfl (fun r => List.countP_cons_of_neg (by rintro ⟨⟩))
      fun _ _ hlt hnil => ⟨hlt, hnil⟩)

theorem nodup_bindingObjects (hc : ∀ o, s.Counts o) : s.bindingObjects.Nodup :=
  List.nodup_iff_count_le_one.mpr fun o => (hc o).listed_le

theorem BindingInv.getBindingObjects (h : s.BindingInv) (ht : s.tasks[t]? = some st)
    (hplain : Plain st) (hl : s.lock = none) (predicate : Option (Nat → Bool)) :
    ({ s.call t (.scanning predicate s.bindingObjects []) with lock := some t } :
      BindingSystem).BindingInv := by
  have hcall : s.call t (.scanning predicate s.bindingObjects []) =
      s.setTask t (.scanning predicate s.bindingObjects [] :: st) := by
    rw [call, stack_of_tasks ht]
  rw [hcall]
  refine h.update ht (fun o => ?_) rfl (fun u hu => ?_) (fun u _ hlu => ?_) ?_
    (h.assigned_keep ht rfl (fun r => List.countP_cons_of_neg (by rintro ⟨⟩))
      fun _ _ hlt hnil => ⟨hlt, hnil⟩)
  · have hw (role : BindingRole) : stackWeight o role
        (.scanning predicate s.bindingObjects [] :: st) = stackWeight o role st := by
      cases role <;> simp [weight]
    exact (Life.Step.stay _).to (life_setTask ht hw)
  · exact iff_of_false (fun he => hu (Option.some.inj he).symm) (by rw [hl]; simp)
  · rw [hl] at hlu
    cases hlu
  · exact ⟨iff_of_true rfl rfl, ⟨nodup_bindingObjects h.counts, fun _ ho => ho⟩, ⟨by simp, trivial⟩,
      hplain⟩

theorem BindingInv.close (h : s.BindingInv) (o : Nat) :
    (s.setObject o { s.object o with valid := false }).BindingInv where
  counts p := by
    have : (s.setObject o { s.object o with valid := false }).life p = s.life p := by
      by_cases hp : p = o
      · subst hp
        simp only [life, setObject, Function.update_self]
        rfl
      · exact life_setObject_of_ne hp _
    unfold Counts
    rw [this]
    exact h.counts p
  shape := h.shape
  holder := h.holder
  assigned := h.assigned

/-! ## Going on -/

variable (t below) in
theorem decUsage_parts (hc : s.Counts p) (hpos : 0 < s.references p) :
    (s.decUsage t p below).refs = s.refs ∧ (s.decUsage t p below).lock = s.lock ∧
      (s.decUsage t p below).bindingObjects = s.bindingObjects := by
  rcases decUsage_cases t below hc hpos with ⟨-, heq⟩ | ⟨n, -, heq⟩ <;> rw [heq] <;>
    exact ⟨rfl, rfl, rfl⟩

theorem BindingInv.releasing (h : s.BindingInv) (ht : s.tasks[t]? = some (.releasing p :: below)) :
    (s.decUsage t p below).BindingInv := by
  have hshape := h.shape t _ ht
  have hl := hshape.unlocked rfl
  have hplain := (hshape.plain hl).tail
  have hpos := givesUp_releasing.references_pos ht
  obtain ⟨hrefs, hlock, hlist⟩ := decUsage_parts t below (h.counts p) hpos
  have hlife := step_decUsage (h.counts p) ht givesUp_releasing
  have hkeep (r : Nat) : 0 < s.assignments r → r < s.refs.length → s.target r = none →
      r < (s.decUsage t p below).refs.length ∧ (s.decUsage t p below).target r = none := by
    intro _ hlt hnil
    unfold target at hnil ⊢
    rw [hrefs]
    exact ⟨hlt, hnil⟩
  rcases decUsage_cases t below (h.counts p) hpos with ⟨-, heq⟩ | ⟨n, -, heq⟩
  · have htasks : (s.decUsage t p below).tasks = s.tasks.set t (.finalizing p :: below) := by
      rw [heq]
      rfl
    exact h.aside ht hl hlife htasks hlock hlist (hplain.cons rfl nofun)
      (h.assigned_keep ht htasks (fun r => by simp [isAssigning]) hkeep)
  · have htasks : (s.decUsage t p below).tasks = s.tasks.set t below := by
      rw [heq]
      rfl
    exact h.aside ht hl hlife htasks hlock hlist hplain
      (h.assigned_keep ht htasks (fun r => by simp [isAssigning]) hkeep)

theorem BindingInv.assigning (h : s.BindingInv) {source : Nat}
    (ht : s.tasks[t]? = some (.assigning r source :: below)) (he : s.Adjustable (s.target source)) :
    (((s.adjust (s.target source)).setRef r (s.target source)).setTask t below).BindingInv := by
  have hshape := h.shape t _ ht
  have hl := hshape.unlocked rfl
  have hplain := (hshape.plain hl).tail
  have hcount : 0 < s.assignments r := by
    have := assignments_setTask ht r []
    rw [List.countP_cons_of_pos (by simp [isAssigning])] at this
    simp only [List.countP_nil] at this
    omega
  obtain ⟨hone, hlt, hnil⟩ := h.assigned r hcount
  have htasks : (((s.adjust (s.target source)).setRef r (s.target source)).setTask t below).tasks =
      s.tasks.set t below := by
    change (s.adjust (s.target source)).tasks.set t below = _
    rw [(s.adjust_parts _).2]
  have hrefs : (((s.adjust (s.target source)).setRef r (s.target source)).setTask t below).refs =
      s.refs.set r (s.target source) := by
    change (s.adjust (s.target source)).refs.set r _ = _
    rw [(s.adjust_parts _).1]
  refine h.aside ht hl (step_assigning he hlt hnil ht fun o role => ?_) htasks (s.adjust_rest _).1
    (s.adjust_rest _).2 hplain fun r' hr' => ?_
  · cases role <;> simp [weight]
  · have := assignments_of_tasks ht htasks r'
    rw [List.countP_cons] at this
    by_cases hrr : r' = r
    · subst hrr
      simp only [isAssigning, beq_self_eq_true, if_true] at this
      omega
    · obtain ⟨hone', hlt', hnil'⟩ := h.assigned r' (by omega)
      exact ⟨by omega, by rwa [hrefs, List.length_set], (target_set_of_ne hrefs hrr).trans hnil'⟩

theorem BindingInv.inside (h : s.BindingInv) (ht : s.tasks[t]? = some st) (hl : s.lock = none)
    (hlife : ∀ o, Life.Step lastCounter (s.life o) (s'.life o))
    (htasks : s'.tasks = s.tasks.set t st') (hlock : s'.lock = s.lock) (hplain : Plain st')
    (hcount : ∀ r, st'.countP (isAssigning r) = st.countP (isAssigning r))
    (hrefs : s'.refs = s.refs) : s'.BindingInv := by
  refine h.update ht hlife htasks (fun u _ => by rw [hlock]) (fun u _ hlu => ?_)
    (hplain.stackOk (by rw [hlock, hl]; nofun)) (h.assigned_keep ht htasks hcount
      fun r _ hlt hnil => ?_)
  · rw [hl] at hlu
    cases hlu
  · unfold target at hnil ⊢
    rw [hrefs]
    exact ⟨hlt, hnil⟩

theorem BindingInv.finalizing (h : s.BindingInv) (ht : s.tasks[t]? = some (.finalizing p :: below))
    (hl : s.lock = none) :
    ((s.unregisterBindingObject p).setTask t (.dismantling p :: below)).BindingInv := by
  have hshape := h.shape t _ ht
  have hplain := (hshape.plain (hshape.unlocked rfl)).tail
  have hparts : (s.unregisterBindingObject p).tasks = s.tasks ∧
      (s.unregisterBindingObject p).lock = s.lock ∧
      (s.unregisterBindingObject p).refs = s.refs := by
    unfold unregisterBindingObject
    split <;> exact ⟨rfl, rfl, rfl⟩
  have htasks : ((s.unregisterBindingObject p).setTask t (.dismantling p :: below)).tasks =
      s.tasks.set t (.dismantling p :: below) := by
    change (s.unregisterBindingObject p).tasks.set t _ = _
    rw [hparts.1]
  exact h.inside ht hl (step_unregister (h.counts p) ht) htasks hparts.2.1
    (hplain.cons rfl nofun) (fun r => by simp [isAssigning]) hparts.2.2

theorem BindingInv.dismantling (h : s.BindingInv)
    (ht : s.tasks[t]? = some (.dismantling p :: below)) :
    ((s.freeObject p).setTask t below).BindingInv := by
  have hshape := h.shape t _ ht
  have hl := hshape.unlocked rfl
  exact h.aside ht hl (step_free ht) rfl rfl rfl (hshape.plain hl).tail
    (h.assigned_keep ht rfl (fun r => by simp [isAssigning]) fun _ _ hlt hnil => ⟨hlt, hnil⟩)

theorem BindingInv.registering (h : s.BindingInv)
    (ht : s.tasks[t]? = some (.registering p :: below)) (hl : s.lock = none)
    (hf : (s.object p).frees = 0) (hd : s.total p .dismantling = 0) :
    ((s.addBindingObject p).setTask t below).BindingInv := by
  have hshape := h.shape t _ ht
  exact h.inside ht hl (step_addBindingObject ht hf hd) rfl rfl
    (hshape.plain (hshape.unlocked rfl)).tail (fun r => by simp [isAssigning]) rfl

/-! ## Looking up -/

section Scan

variable {predicate : Option (Nat → Bool)} {rest result : List Nat}

theorem BindingInv.looking (h : s.BindingInv) (ht : s.tasks[t]? = some (f :: below))
    (hf : f.inScan = true) (hlife : ∀ o, Life.Step lastCounter (s.life o) (s'.life o))
    (htasks : s'.tasks = s.tasks.set t (g :: below)) (hlock : s'.lock = s.lock)
    (hg : g.inScan = true)
    (hrest : g.rest.Nodup ∧ ∀ o ∈ g.rest, o ∈ s'.bindingObjects) (hkept : g.Kept)
    (hrefs : s'.refs = s.refs) : s'.BindingInv := by
  obtain ⟨htop, -, -, hdeep⟩ := h.shape t _ ht
  have hl := htop.mp hf
  have hplain : ∀ f : BindingFrame, f.inScan = true → ∀ r, isAssigning r f = false := by
    intro f hf r
    cases f <;> first | rfl | cases hf
  refine h.update ht hlife htasks (fun u _ => by rw [hlock]) (fun u hu hlu => ?_) ?_
    (h.assigned_keep ht htasks (fun r => ?_) fun r _ hlt hnil => ?_)
  · exact absurd (Option.some.inj (hlu.symm.trans hl)) hu
  · refine ⟨iff_of_true hg (hlock.trans hl), hrest, ⟨?_, hkept⟩, hdeep⟩
    rintro rfl
    cases hg
  · rw [List.countP_cons_of_neg (by rw [hplain g hg r]; nofun),
      List.countP_cons_of_neg (by rw [hplain f hf r]; nofun)]
  · unfold target at hnil ⊢
    rw [hrefs]
    exact ⟨hlt, hnil⟩

theorem BindingInv.no_attempt (h : s.BindingInv)
    (ht : s.tasks[t]? = some (.scanning predicate rest result :: below)) (o : Nat) :
    s.total o .attempt = 0 := by
  refine Tally.sum_map_eq_zero fun st hst => ?_
  obtain ⟨u, hu⟩ := List.mem_iff_getElem?.mp hst
  have hplain : ∀ st, (∀ g ∈ st, g.inScan = false ∧ g ≠ .failed) → stackWeight o .attempt st = 0 :=
    fun st hst => Tally.sum_map_eq_zero fun g hg => by
      have := (hst g hg).1
      cases g <;> first | rfl | cases this
  have hl := (h.shape t _ ht).1.mp rfl
  by_cases hut : u = t
  · subst hut
    obtain rfl := Option.some.inj (hu.symm.trans ht)
    rw [stackWeight_cons, hplain below (h.shape u _ ht).2.2.2]
    rfl
  · refine hplain st ((h.shape u st hu).plain fun hlu => hut ?_)
    exact Option.some.inj (hlu.symm.trans hl)

theorem BindingInv.giving (h : s.BindingInv)
    (ht : s.tasks[t]? = some (.giving p predicate rest result :: below)) :
    ((s.setObject p
      { s.object p with counter := syncAddAndFetch (s.object p).counter (-1) }).setTask t
        (.scanning predicate rest result :: below)).BindingInv :=
  h.looking ht rfl (step_giving (h.counts p) ht) rfl rfl rfl (h.shape t _ ht).2.1 trivial rfl

theorem BindingInv.holding (h : s.BindingInv)
    (ht : s.tasks[t]? = some (.holding p predicate rest result :: below))
    (hroom : s.references p + s.total p .attempt < 2147483647) :
    ((s.incUsage p).setTask t (.dropping p predicate rest (p :: result) :: below)).BindingInv := by
  have hcounter := (h.counts p).counter_eq
  have hroom' : (s.object p).counter < lastCounter := by
    unfold lastCounter
    omega
  have hlife := step_holding (h.counts p) hroom' ht
  rw [incUsage_eq (h.counts p) hroom'] at hlife ⊢
  exact h.looking ht rfl hlife rfl rfl rfl (h.shape t _ ht).2.1 List.mem_cons_self rfl

theorem BindingInv.dropping (h : s.BindingInv)
    (ht : s.tasks[t]? = some (.dropping p predicate rest result :: below)) :
    (s.decUsage t p (.scanning predicate rest result :: below)).BindingInv := by
  have hkept : p ∈ result := (h.shape t _ ht).2.2.1.2
  have hcount : 0 < result.count p := List.count_pos_iff.mpr hkept
  have htwo : 1 < s.references p := by
    have := stackWeight_le_total (o := p) ht .reference
    simp only [stackWeight_cons, weight, if_true] at this
    unfold references
    omega
  have hlife := step_decUsage (h.counts p) ht givesUp_dropping
  rcases decUsage_cases t (.scanning predicate rest result :: below) (h.counts p)
    (by omega) with ⟨hone, -⟩ | ⟨n, -, heq⟩
  · omega
  · rw [heq] at hlife ⊢
    exact h.looking ht rfl hlife rfl rfl rfl (h.shape t _ ht).2.1 trivial rfl

theorem BindingInv.returning (h : s.BindingInv)
    (ht : s.tasks[t]? = some (.scanning predicate rest result :: below)) :
    ({ s.setTask t below with lock := none, refs := s.refs ++ result.map some } :
      BindingSystem).BindingInv := by
  obtain ⟨htop, -, -, hdeep⟩ := h.shape t _ ht
  have hl := htop.mp rfl
  refine h.update ht (fun o => (Life.Step.stay _).to (life_return ht)) rfl (fun u hu => ?_)
    (fun _ _ _ _ ho => ho) (Plain.stackOk hdeep nofun) (h.assigned_keep ht rfl
      (fun r => by simp [isAssigning]) fun r _ hlt hnil => ⟨?_, ?_⟩)
  · exact iff_of_false nofun fun hlu => hu (Option.some.inj (hlu.symm.trans hl))
  · rw [List.length_append]
    omega
  · rwa [target_append rfl hlt]

theorem BindingInv.purge (h : s.BindingInv)
    (ht : s.tasks[t]? = some (.scanning predicate (p :: rest) result :: below)) :
    ((s.removeBindingObject p).setTask t
      (.scanning predicate rest result :: below)).BindingInv := by
  obtain ⟨-, ⟨hnd, hrest⟩, -, -⟩ := h.shape t _ ht
  obtain ⟨hp, hnd'⟩ := List.nodup_cons.mp hnd
  refine h.looking ht rfl (fun o => ?_) rfl rfl rfl ⟨hnd', fun o ho => ?_⟩ trivial rfl
  · have hw (role : BindingRole) : stackWeight o role (.scanning predicate rest result :: below) =
        stackWeight o role (.scanning predicate (p :: rest) result :: below) := by
      cases role <;> simp [weight]
    exact (step_purge (hrest p List.mem_cons_self) o).to
      (life_setTask (s := s.removeBindingObject p) ht hw)
  · have hne : o ≠ p := fun h => hp (h ▸ ho)
    exact (List.mem_erase_of_ne hne).mpr (hrest o (List.mem_cons_of_mem p ho))

theorem BindingInv.pass (h : s.BindingInv)
    (ht : s.tasks[t]? = some (.scanning predicate (p :: rest) result :: below)) :
    (s.setTask t (.scanning predicate rest result :: below)).BindingInv := by
  obtain ⟨-, ⟨hnd, hrest⟩, -, -⟩ := h.shape t _ ht
  refine h.looking ht rfl (fun o => ?_) rfl rfl rfl
    ⟨(List.nodup_cons.mp hnd).2, fun o ho => hrest o (List.mem_cons_of_mem p ho)⟩ trivial rfl
  exact (Life.Step.stay _).to (life_setTask ht fun role => by cases role <;> simp [weight])

theorem BindingInv.reuseEntity (h : s.BindingInv) {rest' : List Nat}
    (ht : s.tasks[t]? = some (.scanning predicate (p :: rest) result :: below))
    (hroom : s.references p + s.total p .attempt < 2147483647)
    (hrest' : rest'.Nodup ∧ ∀ o ∈ rest', o ∈ s.bindingObjects) :
    (s.reuseEntity t p predicate rest' result below).BindingInv := by
  obtain ⟨-, ⟨hnd, hrest⟩, -, -⟩ := h.shape t _ ht
  have hcounter := (h.counts p).counter_eq
  have hroom' : (s.object p).counter < lastCounter := by
    unfold lastCounter
    omega
  have hborn : p < s.created := by
    by_contra hlt
    have hzero : (s.object p).registrations = 0 :=
      ((h.counts p).unborn (decide_eq_false hlt)).2.2.1
    have hremovals :
        (s.object p).removals + s.bindingObjects.count p = (s.object p).registrations :=
      (h.counts p).removals
    have := List.count_pos_iff.mpr (hrest p List.mem_cons_self)
    omega
  have hw (o : Nat) (role : BindingRole) :
      stackWeight o role (.scanning predicate (p :: rest) result :: below) =
        (if role = .reference then result.count o else 0) + stackWeight o role below := by
    cases role <;> simp [weight]
  have hlife : ∀ o, Life.Step lastCounter (s.life o)
      ((s.reuseEntity t p predicate rest' result below).life o) :=
    step_reuseEntity (h.counts p) hborn hroom' (h.no_attempt ht p) ht hw
  have hsync : syncAddAndFetch (s.object p).counter 1 = (s.object p).counter + 1 :=
    syncAddAndFetch_eq (by omega) (by omega)
  unfold BindingSystem.reuseEntity at hlife ⊢
  simp only [hsync] at hlife ⊢
  rw [if_neg (by omega)]
  simp only [if_neg (show (s.object p).counter ≠ -1 by omega)] at hlife
  by_cases hone : (s.object p).counter + 1 = 1
  · simp only [if_pos hone] at hlife ⊢
    exact h.looking ht rfl hlife rfl rfl rfl hrest' trivial rfl
  · simp only [if_neg hone] at hlife ⊢
    exact h.looking ht rfl hlife rfl rfl rfl hrest' trivial rfl

end Scan

/-! ## Runs -/

theorem BindingInv.scan (h : s.BindingInv) {predicate : Option (Nat → Bool)} {result : List Nat} :
    ∀ {rest : List Nat}, s.tasks[t]? = some (.scanning predicate rest result :: below) →
      (∀ o ∈ s.increments (.proceed t), s.references o + s.total o .attempt < 2147483647) →
      (s.scan t predicate result below rest).BindingInv
  | [], ht, _ => h.returning ht
  | p :: rest, ht, hroom => by
    obtain ⟨-, ⟨hnd, hrest⟩, -, -⟩ := h.shape t _ ht
    rw [BindingSystem.scan]
    by_cases hvalid : (s.object p).valid = false
    · rw [if_pos hvalid]
      exact h.purge ht
    rw [if_neg hvalid]
    by_cases hsel : selects predicate p = true
    · rw [if_pos hsel]
      refine h.reuseEntity ht (hroom p ?_) ?_
      · have hand : (s.object p).valid = true ∧ selects predicate p = true :=
          ⟨by simpa using hvalid, hsel⟩
        simp only [increments, stack_of_tasks ht, if_pos hand]
        rfl
      · split
        · exact ⟨List.nodup_nil, fun o ho => absurd ho List.not_mem_nil⟩
        · exact ⟨(List.nodup_cons.mp hnd).2, fun o ho => hrest o (List.mem_cons_of_mem p ho)⟩
    · rw [if_neg hsel]
      exact h.pass ht

theorem BindingInv.proceed (h : s.BindingInv) (hp : s.canProceed t = true)
    (ho : s.Orderly (.proceed t)) : (s.proceed t).BindingInv := by
  obtain ⟨hroom, hadds⟩ := ho
  unfold canProceed at hp
  unfold BindingSystem.proceed
  cases hst : s.stack t with
  | nil =>
    rw [hst] at hp
    cases hp
  | cons f below =>
    rw [hst] at hp
    have ht := tasks_of_stack hst
    cases f with
    | assigning r source =>
      refine h.assigning ht (h.adjustable (fun p hp => references_pos_of_target hp) fun p hp => ?_)
      refine hroom p ?_
      simpa only [increments, hst] using hp
    | releasing p => exact h.releasing ht
    | finalizing p => exact h.finalizing ht (Option.isNone_iff_eq_none.mp hp)
    | dismantling p => exact h.dismantling ht
    | registering p =>
      obtain ⟨hf, hd⟩ := hadds p (by simp only [adds, hst]; rfl)
      exact h.registering ht (Option.isNone_iff_eq_none.mp hp) hf hd
    | scanning predicate rest result => exact h.scan ht hroom
    | giving p predicate rest result => exact h.giving ht
    | holding p predicate rest result =>
      exact h.holding ht (hroom p (by simp only [increments, hst]; rfl))
    | dropping p predicate rest result => exact h.dropping ht
    | failed => cases hp

theorem inv_next (h : s.BindingInv) (a : BindingAction) (he : s.Enabled a) (ho : s.Orderly a) :
    (s.next a).BindingInv := by
  cases a with
  | setup t r =>
    obtain ⟨st, ht, hl, hplain⟩ := h.idle he.1
    exact h.setup ht hl hplain he.2
  | declare t =>
    obtain ⟨st, ht, hl, hplain⟩ := h.idle he
    have hnone : s.Adjustable none := fun p hp => nomatch hp
    exact h.addRef ht hl hplain hnone
  | copy t source =>
    obtain ⟨st, ht, hl, hplain⟩ := h.idle he
    exact h.addRef ht hl hplain
      (h.adjustable (fun p hp => references_pos_of_target hp) ho.1)
  | assign t r source =>
    obtain ⟨st, ht, hl, hplain⟩ := h.idle he.1
    exact h.assign ht hl hplain he.2.1 source
  | set t r source =>
    obtain ⟨st, ht, hl, hplain⟩ := h.idle he.1
    change (s.setEntity t r (source.bind s.target)).BindingInv
    by_cases hsame : s.target r = source.bind s.target
    · unfold BindingSystem.setEntity
      simp only [if_pos hsame]
      exact h
    · refine h.setEntity ht hl hplain he.2 (h.adjustable (fun p hp => ?_) fun p hp => ho.1 p ?_)
      · obtain ⟨x, -, hx⟩ := Option.bind_eq_some_iff.mp hp
        exact references_pos_of_target hx
      · simp only [increments, if_neg hsame]
        exact hp
  | finalize t r =>
    obtain ⟨st, ht, hl, hplain⟩ := h.idle he.1
    exact h.finalizeRef ht hl hplain he.2
  | registerBindingObject t r =>
    obtain ⟨st, ht, hl, hplain⟩ := h.idle he.1
    obtain ⟨p, htarget, hnew⟩ := he.2
    have htarget : s.target r = some p := htarget
    simp only [next, htarget]
    exact h.registerBindingObject ht hl hplain htarget hnew
  | getBindingObjects t predicate =>
    obtain ⟨st, ht, hl, hplain⟩ := h.idle he.1
    exact h.getBindingObjects ht hplain he.2 predicate
  | close o => exact h.close o
  | proceed t => exact h.proceed he ho

theorem inv_start (n : Nat) : (start n).BindingInv where
  counts o := by
    have htotal (role : BindingRole) : (start n).total o role = 0 :=
      Tally.sum_map_eq_zero fun st hst => by
        rw [List.eq_of_mem_replicate hst]
        rfl
    have hlife : (start n).life o = ⟨false, 0, 0, 0, 0, 0, 0, 0, false, 0, 0, 0, 0⟩ := by
      simp only [life, references, htotal]
      rfl
    unfold Counts
    rw [hlife]
    refine ⟨⟨rfl, rfl, rfl, by simp, rfl, Nat.zero_le 1⟩, ?_, by simp, ?_, by simp, fun _ => ?_⟩
    · exact Int.zero_le_ofNat _
    · simp
    · exact ⟨rfl, rfl, rfl, rfl⟩
  shape t st ht := by
    obtain rfl := List.eq_of_mem_replicate (List.mem_of_getElem? ht)
    rintro ⟨⟩
  holder t ht := nomatch ht
  assigned r hr := by
    have hzero : (start n).assignments r = 0 := Tally.sum_map_eq_zero fun st hst => by
      rw [List.eq_of_mem_replicate hst]
      rfl
    omega

/-- The counters are right, every object is finalized and freed once, after its last reference, and
listed only before that; and no task waits for ever. -/
structure Sound (s : BindingSystem) : Prop where
  life : ∀ o, (s.life o).Sound
  /-- What a variable or a lookup designates, `Get_Binding_Objects` included. -/
  designated : ∀ o, 0 < s.references o → (s.object o).finalizations = 0
  bindingObjects : s.bindingObjects.Nodup
  progress : ∀ (t : Nat) (f : BindingFrame) (below : List BindingFrame),
    s.tasks[t]? = some (f :: below) → ∃ u, s.canProceed u = true

theorem BindingInv.progress (h : s.BindingInv) (ht : s.tasks[t]? = some (f :: below)) :
    ∃ u, s.canProceed u = true := by
  cases hl : s.lock with
  | none =>
    have hne := (h.shape t _ ht).2.2.1.1
    refine ⟨t, ?_⟩
    unfold canProceed
    rw [stack_of_tasks ht]
    cases f with
    | failed => exact absurd rfl hne
    | _ => first | rfl | exact Option.isNone_iff_eq_none.mpr hl
  | some u =>
    obtain ⟨st, hu⟩ : ∃ st, s.tasks[u]? = some st := ⟨_, List.getElem?_eq_getElem (h.holder u hl)⟩
    have hshape := h.shape u st hu
    refine ⟨u, ?_⟩
    unfold canProceed
    rw [stack_of_tasks hu]
    cases st with
    | nil => exact absurd hl hshape
    | cons g below =>
      have hscan := hshape.1.mpr hl
      cases g <;> first | rfl | cases hscan

theorem BindingInv.sound (h : s.BindingInv) : s.Sound where
  life o := (h.counts o).toSound
  designated o ho := (h.counts o).finalizations_of_references ho
  bindingObjects := nodup_bindingObjects h.counts
  progress _ _ _ := h.progress

/-- Binding objects live as they should in every run whose steps are `Orderly`. -/
theorem bindingRun_sound (n : Nat) (as : List BindingAction)
    (he : Runs.Along next Enabled (start n) as) (ho : Runs.Along next Orderly (start n) as) :
    Runs.Along next (fun s a => (s.next a).Sound) (start n) as :=
  Runs.along_of_inv (fun _ a hinv hstep => have hinv' := inv_next hinv a hstep.1 hstep.2
    ⟨hinv'.sound, hinv'⟩) as (start n) (inv_start n) (Runs.along_and as he ho)

/-- A binding object is set up and registered; while one task looks it up, the other gives up the
first reference, and the last one is finalized at the end. -/
def lookedUpRun : List BindingAction :=
  [.declare 0, .setup 0 0, .registerBindingObject 0 0, .proceed 0, .getBindingObjects 1 none,
    .proceed 1, .finalize 0 0, .proceed 0, .proceed 1, .proceed 1, .proceed 1, .finalize 1 1,
    .proceed 1, .getBindingObjects 0 none, .proceed 0, .proceed 0, .proceed 0, .proceed 1,
    .proceed 1]

theorem bindingRun_sound_lookedUpRun :
    Runs.Along next (fun s a => (s.next a).Sound) (start 2) lookedUpRun :=
  bindingRun_sound 2 lookedUpRun (by decide) (by decide)

/-- The endpoint is found closed as soon as it is monitored: the only reference is given up, and the
binding object freed, before the task that accepted the connection puts it on the list. -/
theorem not_sound_acceptedRun :
    ¬∀ n as, Runs.Along next Enabled (start n) as →
      Runs.Along next (fun s a => (s.next a).Sound) (start n) as := by
  intro hall
  have h := hall 2 [.declare 0, .setup 0 0, .registerBindingObject 0 0, .finalize 1 0, .proceed 1,
    .proceed 1, .proceed 1, .proceed 0] (by decide)
  have hsound := h.2.2.2.2.2.2.2.1
  exact absurd ((hsound.life 0).listed (by decide)).2 (by decide)

end BindingSystem

end PolyORB
