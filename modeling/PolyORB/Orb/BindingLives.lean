import PolyORB.Orb.BindingObjects

/-!
# The lives of binding objects

What the operations of the system do to the life of each binding object.
-/

namespace PolyORB

namespace BindingSystem

open Lifetimes

variable {s : BindingSystem} {t r o p : Nat} {f g : BindingFrame} {st below : List BindingFrame}

/-! ## Counting -/

@[simp] theorem stackWeight_cons (role : BindingRole) :
    stackWeight o role (f :: st) = weight o role f + stackWeight o role st := rfl

theorem total_setTask (h : s.tasks[t]? = some st) (role : BindingRole) (st' : List BindingFrame) :
    (s.setTask t st').total o role + stackWeight o role st =
      s.total o role + stackWeight o role st' :=
  Tally.sum_map_set_add (stackWeight o role) st' h

theorem stackWeight_le_total (h : s.tasks[t]? = some st) (role : BindingRole) :
    stackWeight o role st ≤ s.total o role :=
  Tally.le_sum_map (stackWeight o role) h

theorem count_setRef (h : r < s.refs.length) (p : Option Nat) :
    (s.setRef r p).refs.count (some o) + (if s.target r = some o then 1 else 0) =
      s.refs.count (some o) + (if p = some o then 1 else 0) := by
  have hget : s.refs[r]? = some s.refs[r] := List.getElem?_eq_getElem h
  have := Tally.countP_set_add (· == some o) p hget
  simpa [setRef, List.count, Tally.weight, target, hget] using this

@[simp] theorem stack_of_tasks (h : s.tasks[t]? = some st) : s.stack t = st := by
  rw [stack, h, Option.getD_some]

theorem tasks_of_stack (h : s.stack t = f :: below) : s.tasks[t]? = some (f :: below) := by
  unfold stack at h
  cases ht : s.tasks[t]? with
  | none => rw [ht] at h; cases h
  | some st => rw [ht] at h; exact congrArg some h

/-! ## Lives -/

theorem life_setTask (h : s.tasks[t]? = some st) {st' : List BindingFrame}
    (hw : ∀ role, stackWeight o role st' = stackWeight o role st) :
    (s.setTask t st').life o = s.life o := by
  have htotal : ∀ role, (s.setTask t st').total o role = s.total o role := by
    intro role
    have := total_setTask (o := o) h role st'
    have := hw role
    omega
  simp only [life, references, htotal]
  rfl

theorem life_setObject_of_ne (h : o ≠ p) (x : BindingObject) :
    (s.setObject p x).life o = s.life o := by
  simp only [life, setObject, Function.update_of_ne h]
  rfl

theorem life_other {x : BindingObject} {st' : List BindingFrame} (ho : o ≠ p)
    (h : s.tasks[t]? = some st) (hw : ∀ role, stackWeight o role st' = stackWeight o role st) :
    ((s.setObject p x).setTask t st').life o = s.life o :=
  (life_setTask (s := s.setObject p x) h hw).trans (life_setObject_of_ne ho x)

theorem life_update (x : BindingObject) (t : Nat) (st' : List BindingFrame) :
    ((s.setObject o x).setTask t st').life o =
      { s.life o with
        counter := x.counter
        references := s.refs.count (some o) + (s.setTask t st').total o .reference
        attempts := (s.setTask t st').total o .attempt
        finalizing := (s.setTask t st').total o .finalizing
        dismantling := (s.setTask t st').total o .dismantling
        registering := (s.setTask t st').total o .registering
        marked := x.referenced
        registrations := x.registrations
        removals := x.removals
        finalizations := x.finalizations
        frees := x.frees } := by
  simp only [life, setObject, setTask, Function.update_self]
  rfl

theorem totals_setTask (h : s.tasks[t]? = some st) (o : Nat) (st' : List BindingFrame) :
    (s.setTask t st').total o .reference + stackWeight o .reference st =
        s.total o .reference + stackWeight o .reference st' ∧
      (s.setTask t st').total o .attempt + stackWeight o .attempt st =
        s.total o .attempt + stackWeight o .attempt st' ∧
      (s.setTask t st').total o .finalizing + stackWeight o .finalizing st =
        s.total o .finalizing + stackWeight o .finalizing st' ∧
      (s.setTask t st').total o .dismantling + stackWeight o .dismantling st =
        s.total o .dismantling + stackWeight o .dismantling st' ∧
      (s.setTask t st').total o .registering + stackWeight o .registering st =
        s.total o .registering + stackWeight o .registering st' :=
  ⟨total_setTask h _ st', total_setTask h _ st', total_setTask h _ st', total_setTask h _ st',
    total_setTask h _ st'⟩

/-- `Integer_32'Last`. -/
def lastCounter : Int := 2147483647

theorem syncAddAndFetch_eq {c v : Int} (hlo : -2147483648 ≤ c + v) (hhi : c + v ≤ lastCounter) :
    syncAddAndFetch c v = c + v := by
  unfold lastCounter at hhi
  exact Int.bmod_eq_of_le (by omega) (by omega)

abbrev Counts (s : BindingSystem) (o : Nat) : Prop := (s.life o).Inv lastCounter

theorem Counts.counter_eq (hc : s.Counts o) :
    (s.object o).counter = (s.references o : Int) + (s.total o .attempt : Int) :=
  hc.counter

theorem Counts.no_attempt (hc : s.Counts o) (hpos : 0 < s.references o) :
    s.total o .attempt = 0 := by
  by_contra hne
  have : s.references o = 0 := hc.attempts (Nat.pos_of_ne_zero hne)
  omega

/-! ## Giving up references -/

/-- The stack gives up a reference to `p`. -/
def GivesUp (p : Nat) (st st' : List BindingFrame) : Prop :=
  ∀ o role, stackWeight o role st =
    stackWeight o role st' + if role = .reference ∧ p = o then 1 else 0

theorem GivesUp.weight_of_ne (hg : GivesUp p st below) (ho : o ≠ p) (role : BindingRole) :
    stackWeight o role below = stackWeight o role st := by
  rw [hg o role, if_neg fun hand => ho hand.2.symm, Nat.add_zero]

theorem GivesUp.references_pos (hg : GivesUp p st below) (h : s.tasks[t]? = some st) :
    0 < s.references p := by
  have := stackWeight_le_total (o := p) h .reference
  have := hg p .reference
  simp only [and_self, if_true] at this
  unfold references
  omega

variable (t below) in
theorem decUsage_cases (hc : s.Counts p) (hpos : 0 < s.references p) :
    (s.references p = 1 ∧ s.decUsage t p below =
      (s.setObject p
        { s.object p with
          counter := (s.object p).counter - 1
          finalizations := (s.object p).finalizations + 1 }).setTask t (.finalizing p :: below)) ∨
    ∃ n, s.references p = n + 2 ∧ s.decUsage t p below =
      (s.setObject p { s.object p with counter := (s.object p).counter - 1 }).setTask t below := by
  have hmax : (s.object p).counter ≤ lastCounter := hc.bounded
  have hcounter := hc.counter_eq
  have hattempts := hc.no_attempt hpos
  have hsync : syncAddAndFetch (s.object p).counter (-1) = (s.object p).counter - 1 :=
    syncAddAndFetch_eq (by omega) (by omega)
  unfold decUsage
  simp only [hsync]
  rw [if_neg (by omega), if_neg (by omega)]
  by_cases hone : s.references p = 1
  · left
    rw [if_pos (by omega)]
    exact ⟨hone, rfl⟩
  · right
    rw [if_neg (by omega)]
    exact ⟨s.references p - 2, by omega, rfl⟩

theorem step_decUsage (hc : s.Counts p) (h : s.tasks[t]? = some st) (hg : GivesUp p st below)
    (o : Nat) : Life.Step lastCounter (s.life o) ((s.decUsage t p below).life o) := by
  have hw := hg.weight_of_ne (o := o)
  rcases decUsage_cases t below hc (hg.references_pos h) with ⟨hone, heq⟩ | ⟨n, hn, heq⟩
  all_goals
    rw [heq]
    by_cases ho : o = p
  · subst ho
    obtain ⟨h1, h2, h3, h4, h5⟩ := totals_setTask h o (.finalizing o :: below)
    simp only [hg o, stackWeight_cons, weight, references, reduceCtorEq, false_and, if_true,
      if_false, true_and] at h1 h2 h3 h4 h5 hone
    rw [life_update]
    refine (Life.Step.releaseLast (s.life o) hone).to ?_
    ext <;> simp only [life] <;> omega
  · rw [life_other ho h fun role => ?_]
    · exact .stay _
    · rw [stackWeight_cons, hw ho role]
      cases role <;> simp [weight, Ne.symm ho]
  · subst ho
    obtain ⟨h1, h2, h3, h4, h5⟩ := totals_setTask h o below
    simp only [hg o, references, reduceCtorEq, false_and, if_true,
      if_false, true_and] at h1 h2 h3 h4 h5 hn
    rw [life_update]
    refine (Life.Step.release (s.life o) n hn).to ?_
    ext <;> simp only [life] <;> omega
  · rw [life_other ho h (hw ho)]
    exact .stay _

/-! ## Variables -/

theorem life_moveRef (hr : r < s.refs.length) (ht : s.tasks[t]? = some st) (e : Option Nat) :
    ((s.setRef r e).release t (s.target r)).life o =
      { s.life o with references := s.references o + if e = some o then 1 else 0 } := by
  have hcount := count_setRef (o := o) hr e
  cases htarget : s.target r with
  | none =>
    rw [htarget, if_neg nofun] at hcount
    simp only [release]
    ext <;> simp only [life, references]
    all_goals first | rfl | skip
    have : (s.setRef r e).total o .reference = s.total o .reference := rfl
    omega
  | some p =>
    rw [htarget] at hcount
    obtain ⟨h1, h2, h3, h4, h5⟩ := totals_setTask (s := s.setRef r e) ht o (.releasing p :: st)
    simp only [stackWeight_cons, weight, Option.some.injEq] at h1 h2 h3 h4 h5 hcount
    have hsame : ∀ role, (s.setRef r e).total o role = s.total o role := fun _ => rfl
    simp only [hsame] at h1 h2 h3 h4 h5
    simp only [release, call, stack_of_tasks (s := s.setRef r e) ht]
    ext <;> simp only [life, references]
    all_goals first | rfl | skip
    · have : ((s.setRef r e).setTask t (.releasing p :: st)).refs = (s.setRef r e).refs := rfl
      rw [this]
      omega
    all_goals omega

theorem incUsage_eq (hc : s.Counts p) (hroom : (s.object p).counter < lastCounter) :
    s.incUsage p = s.setObject p { s.object p with counter := (s.object p).counter + 1 } := by
  have hcounter := hc.counter_eq
  unfold incUsage
  rw [if_neg (by omega), syncAddAndFetch_eq (by omega) (by omega)]

theorem life_incUsage (hc : s.Counts p) (hroom : (s.object p).counter < lastCounter) :
    (s.incUsage p).life o =
      { s.life o with
        counter := (s.life o).counter + if p = o then 1 else 0 } := by
  rw [incUsage_eq hc hroom]
  by_cases ho : o = p
  · subst ho
    simp only [life, setObject, Function.update_self, if_true]
    rfl
  · rw [life_setObject_of_ne ho, if_neg (Ne.symm ho), add_zero]

theorem incUsage_parts (s : BindingSystem) (p : Nat) :
    (s.incUsage p).refs = s.refs ∧ (s.incUsage p).tasks = s.tasks := by
  unfold incUsage
  simp only
  split <;> exact ⟨rfl, rfl⟩

theorem adjust_parts (s : BindingSystem) (e : Option Nat) :
    (s.adjust e).refs = s.refs ∧ (s.adjust e).tasks = s.tasks := by
  cases e with
  | none => exact ⟨rfl, rfl⟩
  | some p => exact s.incUsage_parts p

theorem target_adjust (e : Option Nat) (r : Nat) : (s.adjust e).target r = s.target r := by
  unfold target
  rw [(s.adjust_parts e).1]

/-- The entity, if there is one, is referenced already, and its counter has room. -/
def Adjustable (s : BindingSystem) (e : Option Nat) : Prop :=
  ∀ p ∈ e, s.Counts p ∧ 0 < s.references p ∧ (s.object p).counter < lastCounter

theorem step_adjust {s' : BindingSystem} {e : Option Nat} (he : s.Adjustable e)
    (hl : s'.life o =
      { (s.adjust e).life o with
        references := (s.adjust e).references o + if e = some o then 1 else 0 }) :
    Life.Step lastCounter (s.life o) (s'.life o) := by
  cases e with
  | none =>
    rw [hl, if_neg nofun]
    exact .stay _
  | some p =>
    obtain ⟨hc, hpos, hroom⟩ := he p rfl
    have hrefs : (s.adjust (some p)).references o = s.references o := by
      have := congrArg Life.references (life_incUsage (o := o) hc hroom)
      exact this
    rw [hl, hrefs, adjust, life_incUsage hc hroom]
    by_cases ho : p = o
    · subst ho
      simp only [if_true]
      exact .refer _ hpos hroom
    · rw [if_neg ho, if_neg fun h => ho (Option.some.inj h), add_zero]
      exact .stay _

theorem step_setEntity {e : Option Nat} (he : s.Adjustable e) (hr : r < s.refs.length)
    (ht : s.tasks[t]? = some st) (o : Nat) :
    Life.Step lastCounter (s.life o) ((s.setEntity t r e).life o) := by
  unfold setEntity
  simp only
  split
  · exact .stay _
  · rw [← target_adjust e r]
    have htasks : (s.adjust e).tasks[t]? = some st := by rwa [(s.adjust_parts e).2]
    exact step_adjust he (life_moveRef (by rwa [(s.adjust_parts e).1]) htasks e)

theorem step_finalizeRef (hr : r < s.refs.length) (ht : s.tasks[t]? = some st) (o : Nat) :
    Life.Step lastCounter (s.life o) ((s.finalizeRef t r).life o) := by
  rw [finalizeRef, life_moveRef hr ht, if_neg nofun]
  exact .stay _

theorem step_copy {e : Option Nat} (he : s.Adjustable e) (o : Nat) :
    Life.Step lastCounter (s.life o) (((s.adjust e).addRef e).life o) := by
  refine step_adjust he ?_
  ext <;> simp only [life, references]
  all_goals first | rfl | skip
  have : ((s.adjust e).addRef e).total o .reference = (s.adjust e).total o .reference := rfl
  rw [this, addRef, List.count_append, List.count_singleton]
  simp only [beq_iff_eq]
  omega

theorem step_assigning {e : Option Nat} (he : s.Adjustable e) (hr : r < s.refs.length)
    (hnil : s.target r = none) (h : s.tasks[t]? = some st)
    (hw : ∀ o role, stackWeight o role below = stackWeight o role st) (o : Nat) :
    Life.Step lastCounter (s.life o) ((((s.adjust e).setRef r e).setTask t below).life o) := by
  have htasks : (s.adjust e).tasks[t]? = some st := by rwa [(s.adjust_parts e).2]
  refine step_adjust he ?_
  rw [life_setTask (s := (s.adjust e).setRef r e) htasks (hw o)]
  have := life_moveRef (s := s.adjust e) (o := o) (by rwa [(s.adjust_parts e).1]) htasks e
  rwa [target_adjust, hnil] at this

/-! ## The list -/

theorem life_removeBindingObject (s : BindingSystem) (p o : Nat) :
    (s.removeBindingObject p).life o =
      if p = o then
        { s.life o with
          listed := (s.bindingObjects.erase o).count o
          marked := false
          removals := (s.life o).removals + 1 }
      else s.life o := by
  split
  · rename_i ho
    subst ho
    simp only [removeBindingObject, life, setObject, Function.update_self]
    rfl
  · rename_i ho
    simp only [removeBindingObject, life, setObject, Function.update_of_ne (Ne.symm ho),
      List.count_erase_of_ne (Ne.symm ho)]
    rfl

theorem count_erase (hmem : p ∈ s.bindingObjects) :
    s.bindingObjects.count p = (s.bindingObjects.erase p).count p + 1 := by
  have := List.count_pos_iff.mpr hmem
  rw [List.count_erase_self]
  omega

theorem step_purge (hmem : p ∈ s.bindingObjects) (o : Nat) :
    Life.Step lastCounter (s.life o) ((s.removeBindingObject p).life o) := by
  rw [life_removeBindingObject]
  split
  · rename_i ho
    subst ho
    exact .purge _ _ (count_erase hmem)
  · exact .stay _

theorem life_retask (s : BindingSystem) (t o : Nat) (st' : List BindingFrame) :
    (s.setTask t st').life o =
      { s.life o with
        references := s.refs.count (some o) + (s.setTask t st').total o .reference
        attempts := (s.setTask t st').total o .attempt
        finalizing := (s.setTask t st').total o .finalizing
        dismantling := (s.setTask t st').total o .dismantling
        registering := (s.setTask t st').total o .registering } := rfl

theorem step_unregister (hc : s.Counts p) (h : s.tasks[t]? = some (.finalizing p :: below))
    (o : Nat) :
    Life.Step lastCounter (s.life o)
      (((s.unregisterBindingObject p).setTask t (.dismantling p :: below)).life o) := by
  have hpos := stackWeight_le_total (o := p) h .finalizing
  simp only [stackWeight_cons, weight, if_true] at hpos
  by_cases ho : o = p
  · subst ho
    have hfinalizing : s.total o .finalizing = s.total o .finalizing - 1 + 1 := by omega
    obtain ⟨h1, h2, h3, h4, h5⟩ := totals_setTask h o (.dismantling o :: below)
    simp only [stackWeight_cons, weight, if_true] at h1 h2 h3 h4 h5
    unfold unregisterBindingObject
    by_cases hmark : (s.object o).referenced = true
    · have hmem : o ∈ s.bindingObjects := List.count_pos_iff.mp (hc.marked.mp hmark)
      rw [if_pos hmark]
      refine (Life.Step.unregister (s.life o) _ _ hfinalizing (count_erase hmem)).to ?_
      rw [life_retask, life_removeBindingObject, if_pos rfl]
      have hsame : ∀ role, ((s.removeBindingObject o).setTask t (.dismantling o :: below)).total o
          role = (s.setTask t (.dismantling o :: below)).total o role := fun _ => rfl
      simp only [hsame]
      ext <;> simp only [life, references]
      · have : (s.removeBindingObject o).refs = s.refs := rfl
        rw [this]
        omega
      all_goals omega
    · have hzero : s.bindingObjects.count o = 0 := by
        by_contra hne
        exact hmark (hc.marked.mpr (Nat.pos_of_ne_zero hne))
      rw [if_neg hmark]
      refine (Life.Step.unlisted (s.life o) _ hfinalizing hzero).to ?_
      rw [life_retask]
      ext <;> simp only [life, references] <;> omega
  · have htasks : (s.unregisterBindingObject p).tasks[t]? = some (.finalizing p :: below) := by
      unfold unregisterBindingObject
      split <;> exact h
    rw [life_setTask htasks fun role => by cases role <;> simp [weight, Ne.symm ho]]
    unfold unregisterBindingObject
    split
    · rw [life_removeBindingObject, if_neg (Ne.symm ho)]
      exact .stay _
    · exact .stay _

theorem step_free (h : s.tasks[t]? = some (.dismantling p :: below)) (o : Nat) :
    Life.Step lastCounter (s.life o) (((s.freeObject p).setTask t below).life o) := by
  have hpos := stackWeight_le_total (o := p) h .dismantling
  simp only [stackWeight_cons, weight, if_true] at hpos
  unfold freeObject
  by_cases ho : o = p
  · subst ho
    have hdismantling : s.total o .dismantling = s.total o .dismantling - 1 + 1 := by omega
    obtain ⟨h1, h2, h3, h4, h5⟩ := totals_setTask h o below
    simp only [stackWeight_cons, weight, if_true] at h1 h2 h3 h4 h5
    refine (Life.Step.free (s.life o) _ hdismantling).to ?_
    rw [life_update]
    ext <;> simp only [life, references] <;> omega
  · rw [life_other ho h fun role => by cases role <;> simp [weight, Ne.symm ho]]
    exact .stay _

theorem step_addBindingObject (h : s.tasks[t]? = some (.registering p :: below))
    (hf : (s.object p).frees = 0) (hd : s.total p .dismantling = 0) (o : Nat) :
    Life.Step lastCounter (s.life o) (((s.addBindingObject p).setTask t below).life o) := by
  have hpos := stackWeight_le_total (o := p) h .registering
  simp only [stackWeight_cons, weight, if_true] at hpos
  by_cases ho : o = p
  · subst ho
    have hregistering : s.total o .registering = s.total o .registering - 1 + 1 := by omega
    obtain ⟨h1, h2, h3, h4, h5⟩ := totals_setTask h o below
    simp only [stackWeight_cons, weight, if_true] at h1 h2 h3 h4 h5
    refine (Life.Step.register (s.life o) _ hregistering hf hd).to ?_
    rw [life_retask]
    have hsame : ∀ role, ((s.addBindingObject o).setTask t below).total o role =
        (s.setTask t below).total o role := fun _ => rfl
    simp only [hsame]
    have hobject : (s.addBindingObject o).object o =
        { s.object o with
          referenced := true
          registrations := (s.object o).registrations + 1 } := Function.update_self ..
    have hlist : (s.addBindingObject o).bindingObjects = o :: s.bindingObjects := rfl
    have hrefs : (s.addBindingObject o).refs = s.refs := rfl
    have hcreated : (s.addBindingObject o).created = s.created := rfl
    ext <;> simp only [life, references, hobject, hlist, hrefs, hcreated, List.count_cons_self] <;>
      omega
  · have hother : (s.addBindingObject p).life o = s.life o := by
      simp only [addBindingObject, life, setObject, Function.update_of_ne ho,
        List.count_cons_of_ne (Ne.symm ho)]
      rfl
    rw [life_setTask (s := s.addBindingObject p) h
      fun role => by cases role <;> simp [weight, Ne.symm ho], hother]
    exact .stay _

theorem step_registerBindingObject (hc : s.Counts p) (h : s.tasks[t]? = some st)
    (hpos : 0 < s.references p)
    (hnew : (s.object p).registrations + s.total p .registering = 0) (o : Nat) :
    Life.Step lastCounter (s.life o) ((s.call t (.registering p)).life o) := by
  unfold call
  rw [stack_of_tasks h]
  by_cases ho : o = p
  · subst ho
    obtain ⟨h1, h2, h3, h4, h5⟩ := totals_setTask h o (.registering o :: st)
    simp only [stackWeight_cons, weight, if_true] at h1 h2 h3 h4 h5
    refine (Life.Step.announce (s.life o) (hc.born_of_references hpos) hnew).to ?_
    rw [life_retask]
    ext <;> simp only [life, references] <;> omega
  · rw [life_setTask h fun role => by cases role <;> simp [weight, Ne.symm ho]]
    exact .stay _

/-! ## Get_Binding_Objects -/

section Scan

variable {predicate : Option (Nat → Bool)} {rest result : List Nat}

theorem step_reuseEntity (hc : s.Counts p) (hborn : p < s.created)
    (hroom : (s.object p).counter < lastCounter) (hno : s.total p .attempt = 0)
    (h : s.tasks[t]? = some st) {rest' : List Nat}
    (hw : ∀ o role, stackWeight o role st =
      (if role = .reference then result.count o else 0) + stackWeight o role below) (o : Nat) :
    Life.Step lastCounter (s.life o)
      ((s.reuseEntity t p predicate rest' result below).life o) := by
  have hcounter := hc.counter_eq
  have hsync : syncAddAndFetch (s.object p).counter 1 = (s.object p).counter + 1 :=
    syncAddAndFetch_eq (by omega) (by omega)
  unfold reuseEntity
  simp only [hsync]
  rw [if_neg (by omega)]
  by_cases ho : o = p
  · subst ho
    by_cases hzero : s.references o = 0
    · rw [if_pos (by omega)]
      obtain ⟨h1, h2, h3, h4, h5⟩ :=
        totals_setTask h o (.giving o predicate rest' result :: below)
      simp only [hw, stackWeight_cons, weight, reduceCtorEq, if_true, if_false] at h1 h2 h3 h4 h5
      refine (Life.Step.attempt (s.life o) (decide_eq_true hborn) hzero hroom).to ?_
      rw [life_update]
      ext <;> simp only [life, references] <;> omega
    · rw [if_neg (by omega)]
      obtain ⟨h1, h2, h3, h4, h5⟩ :=
        totals_setTask h o (.holding o predicate rest' result :: below)
      simp only [hw, stackWeight_cons, weight, reduceCtorEq, if_true, if_false] at h1 h2 h3 h4 h5
      refine (Life.Step.refer (s.life o) (Nat.pos_of_ne_zero hzero) hroom).to ?_
      rw [life_update]
      ext <;> simp only [life, references] <;> omega
  · rw [life_other ho h fun role => ?_]
    · exact .stay _
    · rw [hw o role]
      split <;> cases role <;> simp [weight, Ne.symm ho]

theorem step_giving (hc : s.Counts p)
    (h : s.tasks[t]? = some (.giving p predicate rest result :: below)) (o : Nat) :
    Life.Step lastCounter (s.life o)
      (((s.setObject p
        { s.object p with counter := syncAddAndFetch (s.object p).counter (-1) }).setTask t
          (.scanning predicate rest result :: below)).life o) := by
  have hpos := stackWeight_le_total (o := p) h .attempt
  simp only [stackWeight_cons, weight, if_true] at hpos
  have hcounter := hc.counter_eq
  have hmax : (s.object p).counter ≤ lastCounter := hc.bounded
  rw [syncAddAndFetch_eq (by omega) (by omega)]
  by_cases ho : o = p
  · subst ho
    have hattempt : s.total o .attempt = s.total o .attempt - 1 + 1 := by omega
    obtain ⟨h1, h2, h3, h4, h5⟩ := totals_setTask h o (.scanning predicate rest result :: below)
    simp only [stackWeight_cons, weight, if_true] at h1 h2 h3 h4 h5
    refine (Life.Step.giveUp (s.life o) _ hattempt).to ?_
    rw [life_update]
    ext <;> simp only [life, references] <;> omega
  · rw [life_other ho h fun role => by cases role <;> simp [weight, Ne.symm ho]]
    exact .stay _

theorem step_holding (hc : s.Counts p) (hroom : (s.object p).counter < lastCounter)
    (h : s.tasks[t]? = some (.holding p predicate rest result :: below)) (o : Nat) :
    Life.Step lastCounter (s.life o)
      (((s.incUsage p).setTask t (.dropping p predicate rest (p :: result) :: below)).life o) := by
  have hpos := stackWeight_le_total (o := p) h .reference
  simp only [stackWeight_cons, weight, if_true] at hpos
  rw [incUsage_eq hc hroom]
  by_cases ho : o = p
  · subst ho
    obtain ⟨h1, h2, h3, h4, h5⟩ :=
      totals_setTask h o (.dropping o predicate rest (o :: result) :: below)
    simp only [stackWeight_cons, weight, if_true, List.count_cons_self] at h1 h2 h3 h4 h5
    have hrefs : 0 < s.references o := by
      unfold references
      omega
    refine (Life.Step.refer (s.life o) hrefs hroom).to ?_
    rw [life_update]
    ext <;> simp only [life, references] <;> omega
  · rw [life_other ho h fun role => by
      cases role <;> simp [weight, Ne.symm ho, List.count_cons_of_ne]]
    exact .stay _

theorem givesUp_dropping : GivesUp p (.dropping p predicate rest result :: below)
    (.scanning predicate rest result :: below) := by
  intro o role
  cases role
  all_goals
    simp [weight]
  omega

theorem givesUp_releasing : GivesUp p (.releasing p :: below) below := by
  intro o role
  cases role
  all_goals
    simp [weight]
  omega

theorem life_return (h : s.tasks[t]? = some (.scanning predicate rest result :: below)) :
    ({ s.setTask t below with lock := none, refs := s.refs ++ result.map some } :
      BindingSystem).life o = s.life o := by
  obtain ⟨h1, h2, h3, h4, h5⟩ := totals_setTask h o below
  simp only [stackWeight_cons, weight] at h1 h2 h3 h4 h5
  have hsame : ∀ role,
      ({ s.setTask t below with lock := none, refs := s.refs ++ result.map some } :
        BindingSystem).total o role = (s.setTask t below).total o role := fun _ => rfl
  have hcount : (result.map some).count (some o) = result.count o :=
    List.count_map_of_injective result some (Option.some_injective _) o
  ext <;> simp only [life, references, hsame, List.count_append, hcount]
  all_goals first | rfl | omega

end Scan

end BindingSystem

end PolyORB
