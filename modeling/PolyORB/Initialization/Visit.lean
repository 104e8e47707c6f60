import PolyORB.Initialization.Modules
import PolyORB.Lib.Checked
import PolyORB.Lib.Walks

/-!
# What a visit does

A visit that returns leaves its module and all the dependencies of it explored: initialized, or
disabled with dependencies that are explored in turn.  The invariant is that of the flags and of the
order in which the modules were initialized.
-/

namespace PolyORB

open Walks

namespace World

variable (w : World) (enabled : Text → Bool)

abbrev DependsOn (x y : Text) : Prop := Edge w.deps Dependency.target x y

abbrev Settles (x : Text) : Prop := Grounded w.deps Dependency.target x

/-- Dependencies are on modules that are there, and virtual modules depend on registered ones. -/
structure Closed : Prop where
  named : ∀ x ∈ w.names, ∀ d ∈ w.deps x, d.target ∈ w.names
  layered : ∀ x, w.isVirtual x = true → ∀ d ∈ w.deps x, w.isVirtual d.target = false

inductive Explored (visited : Text → Bool) : Text → Prop where
  | visited {x} : visited x = true → Explored visited x
  | disabled {x} : enabled x = false → (∀ d ∈ w.deps x, Explored visited d.target) →
      Explored visited x

/-- `x` is a dependency of `m`, or a dependency of a dependency. -/
def Before (m x : Text) : Prop := w.DependsOn m x ∨ ∃ v, w.DependsOn m v ∧ w.DependsOn v x

structure Invariant (s : InitState) : Prop where
  allowed : ∀ x, s.visited x = true → enabled x = true
  named : ∀ x, s.visited x = true → x ∈ w.names
  visited : ∀ x, s.initialized x = true → s.visited x = true
  registered : ∀ x, s.visited x = true → w.isVirtual x = false → s.initialized x = true
  virtual : ∀ x, s.visited x = true → w.isVirtual x = true →
    (s.initialized x = true ↔ ∃ d ∈ w.deps x, enabled d.target = true)
  explored : ∀ x, s.visited x = true → ∀ d ∈ w.deps x, w.Explored enabled s.visited d.target
  settled : ∀ x, s.visited x = true → w.Settles x
  mem_order : ∀ x, x ∈ s.order ↔ s.visited x = true ∧ w.isVirtual x = false
  nodup : s.order.Nodup
  before : ∀ earlier m later, s.order = earlier ++ m :: later → ∀ x, w.Before m x →
    enabled x = true → w.isVirtual x = false → x ∈ earlier
  needed : ∀ m ∈ s.order, ∀ d ∈ w.deps m, d.optional = false → s.visited d.target = true
  shutdown : s.shutdownOrder = (s.order.filter w.hasShutdown).reverse

/-- What stays when more is visited, and that nothing under visit is. -/
structure Grows (s s' : InitState) : Prop where
  visited : ∀ x, s.visited x = true → s'.visited x = true
  initialized : ∀ x, s.visited x = true → s'.initialized x = s.initialized x
  inProgress : s'.depsInProgress = s.depsInProgress
  waiting : ∀ x, s.depsInProgress x = true → s'.visited x = s.visited x

section Visit

variable {w : World} {enabled : Text → Bool} {s s' s'' : InitState} {m x : Text} {depth : Nat}

theorem invariant_initial : w.Invariant enabled .initial where
  allowed := by rintro x ⟨⟩
  named := by rintro x ⟨⟩
  visited := by rintro x ⟨⟩
  registered := by rintro x ⟨⟩
  virtual := by rintro x ⟨⟩
  explored := by rintro x ⟨⟩
  settled := by rintro x ⟨⟩
  mem_order := fun x => iff_of_false (by rintro ⟨⟩) (by rintro ⟨⟨⟩, -⟩)
  nodup := List.nodup_nil
  before := by
    intro earlier m later h
    exact absurd h (by simp [InitState.initial])
  needed := by rintro m ⟨⟩
  shutdown := rfl

theorem Grows.refl (s : InitState) : Grows s s :=
  ⟨fun _ h => h, fun _ _ => rfl, rfl, fun _ _ => rfl⟩

theorem Grows.trans (h : Grows s s') (h' : Grows s' s'') : Grows s s'' where
  visited := fun x hx => h'.visited x (h.visited x hx)
  initialized := fun x hx => (h'.initialized x (h.visited x hx)).trans (h.initialized x hx)
  inProgress := h'.inProgress.trans h.inProgress
  waiting := fun x hx => by
    rw [h'.waiting x (by rwa [h.inProgress]), h.waiting x hx]

theorem Explored.mono {visited visited' : Text → Bool}
    (hle : ∀ x, visited x = true → visited' x = true) (h : w.Explored enabled visited x) :
    w.Explored enabled visited' x := by
  induction h with
  | visited hx => exact .visited (hle _ hx)
  | disabled hx _ ih => exact .disabled hx ih

theorem Explored.visited_of_enabled {visited : Text → Bool} (h : w.Explored enabled visited x)
    (hx : enabled x = true) : visited x = true := by
  cases h with
  | visited hv => exact hv
  | disabled hd _ =>
    rw [hd] at hx
    cases hx

theorem Invariant.explored_deps (hinv : w.Invariant enabled s)
    (h : w.Explored enabled s.visited x) :
    ∀ d ∈ w.deps x, w.Explored enabled s.visited d.target := by
  cases h with
  | visited hv => exact hinv.explored x hv
  | disabled _ hall => exact hall

theorem Invariant.explored_reaches (hinv : w.Invariant enabled s)
    (h : w.Explored enabled s.visited m) (hr : Reaches w.deps Dependency.target m x) :
    w.Explored enabled s.visited x := by
  induction hr with
  | refl => exact h
  | tail _ hedge ih =>
    obtain ⟨d, hd, rfl⟩ := hedge
    exact hinv.explored_deps ih d hd

theorem Invariant.initialized_eq (hinv : w.Invariant enabled s) (hinv' : w.Invariant enabled s')
    (hg : Grows s s') (h : w.Explored enabled s.visited x) :
    s'.initialized x = s.initialized x := by
  cases hx : enabled x with
  | true => exact hg.initialized x (h.visited_of_enabled hx)
  | false =>
    have hnot : ∀ {t : InitState}, w.Invariant enabled t → t.initialized x = false := by
      intro t ht
      by_contra hi
      have := ht.allowed x (ht.visited x (by simpa using hi))
      rw [hx] at this
      cases this
    rw [hnot hinv, hnot hinv']

/-! ## The loop over the dependencies -/

/-- What a visit that returns has done. -/
structure Visits (w : World) (enabled : Text → Bool) (s : InitState) (x : Text) (s' : InitState) :
    Prop where
  invariant : w.Invariant enabled s'
  grows : Grows s s'
  explored : w.Explored enabled s'.visited x
  settled : w.Settles x
  reached : ∀ y, s'.visited y = true → s.visited y = true ∨ Reaches w.deps Dependency.target x y

/-- What the loop has done for the dependencies. -/
structure VisitsDeps (w : World) (enabled : Text → Bool) (m : Text) (deps : List Dependency)
    (s : InitState) (one : Bool) (s' : InitState) (one' : Bool) : Prop where
  invariant : w.Invariant enabled s'
  grows : Grows s s'
  explored : ∀ d ∈ deps, w.Explored enabled s'.visited d.target
  settled : ∀ d ∈ deps, w.Settles d.target
  one : one' = true ↔ one = true ∨ ∃ d ∈ deps, s'.initialized d.target = true
  needed : w.isVirtual m = false → ∀ d ∈ deps, d.optional = false → s'.visited d.target = true
  reached : ∀ y, s'.visited y = true →
    s.visited y = true ∨ ∃ d ∈ deps, Reaches w.deps Dependency.target d.target y

variable {one one' : Bool}

theorem VisitsDeps.cons {dep : Dependency} {rest : List Dependency}
    (hg : Grows s s') (hinv' : w.Invariant enabled s') (hexp : w.Explored enabled s'.visited dep.target)
    (hset : w.Settles dep.target)
    (hneed : w.isVirtual m = false → dep.optional = false → s'.visited dep.target = true)
    (hreach : ∀ y, s'.visited y = true →
      s.visited y = true ∨ Reaches w.deps Dependency.target dep.target y)
    (h : VisitsDeps w enabled m rest s' (one || s'.initialized dep.target) s'' one') :
    VisitsDeps w enabled m (dep :: rest) s one s'' one' where
  invariant := h.invariant
  grows := hg.trans h.grows
  explored := by
    intro d hd
    rcases List.mem_cons.1 hd with rfl | hd
    · exact hexp.mono h.grows.visited
    · exact h.explored d hd
  settled := by
    intro d hd
    rcases List.mem_cons.1 hd with rfl | hd
    · exact hset
    · exact h.settled d hd
  one := by
    rw [h.one, Bool.or_eq_true, ← hinv'.initialized_eq h.invariant h.grows hexp]
    simp [or_assoc]
  needed := by
    intro hm d hd hopt
    rcases List.mem_cons.1 hd with rfl | hd
    · exact h.grows.visited _ (hneed hm hopt)
    · exact h.needed hm d hd hopt
  reached := by
    intro y hy
    rcases h.reached y hy with hy | ⟨d, hd, hr⟩
    · exact (hreach y hy).imp_right fun hr => ⟨dep, List.mem_cons_self, hr⟩
    · exact .inr ⟨d, List.mem_cons_of_mem _ hd, hr⟩

theorem visitDeps_visits {vis : InitState → Text → Except Exn (Option InitState)}
    (hvis : ∀ s x s', w.Invariant enabled s → x ∈ w.names → s.visited x = false →
      vis s x = .ok (some s') → Visits w enabled s x s') {deps : List Dependency}
    (hnamed : ∀ d ∈ deps, d.target ∈ w.names) (hinv : w.Invariant enabled s)
    (h : w.visitDeps vis m deps s one = .ok (some (s', one'))) :
    VisitsDeps w enabled m deps s one s' one' := by
  induction deps generalizing s one with
  | nil =>
    cases h
    exact ⟨hinv, .refl _, by rintro d ⟨⟩, by rintro d ⟨⟩, by simp, by rintro - d ⟨⟩,
      fun _ hy => .inl hy⟩
  | cons dep rest ih =>
    have hrest : ∀ d ∈ rest, d.target ∈ w.names := fun d hd => hnamed d (List.mem_cons_of_mem _ hd)
    rw [visitDeps] at h
    by_cases hv : s.visited dep.target = false
    · rw [if_pos hv] at h
      obtain ⟨found, hfound, hnext⟩ := Checked.bind_eq_ok.1 h
      cases found with
      | none => cases hnext
      | some t =>
        have hdone := hvis s dep.target t hinv (hnamed dep List.mem_cons_self) hv hfound
        dsimp only at hnext
        by_cases hok : dep.optional = true ∨ w.isVirtual m = true ∨ t.initialized dep.target = true
        · rw [if_pos hok] at hnext
          refine (ih hrest hdone.invariant hnext).cons hdone.grows hdone.invariant
            hdone.explored hdone.settled (fun hm hopt => hdone.invariant.visited _ ?_) hdone.reached
          rcases hok with hopt' | hm' | hi
          · rw [hopt] at hopt'
            cases hopt'
          · rw [hm] at hm'
            cases hm'
          · exact hi
        · rw [if_neg hok] at hnext
          cases hnext
    · rw [if_neg hv] at h
      have hv' : s.visited dep.target = true := by simpa using hv
      exact (ih hrest hinv h).cons (.refl s) hinv (.visited hv') (hinv.settled _ hv')
        (fun _ _ => hv') fun _ hy => .inl hy

/-! ## A visit -/

/-- The invariant does not mention what is in progress. -/
theorem Invariant.inProgress (hinv : w.Invariant enabled s) (inProgress : Text → Bool) :
    w.Invariant enabled { s with depsInProgress := inProgress } :=
  ⟨hinv.allowed, hinv.named, hinv.visited, hinv.registered, hinv.virtual, hinv.explored,
    hinv.settled, hinv.mem_order, hinv.nodup, hinv.before, hinv.needed, hinv.shutdown⟩

theorem update_eq_true {f : Text → Bool} :
    Function.update f m true x = true ↔ x = m ∨ f x = true := by
  by_cases hx : x = m
  · simp [hx]
  · simp [hx]

theorem initialized_update {f : Text → Bool} {b : Bool} (hx : x ≠ m) :
    Function.update f m b x = f x := Function.update_of_ne hx ..

theorem VisitsDeps.explored_self {deps : List Dependency}
    (h : VisitsDeps w enabled m deps s one s' one') :
    ∀ d ∈ deps, w.Explored enabled (Function.update s'.visited m true) d.target :=
  fun d hd => (h.explored d hd).mono fun _ hx => update_eq_true.2 (.inr hx)

theorem VisitsDeps.virtual (h : VisitsDeps w enabled m (w.deps m) s false s' one)
    (hclosed : w.Closed) (henabled : enabled m = true) (hm : m ∈ w.names)
    (hvirtual : w.isVirtual m = true) (hv : s'.visited m = false) :
    w.Invariant enabled
      { s' with
        visited := Function.update s'.visited m true
        initialized := Function.update s'.initialized m one } where
  allowed := by
    intro x hx
    rcases update_eq_true.1 hx with rfl | hx
    · exact henabled
    · exact h.invariant.allowed x hx
  named := by
    intro x hx
    rcases update_eq_true.1 hx with rfl | hx
    · exact hm
    · exact h.invariant.named x hx
  visited := by
    intro x hx
    refine update_eq_true.2 (or_iff_not_imp_left.2 fun hne => h.invariant.visited x ?_)
    dsimp only at hx
    rwa [initialized_update hne] at hx
  registered := by
    intro x hx hreg
    have hne : x ≠ m := by
      rintro rfl
      rw [hvirtual] at hreg
      cases hreg
    dsimp only
    rw [initialized_update hne]
    exact h.invariant.registered x ((update_eq_true.1 hx).resolve_left hne) hreg
  virtual := by
    intro x hx hvirt
    dsimp only
    by_cases hne : x = m
    · subst hne
      rw [Function.update_self, h.one]
      simp only [Bool.false_eq_true, false_or]
      refine exists_congr fun d => and_congr_right fun hd => ?_
      constructor
      · exact fun hi => h.invariant.allowed _ (h.invariant.visited _ hi)
      · intro hen
        exact h.invariant.registered _ ((h.explored d hd).visited_of_enabled hen)
          (hclosed.layered _ hvirt d hd)
    · rw [initialized_update hne]
      exact h.invariant.virtual x ((update_eq_true.1 hx).resolve_left hne) hvirt
  explored := by
    intro x hx d hd
    rcases update_eq_true.1 hx with rfl | hx
    · exact h.explored_self d hd
    · exact (h.invariant.explored x hx d hd).mono fun _ hy => update_eq_true.2 (.inr hy)
  settled := by
    intro x hx
    rcases update_eq_true.1 hx with rfl | hx
    · exact grounded_iff.2 h.settled
    · exact h.invariant.settled x hx
  mem_order := by
    intro x
    dsimp only
    rw [h.invariant.mem_order x]
    by_cases hne : x = m
    · subst hne
      simp [hvirtual]
    · rw [initialized_update hne]
  nodup := h.invariant.nodup
  before := h.invariant.before
  needed := fun x hx d hd hopt => update_eq_true.2 (.inr (h.invariant.needed x hx d hd hopt))
  shutdown := h.invariant.shutdown

theorem VisitsDeps.registered (h : VisitsDeps w enabled m (w.deps m) s false s' one)
    (henabled : enabled m = true) (hm : m ∈ w.names)
    (hreg : w.isVirtual m = false) (hv : s'.visited m = false) :
    w.Invariant enabled
      { s' with
        visited := Function.update s'.visited m true
        initialized := Function.update s'.initialized m true
        order := s'.order ++ [m]
        shutdownOrder :=
          if w.hasShutdown m = true then m :: s'.shutdownOrder else s'.shutdownOrder } where
  allowed := by
    intro x hx
    rcases update_eq_true.1 hx with rfl | hx
    · exact henabled
    · exact h.invariant.allowed x hx
  named := by
    intro x hx
    rcases update_eq_true.1 hx with rfl | hx
    · exact hm
    · exact h.invariant.named x hx
  visited := by
    intro x hx
    rcases update_eq_true.1 hx with rfl | hx
    · exact update_eq_true.2 (.inl rfl)
    · exact update_eq_true.2 (.inr (h.invariant.visited x hx))
  registered := by
    intro x hx hx'
    rcases update_eq_true.1 hx with rfl | hx
    · exact update_eq_true.2 (.inl rfl)
    · exact update_eq_true.2 (.inr (h.invariant.registered x hx hx'))
  virtual := by
    intro x hx hvirt
    have hne : x ≠ m := by
      rintro rfl
      rw [hreg] at hvirt
      cases hvirt
    dsimp only
    rw [initialized_update hne]
    exact h.invariant.virtual x ((update_eq_true.1 hx).resolve_left hne) hvirt
  explored := by
    intro x hx d hd
    rcases update_eq_true.1 hx with rfl | hx
    · exact h.explored_self d hd
    · exact (h.invariant.explored x hx d hd).mono fun _ hy => update_eq_true.2 (.inr hy)
  settled := by
    intro x hx
    rcases update_eq_true.1 hx with rfl | hx
    · exact grounded_iff.2 h.settled
    · exact h.invariant.settled x hx
  mem_order := by
    intro x
    rw [List.mem_append, h.invariant.mem_order x, List.mem_singleton, update_eq_true]
    by_cases hne : x = m
    · subst hne
      simp [hreg]
    · simp [hne]
  nodup := by
    refine List.nodup_append.2 ⟨h.invariant.nodup, List.nodup_singleton m, ?_⟩
    rintro x hx y hy rfl
    obtain rfl := List.mem_singleton.1 hy
    rw [((h.invariant.mem_order x).1 hx).1] at hv
    cases hv
  before := by
    intro earlier a later heq x hx hen hxreg
    rcases List.eq_nil_or_concat later with rfl | ⟨later, b, rfl⟩
    · obtain ⟨rfl, ha⟩ := List.append_inj' heq rfl
      obtain rfl : m = a := (List.cons.inj ha).1
      have hexp : w.Explored enabled s'.visited x := by
        rcases hx with ⟨d, hd, rfl⟩ | ⟨v, ⟨d, hd, rfl⟩, ⟨e, he, rfl⟩⟩
        · exact h.explored d hd
        · exact h.invariant.explored_deps (h.explored d hd) e he
      exact (h.invariant.mem_order x).2 ⟨hexp.visited_of_enabled hen, hxreg⟩
    · rw [List.concat_eq_append, ← List.cons_append, ← List.append_assoc] at heq
      exact h.invariant.before earlier a later (List.append_inj' heq rfl).1 x hx hen hxreg
  needed := by
    intro a ha d hd hopt
    refine update_eq_true.2 (.inr ?_)
    rcases List.mem_append.1 ha with ha | ha
    · exact h.invariant.needed a ha d hd hopt
    · obtain rfl := List.mem_singleton.1 ha
      exact h.needed hreg d hd hopt
  shutdown := by
    rw [List.filter_append, List.reverse_append, ← h.invariant.shutdown]
    by_cases hs : w.hasShutdown m = true
    · simp [hs]
    · simp [hs]

theorem VisitsDeps.finish (hclosed : w.Closed) (hm : m ∈ w.names)
    (hv : s.visited m = false) (hprog : s.depsInProgress m = false)
    (h : VisitsDeps w enabled m (w.deps m)
      { s with depsInProgress := Function.update s.depsInProgress m true } false s' one) :
    Visits w enabled s m (w.finish enabled s' m one) := by
  have hback : Function.update s'.depsInProgress m false = s.depsInProgress := by
    rw [h.grows.inProgress, Function.update_idem]
    exact Function.update_eq_self_iff.2 hprog.symm
  have hv' : s'.visited m = false :=
    (h.grows.waiting m (update_eq_true.2 (.inl rfl))).trans hv
  have hwait : ∀ x, s.depsInProgress x = true → s'.visited x = s.visited x :=
    fun x hx => h.grows.waiting x (update_eq_true.2 (.inr hx))
  have hwait' : ∀ x, s.depsInProgress x = true →
      Function.update s'.visited m true x = s.visited x := by
    intro x hx
    have hne : x ≠ m := by
      rintro rfl
      rw [hprog] at hx
      cases hx
    rw [initialized_update hne, hwait x hx]
  have hset : w.Settles m := grounded_iff.2 h.settled
  have hkeep : ∀ b x, s.visited x = true →
      Function.update s'.initialized m b x = s.initialized x := by
    intro b x hx
    have hne : x ≠ m := by
      rintro rfl
      rw [hv] at hx
      cases hx
    rw [initialized_update hne]
    exact h.grows.initialized x hx
  have hreach : ∀ y, s'.visited y = true →
      s.visited y = true ∨ Reaches w.deps Dependency.target m y := by
    intro y hy
    refine (h.reached y hy).imp_right ?_
    rintro ⟨d, hd, hr⟩
    exact Relation.ReflTransGen.head ⟨d, hd, rfl⟩ hr
  have hreach' : ∀ y, Function.update s'.visited m true y = true →
      s.visited y = true ∨ Reaches w.deps Dependency.target m y := by
    intro y hy
    rcases update_eq_true.1 hy with rfl | hy
    · exact .inr .refl
    · exact hreach y hy
  rw [World.finish]
  by_cases hen : enabled m = false
  · rw [if_pos hen]
    exact ⟨h.invariant.inProgress _, ⟨h.grows.visited, h.grows.initialized, hback, hwait⟩,
      .disabled hen h.explored, hset, hreach⟩
  · have hen' : enabled m = true := by simpa using hen
    rw [if_neg hen]
    by_cases hvirt : w.isVirtual m = true
    · rw [if_pos hvirt]
      exact ⟨(h.virtual hclosed hen' hm hvirt hv').inProgress _,
        ⟨fun x hx => update_eq_true.2 (.inr (h.grows.visited x hx)), hkeep one, hback, hwait'⟩,
        .visited (update_eq_true.2 (.inl rfl)), hset, hreach'⟩
    · rw [if_neg hvirt]
      exact ⟨(h.registered hen' hm (by simpa using hvirt) hv').inProgress _,
        ⟨fun x hx => update_eq_true.2 (.inr (h.grows.visited x hx)), hkeep true, hback, hwait'⟩,
        .visited (update_eq_true.2 (.inl rfl)), hset, hreach'⟩

theorem visit_visits (hclosed : w.Closed) (depth : Nat) : ∀ (s : InitState) (m : Text)
    (s' : InitState), w.Invariant enabled s → m ∈ w.names → s.visited m = false →
    w.visit enabled depth s m = .ok (some s') → Visits w enabled s m s' := by
  induction depth with
  | zero => rintro s m s' - - - ⟨⟩
  | succ depth ih =>
    intro s m s' hinv hm hv h
    rw [visit] at h
    by_cases hprog : s.depsInProgress m = true
    · split_ifs at h
      cases h
    rw [if_neg hprog] at h
    obtain ⟨found, hfound, hnext⟩ := Checked.bind_eq_ok.1 h
    rcases found with _ | ⟨t, one⟩
    · cases hnext
    · cases hnext
      have hdeps := visitDeps_visits ih (hclosed.named m hm) (hinv.inProgress _) hfound
      exact hdeps.finish hclosed hm hv (by simpa using hprog)

end Visit

end World

end PolyORB
