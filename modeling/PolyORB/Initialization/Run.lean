import PolyORB.Initialization.Visit

/-!
# The run over all modules

An exception other than `Program_Error` is raised only when a cycle is entered at a virtual module,
and a virtual module without a provider that is enabled is visited only by way of an optional
dependency.
-/

namespace PolyORB

open Walks

namespace World

variable {w : World} {enabled : Text → Bool} {s s' : InitState} {m x v : Text} {depth : Nat}

/-- `Program_Error`, or a cycle that is entered at a virtual module. -/
def RaisedAt (w : World) (way : List Text) (x : Text) (e : Exn) : Prop :=
  e = .programError ∨
    ∃ v, w.isVirtual v = true ∧ Returns w.deps Dependency.target way x v

/-! ## Exceptions -/

theorem visitDeps_error {vis : InitState → Text → Except Exn (Option InitState)}
    (hvis : ∀ s x s', w.Invariant enabled s → x ∈ w.names → s.visited x = false →
      vis s x = .ok (some s') → Visits w enabled s x s')
    {way : List Text} {inProgress : Text → Bool} (hm : m ∉ way)
    (hnamed : ∀ d ∈ w.deps m, d.target ∈ w.names)
    (herr : ∀ s e, ∀ d ∈ w.deps m, w.Invariant enabled s → s.depsInProgress = inProgress →
      s.visited d.target = false → vis s d.target = .error e →
      w.RaisedAt (m :: way) d.target e ∧ (e ≠ .programError → ¬w.Settles d.target))
    {e : Exn} {deps : List Dependency} (done : List Dependency) {one : Bool}
    (hdeps : w.deps m = done ++ deps) (hdone : ∀ d ∈ done, w.Settles d.target)
    (hinv : w.Invariant enabled s) (hprog : s.depsInProgress = inProgress)
    (h : w.visitDeps vis m deps s one = .error e) : w.RaisedAt way m e := by
  induction deps generalizing s one done with
  | nil => cases h
  | cons dep rest ih =>
    have hmem : dep ∈ w.deps m := by
      rw [hdeps]
      exact List.mem_append_right _ List.mem_cons_self
    have hnext : w.deps m = (done ++ [dep]) ++ rest := by simpa using hdeps
    have hdone' : w.Settles dep.target → ∀ d ∈ done ++ [dep], w.Settles d.target := by
      intro hset d hd
      rcases List.mem_append.1 hd with hd | hd
      · exact hdone d hd
      · obtain rfl := List.mem_singleton.1 hd
        exact hset
    rw [visitDeps] at h
    by_cases hv : s.visited dep.target = false
    · rw [if_pos hv] at h
      cases hfound : vis s dep.target with
      | error e' =>
        rw [hfound] at h
        cases h
        obtain ⟨hraised, hset⟩ := herr s e dep hmem hinv hprog hv hfound
        by_cases he : e = .programError
        · exact .inl he
        · obtain ⟨v, hvirt, hret⟩ := hraised.resolve_left he
          exact .inr ⟨v, hvirt, .further hm ⟨done, rest, hdeps,
            fun d hd => not_not.2 (hdone d hd), hset he⟩ hret⟩
      | ok found =>
        rw [hfound, Checked.bind_ok] at h
        cases found with
        | none => cases h
        | some t =>
          have hvisits := hvis s dep.target t hinv (hnamed dep hmem) hv hfound
          dsimp only at h
          split_ifs at h
          · exact ih (done ++ [dep]) hnext (hdone' hvisits.settled) hvisits.invariant
              (hvisits.grows.inProgress.trans hprog) h
          · cases h
            exact .inl rfl
    · rw [if_neg hv] at h
      exact ih (done ++ [dep]) hnext (hdone' (hinv.settled _ (by simpa using hv))) hinv hprog h

theorem not_settles_of_returns {way : List Text}
    (hway : ∀ y ∈ way, Relation.TransGen w.DependsOn y x)
    (h : Returns w.deps Dependency.target way x v) : ¬w.Settles x := by
  cases h with
  | here hx => exact fun hset => hset.not_cycle (hway x hx)
  | further _ hfirst _ => exact fun hset => hfirst.holds (grounded_iff.1 hset _ hfirst.mem)

theorem visit_error (hclosed : w.Closed) (depth : Nat) : ∀ (s : InitState) (x : Text)
    (way : List Text) (e : Exn), w.Invariant enabled s → x ∈ w.names → s.visited x = false →
    (∀ y, s.depsInProgress y = true ↔ y ∈ way) → way.Nodup → (∀ y ∈ way, y ∈ w.names) →
    (∀ y ∈ way, Relation.TransGen w.DependsOn y x) → w.names.length < depth + way.length →
    w.visit enabled depth s x = .error e → w.RaisedAt way x e := by
  induction depth with
  | zero =>
    intro s x way e _ _ _ _ hnodup hnamed _ hlen _
    have := (hnodup.subperm hnamed).length_le
    omega
  | succ depth ih =>
    intro s x way e hinv hx hv hprog hnodup hnamed hway hlen h
    rw [visit] at h
    by_cases hin : s.depsInProgress x = true
    · rw [if_pos hin] at h
      by_cases hvirt : w.isVirtual x = true
      · exact .inr ⟨x, hvirt, .here ((hprog x).1 hin)⟩
      · rw [if_neg hvirt] at h
        cases h
    rw [if_neg hin] at h
    dsimp only at h
    have hnot : x ∉ way := fun hmem => hin ((hprog x).2 hmem)
    cases hloop : w.visitDeps (w.visit enabled depth) x (w.deps x)
        { s with depsInProgress := Function.update s.depsInProgress x true } false with
    | ok found =>
      rw [hloop, Checked.bind_ok] at h
      rcases found with _ | ⟨t, one⟩ <;> cases h
    | error e' =>
      rw [hloop] at h
      cases h
      refine visitDeps_error (visit_visits hclosed depth) hnot (hclosed.named x hx) ?_ [] rfl
        (by rintro d ⟨⟩) (hinv.inProgress _) rfl hloop
      intro t e d hd hinvt hprogt hvt hraise
      have hway' : ∀ y ∈ x :: way, Relation.TransGen w.DependsOn y d.target := by
        intro y hy
        rcases List.mem_cons.1 hy with rfl | hy
        · exact .single ⟨d, hd, rfl⟩
        · exact (hway y hy).tail ⟨d, hd, rfl⟩
      have hraised := ih t d.target (x :: way) e hinvt (hclosed.named x hx d hd) hvt
        (fun y => by
          rw [hprogt, update_eq_true, hprog y, List.mem_cons])
        (List.nodup_cons.2 ⟨hnot, hnodup⟩)
        (fun y hy => (List.mem_cons.1 hy).elim (fun h => h ▸ hx) (hnamed y)) hway'
        (by rw [List.length_cons]; omega) hraise
      refine ⟨hraised, fun he => ?_⟩
      obtain ⟨v, -, hret⟩ := hraised.resolve_left he
      exact not_settles_of_returns hway' hret

/-! ## The run -/

/-- What a run that returns has done. -/
structure Runs (w : World) (enabled : Text → Bool) (names : List Text) (s s' : InitState) :
    Prop where
  invariant : w.Invariant enabled s'
  grows : Grows s s'
  explored : ∀ x ∈ names, w.Explored enabled s'.visited x
  settled : ∀ x ∈ names, w.Settles x

theorem runInitializers_runs (hclosed : w.Closed) {names : List Text}
    (hnamed : ∀ x ∈ names, x ∈ w.names) (hinv : w.Invariant enabled s)
    (h : w.runInitializers enabled depth s names = .ok s') : Runs w enabled names s s' := by
  induction names generalizing s with
  | nil =>
    cases h
    exact ⟨hinv, .refl _, by rintro x ⟨⟩, by rintro x ⟨⟩⟩
  | cons x rest ih =>
    have hrest : ∀ y ∈ rest, y ∈ w.names := fun y hy => hnamed y (List.mem_cons_of_mem _ hy)
    rw [runInitializers] at h
    by_cases hv : s.visited x = false
    · rw [if_pos hv] at h
      obtain ⟨found, hfound, hnext⟩ := Checked.bind_eq_ok.1 h
      cases found with
      | none => cases hnext
      | some t =>
        have hdone := visit_visits hclosed depth s x t hinv (hnamed x List.mem_cons_self) hv hfound
        have hrun := ih hrest hdone.invariant hnext
        refine ⟨hrun.invariant, hdone.grows.trans hrun.grows, fun y hy => ?_, fun y hy => ?_⟩
        · rcases List.mem_cons.1 hy with rfl | hy
          · exact hdone.explored.mono hrun.grows.visited
          · exact hrun.explored y hy
        · rcases List.mem_cons.1 hy with rfl | hy
          · exact hdone.settled
          · exact hrun.settled y hy
    · rw [if_neg hv] at h
      have hv' : s.visited x = true := by simpa using hv
      have hrun := ih hrest hinv h
      refine ⟨hrun.invariant, hrun.grows, fun y hy => ?_, fun y hy => ?_⟩
      · rcases List.mem_cons.1 hy with rfl | hy
        · exact .visited (hrun.grows.visited _ hv')
        · exact hrun.explored y hy
      · rcases List.mem_cons.1 hy with rfl | hy
        · exact hinv.settled _ hv'
        · exact hrun.settled y hy

theorem runInitializers_error (hclosed : w.Closed) (hdepth : w.names.length < depth) {e : Exn}
    {names : List Text} (done : List Text) (hnames : w.names = done ++ names)
    (hdone : ∀ x ∈ done, w.Settles x) (hinv : w.Invariant enabled s)
    (hprog : ∀ y, s.depsInProgress y = false)
    (h : w.runInitializers enabled depth s names = .error e) :
    e = .programError ∨ ∃ x, FirstWith (fun x => ¬w.Settles x) w.names x ∧
      ∃ v, w.isVirtual v = true ∧ Returns w.deps Dependency.target [] x v := by
  induction names generalizing s done with
  | nil => cases h
  | cons x rest ih =>
    have hx : x ∈ w.names := by
      rw [hnames]
      exact List.mem_append_right _ List.mem_cons_self
    have hnext : w.names = (done ++ [x]) ++ rest := by simpa using hnames
    have hdone' : w.Settles x → ∀ y ∈ done ++ [x], w.Settles y := by
      intro hset y hy
      rcases List.mem_append.1 hy with hy | hy
      · exact hdone y hy
      · obtain rfl := List.mem_singleton.1 hy
        exact hset
    rw [runInitializers] at h
    by_cases hv : s.visited x = false
    · rw [if_pos hv] at h
      cases hfound : w.visit enabled depth s x with
      | error e' =>
        rw [hfound] at h
        cases h
        refine (visit_error hclosed depth s x [] e hinv hx hv (fun y => by simp [hprog y])
          List.nodup_nil (by rintro y ⟨⟩) (by rintro y ⟨⟩) (by simpa using hdepth)
          hfound).imp_right ?_
        rintro ⟨v, hvirt, hret⟩
        exact ⟨x, ⟨done, rest, hnames, fun y hy => not_not.2 (hdone y hy),
          not_settles_of_returns (by rintro y ⟨⟩) hret⟩, v, hvirt, hret⟩
      | ok found =>
        rw [hfound, Checked.bind_ok] at h
        cases found with
        | none =>
          cases h
          exact .inl rfl
        | some t =>
          have hvisits := visit_visits hclosed depth s x t hinv hx hv hfound
          exact ih (done ++ [x]) hnext (hdone' hvisits.settled) hvisits.invariant
            (fun y => by rw [hvisits.grows.inProgress, hprog y]) h
    · rw [if_neg hv] at h
      exact ih (done ++ [x]) hnext (hdone' (hinv.settled _ (by simpa using hv))) hinv hprog h

/-! ## Virtual modules without a provider -/

/-- The virtual module `v` is enabled, and none of its providers is. -/
structure Unprovided (w : World) (enabled : Text → Bool) (v : Text) : Prop where
  virtual : w.isVirtual v = true
  allowed : enabled v = true
  providers : ∀ d ∈ w.deps v, enabled d.target = false

/-- The edges that lead to `v` first are optional at the end. -/
abbrev LeadsOptionally (w : World) (v x : Text) : Prop :=
  LeadsBy w.deps Dependency.target (fun d => d.optional = true) v x

theorem Unprovided.not_initialized (h : Unprovided w enabled v) (hinv : w.Invariant enabled s)
    (hv : s.visited v = true) : s.initialized v = false := by
  by_contra hi
  obtain ⟨d, hd, hen⟩ := (hinv.virtual v hv h.virtual).1 (by simpa using hi)
  rw [h.providers d hd] at hen
  cases hen

theorem visitDeps_leads (hclosed : w.Closed) (hun : Unprovided w enabled v)
    {vis : InitState → Text → Except Exn (Option InitState)}
    (hvis : ∀ s x s', w.Invariant enabled s → x ∈ w.names → s.visited x = false →
      vis s x = .ok (some s') → Visits w enabled s x s')
    (hleads : ∀ s x s', w.Invariant enabled s → x ∈ w.names → s.visited x = false → x ≠ v →
      s.visited v = false → s'.visited v = true → vis s x = .ok (some s') → w.LeadsOptionally v x)
    {deps : List Dependency} (hm : ∀ d ∈ deps, d ∈ w.deps m)
    (hnamed : ∀ d ∈ deps, d.target ∈ w.names) {one one' : Bool} (hinv : w.Invariant enabled s)
    (hv : s.visited v = false) (hv' : s'.visited v = true)
    (h : w.visitDeps vis m deps s one = .ok (some (s', one'))) :
    ∃ d, FirstWith (fun d => Reaches w.deps Dependency.target d.target v) deps d ∧
      (d.target = v → d.optional = true) ∧ (d.target ≠ v → w.LeadsOptionally v d.target) := by
  induction deps generalizing s one with
  | nil =>
    cases h
    rw [hv] at hv'
    cases hv'
  | cons dep rest ih =>
    have hmrest : ∀ d ∈ rest, d ∈ w.deps m := fun d hd => hm d (List.mem_cons_of_mem _ hd)
    have hrest : ∀ d ∈ rest, d.target ∈ w.names := fun d hd => hnamed d (List.mem_cons_of_mem _ hd)
    rw [visitDeps] at h
    by_cases hvt : s.visited dep.target = false
    · rw [if_pos hvt] at h
      obtain ⟨found, hfound, hnext⟩ := Checked.bind_eq_ok.1 h
      cases found with
      | none => cases hnext
      | some t =>
        have hdone := hvis s dep.target t hinv (hnamed dep List.mem_cons_self) hvt hfound
        dsimp only at hnext
        by_cases hr : Reaches w.deps Dependency.target dep.target v
        · have htv : t.visited v = true :=
            (hdone.invariant.explored_reaches hdone.explored hr).visited_of_enabled hun.allowed
          refine ⟨dep, firstWith_head hr, ?_, fun hne => hleads s dep.target t hinv
            (hnamed dep List.mem_cons_self) hvt hne hv htv hfound⟩
          rintro rfl
          -- the check for an unresolved dependency was passed
          split_ifs at hnext with hok
          rcases hok with hopt | hmv | hi
          · exact hopt
          · have hreg := hclosed.layered m hmv dep (hm dep List.mem_cons_self)
            rw [hun.virtual] at hreg
            cases hreg
          · rw [hun.not_initialized hdone.invariant htv] at hi
            cases hi
        · have htv : t.visited v = false := by
            by_contra hnot
            rcases hdone.reached v (by simpa using hnot) with hv'' | hr'
            · rw [hv] at hv''
              cases hv''
            · exact hr hr'
          split_ifs at hnext
          obtain ⟨d, hfirst, hd⟩ := ih hmrest hrest hdone.invariant htv hnext
          exact ⟨d, hfirst.cons hr, hd⟩
    · rw [if_neg hvt] at h
      obtain ⟨d, hfirst, hd⟩ := ih hmrest hrest hinv hv h
      refine ⟨d, hfirst.cons fun hr => ?_, hd⟩
      have := (hinv.explored_reaches (.visited (by simpa using hvt)) hr).visited_of_enabled
        hun.allowed
      rw [hv] at this
      cases this

theorem visited_finish {one : Bool} (h : (w.finish enabled s m one).visited x = true) :
    x = m ∨ s.visited x = true := by
  rw [finish] at h
  by_cases hen : enabled m = false
  · rw [if_pos hen] at h
    exact .inr h
  · rw [if_neg hen] at h
    by_cases hvirt : w.isVirtual m = true
    · rw [if_pos hvirt] at h
      exact update_eq_true.1 h
    · rw [if_neg hvirt] at h
      exact update_eq_true.1 h

theorem visit_leads (hclosed : w.Closed) (hun : Unprovided w enabled v) (depth : Nat) :
    ∀ (s : InitState) (x : Text) (s' : InitState), w.Invariant enabled s → x ∈ w.names →
      s.visited x = false → x ≠ v → s.visited v = false → s'.visited v = true →
      w.visit enabled depth s x = .ok (some s') → w.LeadsOptionally v x := by
  induction depth with
  | zero => rintro s x s' - - - - - - ⟨⟩
  | succ depth ih =>
    intro s x s' hinv hx hvx hne hv hv' h
    rw [visit] at h
    by_cases hprog : s.depsInProgress x = true
    · split_ifs at h
      cases h
    rw [if_neg hprog] at h
    obtain ⟨found, hfound, hnext⟩ := Checked.bind_eq_ok.1 h
    rcases found with _ | ⟨t, one⟩
    · cases hnext
    · cases hnext
      have htv : t.visited v = true := (visited_finish hv').resolve_left hne.symm
      obtain ⟨d, hfirst, hlast, hfurther⟩ := visitDeps_leads hclosed hun
        (visit_visits hclosed depth) ih (fun d hd => hd) (hclosed.named x hx)
        (hinv.inProgress (Function.update s.depsInProgress x true)) hv htv hfound
      by_cases hd : d.target = v
      · exact .here hfirst hd (hlast hd)
      · exact .further hfirst hd (hfurther hd)

theorem runInitializers_leads (hclosed : w.Closed) (hun : Unprovided w enabled v)
    {names : List Text} (hnamed : ∀ x ∈ names, x ∈ w.names) (hinv : w.Invariant enabled s)
    (hv : s.visited v = false) (hv' : s'.visited v = true)
    (h : w.runInitializers enabled depth s names = .ok s') :
    ∃ x, FirstWith (fun x => Reaches w.deps Dependency.target x v) names x ∧
      (x ≠ v → w.LeadsOptionally v x) := by
  induction names generalizing s with
  | nil =>
    cases h
    rw [hv] at hv'
    cases hv'
  | cons x rest ih =>
    have hrest : ∀ y ∈ rest, y ∈ w.names := fun y hy => hnamed y (List.mem_cons_of_mem _ hy)
    rw [runInitializers] at h
    by_cases hvx : s.visited x = false
    · rw [if_pos hvx] at h
      obtain ⟨found, hfound, hnext⟩ := Checked.bind_eq_ok.1 h
      cases found with
      | none => cases hnext
      | some t =>
        have hdone := visit_visits hclosed depth s x t hinv (hnamed x List.mem_cons_self) hvx hfound
        by_cases hr : Reaches w.deps Dependency.target x v
        · have htv : t.visited v = true :=
            (hdone.invariant.explored_reaches hdone.explored hr).visited_of_enabled hun.allowed
          exact ⟨x, firstWith_head hr, fun hne => visit_leads hclosed hun depth s x t hinv
            (hnamed x List.mem_cons_self) hvx hne hv htv hfound⟩
        · have htv : t.visited v = false := by
            by_contra hnot
            rcases hdone.reached v (by simpa using hnot) with hv'' | hr'
            · rw [hv] at hv''
              cases hv''
            · exact hr hr'
          obtain ⟨y, hfirst, hy⟩ := ih hrest hdone.invariant htv hnext
          exact ⟨y, hfirst.cons hr, hy⟩
    · rw [if_neg hvx] at h
      obtain ⟨y, hfirst, hy⟩ := ih hrest hinv hv h
      refine ⟨y, hfirst.cons fun hr => ?_, hy⟩
      have := (hinv.explored_reaches (.visited (by simpa using hvx)) hr).visited_of_enabled
        hun.allowed
      rw [hv] at this
      cases this

end World

end PolyORB
