import PolyORB.Initialization.Assembly
import PolyORB.Initialization.Run

/-!
# The order of initialization

When the modules are initialized in the order of their dependencies, and when the initialization
fails as it should.
-/

namespace PolyORB

open Walks World

/-! ## What the modules ask for -/

/-- `m` names `x`, or something that `x` provides, or `x` is an implicit dependency. -/
inductive ModuleInfo.DependsOn (m x : ModuleInfo) : Prop where
  | named {n} : n ∈ m.depends → (dependency n).target = x.name → DependsOn m x
  | provided {n p} : n ∈ m.depends → p ∈ x.provides → provided p = (dependency n).target →
      DependsOn m x
  | implicit : m.implicit = false → x.implicit = true → DependsOn m x

/-- The dependencies between the modules that are registered. -/
def ModuleRegistry.DependsOn (r : ModuleRegistry) (a b : ModuleInfo) : Prop :=
  b ∈ r.modules ∧ a.DependsOn b

/-- `a` stands before `b`. -/
def Precedes (order : List Text) (a b : Text) : Prop :=
  ∃ earlier later, order = earlier ++ b :: later ∧ a ∈ earlier

def ModuleRegistry.hasShutdown (r : ModuleRegistry) (name : Text) : Bool :=
  r.modules.any fun m => m.name == name && m.shutdown

/-- The modules that are enabled are initialized once, in the order of their dependencies, and
there was nothing to be refused. -/
structure Ordered (r : ModuleRegistry) (enabled : Text → Bool) (s : InitState) : Prop where
  once : ∀ m ∈ r.modules, enabled m.name = true → s.order.count m.name = 1
  allowed : ∀ x ∈ s.order, x ∈ r.names ∧ enabled x = true
  before : ∀ m ∈ r.modules, ∀ x ∈ r.modules, enabled m.name = true → enabled x.name = true →
    m.DependsOn x → Precedes s.order x.name m.name
  satisfied : ∀ m ∈ r.modules, enabled m.name = true → ∀ n ∈ m.depends,
    (dependency n).optional = false → ∃ x ∈ r.modules, x.name ∈ s.order ∧
      (x.name = (dependency n).target ∨ ∃ p ∈ x.provides, provided p = (dependency n).target)
  acyclic : ∀ m ∈ r.modules,
    ¬Relation.TransGen r.DependsOn m m
  resolved : Resolved r
  conflictFree : ConflictFree r

/-- The world is initialized in order, and shut down in the reverse order; or the error is
`Program_Error`. -/
def InitializedInOrder (r : ModuleRegistry) (enabled : Text → Bool) : Except Exn InitState → Prop
  | .ok s => Ordered r enabled s ∧
      r.shutdownWorld s = .ok (s.order.filter r.hasShutdown).reverse
  | .error e => e = .programError

/-- Modules without a dependency of their own need no implicit ones: none that is enabled when they
are, and none that depends on them in turn.  The first cycle that is met is entered at a registered
module, and no virtual module without an enabled provider is needed by an enabled module and met by
way of an optional dependency first. -/
structure Searchable (r : ModuleRegistry) (enabled : Text → Bool) : Prop where
  implicit : ∀ m ∈ r.modules, m.implicit = false → m.depends = [] →
    ∀ x ∈ r.modules, x.implicit = true →
      ¬(enabled m.name = true ∧ enabled x.name = true) ∧ ¬Relation.TransGen r.DependsOn x m
  entered : ∀ x, FirstWith (fun x => ¬Grounded r.depsOf Dependency.target x) r.names x →
    ∀ v, Returns r.depsOf Dependency.target [] x v → v ∈ r.names
  needed : ∀ v ∉ r.names, enabled v = true →
    (∀ p ∈ r.aliases, provided p.2 = v → enabled p.1 = false) →
    (∃ m ∈ r.modules, enabled m.name = true ∧ ∃ n ∈ m.depends, dependency n = ⟨v, false⟩) →
    ∀ x, FirstWith (fun x => Reaches r.depsOf Dependency.target x v) r.names x →
      ¬LeadsBy r.depsOf Dependency.target (fun d => d.optional = true) v x

/-- Some module is registered and none provides the empty name; and where no conflict and no missing
module stops the initialization before the search, the modules can be searched. -/
structure Regular (r : ModuleRegistry) (enabled : Text → Bool) : Prop where
  nonempty : r.modules ≠ []
  named : ∀ m ∈ r.modules, [] ∉ m.provides
  searchable : Tolerant r → Resolved r → Searchable r enabled

/-! ## The dependencies of the modules registered -/

section Order

variable {r : ModuleRegistry} {w : World} {enabled : Text → Bool} {s : InitState} {m x : ModuleInfo}
  {n : Text} {d : Dependency}

theorem ModuleRegistry.mem_aliases {p : Text × Text} :
    p ∈ r.aliases ↔ ∃ m ∈ r.modules, m.name = p.1 ∧ p.2 ∈ m.provides := by
  rw [ModuleRegistry.aliases, List.mem_flatMap]
  refine exists_congr fun m => and_congr_right fun _ => ?_
  rw [List.mem_map]
  constructor
  · rintro ⟨n, hn, rfl⟩
    exact ⟨rfl, hn⟩
  · rintro ⟨hname, hn⟩
    exact ⟨p.2, hn, by rw [hname]⟩

theorem ModuleRegistry.mem_providerDeps :
    d ∈ r.providerDeps n ↔ d.optional = false ∧
      ∃ m ∈ r.modules, m.name = d.target ∧ ∃ p ∈ m.provides, provided p = n := by
  rw [ModuleRegistry.providerDeps, List.mem_reverse, List.mem_map]
  constructor
  · rintro ⟨p, hp, rfl⟩
    obtain ⟨hp, hpn⟩ := List.mem_filter.1 hp
    obtain ⟨m, hm, hname, hprov⟩ := ModuleRegistry.mem_aliases.1 hp
    exact ⟨rfl, m, hm, hname, p.2, hprov, by simpa using hpn⟩
  · rintro ⟨hopt, m, hm, hname, p, hp, hpn⟩
    refine ⟨(m.name, p), List.mem_filter.2 ⟨ModuleRegistry.mem_aliases.2 ⟨m, hm, rfl, hp⟩, by
      simpa using hpn⟩, ?_⟩
    obtain ⟨target, optional⟩ := d
    simp_all

theorem ModuleRegistry.mem_implicitDeps :
    d ∈ r.implicitDeps ↔
      d.optional = true ∧ ∃ x ∈ r.modules, x.implicit = true ∧ x.name = d.target := by
  rw [ModuleRegistry.implicitDeps, List.mem_map]
  constructor
  · rintro ⟨x, hx, rfl⟩
    obtain ⟨hx, himp⟩ := List.mem_filter.1 hx
    exact ⟨rfl, x, hx, himp, rfl⟩
  · rintro ⟨hopt, x, hx, himp, hname⟩
    refine ⟨x, List.mem_filter.2 ⟨hx, himp⟩, ?_⟩
    obtain ⟨target, optional⟩ := d
    simp_all

theorem ModuleRegistry.mem_names : n ∈ r.names ↔ ∃ m ∈ r.modules, m.name = n := List.mem_map

theorem ModuleRegistry.depsOf_virtual (hn : n ∉ r.names) : r.depsOf n = r.providerDeps n := by
  have hnone : r.modules.find? (fun m => m.name == n) = none := by
    rw [List.find?_eq_none]
    intro m hm heq
    exact hn (ModuleRegistry.mem_names.2 ⟨m, hm, by simpa using heq⟩)
  rw [ModuleRegistry.depsOf, hnone, List.nil_append]

theorem ModuleRegistry.mem_depsOf (hm : m ∈ r.modules) :
    d ∈ r.depsOf m.name ↔
      (∃ k ∈ m.depends, d ∈ r.addedBy m k) ∨ d ∈ r.providerDeps m.name := by
  rw [ModuleRegistry.depsOf, ModuleRegistry.find?_name hm, List.mem_append, List.mem_reverse,
    List.mem_flatMap]

theorem ModuleRegistry.mem_addedBy {k : Text} :
    d ∈ r.addedBy m k ↔ (r.Known (dependency k).target ∧ d = dependency k) ∨
      m.implicit = false ∧ d ∈ r.implicitDeps := by
  rw [ModuleRegistry.addedBy, List.mem_append]
  refine or_congr ?_ ?_
  · split_ifs with hk
    · simp [hk]
    · simp [hk]
  · cases m.implicit <;> simp

theorem Assembled.isVirtual_eq_false (h : Assembled r w) : w.isVirtual n = false ↔ n ∈ r.names := by
  rw [← not_iff_not, Bool.not_eq_false, isVirtual_eq_true h.registered]

theorem Assembled.closed (h : Assembled r w) : w.Closed := by
  have hreg : ∀ n, n ∈ r.names → n ∈ w.names := fun n hn => (h.known n).2 (.inl hn)
  have hprov : ∀ n d, d ∈ r.providerDeps n → d.target ∈ r.names := by
    intro n d hd
    obtain ⟨-, m, hm, hname, -⟩ := ModuleRegistry.mem_providerDeps.1 hd
    exact ModuleRegistry.mem_names.2 ⟨m, hm, hname⟩
  refine ⟨fun x _ d hd => ?_, fun x hx d hd => ?_⟩
  · rw [h.deps] at hd
    by_cases hx : x ∈ r.names
    · obtain ⟨m, hm, rfl⟩ := ModuleRegistry.mem_names.1 hx
      rcases (ModuleRegistry.mem_depsOf hm).1 hd with ⟨k, -, hk⟩ | hd
      · rcases ModuleRegistry.mem_addedBy.1 hk with ⟨hknown, rfl⟩ | ⟨-, himp⟩
        · exact (h.known _).2 hknown
        · obtain ⟨-, y, hy, -, hname⟩ := ModuleRegistry.mem_implicitDeps.1 himp
          exact hreg _ (ModuleRegistry.mem_names.2 ⟨y, hy, hname⟩)
      · exact hreg _ (hprov _ d hd)
    · rw [ModuleRegistry.depsOf_virtual hx] at hd
      exact hreg _ (hprov x d hd)
  · rw [isVirtual_eq_true h.registered] at hx
    rw [h.deps, ModuleRegistry.depsOf_virtual hx] at hd
    exact h.isVirtual_eq_false.2 (hprov x d hd)

/-- A dependency is searched, but for an implicit one of a module that names none. -/
theorem Assembled.before (h : Assembled r w) (hm : m ∈ r.modules) (hx : x ∈ r.modules)
    (hdep : m.DependsOn x)
    (hlist : m.implicit = false → x.implicit = true → m.depends ≠ []) : w.Before m.name x.name := by
  have hknown : r.Known x.name := .inl (ModuleRegistry.mem_names.2 ⟨x, hx, rfl⟩)
  cases hdep with
  | @named k hk htarget =>
    refine .inl ⟨dependency k, ?_, htarget⟩
    rw [h.deps, ModuleRegistry.mem_depsOf hm]
    exact .inl ⟨k, hk, ModuleRegistry.mem_addedBy.2 (.inl ⟨htarget ▸ hknown, rfl⟩)⟩
  | @provided k p hk hp htarget =>
    refine .inr ⟨(dependency k).target, ⟨dependency k, ?_, rfl⟩, ⟨x.name, false⟩, ?_, rfl⟩
    · rw [h.deps, ModuleRegistry.mem_depsOf hm]
      refine .inl ⟨k, hk, ModuleRegistry.mem_addedBy.2 (.inl ⟨.inr ⟨(x.name, p), ?_, htarget⟩, rfl⟩)⟩
      exact ModuleRegistry.mem_aliases.2 ⟨x, hx, rfl, hp⟩
    · rw [h.deps, ModuleRegistry.depsOf, List.mem_append]
      exact .inr (ModuleRegistry.mem_providerDeps.2 ⟨rfl, x, hx, rfl, p, hp, htarget⟩)
  | implicit himp himpx =>
    obtain ⟨k, hk⟩ := List.exists_mem_of_ne_nil _ (hlist himp himpx)
    refine .inl ⟨⟨x.name, true⟩, ?_, rfl⟩
    rw [h.deps, ModuleRegistry.mem_depsOf hm]
    exact .inl ⟨k, hk, ModuleRegistry.mem_addedBy.2 (.inr ⟨himp, ModuleRegistry.mem_implicitDeps.2
      ⟨rfl, x, hx, himpx, rfl⟩⟩)⟩

theorem before_transGen {a b : Text} (h : w.Before a b) : Relation.TransGen w.DependsOn a b := by
  rcases h with h | ⟨v, hav, hvb⟩
  · exact .single h
  · exact .tail (.single hav) hvb

/-- Each step of a walk that returns is one from which the walk returns. -/
theorem transGen_returning {α : Type} {R : α → α → Prop} {a b : α} (h : Relation.TransGen R a b)
    (hback : Relation.ReflTransGen R b a) :
    Relation.TransGen (fun x y => R x y ∧ Relation.ReflTransGen R y x) a b := by
  induction h with
  | single hab => exact .single ⟨hab, hback⟩
  | @tail b c hab hbc ih =>
    exact (ih (hback.head hbc)).tail ⟨hbc, hback.trans hab.to_reflTransGen⟩

theorem Assembled.not_cycle (h : Assembled r w) (hs : Searchable r enabled) (hm : m ∈ r.modules)
    (hcycle : Relation.TransGen r.DependsOn m m) :
    Relation.TransGen w.DependsOn m.name m.name := by
  have hstep : ∀ {a b : ModuleInfo}, a ∈ r.modules → r.DependsOn a b →
      Relation.ReflTransGen r.DependsOn b a → Relation.TransGen w.DependsOn a.name b.name := by
    intro a b ha hab hback
    refine before_transGen (h.before ha hab.1 hab.2 fun himp himpb hnil => ?_)
    rcases Relation.reflTransGen_iff_eq_or_transGen.mp hback with rfl | hback
    · rw [himp] at himpb
      cases himpb
    · exact (hs.implicit a ha himp hnil b hab.1 himpb).2 hback
  have hwalk : ∀ {x : ModuleInfo}, Relation.TransGen
      (fun x y => r.DependsOn x y ∧ Relation.ReflTransGen r.DependsOn y x) m x →
      x ∈ r.modules ∧ Relation.TransGen w.DependsOn m.name x.name := by
    intro x hx
    induction hx with
    | single hab => exact ⟨hab.1.1, hstep hm hab.1 hab.2⟩
    | tail _ hab ih => exact ⟨hab.1.1, ih.2.trans (hstep ih.1 hab.1 hab.2)⟩
  exact (hwalk (transGen_returning hcycle .refl)).2

theorem Assembled.names (h : Assembled r w) : w.names = r.names ++ w.virtual := by
  rw [World.names, h.registered, ModuleRegistry.names]

/-! ## The run -/

theorem Assembled.ordered (h : Assembled r w) (hs : Searchable r enabled) (hfree : ConflictFree r)
    (hres : Resolved r) {depth : Nat}
    (hrun : w.runInitializers enabled depth .initial w.names = .ok s) :
    Ordered r enabled s ∧ s.shutdownOrder = (s.order.filter w.hasShutdown).reverse := by
  have hclosed := h.closed
  have hruns := runInitializers_runs hclosed (fun x hx => hx) invariant_initial hrun
  have hinv := hruns.invariant
  have hnamed : ∀ m ∈ r.modules, m.name ∈ w.names := fun m hm =>
    (h.known _).2 (.inl (ModuleRegistry.mem_names.2 ⟨m, hm, rfl⟩))
  have hregistered : ∀ m ∈ r.modules, w.isVirtual m.name = false := fun m hm =>
    h.isVirtual_eq_false.2 (ModuleRegistry.mem_names.2 ⟨m, hm, rfl⟩)
  have horder : ∀ m ∈ r.modules, enabled m.name = true → m.name ∈ s.order := fun m hm hen =>
    (hinv.mem_order _).2 ⟨(hruns.explored _ (hnamed m hm)).visited_of_enabled hen, hregistered m hm⟩
  refine ⟨⟨fun m hm hen => ?_, fun x hx => ?_, fun m hm x hx hen henx hdep => ?_,
    fun m hm hen n hn hopt => ?_, fun m hm hcycle => ?_, hres, hfree⟩, hinv.shutdown⟩
  · exact List.count_eq_one_of_mem hinv.nodup (horder m hm hen)
  · obtain ⟨hv, hx'⟩ := (hinv.mem_order x).1 hx
    exact ⟨h.isVirtual_eq_false.1 hx', hinv.allowed x hv⟩
  · obtain ⟨earlier, later, heq⟩ := List.append_of_mem (horder m hm hen)
    exact ⟨earlier, later, heq, hinv.before earlier m.name later heq x.name
      (h.before hm hx hdep fun himp himpx hnil =>
        (hs.implicit m hm himp hnil x hx himpx).1 ⟨hen, henx⟩) henx (hregistered x hx)⟩
  · have hknown := hres m hm n hn hopt
    have hmem : dependency n ∈ w.deps m.name := by
      rw [h.deps, ModuleRegistry.mem_depsOf hm]
      exact .inl ⟨n, hn, ModuleRegistry.mem_addedBy.2 (.inl ⟨hknown, rfl⟩)⟩
    have hv := hinv.needed m.name (horder m hm hen) _ hmem hopt
    by_cases hname : (dependency n).target ∈ r.names
    · obtain ⟨x, hx, hxn⟩ := ModuleRegistry.mem_names.1 hname
      exact ⟨x, hx, (hinv.mem_order _).2 ⟨hxn ▸ hv, hregistered x hx⟩, .inl hxn⟩
    · have hvirt : w.isVirtual (dependency n).target = true :=
        (isVirtual_eq_true h.registered).2 hname
      have hprov : ∀ d, d ∈ w.deps (dependency n).target ↔
          d ∈ r.providerDeps (dependency n).target := fun d => by
        rw [h.deps, ModuleRegistry.depsOf_virtual hname]
      by_cases hsome : ∃ d ∈ w.deps (dependency n).target, enabled d.target = true
      · obtain ⟨d, hd, hen'⟩ := hsome
        obtain ⟨-, x, hx, hxn, hp⟩ := ModuleRegistry.mem_providerDeps.1 ((hprov d).1 hd)
        exact ⟨x, hx, horder x hx (by rwa [hxn]), .inr hp⟩
      · -- the virtual module was met first by way of an optional dependency
        exfalso
        have hun : Unprovided w enabled (dependency n).target :=
          ⟨hvirt, hinv.allowed _ hv, fun d hd => by
            by_contra hd'
            exact hsome ⟨d, hd, by simpa using hd'⟩⟩
        obtain ⟨x, hfirst, hleads⟩ := runInitializers_leads hclosed hun (fun x hx => hx)
          invariant_initial rfl hv hrun
        have hfirst' := (h.names ▸ hfirst).of_append ⟨m.name, ModuleRegistry.mem_names.2 ⟨m, hm, rfl⟩,
          .single ⟨_, hmem, rfl⟩⟩
        have hne : x ≠ (dependency n).target := by
          rintro rfl
          exact hname hfirst'.mem
        have hdeps : w.deps = r.depsOf := funext h.deps
        refine hs.needed _ hname (hinv.allowed _ hv) (fun p hp hpn => ?_)
          ⟨m, hm, hen, n, hn, ?_⟩ x (hdeps ▸ hfirst') (hdeps ▸ hleads hne)
        · obtain ⟨x, hx, hxn, hpx⟩ := ModuleRegistry.mem_aliases.1 hp
          have hd := hun.providers ⟨p.1, false⟩
            ((hprov _).2 (ModuleRegistry.mem_providerDeps.2 ⟨rfl, x, hx, hxn, p.2, hpx, hpn⟩))
          exact hd
        · rw [← hopt]
  · exact (hruns.settled _ (hnamed m hm)).not_cycle (h.not_cycle hs hm hcycle)

theorem Assembled.firstWith_registered (h : Assembled r w) {x : Text}
    (hfirst : FirstWith (fun x => ¬w.Settles x) w.names x) :
    FirstWith (fun x => ¬w.Settles x) r.names x := by
  refine (h.names ▸ hfirst).of_append ?_
  by_cases hx : x ∈ r.names
  · exact ⟨x, hx, hfirst.holds⟩
  · have hnot : ¬∀ d ∈ w.deps x, w.Settles d.target :=
      fun hall => hfirst.holds (grounded_iff.2 hall)
    push Not at hnot
    obtain ⟨d, hd, hset⟩ := hnot
    refine ⟨d.target, ?_, hset⟩
    exact h.isVirtual_eq_false.1
      (h.closed.layered x ((isVirtual_eq_true h.registered).2 hx) d hd)

/-- What a run raises is `Program_Error`. -/
theorem Assembled.programError (h : Assembled r w) (hs : Searchable r enabled) {e : Exn}
    (hrun : w.runInitializers enabled (w.names.length + 1) .initial w.names = .error e) :
    e = .programError := by
  refine (runInitializers_error h.closed (Nat.lt_succ_self _) [] rfl (by rintro x ⟨⟩)
    invariant_initial (fun _ => rfl) hrun).resolve_right ?_
  rintro ⟨x, hfirst, v, hvirt, hret⟩
  have hdeps : w.deps = r.depsOf := funext h.deps
  have hv := hs.entered x (hdeps ▸ h.firstWith_registered hfirst) v (hdeps ▸ hret)
  exact (isVirtual_eq_true h.registered).1 hvirt hv

end Order

/-- A module, and an implicit one that it does not name. -/
def twoModules (depends : List Text) : ModuleRegistry :=
  ⟨[⟨[65], [], depends, [], false, true⟩, ⟨[73], [], [], [], true, true⟩], by
    simp⟩

end PolyORB
