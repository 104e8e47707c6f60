import PolyORB.Initialization.Modules
import PolyORB.Lib.Checked

/-!
# The dependencies that are assembled

What `Check_Conflicts` and `Resolve_Dependencies` make of the modules registered: the virtual modules
with their providers, and for each module the dependencies in the order in which they are visited.
-/

namespace PolyORB

open Character World

/-! ## What the modules registered say -/

namespace ModuleRegistry

variable (r : ModuleRegistry)

def names : List Text := r.modules.map ModuleInfo.name

def aliases : List (Text × Text) := r.modules.flatMap fun m => m.provides.map fun n => (m.name, n)

/-- A module of this name is registered or provided. -/
def Known (n : Text) : Prop := n ∈ r.names ∨ ∃ p ∈ r.aliases, provided p.2 = n

instance (n : Text) : Decidable (r.Known n) := inferInstanceAs (Decidable (_ ∨ _))

/-- The providers of a virtual module, the last one first. -/
def providerDeps (n : Text) : List Dependency :=
  ((r.aliases.filter fun p => provided p.2 = n).map fun p => (⟨p.1, false⟩ : Dependency)).reverse

def implicitDeps : List Dependency :=
  (r.modules.filter ModuleInfo.implicit).map fun m => ⟨m.name, true⟩

def addedBy (m : ModuleInfo) (name : Text) : List Dependency :=
  (if r.Known (dependency name).target then [dependency name] else []) ++
    if m.implicit = true then [] else r.implicitDeps

def depsOf (n : Text) : List Dependency :=
  (match r.modules.find? fun m => m.name == n with
    | some m => (m.depends.flatMap (r.addedBy m)).reverse
    | none => []) ++ r.providerDeps n

/-- `Check_Conflicts` passes over the conflict of `current` with `c`: there is no such module, or
`current` alone provides it, and once. -/
def Tolerates (current c : Text) : Prop :=
  c ∉ r.names ∧ (r.providerDeps c = [] ∨ r.providerDeps c = [⟨current, false⟩])

end ModuleRegistry

/-- The names that a module is in conflict with. -/
def ModuleInfo.ConflictsWith (m : ModuleInfo) (c : Text) : Prop :=
  c ∈ m.conflicts ∨ ∃ n ∈ m.provides, n.getLast? = some exclamationMark ∧ provided n = c

/-- The world that the two passes lead to. -/
structure Assembled (r : ModuleRegistry) (w : World) : Prop where
  registered : w.registered = r.modules
  nodup : w.names.Nodup
  known : ∀ n, n ∈ w.names ↔ r.Known n
  deps : ∀ n, w.deps n = r.depsOf n

/-- No module conflicts with another one, or with one that provides a virtual module. -/
def ConflictFree (r : ModuleRegistry) : Prop :=
  ∀ m ∈ r.modules, ∀ c, m.ConflictsWith c →
    ∀ x ∈ r.modules, x ≠ m → x.name ≠ c ∧ ∀ n ∈ x.provides, provided n ≠ c

/-- All conflicts are passed over: besides, no module is in conflict with itself. -/
def Tolerant (r : ModuleRegistry) : Prop :=
  ∀ m ∈ r.modules, ∀ c, m.ConflictsWith c → r.Tolerates m.name c

def Resolved (r : ModuleRegistry) : Prop :=
  ∀ m ∈ r.modules, ∀ n ∈ m.depends, (dependency n).optional = false → r.Known (dependency n).target

/-! ## Aliases -/

structure Aliased (r : ModuleRegistry) (done : List (Text × Text)) (w : World) : Prop where
  registered : w.registered = r.modules
  nodup : w.names.Nodup
  known : ∀ n, n ∈ w.names ↔ n ∈ r.names ∨ ∃ p ∈ done, provided p.2 = n
  deps : ∀ n, w.deps n =
    ((done.filter fun p => provided p.2 = n).map fun p => (⟨p.1, false⟩ : Dependency)).reverse
  conflicts : ∀ m ∈ r.modules, ∀ c, c ∈ m.conflicts ∨
    (∃ p ∈ done, p.1 = m.name ∧ p.2.getLast? = some exclamationMark ∧ provided p.2 = c) →
    c ∈ w.conflicts m.name

section Assembly

variable {r : ModuleRegistry} {w : World}

theorem ModuleRegistry.find?_name {m : ModuleInfo} (hm : m ∈ r.modules) :
    r.modules.find? (fun x => x.name == m.name) = some m := by
  cases hf : r.modules.find? fun x => x.name == m.name with
  | none =>
    have := List.find?_eq_none.1 hf m hm
    simp at this
  | some x =>
    have hx := List.mem_of_find?_eq_some hf
    have hname : x.name = m.name := by simpa using List.find?_some hf
    rw [List.inj_on_of_nodup_map r.nodup hx hm hname]

theorem mem_update_append {α β : Type} [DecidableEq α] (f : α → List β) (a b : α) (c d : β) :
    d ∈ Function.update f a (f a ++ [c]) b ↔ d ∈ f b ∨ b = a ∧ d = c := by
  by_cases hb : b = a
  · subst hb
    simp
  · simp [hb]

theorem aliased_ofRegistry (r : ModuleRegistry) : Aliased r [] (ofRegistry r) where
  registered := rfl
  nodup := by
    rw [World.names, ofRegistry, List.append_nil]
    exact r.nodup
  known := fun n => by simp [World.names, ofRegistry, ModuleRegistry.names]
  deps := fun _ => rfl
  conflicts := by
    rintro m hm c (hc | ⟨p, hp, -⟩)
    · rw [ofRegistry]
      dsimp only
      rw [ModuleRegistry.find?_name hm]
      exact hc
    · cases hp

theorem mem_names_ensureVirtual (w : World) (name n : Text) :
    n ∈ (w.ensureVirtual name).names ↔ n ∈ w.names ∨ n = name := by
  rw [ensureVirtual, lookupModule]
  by_cases h : name ∈ w.names
  · rw [if_pos (by simpa using h), iff_self_or]
    rintro rfl
    exact h
  · rw [if_neg (by simpa using h)]
    simp [World.names, or_assoc]

theorem nodup_ensureVirtual (h : w.names.Nodup) (name : Text) :
    (w.ensureVirtual name).names.Nodup := by
  rw [ensureVirtual, lookupModule]
  by_cases hn : name ∈ w.names
  · rwa [if_pos (by simpa using hn)]
  · rw [if_neg (by simpa using hn)]
    rw [World.names, ← List.append_assoc]
    exact List.nodup_append.2 ⟨h, List.nodup_singleton _, by
      rintro x hx y hy rfl
      exact hn (List.mem_singleton.1 hy ▸ hx)⟩

theorem ensureVirtual_registered (w : World) (name : Text) :
    (w.ensureVirtual name).registered = w.registered ∧
      (w.ensureVirtual name).deps = w.deps ∧ (w.ensureVirtual name).conflicts = w.conflicts := by
  rw [ensureVirtual]
  split_ifs <;> exact ⟨rfl, rfl, rfl⟩

theorem Aliased.registerAlias {done : List (Text × Text)} (h : Aliased r done w)
    (current : Text) {name : Text} (hne : name ≠ []) :
    ∃ w', w.registerAlias current name = .ok w' ∧ Aliased r (done ++ [(current, name)]) w' := by
  refine ⟨_, if_neg hne, ?_⟩
  set v : World := if name.getLast? = some exclamationMark then
      { w with
        conflicts := Function.update w.conflicts current (w.conflicts current ++ [provided name]) }
    else w with hv
  have hreg : v.registered = w.registered := by rw [hv]; split_ifs <;> rfl
  have hnames : v.names = w.names := by rw [hv]; split_ifs <;> rfl
  have hdeps : v.deps = w.deps := by rw [hv]; split_ifs <;> rfl
  have hconf : ∀ n c, c ∈ w.conflicts n ∨
      (name.getLast? = some exclamationMark ∧ n = current ∧ c = provided name) →
      c ∈ v.conflicts n := by
    intro n c hc
    rw [hv]
    split_ifs with hlast
    · exact (mem_update_append w.conflicts current n (provided name) c).2 (hc.imp_right And.right)
    · exact hc.elim id fun hh => absurd hh.1 hlast
  obtain ⟨hreg', hdeps', hconf'⟩ := ensureVirtual_registered v (provided name)
  refine ⟨hreg'.trans (hreg.trans h.registered), ?_, fun n => ?_, fun n => ?_, fun m hm c hc => ?_⟩
  · exact nodup_ensureVirtual (w := v) (by rw [hnames]; exact h.nodup) _
  · have hmem : n ∈ ((v.ensureVirtual (provided name)).prependDep (provided name)
        ⟨current, false⟩).names ↔ n ∈ v.names ∨ n = provided name :=
      mem_names_ensureVirtual v (provided name) n
    rw [hmem, hnames, h.known n]
    simp only [List.mem_append, List.mem_singleton, or_and_right, exists_or, exists_eq_left,
      or_assoc]
    rw [eq_comm (a := n)]
  · rw [prependDep]
    dsimp only
    rw [hdeps', hdeps]
    by_cases hn : n = provided name
    · subst hn
      rw [Function.update_self, h.deps, List.filter_append, List.map_append, List.reverse_append]
      simp
    · rw [Function.update_of_ne hn, h.deps, List.filter_append, List.map_append,
        List.reverse_append]
      simp [Ne.symm hn]
  · have hv' : c ∈ v.conflicts m.name := by
      rcases hc with hc | ⟨p, hp, hpm, hlast, hpc⟩
      · exact hconf m.name c (.inl (h.conflicts m hm c (.inl hc)))
      · rcases List.mem_append.1 hp with hp | hp
        · exact hconf m.name c (.inl (h.conflicts m hm c (.inr ⟨p, hp, hpm, hlast, hpc⟩)))
        · obtain rfl := List.mem_singleton.1 hp
          exact hconf m.name c (.inr ⟨hlast, hpm.symm, hpc.symm⟩)
    rw [prependDep, hconf']
    exact hv'

theorem Aliased.registerProvides {done : List (Text × Text)} (h : Aliased r done w)
    (current : Text) {provides : List Text} (hne : ∀ n ∈ provides, n ≠ []) :
    ∃ w', w.registerProvides current provides = .ok w' ∧
      Aliased r (done ++ provides.map fun n => (current, n)) w' := by
  induction provides generalizing w done with
  | nil => exact ⟨w, rfl, by simpa using h⟩
  | cons n rest ih =>
    obtain ⟨v, hv, ha⟩ := h.registerAlias current (hne n List.mem_cons_self)
    obtain ⟨w', hw', ha'⟩ := ih ha fun n hn => hne n (List.mem_cons_of_mem _ hn)
    refine ⟨w', ?_, by simpa using ha'⟩
    rw [World.registerProvides, hv, Checked.bind_ok, hw']

theorem Aliased.registerAliases {done : List (Text × Text)} (h : Aliased r done w)
    {ms : List ModuleInfo} (hne : ∀ m ∈ ms, [] ∉ m.provides) :
    ∃ w', w.registerAliases ms = .ok w' ∧
      Aliased r (done ++ ms.flatMap fun m => m.provides.map fun n => (m.name, n)) w' := by
  induction ms generalizing w done with
  | nil => exact ⟨w, rfl, by simpa using h⟩
  | cons m rest ih =>
    have hm : ∀ n ∈ m.provides, n ≠ [] := by
      rintro n hn rfl
      exact hne m List.mem_cons_self hn
    obtain ⟨v, hv, ha⟩ := h.registerProvides m.name hm
    obtain ⟨w', hw', ha'⟩ := ih ha fun m hm => hne m (List.mem_cons_of_mem _ hm)
    refine ⟨w', ?_, by simpa [List.append_assoc] using ha'⟩
    rw [World.registerAliases, hv, Checked.bind_ok, hw']

/-! ## Conflicts -/

theorem isVirtual_eq_true {n : Text} (hreg : w.registered = r.modules) :
    w.isVirtual n = true ↔ n ∉ r.names := by
  simp [isVirtual, hreg, ModuleRegistry.names]

theorem lookupModule_eq_false {n : Text} : w.lookupModule n = false ↔ n ∉ w.names := by
  simp [lookupModule]

theorem Aliased.checkConflict (h : Aliased r r.aliases w) (current name : Text) :
    w.checkConflict current name = .error .programError ∨
      w.checkConflict current name = .ok () ∧ r.Tolerates current name := by
  have hdeps : w.deps name = r.providerDeps name := h.deps name
  rw [World.checkConflict]
  by_cases hlook : w.lookupModule name = false
  · rw [if_pos hlook]
    have hnot := lookupModule_eq_false.1 hlook
    rw [h.known, not_or] at hnot
    refine .inr ⟨rfl, hnot.1, .inl ?_⟩
    rw [ModuleRegistry.providerDeps, List.reverse_eq_nil_iff, List.map_eq_nil_iff,
      List.filter_eq_nil_iff]
    exact fun p hp hpn => hnot.2 ⟨p, hp, by simpa using hpn⟩
  rw [if_neg hlook]
  by_cases hvirt : w.isVirtual name = true
  swap
  · exact .inl (if_neg hvirt)
  rw [if_pos hvirt, hdeps]
  rw [isVirtual_eq_true h.registered] at hvirt
  cases hprov : r.providerDeps name with
  | nil =>
    exfalso
    rw [lookupModule_eq_false, not_not, h.known] at hlook
    rcases hlook with hreg | ⟨p, hp, hpn⟩
    · exact hvirt hreg
    · rw [ModuleRegistry.providerDeps, List.reverse_eq_nil_iff, List.map_eq_nil_iff,
        List.filter_eq_nil_iff] at hprov
      exact hprov p hp (by simpa using hpn)
  | cons firstProvider others =>
    dsimp only
    by_cases honly : firstProvider.target = current ∧ others = []
    · rw [if_pos honly]
      refine .inr ⟨rfl, hvirt, .inr ?_⟩
      have hmem : firstProvider ∈ r.providerDeps name := hprov ▸ List.mem_cons_self
      rw [ModuleRegistry.providerDeps, List.mem_reverse] at hmem
      obtain ⟨p, -, rfl⟩ := List.mem_map.1 hmem
      obtain ⟨rfl, rfl⟩ := honly
      exact hprov
    · exact .inl (if_neg honly)

theorem Aliased.checkConflictsOf (h : Aliased r r.aliases w) (current : Text) (names : List Text) :
    w.checkConflictsOf current names = .error .programError ∨
      w.checkConflictsOf current names = .ok () ∧ ∀ c ∈ names, r.Tolerates current c := by
  induction names with
  | nil => exact .inr ⟨rfl, by rintro _ ⟨⟩⟩
  | cons name rest ih =>
    rw [World.checkConflictsOf]
    rcases h.checkConflict current name with herror | ⟨hok, hfree⟩
    · exact .inl (by rw [herror, Checked.bind_error])
    · rw [hok, Checked.bind_ok]
      refine ih.imp_right fun hrest => ⟨hrest.1, fun c hc => ?_⟩
      rcases List.mem_cons.1 hc with rfl | hc
      · exact hfree
      · exact hrest.2 c hc

theorem Aliased.checkAllConflicts (h : Aliased r r.aliases w) (ms : List ModuleInfo) :
    w.checkAllConflicts ms = .error .programError ∨
      w.checkAllConflicts ms = .ok () ∧
        ∀ m ∈ ms, ∀ c ∈ w.conflicts m.name, r.Tolerates m.name c := by
  induction ms with
  | nil => exact .inr ⟨rfl, by rintro _ ⟨⟩⟩
  | cons m rest ih =>
    rw [World.checkAllConflicts]
    rcases h.checkConflictsOf m.name (w.conflicts m.name) with herror | ⟨hok, hfree⟩
    · exact .inl (by rw [herror, Checked.bind_error])
    · rw [hok, Checked.bind_ok]
      refine ih.imp_right fun hrest => ⟨hrest.1, fun m' hm' => ?_⟩
      rcases List.mem_cons.1 hm' with rfl | hm'
      · exact hfree
      · exact hrest.2 m' hm'

theorem Tolerant.conflictFree (h : Tolerant r) : ConflictFree r := by
  intro m hm c hc x hx hxm
  obtain ⟨hnot, hprov⟩ := h m hm c hc
  refine ⟨?_, fun n hn hnc => hxm ?_⟩
  · rintro rfl
    exact hnot (List.mem_map_of_mem hx)
  · have hmem : (⟨x.name, false⟩ : Dependency) ∈ r.providerDeps c := by
      rw [ModuleRegistry.providerDeps, List.mem_reverse]
      refine List.mem_map.2 ⟨(x.name, n), List.mem_filter.2 ⟨?_, by simpa using hnc⟩, rfl⟩
      exact List.mem_flatMap.2 ⟨x, hx, List.mem_map_of_mem hn⟩
    rcases hprov with hprov | hprov <;> rw [hprov] at hmem
    · cases hmem
    · exact List.inj_on_of_nodup_map r.nodup hx hm
        (congrArg Dependency.target (List.mem_singleton.1 hmem))

theorem checkConflicts_aliased (hne : ∀ m ∈ r.modules, [] ∉ m.provides) :
    (ofRegistry r).checkConflicts = .error .programError ∨
      ∃ w, (ofRegistry r).checkConflicts = .ok w ∧ Aliased r r.aliases w ∧ Tolerant r := by
  obtain ⟨w, hw, ha⟩ := (aliased_ofRegistry r).registerAliases hne
  have hw' : (ofRegistry r).registerAliases (ofRegistry r).registered = .ok w := hw
  rw [checkConflicts, hw', Checked.bind_ok]
  rcases ha.checkAllConflicts w.registered with herror | ⟨hok, hfree⟩
  · exact .inl (by rw [herror, Checked.bind_error])
  · rw [hok, Checked.bind_ok]
    refine .inr ⟨w, rfl, ha, fun m hm c hc => ?_⟩
    refine hfree m (by rwa [ha.registered]) c (ha.conflicts m hm c (hc.imp_right ?_))
    rintro ⟨n, hn, hlast, hnc⟩
    exact ⟨(m.name, n), List.mem_flatMap.2 ⟨m, hm, List.mem_map_of_mem hn⟩, rfl, hlast, hnc⟩

/-! ## Dependencies -/

theorem prependDeps_eq (w : World) (current : Text) (deps : List Dependency) :
    w.prependDeps current deps =
      { w with deps := Function.update w.deps current (deps.reverse ++ w.deps current) } := by
  induction deps generalizing w with
  | nil => simp [prependDeps]
  | cons dep rest ih =>
    rw [prependDeps, ih]
    simp [prependDep]

/-- The same modules, and other dependencies. -/
def World.withDeps (w : World) (deps : Text → List Dependency) : World := { w with deps := deps }

theorem resolveDependency_eq (hreg : w.registered = r.modules)
    (hknown : ∀ n, n ∈ w.names ↔ r.Known n) (m : ModuleInfo) (name : Text) :
    w.resolveDependency m name =
      if r.Known (dependency name).target ∨ (dependency name).optional = true then
        .ok (w.withDeps (Function.update w.deps m.name
          ((r.addedBy m name).reverse ++ w.deps m.name)))
      else .error .programError := by
  have himplicit : ∀ deps, (w.withDeps deps).implicitDeps = r.implicitDeps := fun deps => by
    rw [World.implicitDeps, World.withDeps, hreg, ModuleRegistry.implicitDeps]
  have himplicit' : w.implicitDeps = r.implicitDeps := himplicit w.deps
  rw [resolveDependency, ModuleRegistry.addedBy]
  dsimp only
  by_cases hk : r.Known (dependency name).target
  · have hlook : w.lookupModule (dependency name).target = true := by
      rw [← Bool.not_eq_false, lookupModule_eq_false, not_not, hknown]
      exact hk
    have hor : r.Known (dependency name).target ∨ (dependency name).optional = true := .inl hk
    rw [if_pos hlook, Checked.bind_ok, if_pos hor, if_pos hk]
    have hprep : (w.prependDep m.name (dependency name)).implicitDeps = r.implicitDeps :=
      himplicit _
    cases m.implicit with
    | true => simp [prependDep, World.withDeps]
    | false =>
      rw [hprep, prependDeps_eq]
      simp [prependDep, World.withDeps]
  · have hlook : ¬w.lookupModule (dependency name).target = true := by
      rw [Bool.not_eq_true, lookupModule_eq_false, hknown]
      exact hk
    rw [if_neg hlook, if_neg hk]
    by_cases hopt : (dependency name).optional = false
    · rw [if_pos hopt, Checked.bind_error, if_neg (by simp [hk, hopt])]
    · have hor : r.Known (dependency name).target ∨ (dependency name).optional = true :=
        .inr (by simpa using hopt)
      rw [if_neg hopt, Checked.bind_ok, if_pos hor]
      cases m.implicit with
      | true => simp [World.withDeps]
      | false =>
        rw [himplicit', prependDeps_eq]
        simp [World.withDeps]

theorem resolveDepends_spec (hreg : w.registered = r.modules)
    (hknown : ∀ n, n ∈ w.names ↔ r.Known n) (m : ModuleInfo) (names : List Text) :
    w.resolveDepends m names = .error .programError ∨
      w.resolveDepends m names = .ok (w.withDeps (Function.update w.deps m.name
          ((names.flatMap (r.addedBy m)).reverse ++ w.deps m.name))) ∧
        ∀ n ∈ names, (dependency n).optional = false → r.Known (dependency n).target := by
  induction names generalizing w with
  | nil =>
    refine .inr ⟨?_, by rintro _ ⟨⟩⟩
    simp [resolveDepends, World.withDeps]
  | cons name rest ih =>
    rw [resolveDepends, resolveDependency_eq hreg hknown]
    by_cases hk : r.Known (dependency name).target ∨ (dependency name).optional = true
    swap
    · exact .inl (by rw [if_neg hk, Checked.bind_error])
    rw [if_pos hk, Checked.bind_ok]
    have hrest := ih (w := w.withDeps (Function.update w.deps m.name
      ((r.addedBy m name).reverse ++ w.deps m.name))) hreg hknown
    refine hrest.imp_right fun ⟨hok, hall⟩ => ⟨?_, ?_⟩
    · rw [hok]
      simp [World.withDeps]
    · intro n hn hopt
      rcases List.mem_cons.1 hn with rfl | hn
      · exact hk.resolve_right (by simp [hopt])
      · exact hall n hn hopt

theorem resolveAll_spec (hreg : w.registered = r.modules)
    (hknown : ∀ n, n ∈ w.names ↔ r.Known n) {ms : List ModuleInfo}
    (hnodup : (ms.map ModuleInfo.name).Nodup) :
    w.resolveAll ms = .error .programError ∨
      w.resolveAll ms = .ok (w.withDeps fun n =>
          (match ms.find? fun m => m.name == n with
            | some m => (m.depends.flatMap (r.addedBy m)).reverse
            | none => []) ++ w.deps n) ∧
        ∀ m ∈ ms, ∀ n ∈ m.depends, (dependency n).optional = false →
          r.Known (dependency n).target := by
  induction ms generalizing w with
  | nil => exact .inr ⟨rfl, by rintro _ ⟨⟩⟩
  | cons m rest ih =>
    rw [List.map_cons, List.nodup_cons] at hnodup
    rw [resolveAll]
    rcases resolveDepends_spec hreg hknown m m.depends with herror | ⟨hok, hall⟩
    · exact .inl (by rw [herror, Checked.bind_error])
    · rw [hok, Checked.bind_ok]
      have hrest := ih (w := w.withDeps (Function.update w.deps m.name
        ((m.depends.flatMap (r.addedBy m)).reverse ++ w.deps m.name))) hreg hknown hnodup.2
      refine hrest.imp_right fun ⟨hok', hall'⟩ => ⟨?_, ?_⟩
      · rw [hok']
        simp only [World.withDeps]
        congr 2
        funext n
        by_cases hn : m.name = n
        · subst hn
          have hnone : rest.find? (fun x => x.name == m.name) = none := by
            rw [List.find?_eq_none]
            intro x hx heq
            exact hnodup.1 (List.mem_map.2 ⟨x, hx, by simpa using heq⟩)
          rw [hnone, List.find?_cons_of_pos (by simp), Function.update_self, List.nil_append]
        · rw [List.find?_cons_of_neg (by simpa using hn), Function.update_of_ne (Ne.symm hn)]
      · intro m' hm'
        rcases List.mem_cons.1 hm' with rfl | hm'
        · exact hall
        · exact hall' m' hm'

theorem assemble_spec (hne : ∀ m ∈ r.modules, [] ∉ m.provides) :
    ((ofRegistry r).checkConflicts >>= resolveDependencies) = .error .programError ∨
      ∃ w, ((ofRegistry r).checkConflicts >>= resolveDependencies) = .ok w ∧ Assembled r w ∧
        Tolerant r ∧ Resolved r := by
  rcases checkConflicts_aliased hne with herror | ⟨w, hw, ha, hfree⟩
  · exact .inl (by rw [herror, Checked.bind_error])
  · rw [hw, Checked.bind_ok, resolveDependencies, ha.registered]
    rcases resolveAll_spec ha.registered ha.known r.nodup with herror | ⟨hok, hall⟩
    · exact .inl herror
    · refine .inr ⟨_, hok, ⟨ha.registered, ha.nodup, ha.known, fun n => ?_⟩, hfree, hall⟩
      rw [World.withDeps, ModuleRegistry.depsOf, ModuleRegistry.providerDeps, ← ha.deps]

end Assembly

end PolyORB
