import PolyORB.Gnatdist.Acceptance
import PolyORB.Gnatdist.Closure

/-!
# The tasking of a partition

The marks of the units are overwritten when another partition is visited, which only makes units be
visited again: what has been seen for a partition covers its marks at any time.
-/

namespace PolyORB.Gnatdist

/-! ### The units of the files -/

namespace LoadedUnits

/-- The file is named like no loaded unit, but for the unit whose file it is. -/
def Apart (l : LoadedUnits) (f : NameId) : Prop := ∀ a ∈ l.alis, f = a.uname → f = a.afile

instance (l : LoadedUnits) (f : NameId) : Decidable (l.Apart f) :=
  inferInstanceAs (Decidable (∀ a ∈ l.alis, f = a.uname → f = a.afile))

/-- The spec or the body of `a` withs `b`. -/
def With (l : LoadedUnits) (a b : AliRecord) : Prop := b ∈ l.alis ∧ b.afile ∈ a.withedFiles

variable {l : LoadedUnits} {a b : AliRecord} {f : NameId}

theorem afile_inj (ha : a ∈ l.alis) (hb : b ∈ l.alis) (h : a.afile = b.afile) : a = b :=
  List.inj_on_of_nodup_map l.files_nodup ha hb h

theorem aliOfFile_eq_some (h : l.Apart f) :
    l.aliOfFile f = some a ↔ a ∈ l.alis ∧ a.afile = f := by
  unfold aliOfFile
  cases hname : l.alis.find? fun a => a.uname = f with
  | some b =>
    -- The unit of that name has the file itself.
    have hb := List.mem_of_find?_eq_some hname
    have hf : f = b.afile := h b hb (by simpa [eq_comm] using List.find?_some hname)
    rw [Option.some_or, Option.some.injEq]
    refine ⟨fun he => he ▸ ⟨hb, hf.symm⟩, ?_⟩
    rintro ⟨ha, he⟩
    exact afile_inj hb ha (hf.symm.trans he.symm)
  | none =>
    rw [Option.none_or]
    refine ⟨fun h => ⟨List.mem_of_find?_eq_some h, by simpa using List.find?_some h⟩, ?_⟩
    rintro ⟨ha, rfl⟩
    cases hfind : l.alis.find? fun a' => a'.afile = a.afile with
    | none => simpa using List.find?_eq_none.mp hfind a ha
    | some b =>
      have hb' : b.afile = a.afile := by simpa using List.find?_some hfind
      rw [afile_inj (List.mem_of_find?_eq_some hfind) ha hb']

theorem aliOfFile_afile (h : l.Apart a.afile) (ha : a ∈ l.alis) : l.aliOfFile a.afile = some a :=
  (aliOfFile_eq_some h).mpr ⟨ha, rfl⟩

end LoadedUnits

/-! ### The order of the tasking types -/

def TaskingType.rank : TaskingType → Nat
  | .unknownTasking => 0
  | .noTasking => 1
  | .userTasking => 2
  | .pcsTasking => 3

instance : LinearOrder TaskingType :=
  LinearOrder.lift' TaskingType.rank fun a b h => by cases a <;> cases b <;> first | rfl | cases h

theorem updateTasking_eq (t : TaskingType) {unit : TaskingType} (h : unit ≠ .unknownTasking) :
    updateTasking t unit = max t unit := by
  cases t <;> cases unit <;> first | rfl | exact absurd rfl h

theorem assignUnitTasking_ne (a : AliRecord) : a.assignUnitTasking ≠ .unknownTasking := by
  unfold AliRecord.assignUnitTasking
  split
  · decide
  · split
    · decide
    · assumption

variable {c : Configuration} {l : LoadedUnits} {p : PartitionId}

/-- `b` is withed by `a` and brings its tasking with it. -/
def LoadedUnits.Brings (l : LoadedUnits) (a b : AliRecord) : Prop :=
  l.With a b ∧ isPredefinedFile b.afile = false ∧ b.lastUnit.isCategorized = false

/-! ### The withed units of one unit -/

/-- How the loop changes by pushing the files. -/
structure Pushes (l : LoadedUnits) (p : PartitionId) (fs : List NameId) (s s' : TaskingLoop) :
    Prop where
  tasking : s'.tasking = s.tasking
  files : ∀ f ∈ s.files, f ∈ s'.files
  pushed : ∀ f ∈ s'.files, f ∈ s.files ∨ ∃ b ∈ l.alis, b.afile = f ∧ f ∈ fs ∧
    isPredefinedFile f = false ∧ b.lastUnit.isCategorized = false
  brought : ∀ b ∈ l.alis, b.afile ∈ fs → isPredefinedFile b.afile = false →
    b.lastUnit.isCategorized = false → s'.names.byte b.uname = some p
  marked : ∀ n, s.names.byte n = some p → s'.names.byte n = some p
  marks : ∀ a ∈ l.alis, s'.names.byte a.uname = some p →
    s.names.byte a.uname = some p ∨ a.afile ∈ s'.files
  others : ∀ n q, q ≠ p → s'.names.byte n = some q → s.names.byte n = some q
  measure : 2 * l.alis.countP (fun a => s'.names.byte a.uname ≠ some p) + s'.files.length ≤
    2 * l.alis.countP (fun a => s.names.byte a.uname ≠ some p) + s.files.length

theorem Pushes.trans {fs gs : List NameId} {s s' s'' : TaskingLoop} (h : Pushes l p fs s s')
    (h' : Pushes l p gs s' s'') : Pushes l p (fs ++ gs) s s'' := by
  constructor
  · rw [h'.tasking, h.tasking]
  · exact fun f hf => h'.files f (h.files f hf)
  · intro f hf
    rcases h'.pushed f hf with hf | ⟨b, hb, he, hf, hrest⟩
    · exact (h.pushed f hf).imp_right fun ⟨b, hb, he, hf, hrest⟩ =>
        ⟨b, hb, he, List.mem_append_left _ hf, hrest⟩
    · exact Or.inr ⟨b, hb, he, List.mem_append_right _ hf, hrest⟩
  · intro b hb hf hp hc
    rcases List.mem_append.mp hf with hf | hf
    · exact h'.marked _ (h.brought b hb hf hp hc)
    · exact h'.brought b hb hf hp hc
  · exact fun n hn => h'.marked n (h.marked n hn)
  · intro a ha hm
    rcases h'.marks a ha hm with hm | hm
    · exact (h.marks a ha hm).imp_right (h'.files _)
    · exact Or.inr hm
  · exact fun n q hq hn => h.others n q hq (h'.others n q hq hn)
  · exact h'.measure.trans h.measure

theorem Pushes.skip {s : TaskingLoop} {f : NameId} (h : ∀ b ∈ l.alis, b.afile = f →
    isPredefinedFile b.afile = false → b.lastUnit.isCategorized = false →
      s.names.byte b.uname = some p) : Pushes l p [f] s s where
  tasking := rfl
  files := fun _ hf => hf
  pushed := fun _ hf => Or.inl hf
  brought := fun b hb hf => h b hb (List.mem_singleton.mp hf)
  marked := fun _ hn => hn
  marks := fun _ _ hm => Or.inl hm
  others := fun _ _ _ hn => hn
  measure := le_refl _

theorem pushWith_pushes {f : NameId} (hf : l.Apart f) (s : TaskingLoop) :
    Pushes l p [f] s (s.pushWith l p f) := by
  unfold TaskingLoop.pushWith
  have hfile := fun a => LoadedUnits.aliOfFile_eq_some (a := a) hf
  by_cases hpre : isPredefinedFile f = true
  · rw [if_pos hpre]
    refine .skip fun b _ he hb => ?_
    rw [he, hpre] at hb
    cases hb
  rw [if_neg hpre]
  cases hali : l.aliOfFile f with
  | none =>
    refine .skip fun b hb he => ?_
    rw [(hfile b).mpr ⟨hb, he⟩] at hali
    cases hali
  | some a =>
    obtain ⟨ha, he⟩ := (hfile a).mp hali
    have huniq : ∀ b ∈ l.alis, b.afile = f → b = a := fun b hb hbf =>
      LoadedUnits.afile_inj hb ha (hbf.trans he.symm)
    dsimp only
    by_cases hmark : s.names.byte a.uname = some p
    · rw [if_pos hmark]
      exact .skip fun b hb hbf _ _ => huniq b hb hbf ▸ hmark
    rw [if_neg hmark]
    by_cases hcat : a.lastUnit.isCategorized = true
    · rw [if_pos hcat]
      refine .skip fun b hb hbf _ hb' => ?_
      rw [huniq b hb hbf, hcat] at hb'
      cases hb'
    rw [if_neg hcat]
    obtain ⟨x, hx⟩ : ∃ x, x = s.names.setByte a.uname (some p) := ⟨_, rfl⟩
    have hself : x.byte a.uname = some p := by
      rw [hx]
      exact Function.update_self _ _ _
    have hne : ∀ n, n ≠ a.uname → x.byte n = s.names.byte n := fun n hn => by
      rw [hx]
      exact Function.update_of_ne hn _ _
    rw [← hx]
    constructor
    · rfl
    · exact fun g hg => List.mem_cons_of_mem _ hg
    · intro g hg
      rcases List.mem_cons.mp hg with rfl | hg
      · exact Or.inr ⟨a, ha, he, List.mem_singleton.mpr rfl, by simpa using hpre,
          by simpa using hcat⟩
      · exact Or.inl hg
    · intro b hb hbf _ _
      rw [huniq b hb (List.mem_singleton.mp hbf)]
      exact hself
    · intro n hn
      by_cases hna : n = a.uname
      · rw [hna]
        exact hself
      · rw [hne n hna]
        exact hn
    · intro b hb hbm
      by_cases hba : b.uname = a.uname
      · obtain rfl := List.inj_on_of_nodup_map l.nodup hb ha hba
        exact Or.inr (he ▸ List.mem_cons_self)
      · rw [hne _ hba] at hbm
        exact Or.inl hbm
    · intro n q hq hn
      by_cases hna : n = a.uname
      · rw [hna, hself, Option.some.injEq] at hn
        exact absurd hn.symm hq
      · rwa [hne n hna] at hn
    · have hlt : l.alis.countP (fun b => x.byte b.uname ≠ some p) <
          l.alis.countP (fun b => s.names.byte b.uname ≠ some p) := by
        refine Worklist.countP_lt (fun b hb => ?_) ha (by simp [hself]) (by simpa using hmark)
        simp only [decide_eq_true_eq]
        intro hb' hbs
        by_cases hba : b.uname = a.uname
        · exact hb' (by rw [hba, hself])
        · exact hb' (by rw [hne _ hba, hbs])
      simp only [List.length_cons]
      omega

theorem foldl_pushes : ∀ (fs : List NameId), (∀ f ∈ fs, l.Apart f) →
    ∀ (s : TaskingLoop), Pushes l p fs s (fs.foldl (TaskingLoop.pushWith l p) s)
  | [], _, s => {
      tasking := rfl
      files := fun _ hf => hf
      pushed := fun _ hf => Or.inl hf
      brought := fun _ _ hf => absurd hf List.not_mem_nil
      marked := fun _ hn => hn
      marks := fun _ _ hm => Or.inl hm
      others := fun _ _ _ hn => hn
      measure := le_refl _ }
  | f :: fs, hfs, s => by
    rw [List.forall_mem_cons] at hfs
    exact (pushWith_pushes hfs.1 s).trans (foldl_pushes fs hfs.2 _)

/-! ### The loop -/

/-- The units bring others among them, and no file that they with is named like another unit. -/
structure LoadedUnits.ApartOn (l : LoadedUnits) (S : AliRecord → Prop) : Prop where
  brings : ∀ a b, S a → l.Brings a b → S b
  withs : ∀ a, S a → ∀ f ∈ a.withedFiles, l.Apart f

/-- What the loop has seen for the partition covers what its roots bring, and the marks. -/
structure Visiting (l : LoadedUnits) (S : AliRecord → Prop) (p : PartitionId)
    (root : AliRecord → Prop) (tasking : TaskingType) (names : NameTable) (s : TaskingLoop)
    (seen : AliRecord → Prop) : Prop where
  covers : Worklist.Covers l.Brings root seen fun a => a ∈ l.alis ∧ a.afile ∈ s.files
  files : ∀ f ∈ s.files, l.Apart f ∧ ∃ a ∈ l.alis, a.afile = f ∧ S a
  marks : ∀ a ∈ l.alis, s.names.byte a.uname = some p → seen a ∨ a.afile ∈ s.files
  tasking : IsGreatest (insert tasking {t | ∃ a, seen a ∧ t = a.assignUnitTasking}) s.tasking
  others : ∀ n q, q ≠ p → s.names.byte n = some q → names.byte n = some q

variable {S root : AliRecord → Prop} {tasking : TaskingType} {names : NameTable}
  {seen : AliRecord → Prop}

theorem Visiting.step (hl : l.ApartOn S) {s : TaskingLoop}
    (h : Visiting l S p root tasking names s seen) :
    TaskingLoop.step l p s = .ok none ∨ ∃ s', TaskingLoop.step l p s = .ok (some s') ∧
      (∃ seen', Visiting l S p root tasking names s' seen') ∧
      2 * l.alis.countP (fun a => s'.names.byte a.uname ≠ some p) + s'.files.length <
        2 * l.alis.countP (fun a => s.names.byte a.uname ≠ some p) + s.files.length := by
  unfold TaskingLoop.step
  cases hfiles : s.files with
  | nil => exact Or.inl rfl
  | cons f files =>
    right
    obtain ⟨hapart, a, ha, rfl, hSa⟩ := h.files f (hfiles ▸ List.mem_cons_self)
    dsimp only
    rw [LoadedUnits.aliOfFile_afile hapart ha]
    obtain ⟨s₁, hs₁⟩ : ∃ s₁ : TaskingLoop, s₁ =
        { s with tasking := updateTasking s.tasking a.assignUnitTasking, files := files } :=
      ⟨_, rfl⟩
    obtain ⟨s', hs'⟩ : ∃ s', s' = a.withedFiles.foldl (TaskingLoop.pushWith l p) s₁ := ⟨_, rfl⟩
    have hpush : Pushes l p a.withedFiles s₁ s' := by
      rw [hs']
      exact foldl_pushes _ (hl.withs a hSa) _
    have hfiles₁ : s₁.files = files := by rw [hs₁]
    have hnames₁ : s₁.names = s.names := by rw [hs₁]
    have hmeasure := hpush.measure
    rw [hfiles₁, hnames₁] at hmeasure
    refine ⟨s', by rw [hs', hs₁], ⟨fun b => seen b ∨ b = a, ?_⟩, by
      rw [List.length_cons]
      omega⟩
    have hpending : ∀ b ∈ l.alis, b.afile ∈ s.files → b = a ∨ b.afile ∈ s'.files := by
      intro b hb hf
      rw [hfiles] at hf
      rcases List.mem_cons.mp hf with hf | hf
      · exact Or.inl (LoadedUnits.afile_inj hb ha hf)
      · exact Or.inr (hpush.files _ (hfiles₁ ▸ hf))
    have hmarks : ∀ b ∈ l.alis, s'.names.byte b.uname = some p →
        (seen b ∨ b = a) ∨ b.afile ∈ s'.files := by
      intro b hb hm
      rcases hpush.marks b hb hm with hm | hm
      · rw [hnames₁] at hm
        rcases h.marks b hb hm with hb' | hf
        · exact Or.inl (Or.inl hb')
        · exact (hpending b hb hf).imp_left Or.inr
      · exact Or.inr hm
    constructor
    · refine h.covers.take (Or.inr ⟨ha, hfiles ▸ List.mem_cons_self⟩) (fun _ => Iff.rfl) ?_ ?_ ?_
      · rintro b ⟨hb, hf⟩
        exact (hpending b hb hf).imp Or.inr fun hf => ⟨hb, hf⟩
      · rintro b ⟨⟨hb, hf⟩, hpre, hcat⟩
        exact (hmarks b hb (hpush.brought b hb hf hpre hcat)).imp_right fun hf => ⟨hb, hf⟩
      · rintro b ⟨hb, hf⟩
        rcases hpush.pushed _ hf with hf | ⟨b', hb', he, hf, hpre, hcat⟩
        · rw [hfiles₁] at hf
          exact Or.inl ⟨hb, hfiles ▸ List.mem_cons_of_mem _ hf⟩
        · obtain rfl := LoadedUnits.afile_inj hb' hb he
          exact Or.inr ⟨⟨hb, hf⟩, hpre, hcat⟩
    · intro f hf
      rcases hpush.pushed f hf with hf | ⟨b, hb, rfl, hf, hpre, hcat⟩
      · rw [hfiles₁] at hf
        exact h.files f (hfiles ▸ List.mem_cons_of_mem _ hf)
      · exact ⟨hl.withs a hSa _ hf, b, hb, rfl, hl.brings a b hSa ⟨⟨hb, hf⟩, hpre, hcat⟩⟩
    · exact hmarks
    · have htask : s'.tasking = max s.tasking a.assignUnitTasking := by
        rw [hpush.tasking, hs₁]
        exact updateTasking_eq _ (assignUnitTasking_ne a)
      rw [htask]
      have hset : insert tasking {t | ∃ b, (seen b ∨ b = a) ∧ t = b.assignUnitTasking} =
          insert tasking {t | ∃ b, seen b ∧ t = b.assignUnitTasking} ∪ {a.assignUnitTasking} := by
        ext t
        constructor
        · rintro (ht | ⟨b, hb | rfl, ht⟩)
          · exact Or.inl (Or.inl ht)
          · exact Or.inl (Or.inr ⟨b, hb, ht⟩)
          · exact Or.inr ht
        · rintro ((ht | ⟨b, hb, ht⟩) | ht)
          · exact Or.inl ht
          · exact Or.inr ⟨b, Or.inl hb, ht⟩
          · exact Or.inr ⟨a, Or.inr rfl, ht⟩
      rw [hset]
      exact h.tasking.union isGreatest_singleton
    · intro n q hq hn
      have := hpush.others n q hq hn
      rw [hnames₁] at this
      exact h.others n q hq this

structure Visited (l : LoadedUnits) (p : PartitionId) (root : AliRecord → Prop)
    (tasking : TaskingType) (s : TaskingTable) (seen : AliRecord → Prop) : Prop where
  covers : Worklist.Covers l.Brings root seen fun _ => False
  marks : ∀ a ∈ l.alis, s.names.byte a.uname = some p → seen a
  tasking : IsGreatest (insert tasking {t | ∃ a, seen a ∧ t = a.assignUnitTasking}) (s.tasking p)

theorem updatePartitionTasking_visits (hl : l.ApartOn S) {a : AliRecord} (ha : a ∈ l.alis)
    (hS : S a) (hapart : l.Apart a.afile) (s : TaskingTable) (t₀ : PartitionId → TaskingType)
    (root : PartitionId → AliRecord → Prop) (h : ∀ q, ∃ seen, Visited l q (root q) (t₀ q) s seen) :
    ∃ s' N, (∀ n, N < n → updatePartitionTasking l n a p
        { s with names := s.names.setByte a.uname (some p) } = .ok s') ∧
      ∀ q, ∃ seen, Visited l q (fun r => root q r ∨ q = p ∧ r = a) (t₀ q) s' seen := by
  obtain ⟨names, hnames⟩ : ∃ names, names = s.names.setByte a.uname (some p) := ⟨_, rfl⟩
  have hself : names.byte a.uname = some p := by
    rw [hnames]
    exact Function.update_self _ _ _
  have hne : ∀ n, n ≠ a.uname → names.byte n = s.names.byte n := fun n hn => by
    rw [hnames]
    exact Function.update_of_ne hn _ _
  rw [← hnames]
  obtain ⟨seen, hp⟩ := h p
  have hstart : ∃ seen, Visiting l S p (fun r => root p r ∨ r = a) (t₀ p) names
      { names := names, tasking := s.tasking p, files := [a.afile] } seen := by
    refine ⟨seen, hp.covers.addRoot (fun _ => False.elim) (Or.inr ⟨ha, List.mem_cons_self⟩) ?_, ?_,
      ?_, hp.tasking, fun _ _ _ hn => hn⟩
    · rintro b ⟨hb, hf⟩
      exact Or.inr (LoadedUnits.afile_inj hb ha (List.mem_singleton.mp hf))
    · intro f hf
      rw [List.mem_singleton.mp hf]
      exact ⟨hapart, a, ha, rfl, hS⟩
    · intro b hb hm
      by_cases hba : b.uname = a.uname
      · obtain rfl := List.inj_on_of_nodup_map l.nodup hb ha hba
        exact Or.inr List.mem_cons_self
      · rw [hne _ hba] at hm
        exact Or.inl (hp.marks b hb hm)
  obtain ⟨r, ⟨seen', hr⟩, hend, hrun⟩ := Worklist.exists_run
    (fun s => 2 * l.alis.countP (fun a => s.names.byte a.uname ≠ some p) + s.files.length)
    (fun s (hs : ∃ seen, Visiting l S p (fun r => root p r ∨ r = a) (t₀ p) names s seen) =>
      hs.choose_spec.step hl) hstart
  have hempty : r.files = [] := by
    unfold TaskingLoop.step at hend
    cases hf : r.files with
    | nil => rfl
    | cons f files =>
      rw [hf] at hend
      dsimp only at hend
      split at hend <;> cases hend
  refine ⟨{ names := r.names, tasking := Function.update s.tasking p r.tasking },
    2 * l.alis.countP (fun a => names.byte a.uname ≠ some p) + 1, fun n hn => ?_, fun q => ?_⟩
  · unfold updatePartitionTasking
    rw [hrun n hn]
    rfl
  by_cases hq : q = p
  · subst hq
    refine ⟨seen', ?_, fun b hb hm => ?_, ?_⟩
    · have := hr.covers
      simp only [hempty, List.not_mem_nil, and_false] at this
      simpa only [true_and] using this
    · exact (hr.marks b hb hm).resolve_right (by rw [hempty]; exact List.not_mem_nil)
    · show IsGreatest _ (Function.update s.tasking q r.tasking q)
      rw [Function.update_self]
      exact hr.tasking
  · obtain ⟨seenq, hseenq⟩ := h q
    refine ⟨seenq, ?_, fun b hb hm => ?_, ?_⟩
    · simpa only [hq, false_and, or_false] using hseenq.covers
    · have hm' := hr.others _ q hq hm
      by_cases hba : b.uname = a.uname
      · rw [hba, hself, Option.some.injEq] at hm'
        exact absurd hm'.symm hq
      · rw [hne _ hba] at hm'
        exact hseenq.marks b hb hm'
    · show IsGreatest _ (Function.update s.tasking p r.tasking q)
      rw [Function.update_of_ne hq]
      exact hseenq.tasking

/-! ### The loop over the configured units -/

def Resolved (l : LoadedUnits) (cus : List ConfUnit) : Prop :=
  ∀ cu ∈ cus, ∃ a ∈ l.alis, a.uname = cu.name ∧ l.root cu = .ok a

/-- The unit is configured on the partition by one of the configured units. -/
def Rooted (l : LoadedUnits) (cus : List ConfUnit) (p : PartitionId) (a : AliRecord) : Prop :=
  a ∈ l.alis ∧ ∃ cu ∈ cus, cu.partition = p ∧ cu.name = a.uname

theorem rooted_cons {cu : ConfUnit} {cus : List ConfUnit} {a b : AliRecord} (ha : a ∈ l.alis)
    (hn : a.uname = cu.name) :
    Rooted l (cu :: cus) p b ↔ (p = cu.partition ∧ b = a) ∨ Rooted l cus p b := by
  unfold Rooted
  simp only [List.mem_cons, exists_eq_or_imp]
  constructor
  · rintro ⟨hb, ⟨rfl, he⟩ | hcu⟩
    · exact Or.inl ⟨rfl, List.inj_on_of_nodup_map l.nodup hb ha (he.symm.trans hn.symm)⟩
    · exact Or.inr ⟨hb, hcu⟩
  · rintro (⟨rfl, rfl⟩ | ⟨hb, hcu⟩)
    · exact ⟨ha, Or.inl ⟨rfl, hn.symm⟩⟩
    · exact ⟨hb, Or.inr hcu⟩

theorem updateTaskings_visits (hl : l.ApartOn S) (t₀ : PartitionId → TaskingType) :
    ∀ (cus : List ConfUnit), Resolved l cus →
    (∀ q a, Rooted l cus q a → S a ∧ l.Apart a.afile) →
    ∀ (s : TaskingTable) (root : PartitionId → AliRecord → Prop),
    (∀ q, ∃ seen, Visited l q (root q) (t₀ q) s seen) →
    ∃ s' N, (∀ n, N < n → updateTaskings l n cus s = .ok s') ∧
      ∀ q, ∃ seen, Visited l q (fun r => root q r ∨ Rooted l cus q r) (t₀ q) s' seen
  | [], _, _, s, root, h => by
    refine ⟨s, 0, fun n _ => rfl, fun q => ?_⟩
    have : (fun r => root q r ∨ Rooted l [] q r) = root q := funext fun r =>
      propext (or_iff_left (by rintro ⟨-, cu, ⟨⟩, -⟩))
    rw [this]
    exact h q
  | cu :: cus, hcus, hS, s, root, h => by
    unfold Resolved at hcus
    rw [List.forall_mem_cons] at hcus
    obtain ⟨⟨a, ha, hn, hroot⟩, hcus⟩ := hcus
    obtain ⟨hSa, hapart⟩ := hS _ a ((rooted_cons ha hn).mpr (Or.inl ⟨rfl, rfl⟩))
    obtain ⟨s₁, N₁, hrun₁, h₁⟩ :=
      updatePartitionTasking_visits (p := cu.partition) hl ha hSa hapart s t₀ root h
    obtain ⟨s', N₂, hrun₂, h₂⟩ := updateTaskings_visits hl t₀ cus hcus
      (fun q b hb => hS q b ((rooted_cons ha hn).mpr (Or.inr hb))) s₁ _ h₁
    refine ⟨s', max N₁ N₂, fun n hn' => ?_, fun q => ?_⟩
    · rw [updateTaskings, hroot, Checked.bind_ok, ← hn,
        hrun₁ n (lt_of_le_of_lt (le_max_left _ _) hn'), Checked.bind_ok]
      exact hrun₂ n (lt_of_le_of_lt (le_max_right _ _) hn')
    · have : (fun r => root q r ∨ Rooted l (cu :: cus) q r) =
          fun r => (root q r ∨ q = cu.partition ∧ r = a) ∨ Rooted l cus q r := funext fun r =>
        propext (by rw [rooted_cons ha hn, or_assoc])
      rw [this]
      exact h₂ q

/-- The units whose tasking comes to the partition. -/
def Collocated (l : LoadedUnits) (cus : List ConfUnit) (p : PartitionId) (a : AliRecord) : Prop :=
  ∃ r, Rooted l cus p r ∧ Relation.ReflTransGen l.Brings r a

theorem analyzeTasking_collocated (hl : l.ApartOn S) {cus : List ConfUnit} (hcus : Resolved l cus)
    (hS : ∀ q a, Rooted l cus q a → S a ∧ l.Apart a.afile) (c : Configuration)
    (names : NameTable) (t₀ : PartitionId → TaskingType) :
    ∃ t N, (∀ n, N < n → analyzeTasking l n c cus names t₀ = .ok t) ∧
      ∀ p, p ≠ c.mainPartition →
        IsGreatest (insert (t₀ p) {t | ∃ a, Collocated l cus p a ∧ t = a.assignUnitTasking})
          (t p) := by
  have hreset : ∀ (as : List AliRecord) (x : NameTable) (n : NameId), x.byte n = none →
      (as.foldl (fun x a => x.setByte a.uname none) x).byte n = none := by
    intro as
    induction as with
    | nil => exact fun _ _ h => h
    | cons a as ih =>
      intro x n hn
      refine ih _ n ?_
      by_cases hna : n = a.uname
      · rw [hna]
        exact Function.update_self _ _ _
      · exact (Function.update_of_ne hna _ _).trans hn
  have hunmarked : ∀ (as : List AliRecord) (x : NameTable), ∀ a ∈ as,
      (as.foldl (fun x a => x.setByte a.uname none) x).byte a.uname = none := by
    intro as
    induction as with
    | nil => exact fun _ _ ha => absurd ha List.not_mem_nil
    | cons b as ih =>
      intro x a ha
      rcases List.mem_cons.mp ha with rfl | ha
      · exact hreset as _ _ (Function.update_self _ _ _)
      · exact ih _ a ha
  have hinit : ∀ q, ∃ seen, Visited l q (fun _ => False) (t₀ q)
      { names := l.alis.foldl (fun x a => x.setByte a.uname none) names, tasking := t₀ } seen := by
    refine fun q => ⟨fun _ => False, ⟨fun _ => False.elim, fun _ _ => False.elim, ?_⟩, ?_, ?_⟩
    · rintro b (⟨⟨⟩⟩ | ⟨⟨⟩⟩)
    · intro a ha hm
      rw [hunmarked l.alis names a ha] at hm
      cases hm
    · simp [isGreatest_singleton]
  obtain ⟨s, N, hrun, hs⟩ := updateTaskings_visits hl t₀ cus hcus hS
    { names := l.alis.foldl (fun x a => x.setByte a.uname none) names, tasking := t₀ }
    (fun _ _ => False) hinit
  refine ⟨Function.update s.tasking c.mainPartition .pcsTasking, N, fun n hn => ?_, fun p hp => ?_⟩
  · unfold analyzeTasking
    dsimp only
    rw [hrun n hn]
    rfl
  · obtain ⟨seen, hseen⟩ := hs p
    rw [Function.update_of_ne hp]
    have hiff := hseen.covers.seen_iff fun _ => id
    simp only [false_or] at hiff
    have : seen = Collocated l cus p := funext fun a => propext (hiff a)
    exact this ▸ hseen.tasking

end PolyORB.Gnatdist
