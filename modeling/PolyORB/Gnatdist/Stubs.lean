import PolyORB.Gnatdist.Collocation

/-!
# The stubs of a partition

What `Find_Stubs_And_Stamps_From_Closure` leaves for each partition, and with the tasking what the
end of `Analyze` does for an accepted configuration.
-/

namespace PolyORB.Gnatdist

variable {l : LoadedUnits} {p : PartitionId} {root : AliRecord → Prop}

/-- A non generic RCI or SP unit that is not configured on the partition. -/
def IsStub (root : AliRecord → Prop) (a : AliRecord) : Prop :=
  a.lastUnit.isGeneric = false ∧ a.lastUnit.isCategorized = true ∧ ¬root a

/-- A stub is not explored any further. -/
def Explores (l : LoadedUnits) (root : AliRecord → Prop) (a b : AliRecord) : Prop :=
  ¬IsStub root a ∧ l.With a b

/-- The unit is configured on the partition or found from it. -/
def Explored (l : LoadedUnits) (root : AliRecord → Prop) (a : AliRecord) : Prop :=
  ∃ r, root r ∧ Relation.ReflTransGen (Explores l root) r a

/-- No file that is withed by what is explored is named like a unit. -/
def FilesApart (l : LoadedUnits) (root : AliRecord → Prop) : Prop :=
  ∀ a, Explored l root a → ¬IsStub root a → ∀ f ∈ a.withedFiles, l.Apart f

section Stamps

variable {τ : Type} [LinearOrder τ] {stamp : NameId → τ} {seen : AliRecord → Prop}

/-- The file has the most recent stamp of the units. -/
def Stamped (stamp : NameId → τ) (seen : AliRecord → Prop) : Option NameId → Prop
  | none => ∀ a, ¬seen a
  | some f => IsGreatest {t | ∃ a, seen a ∧ t = stamp a.afile} (stamp f)

theorem Stamped.update {m : Option NameId} (h : Stamped stamp seen m) (a : AliRecord) :
    Stamped stamp (fun b => seen b ∨ b = a) (updateMostRecentStamp stamp m a.afile) := by
  have hset : {t | ∃ b, (seen b ∨ b = a) ∧ t = stamp b.afile} =
      {t | ∃ b, seen b ∧ t = stamp b.afile} ∪ {stamp a.afile} := by
    ext t
    constructor
    · rintro ⟨b, hb | rfl, ht⟩
      · exact Or.inl ⟨b, hb, ht⟩
      · exact Or.inr ht
    · rintro (⟨b, hb, ht⟩ | ht)
      · exact ⟨b, Or.inl hb, ht⟩
      · exact ⟨a, Or.inr rfl, ht⟩
  unfold updateMostRecentStamp
  cases m with
  | none =>
    show IsGreatest _ _
    have hempty : {t | ∃ b, seen b ∧ t = stamp b.afile} = ∅ := by
      ext t
      simp only [Set.mem_ofPred_eq, Set.mem_empty_iff_false, iff_false]
      rintro ⟨b, hb, -⟩
      exact h b hb
    rw [hset, hempty, Set.empty_union]
    exact isGreatest_singleton
  | some f =>
    have hmax := IsGreatest.union h (isGreatest_singleton (a := stamp a.afile))
    rw [← hset] at hmax
    dsimp only
    split
    · next hlt =>
      rw [max_eq_right hlt.le] at hmax
      exact hmax
    · next hlt =>
      rw [max_eq_left (not_lt.mp hlt)] at hmax
      exact hmax

/-! ### The loop -/

/-- The units that have been checked. -/
def IsChecked (l : LoadedUnits) (s : StubLoop) (a : AliRecord) : Prop :=
  a ∈ l.alis ∧ a.uname ∈ s.checked

/-- What the loop has checked covers what the units of the partition lead to. -/
structure Exploring (l : LoadedUnits) (root : AliRecord → Prop) (stamp : NameId → τ)
    (s : StubLoop) : Prop where
  covers : Worklist.Covers (Explores l root) root (IsChecked l s)
    fun a => a ∈ l.alis ∧ a.afile ∈ s.files
  roots : ∀ a, root a → IsChecked l s a
  files : ∀ f ∈ s.files, l.Apart f
  nodup : s.stubs.Nodup
  stubs : ∀ n, n ∈ s.stubs ↔ ∃ a, IsChecked l s a ∧ IsStub root a ∧ a.uname = n
  stamp : Stamped stamp (IsChecked l s) s.mostRecent

def LoadedUnits.maxWiths (l : LoadedUnits) : Nat := (l.alis.map fun a => a.withedFiles.length).sum

theorem withedFiles_length_le {a : AliRecord} (ha : a ∈ l.alis) :
    a.withedFiles.length ≤ l.maxWiths :=
  List.single_le_sum (fun _ _ => Nat.zero_le _) _ (List.mem_map.mpr ⟨a, ha, rfl⟩)

local instance : LawfulBEq NameId := inferInstance

/-- The rounds that are left at most. -/
def StubLoop.measure (l : LoadedUnits) (s : StubLoop) : Nat :=
  l.alis.countP (fun a => a.uname ∉ s.checked) * (l.maxWiths + 1) + s.files.length

theorem checked_cons {s : StubLoop} (s' : StubLoop) {a : AliRecord} (ha : a ∈ l.alis)
    (h : s'.checked = a.uname :: s.checked) :
    IsChecked l s' = fun b => IsChecked l s b ∨ b = a := by
  refine funext fun b => propext ?_
  unfold IsChecked
  rw [h, List.mem_cons]
  constructor
  · rintro ⟨hb, he | hb'⟩
    · exact Or.inr (List.inj_on_of_nodup_map l.nodup hb ha he)
    · exact Or.inl ⟨hb, hb'⟩
  · rintro (⟨hb, hb'⟩ | rfl)
    · exact ⟨hb, Or.inr hb'⟩
    · exact ⟨ha, Or.inl rfl⟩

theorem measure_checked {s s' : StubLoop} {a : AliRecord} (ha : a ∈ l.alis)
    (hnew : a.uname ∉ s.checked) (h : s'.checked = a.uname :: s.checked)
    (hfiles : s'.files.length < s.files.length + l.maxWiths + 1) : s'.measure l < s.measure l := by
  have hlt : l.alis.countP (fun b => b.uname ∉ s'.checked) <
      l.alis.countP (fun b => b.uname ∉ s.checked) := by
    rw [h]
    refine Worklist.countP_lt (fun b _ hb => ?_) ha (by simp) (by simpa using hnew)
    simp only [decide_eq_true_eq, List.mem_cons, not_or] at hb ⊢
    exact hb.2
  unfold StubLoop.measure
  have := Nat.mul_le_mul_right (l.maxWiths + 1) hlt
  rw [Nat.succ_mul] at this
  omega

theorem Exploring.step (hl : FilesApart l root) {s : StubLoop} (h : Exploring l root stamp s) :
    StubLoop.step l stamp s = .ok none ∨ ∃ s', StubLoop.step l stamp s = .ok (some s') ∧
      Exploring l root stamp s' ∧ s'.measure l < s.measure l := by
  unfold StubLoop.step
  cases hfiles : s.files with
  | nil => exact Or.inl rfl
  | cons f files =>
    right
    have hf := h.files f (hfiles ▸ List.mem_cons_self)
    have hali := fun a => LoadedUnits.aliOfFile_eq_some (a := a) hf
    have hnamed : ∀ g ∈ files, l.Apart g := fun g hg =>
      h.files g (hfiles ▸ List.mem_cons_of_mem _ hg)
    -- A file without a unit, or of a unit that has been checked, is dropped.
    have hdrop : (∀ a ∈ l.alis, a.afile = f → a.uname ∈ s.checked) →
        Exploring l root stamp { s with files := files } ∧
          StubLoop.measure l { s with files := files } < s.measure l := by
      intro hchecked
      refine ⟨⟨⟨fun r hr => Or.inl (h.roots r hr), fun a b ha hab => ?_, fun a ha => ?_⟩, h.roots,
        hnamed, h.nodup, h.stubs, h.stamp⟩, ?_⟩
      · rcases h.covers.closed a b ha hab with hb | ⟨hb, hbf⟩
        · exact Or.inl hb
        · rw [hfiles] at hbf
          rcases List.mem_cons.mp hbf with hbf | hbf
          · exact Or.inl ⟨hb, hchecked b hb hbf⟩
          · exact Or.inr ⟨hb, hbf⟩
      · exact h.covers.sound a (ha.imp_right fun ⟨ha, haf⟩ =>
          ⟨ha, hfiles ▸ List.mem_cons_of_mem _ haf⟩)
      · unfold StubLoop.measure
        rw [hfiles, List.length_cons]
        exact Nat.lt_succ_self _
    dsimp only
    cases hfind : l.aliOfFile f with
    | none =>
      obtain ⟨hexp, hlt⟩ := hdrop fun a ha he => by
        rw [(hali a).mpr ⟨ha, he⟩] at hfind
        cases hfind
      exact ⟨_, rfl, hexp, hlt⟩
    | some a =>
      obtain ⟨ha, rfl⟩ := (hali a).mp hfind
      by_cases hchecked : a.uname ∈ s.checked
      · obtain ⟨hexp, hlt⟩ := hdrop fun b hb he => LoadedUnits.afile_inj hb ha he ▸ hchecked
        exact ⟨_, by simp [hchecked], hexp, hlt⟩
      simp only [hchecked, if_false]
      have hroot : ¬root a := fun hr => hchecked (h.roots a hr).2
      have hnew : ¬IsChecked l s a := fun hc => hchecked hc.2
      have hpending : ∀ b, b ∈ l.alis ∧ b.afile ∈ s.files →
          b = a ∨ b ∈ l.alis ∧ b.afile ∈ files := by
        rintro b ⟨hb, hbf⟩
        rw [hfiles] at hbf
        rcases List.mem_cons.mp hbf with hbf | hbf
        · exact Or.inl (LoadedUnits.afile_inj hb ha hbf)
        · exact Or.inr ⟨hb, hbf⟩
      split
      · next hstub =>
        have hisStub : IsStub root a := ⟨hstub.1, hstub.2, hroot⟩
        refine ⟨_, rfl, ?_, measure_checked ha hchecked rfl (by rw [hfiles]; simp; omega)⟩
        have hcons := checked_cons (s := s) {
          checked := a.uname :: s.checked
          mostRecent := updateMostRecentStamp stamp s.mostRecent a.afile
          stubs := s.stubs ++ [a.uname]
          files := files } ha rfl
        constructor
        · rw [hcons]
          refine h.covers.take (Or.inr ⟨ha, hfiles ▸ List.mem_cons_self⟩) (fun _ => Iff.rfl)
            (fun b hb => ?_) (fun b hb => absurd hisStub hb.1) fun b hb => Or.inl ?_
          · exact (hpending b hb).imp_left Or.inr
          · exact ⟨hb.1, hfiles ▸ List.mem_cons_of_mem _ hb.2⟩
        · rw [hcons]
          exact fun b hb => Or.inl (h.roots b hb)
        · exact hnamed
        · refine List.nodup_append.mpr ⟨h.nodup, List.nodup_singleton _, ?_⟩
          rintro n hn m hm rfl
          obtain ⟨b, hb, -, he⟩ := (h.stubs n).mp hn
          rw [List.mem_singleton] at hm
          obtain rfl := List.inj_on_of_nodup_map l.nodup hb.1 ha (he.trans hm)
          exact hnew hb
        · intro n
          rw [hcons, List.mem_append, List.mem_singleton, h.stubs]
          constructor
          · rintro (⟨b, hb, hrest⟩ | rfl)
            · exact ⟨b, Or.inl hb, hrest⟩
            · exact ⟨a, Or.inr rfl, hisStub, rfl⟩
          · rintro ⟨b, hb | rfl, hrest⟩
            · exact Or.inl ⟨b, hb, hrest⟩
            · exact Or.inr hrest.2.symm
        · rw [hcons]
          exact h.stamp.update a
      · next hstub =>
        have hisStub : ¬IsStub root a := fun hs => hstub ⟨hs.1, hs.2.1⟩
        have hwiths := hl a (h.covers.sound a (Or.inr ⟨ha, hfiles ▸ List.mem_cons_self⟩)) hisStub
        obtain ⟨s', hs'⟩ : ∃ s' : StubLoop, s' = {
            checked := a.uname :: s.checked
            mostRecent := updateMostRecentStamp stamp s.mostRecent a.afile
            stubs := s.stubs
            files := (StubLoop.unchecked l {
              checked := a.uname :: s.checked
              mostRecent := updateMostRecentStamp stamp s.mostRecent a.afile
              stubs := s.stubs
              files := files } a).reverse ++ files } := ⟨_, rfl⟩
        have hcons := checked_cons (s := s) s' ha (by rw [hs'])
        have hmem : ∀ f, f ∈ s'.files ↔ (f ∈ a.withedFiles ∧
            ((l.aliOfFile f).any fun w => w.uname ∉ a.uname :: s.checked) = true) ∨ f ∈ files := by
          intro f
          rw [hs', List.mem_append, List.mem_reverse, StubLoop.unchecked, List.mem_filter]
        refine ⟨s', by rw [hs'], ?_, measure_checked ha hchecked (by rw [hs']) ?_⟩
        · constructor
          · rw [hcons]
            refine h.covers.take (Or.inr ⟨ha, hfiles ▸ List.mem_cons_self⟩) (fun _ => Iff.rfl)
              (fun b hb => ?_) (fun b hb => ?_) fun b hb => ?_
            · exact (hpending b hb).imp Or.inr fun hb => ⟨hb.1, (hmem _).mpr (Or.inr hb.2)⟩
            · obtain ⟨-, hb, hbf⟩ := hb
              by_cases hbc : b.uname ∈ a.uname :: s.checked
              · have : IsChecked l s' b := ⟨hb, by rw [hs']; exact hbc⟩
                rw [hcons] at this
                exact Or.inl this
              · refine Or.inr ⟨hb, (hmem _).mpr (Or.inl ⟨hbf, ?_⟩)⟩
                rw [LoadedUnits.aliOfFile_afile (hwiths _ hbf) hb]
                simpa using hbc
            · rcases (hmem _).mp hb.2 with hbf | hbf
              · exact Or.inr ⟨hisStub, hb.1, hbf.1⟩
              · exact Or.inl ⟨hb.1, hfiles ▸ List.mem_cons_of_mem _ hbf⟩
          · rw [hcons]
            exact fun b hb => Or.inl (h.roots b hb)
          · intro g hg
            rcases (hmem g).mp hg with hg | hg
            · exact hwiths g hg.1
            · exact hnamed g hg
          · rw [hs']
            exact h.nodup
          · intro n
            rw [hcons]
            have : s'.stubs = s.stubs := by rw [hs']
            rw [this, h.stubs]
            constructor
            · rintro ⟨b, hb, hrest⟩
              exact ⟨b, Or.inl hb, hrest⟩
            · rintro ⟨b, hb | rfl, hrest⟩
              · exact ⟨b, hb, hrest⟩
              · exact absurd hrest.1 hisStub
          · rw [hcons, hs']
            exact h.stamp.update a
        · have hlen : (StubLoop.unchecked l {
              checked := a.uname :: s.checked
              mostRecent := updateMostRecentStamp stamp s.mostRecent a.afile
              stubs := s.stubs
              files := files } a).length ≤ l.maxWiths :=
            (List.length_filter_le _ _).trans (withedFiles_length_le ha)
          rw [hs', hfiles]
          simp only [List.length_append, List.length_reverse, List.length_cons]
          omega

/-! ### The start and the end of the loop -/

/-- The loop after the units that are configured on the partition. -/
structure Starting (l : LoadedUnits) (root : AliRecord → Prop) (stamp : NameId → τ)
    (s : StubLoop) : Prop where
  loaded : ∀ a, root a → a ∈ l.alis
  checked : IsChecked l s = root
  files : ∀ f, f ∈ s.files ↔ ∃ a, root a ∧ f ∈ a.withedFiles
  stubs : s.stubs = []
  stamp : Stamped stamp root s.mostRecent

theorem Starting.start {s : StubLoop} (h : Starting l root stamp s) {a : AliRecord}
    (ha : a ∈ l.alis) : Starting l (fun b => root b ∨ b = a) stamp (s.start stamp a) := by
  constructor
  · rintro b (hb | rfl)
    · exact h.loaded b hb
    · exact ha
  · rw [checked_cons (s := s) _ ha rfl, h.checked]
  · intro f
    unfold StubLoop.start
    rw [List.mem_append, List.mem_reverse, h.files]
    constructor
    · rintro (hf | ⟨b, hb, hf⟩)
      · exact ⟨a, Or.inr rfl, hf⟩
      · exact ⟨b, Or.inl hb, hf⟩
    · rintro ⟨b, hb | rfl, hf⟩
      · exact Or.inr ⟨b, hb, hf⟩
      · exact Or.inl hf
  · exact h.stubs
  · exact h.stamp.update a

theorem Starting.exploring (hl : FilesApart l root) {s : StubLoop} (h : Starting l root stamp s) :
    Exploring l root stamp s := by
  constructor
  · rw [h.checked]
    refine ⟨fun r hr => Or.inl hr, fun a b ha hab => ?_, ?_⟩
    · exact Or.inr ⟨hab.2.1, (h.files _).mpr ⟨a, ha, hab.2.2⟩⟩
    · rintro b (hb | ⟨hb, hf⟩)
      · exact ⟨b, hb, Relation.ReflTransGen.refl⟩
      · obtain ⟨a, ha, hf⟩ := (h.files _).mp hf
        exact ⟨a, ha, Relation.ReflTransGen.single ⟨fun hs => hs.2.2 ha, hb, hf⟩⟩
  · rw [h.checked]
    exact fun _ ha => ha
  · intro f hf
    obtain ⟨a, ha, hf⟩ := (h.files f).mp hf
    exact hl a ⟨a, ha, Relation.ReflTransGen.refl⟩ (fun hs => hs.2.2 ha) f hf
  · rw [h.stubs]
    exact List.nodup_nil
  · intro n
    rw [h.checked, h.stubs]
    refine iff_of_false List.not_mem_nil ?_
    rintro ⟨a, ha, hs, -⟩
    exact hs.2.2 ha
  · rw [h.checked]
    exact h.stamp

theorem startStubs_starting (stamp : NameId → τ) :
    ∀ (cus : List ConfUnit), Resolved l cus → ∀ (s : StubLoop) (root : AliRecord → Prop),
    Starting l root stamp s →
    ∃ s', startStubs l stamp p cus s = .ok s' ∧
      Starting l (fun a => root a ∨ Rooted l cus p a) stamp s'
  | [], _, s, root, h => by
    refine ⟨s, rfl, ?_⟩
    have : (fun a => root a ∨ Rooted l [] p a) = root := funext fun a =>
      propext (or_iff_left (by rintro ⟨-, cu, ⟨⟩, -⟩))
    rw [this]
    exact h
  | cu :: cus, hcus, s, root, h => by
    unfold Resolved at hcus
    rw [List.forall_mem_cons] at hcus
    obtain ⟨⟨a, ha, hn, hroot⟩, hcus⟩ := hcus
    by_cases hp : cu.partition = p
    · obtain ⟨s', hs', h'⟩ := startStubs_starting stamp cus hcus _ _ (h.start ha)
      refine ⟨s', by rw [startStubs, if_pos hp, hroot, Checked.bind_ok, hs'], ?_⟩
      have : (fun b => root b ∨ Rooted l (cu :: cus) p b) =
          fun b => (root b ∨ b = a) ∨ Rooted l cus p b := funext fun b =>
        propext (by rw [rooted_cons ha hn, and_iff_right hp.symm, or_assoc])
      rw [this]
      exact h'
    · obtain ⟨s', hs', h'⟩ := startStubs_starting stamp cus hcus s root h
      refine ⟨s', by rw [startStubs, if_neg hp, hs'], ?_⟩
      have : (fun b => root b ∨ Rooted l (cu :: cus) p b) =
          fun b => root b ∨ Rooted l cus p b := funext fun b =>
        propext (or_congr Iff.rfl
          ((rooted_cons ha hn).trans (or_iff_right fun h => hp h.1.symm)))
      rw [this]
      exact h'

/-- The stubs and the most recent stamp of a partition are those of its closure. -/
structure StubsRight (l : LoadedUnits) (root : AliRecord → Prop) (stamp : NameId → τ)
    (s : StubTable) (p : PartitionId) : Prop where
  last_le : s.lastStub p ≤ s.stubs.length
  nodup : (s.stubsOf p).Nodup
  stubs : ∀ n, n ∈ s.stubsOf p ↔ ∃ a, Explored l root a ∧ IsStub root a ∧ a.uname = n
  stamp : Stamped stamp (Explored l root) (s.mostRecent p)

theorem findStubsAndStamps_right (stamp : NameId → τ) {cus : List ConfUnit} (hcus : Resolved l cus)
    (hl : FilesApart l (Rooted l cus p)) {s : StubTable} (hnone : s.mostRecent p = none) :
    ∃ s' N, (∀ n, N < n → findStubsAndStampsFromClosure l stamp n cus p s = .ok s') ∧
      StubsRight l (Rooted l cus p) stamp s' p ∧
      ∀ q, q ≠ p → s'.mostRecent q = s.mostRecent q ∧
        ∀ root, StubsRight l root stamp s q → StubsRight l root stamp s' q := by
  obtain ⟨s₀, hstart, h₀⟩ := startStubs_starting (p := p) stamp cus hcus
    { checked := [], mostRecent := s.mostRecent p, stubs := [], files := [] } (fun _ => False)
    ⟨fun _ => False.elim,
      funext fun a => propext ⟨fun h => absurd h.2 List.not_mem_nil, False.elim⟩,
      fun f => by simp, rfl, by rw [hnone]; exact fun _ => id⟩
  simp only [false_or] at h₀
  obtain ⟨r, hr, hend, hrun⟩ := Worklist.exists_run (StubLoop.measure l)
    (fun s hs => Exploring.step hl hs) (h₀.exploring hl)
  have hempty : r.files = [] := by
    unfold StubLoop.step at hend
    cases hf : r.files with
    | nil => rfl
    | cons f files =>
      rw [hf] at hend
      dsimp only at hend
      split at hend
      · cases hend
      · split at hend
        · cases hend
        · split at hend <;> cases hend
  have hseen : IsChecked l r = Explored l (Rooted l cus p) := by
    refine funext fun a => propext (hr.covers.seen_iff ?_ a)
    rintro b ⟨-, hb⟩
    rw [hempty] at hb
    cases hb
  obtain ⟨s', hs'⟩ : ∃ s' : StubTable, s' = {
      stubs := s.stubs ++ r.stubs
      firstStub := Function.update s.firstStub p (s.stubs.length + 1)
      lastStub := Function.update s.lastStub p (s.stubs.length + r.stubs.length)
      mostRecent := Function.update s.mostRecent p r.mostRecent } := ⟨_, rfl⟩
  have hstubs : s'.stubs = s.stubs ++ r.stubs := by rw [hs']
  have hfirst : s'.firstStub p = s.stubs.length + 1 := by rw [hs']; exact Function.update_self _ _ _
  have hlast : s'.lastStub p = s.stubs.length + r.stubs.length := by
    rw [hs']; exact Function.update_self _ _ _
  have hrecent : s'.mostRecent p = r.mostRecent := by rw [hs']; exact Function.update_self _ _ _
  have hof : s'.stubsOf p = r.stubs := by
    unfold StubTable.stubsOf
    rw [hstubs, hfirst, hlast, Nat.add_sub_cancel, ← List.length_append, List.take_length,
      List.drop_left]
  refine ⟨s', StubLoop.measure l s₀, fun n hn => ?_, ⟨?_, ?_, ?_, ?_⟩, fun q hq =>
    ⟨?_, fun root h => ⟨?_, ?_, ?_, ?_⟩⟩⟩
  · unfold findStubsAndStampsFromClosure
    rw [hstart, Checked.bind_ok, hrun n hn, hs']
    rfl
  · rw [hlast, hstubs, List.length_append]
  · rw [hof]
    exact hr.nodup
  · rw [hof, ← hseen]
    exact hr.stubs
  · rw [hrecent, ← hseen]
    exact hr.stamp
  · rw [hs']
    exact Function.update_of_ne hq _ _
  all_goals
    have hfirst' : s'.firstStub q = s.firstStub q := by rw [hs']; exact Function.update_of_ne hq _ _
    have hlast' : s'.lastStub q = s.lastStub q := by rw [hs']; exact Function.update_of_ne hq _ _
    have hof' : s'.stubsOf q = s.stubsOf q := by
      unfold StubTable.stubsOf
      rw [hstubs, hfirst', hlast', List.take_append_of_le_length h.last_le]
  · rw [hlast', hstubs, List.length_append]
    exact h.last_le.trans (Nat.le_add_right _ _)
  · rw [hof']
    exact h.nodup
  · rw [hof']
    exact h.stubs
  · have : s'.mostRecent q = s.mostRecent q := by rw [hs']; exact Function.update_of_ne hq _ _
    rw [this]
    exact h.stamp

theorem findStubs_right (stamp : NameId → τ) {cus : List ConfUnit} (hcus : Resolved l cus) :
    ∀ (ps : List PartitionId), (∀ p ∈ ps, FilesApart l (Rooted l cus p)) → ps.Nodup →
    ∀ (s : StubTable), (∀ p ∈ ps, s.mostRecent p = none) →
    ∃ s' N, (∀ n, N < n → findStubs l stamp n cus ps s = .ok s') ∧
      (∀ p ∈ ps, StubsRight l (Rooted l cus p) stamp s' p) ∧
      ∀ q, q ∉ ps → ∀ root, StubsRight l root stamp s q → StubsRight l root stamp s' q
  | [], _, _, s, _ =>
    ⟨s, 0, fun _ _ => rfl, fun _ hp => absurd hp List.not_mem_nil, fun _ _ _ h => h⟩
  | p :: ps, hl, hps, s, hnone => by
    rw [List.nodup_cons] at hps
    rw [List.forall_mem_cons] at hnone hl
    obtain ⟨s₁, N₁, hrun₁, hp, hothers⟩ :=
      findStubsAndStamps_right stamp hcus hl.1 hnone.1
    have hne : ∀ q ∈ ps, q ≠ p := fun q hq he => hps.1 (he ▸ hq)
    obtain ⟨s', N₂, hrun₂, hright, hkeep⟩ :=
      findStubs_right stamp hcus ps hl.2 hps.2 s₁ fun q hq => by
        rw [(hothers q (hne q hq)).1]
        exact hnone.2 q hq
    refine ⟨s', max N₁ N₂, fun n hn => ?_, fun q hq => ?_, fun q hq root h => ?_⟩
    · rw [findStubs, hrun₁ n (lt_of_le_of_lt (le_max_left _ _) hn), Checked.bind_ok]
      exact hrun₂ n (lt_of_le_of_lt (le_max_right _ _) hn)
    · rcases List.mem_cons.mp hq with rfl | hq
      · exact hkeep q hps.1 _ hp
      · exact hright q hq
    · rw [List.mem_cons, not_or] at hq
      exact hkeep q hq.2 root ((hothers q hq.1).2 root h)

end Stamps

end PolyORB.Gnatdist
