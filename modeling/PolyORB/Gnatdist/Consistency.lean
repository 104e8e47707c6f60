import PolyORB.Gnatdist.Analyze

/-!
# Consistent configurations

What a consistent configuration is, and when `Analyze` accepts exactly those; and what
`Add_Conf_Unit` and the first checks of `Analyze` leave in the Info and Byte fields of the names.
-/

namespace PolyORB.Gnatdist

namespace LoadedUnits

def find (l : LoadedUnits) (n : NameId) : Option AliRecord :=
  l.alis.find? fun a => a.uname = n

def categorized (l : LoadedUnits) (n : NameId) : Bool :=
  (l.find n).any fun a => a.lastUnit.isCategorized && !a.lastUnit.isGeneric

end LoadedUnits

def Configuration.Configures (c : Configuration) (n : NameId) (p : PartitionId) : Prop :=
  p ∈ c.declared ∧
    ((n, p) ∈ c.units ∨ (n, 0) ∈ c.units ∨ c.pcsConfUnit = some n ∧ p = c.mainPartition)

/-- The name counts as configured on the partition: it is, or it is the name of the partition. -/
def Configuration.Marks (c : Configuration) (n : NameId) (p : PartitionId) : Prop :=
  c.Configures n p ∨ (partitionNames c.partitions)[p]? = some n

/-- The two channels join the same partitions. -/
def SamePair (x y : PartitionId × PartitionId) : Prop := x = y ∨ x = y.swap

section Consistency

variable (c : Configuration) (l : LoadedUnits)

/-- A consistent configuration, but for the channels that join the same partitions and the main
subprogram of the partition type, `On` being where an RCI or SP unit is taken to be. -/
structure Sound (On : NameId → PartitionId → Prop) : Prop where
  loaded : ∀ (n : NameId) (p : PartitionId), c.Configures n p →
    ∃ a ∈ l.alis, a.uname = n ∧ a.lastUnit.isGeneric = false
  once : ∀ a ∈ l.alis, a.lastUnit.isCategorized = true → a.lastUnit.isGeneric = false →
    ∃! p, On a.uname p
  collocated : ∀ a ∈ l.alis, a.lastUnit.isCategorized = true → ∀ b ∈ l.alis,
    b.lastUnit.isCategorized = true → parentName a.uname = some b.uname →
    ∀ p, c.Configures a.uname p → On b.uname p
  nonempty : ∀ p ∈ c.declared, ∃ n, c.Configures n p
  mains : ∀ p ∈ c.partitions, ∀ n ∈ p.mainSubprogram, ∃ a ∈ l.alis, a.uname = n ∧ a.isMain = true
  loopless : ∀ x ∈ c.channels, x.1 ≠ x.2
  located : [] ∉ c.locations

/-- No two channels join the same partitions. -/
def DistinctPairs : Prop := c.channels.Pairwise fun x y => ¬ SamePair x y

def DefaultMain : Prop :=
  ∀ n ∈ c.mainSubprogram, ∃ a ∈ l.alis, a.uname = n ∧ a.isMain = true

def Consistent : Prop := Sound c l c.Configures ∧ DistinctPairs c ∧ DefaultMain c l

/-- No two channels have the same upper partition. -/
def DistinctUppers : Prop := c.channels.Pairwise fun x y => max x.1 x.2 ≠ max y.1 y.2

/-- No non generic RCI or SP unit is configured on the partition type. -/
def DefaultUncategorized : Prop := ∀ n, (n, 0) ∈ c.units → l.categorized n = false

/-- No RCI or SP unit bears the name of a partition, of those that have to be configured: all that
are not generic, and the parents of those that are configured. -/
def NamesFree : Prop :=
  ∀ a ∈ l.alis, a.lastUnit.isCategorized = true →
    (a.lastUnit.isGeneric = false ∨ ∃ b ∈ l.alis, b.lastUnit.isCategorized = true ∧
      parentName b.uname = some a.uname ∧ ∃ p, c.Configures b.uname p) →
    a.uname ∉ partitionNames c.partitions

/-- `Analyze` stays in its tables and accepts exactly a consistent configuration. -/
def Meets : Prop := ∃ cus ok, analyze c l = .ok (cus, ok) ∧ (ok = true ↔ Consistent c l)

/-- All the configured units are loaded; and the channels, the partition type and the names of the
partitions are right as far as the checks go just when they are right. -/
def Condition : Prop :=
  (∀ n p, c.Configures n p → (l.find n).isSome = true) ∧
    (Sound c l c.Marks → (DistinctUppers c ∧ DefaultUncategorized c l ↔
      NamesFree c l ∧ DistinctPairs c ∧ DefaultMain c l))

end Consistency

/-! ### Add_Conf_Unit -/

namespace Tables

def pairs (s : Tables) : List (NameId × PartitionId) :=
  s.confUnits.map fun cu => (cu.name, cu.partition)

/-- The Byte field of a name that `x` leaves free is the last partition it was configured on, so that
a name is not configured twice in a row on the same partition. -/
structure Marked (x : NameTable) (s : Tables) : Prop where
  info : ∀ n, s.names.info n = .none
  apart : ∀ u ∈ s.pairs, x.byte u.1 = none
  kept : ∀ n, x.byte n ≠ none → s.names.byte n = x.byte n
  mem : ∀ n p, x.byte n = none → s.names.byte n = some p → (n, p) ∈ s.pairs
  unmarked : ∀ n p, s.names.byte n = none → (n, p) ∉ s.pairs
  once : ∀ n p, (∀ q, (n, q) ∈ s.pairs → q = p) → s.pairs.Pairwise fun u v => u.1 = n → v.1 ≠ n
  unresolved : ∀ cu ∈ s.confUnits, cu.myUnit = none

variable {x : NameTable} {s : Tables}

theorem Marked.addConfUnit (h : s.Marked x) {u : NameId × PartitionId} (hu : x.byte u.1 = none) :
    (s.addConfUnit u).Marked x ∧ ∀ v, v ∈ (s.addConfUnit u).pairs ↔ v ∈ s.pairs ∨ v = u := by
  unfold Tables.addConfUnit
  split
  · next hb =>
    refine ⟨h, fun v => ⟨Or.inl, ?_⟩⟩
    rintro (hv | rfl)
    · exact hv
    · exact h.mem _ _ hu hb
  · next hb =>
    obtain ⟨n, p⟩ := u
    obtain ⟨s', hs'⟩ : ∃ s' : Tables, s' =
        { names := s.names.setByte n (some p)
          confUnits := s.confUnits ++
            [{ name := n, partition := p, myUnit := none, myAli := none }] } := ⟨_, rfl⟩
    have hpairs : s'.pairs = s.pairs ++ [(n, p)] := by rw [hs']; simp [pairs]
    have hself : s'.names.byte n = some p := by rw [hs']; simp [NameTable.setByte]
    have hne : ∀ m, m ≠ n → s'.names.byte m = s.names.byte m := by
      intro m hm
      rw [hs']
      exact Function.update_of_ne hm _ _
    have hmem : ∀ v, v ∈ s'.pairs ↔ v ∈ s.pairs ∨ v = (n, p) := by
      intro v
      rw [hpairs, List.mem_append, List.mem_singleton]
    rw [← hs']
    refine ⟨?_, hmem⟩
    constructor
    · rw [hs']
      exact h.info
    · intro v hv
      rcases (hmem v).mp hv with hv | rfl
      · exact h.apart v hv
      · exact hu
    · intro m hm
      rw [hne m fun he => hm (he ▸ hu)]
      exact h.kept m hm
    · intro m q hfree hm
      rw [hmem]
      by_cases hmn : m = n
      · subst hmn
        rw [hself] at hm
        exact Or.inr (by rw [Option.some.inj hm])
      · rw [hne m hmn] at hm
        exact Or.inl (h.mem m q hfree hm)
    · intro m q hm
      by_cases hmn : m = n
      · subst hmn
        rw [hself] at hm
        cases hm
      · rw [hne m hmn] at hm
        rw [hmem]
        rintro (hv | hv)
        · exact h.unmarked m q hm hv
        · exact hmn (Prod.ext_iff.mp hv).1
    · intro m q hq
      rw [hpairs, List.pairwise_append]
      refine ⟨h.once m q fun r hr => hq r ((hmem _).mpr (Or.inl hr)), List.pairwise_singleton _ _,
        ?_⟩
      rintro ⟨m', r⟩ hr v hv rfl
      rw [List.mem_singleton] at hv
      rintro rfl
      subst hv
      -- Both entries of the name are on the same partition, which its mark excludes.
      have hp : p = q := hq p ((hmem _).mpr (Or.inr rfl))
      cases hbyte : s.names.byte n with
      | none => exact h.unmarked _ _ hbyte hr
      | some p' =>
        have hp' : p' = q := hq p' ((hmem _).mpr (Or.inl (h.mem _ _ hu hbyte)))
        exact hb (by rw [hbyte, hp', hp])
    · intro cu hcu
      rw [hs', List.mem_append, List.mem_singleton] at hcu
      rcases hcu with hcu | rfl
      · exact h.unresolved cu hcu
      · rfl

theorem Marked.foldl : ∀ (us : List (NameId × PartitionId)), (∀ u ∈ us, x.byte u.1 = none) →
    ∀ {s : Tables}, s.Marked x → (us.foldl Tables.addConfUnit s).Marked x ∧
      ∀ v, v ∈ (us.foldl Tables.addConfUnit s).pairs ↔ v ∈ s.pairs ∨ v ∈ us
  | [], _, _, h => ⟨h, fun v => by simp⟩
  | u :: us, hus, s, h => by
    rw [List.forall_mem_cons] at hus
    obtain ⟨hm, hmem⟩ := h.addConfUnit hus.1
    obtain ⟨hm', hmem'⟩ := Marked.foldl us hus.2 hm
    refine ⟨hm', fun v => ?_⟩
    rw [List.foldl_cons, hmem', hmem, List.mem_cons, or_assoc]

/-- The names of the partitions are marked with their positions. -/
theorem createPartition_foldl : ∀ (names : List NameId) (k : Nat) (s : Tables), names.Nodup →
    ((names.zipIdx k).foldl Tables.createPartition s).confUnits = s.confUnits ∧
      ((names.zipIdx k).foldl Tables.createPartition s).names.info = s.names.info ∧
      (∀ n, n ∉ names →
        ((names.zipIdx k).foldl Tables.createPartition s).names.byte n = s.names.byte n) ∧
      ∀ j n, names[j]? = some n →
        ((names.zipIdx k).foldl Tables.createPartition s).names.byte n = some (k + j)
  | [], _, _, _ => ⟨rfl, rfl, fun _ _ => rfl, by simp⟩
  | n :: names, k, s, hnodup => by
    rw [List.nodup_cons] at hnodup
    obtain ⟨hunits, hinfo, hrest, hfound⟩ :=
      createPartition_foldl names (k + 1) (s.createPartition (n, k)) hnodup.2
    rw [List.zipIdx_cons, List.foldl_cons]
    refine ⟨hunits, hinfo, fun m hm => ?_, fun j m hj => ?_⟩
    · rw [List.mem_cons, not_or] at hm
      rw [hrest m hm.2]
      exact Function.update_of_ne hm.1 _ _
    · cases j with
      | zero =>
        obtain rfl : n = m := by simpa using hj
        rw [hrest n hnodup.1]
        exact Function.update_self _ _ _
      | succ j =>
        rw [hfound j m (by simpa using hj), Nat.add_right_comm, Nat.add_assoc]

end Tables

variable {c : Configuration} {l : LoadedUnits}

theorem mem_declared {p : PartitionId} : p ∈ c.declared ↔ 0 < p ∧ p ≤ c.partitions.length := by
  rw [Configuration.declared, List.mem_range'_1, Nat.add_comm, Nat.lt_succ_iff]
  exact Iff.rfl

theorem createPartitions_marked :
    (createPartitions c).Marked (createPartitions c).names ∧ (createPartitions c).pairs = [] ∧
      (∀ n, (createPartitions c).names.byte n = none ↔ n ∉ partitionNames c.partitions) ∧
      ∀ n p, (createPartitions c).names.byte n = some p ↔
        (partitionNames c.partitions)[p]? = some n := by
  obtain ⟨hunits, hinfo, hrest, hfound⟩ := Tables.createPartition_foldl
    (partitionNames c.partitions) 0 { names := NameTable.empty, confUnits := [] } c.nodup
  have hpairs : (createPartitions c).pairs = [] := by
    unfold Tables.pairs createPartitions
    rw [hunits]
    rfl
  have hfree : ∀ n, n ∉ partitionNames c.partitions → (createPartitions c).names.byte n = none :=
    fun n hn => hrest n hn
  have hset : ∀ p n, (partitionNames c.partitions)[p]? = some n →
      (createPartitions c).names.byte n = some p := by
    intro p n hp
    rw [createPartitions, hfound p n hp, Nat.zero_add]
  refine ⟨?_, hpairs, fun n => ⟨fun h hn => ?_, hfree n⟩, fun n p => ⟨fun h => ?_, hset p n⟩⟩
  · constructor
    · exact fun n => congrFun hinfo n
    · simp [hpairs]
    · exact fun _ _ => rfl
    · intro n p hn hp
      rw [hn] at hp
      cases hp
    · simp [hpairs]
    · simp [hpairs]
    · intro cu hcu
      rw [createPartitions, hunits] at hcu
      exact absurd hcu List.not_mem_nil
  · obtain ⟨p, hp⟩ := List.getElem?_of_mem hn
    rw [hset p n hp] at h
    cases h
  · by_cases hn : n ∈ partitionNames c.partitions
    · obtain ⟨q, hq⟩ := List.getElem?_of_mem hn
      rw [hset q n hq, Option.some.injEq] at h
      rwa [← h]
    · rw [hfree n hn] at h
      cases h

/-- A configured unit is not named like a partition. -/
theorem Configuration.Configures.apart {n : NameId} {p : PartitionId} (h : c.Configures n p) :
    n ∉ partitionNames c.partitions := by
  rcases h.2 with hn | hn | ⟨hn, -⟩
  · exact c.units_apart _ hn
  · exact c.units_apart _ hn
  · exact c.pcs_apart n hn

theorem configure_marked : (configure c).Marked (createPartitions c).names ∧
    ∀ n p, (n, p) ∈ (configure c).pairs ↔ c.Configures n p ∨ p = 0 ∧ (n, 0) ∈ c.units := by
  obtain ⟨h0, hnil, hfree, -⟩ := createPartitions_marked (c := c)
  have hunits : ∀ u ∈ c.units, (createPartitions c).names.byte u.1 = none := fun u hu =>
    (hfree u.1).mpr (c.units_apart u hu)
  obtain ⟨h1, m1⟩ := Tables.Marked.foldl c.units hunits h0
  obtain ⟨s1, hs1⟩ : ∃ s1, s1 = c.units.foldl Tables.addConfUnit (createPartitions c) := ⟨_, rfl⟩
  rw [← hs1] at h1 m1
  simp only [hnil, List.not_mem_nil, false_or] at m1
  have hdefault : ∀ u ∈ (s1.confUnits.filter fun cu => cu.partition = 0).flatMap fun cu =>
      c.declared.map fun p => (cu.name, p), u.2 ∈ c.declared ∧ (u.1, 0) ∈ c.units := by
    intro u hu
    simp only [List.mem_flatMap, List.mem_filter, decide_eq_true_eq, List.mem_map] at hu
    obtain ⟨cu, ⟨hcu, h0⟩, q, hq, rfl⟩ := hu
    exact ⟨hq, (m1 _).mp (List.mem_map.mpr ⟨cu, hcu, by rw [h0]⟩)⟩
  obtain ⟨h2, m2⟩ := Tables.Marked.foldl _ (fun u hu => hunits (u.1, 0) (hdefault u hu).2) h1
  obtain ⟨s2, hs2⟩ : ∃ s2, s2 = ((s1.confUnits.filter fun cu => cu.partition = 0).flatMap fun cu =>
    c.declared.map fun p => (cu.name, p)).foldl Tables.addConfUnit s1 := ⟨_, rfl⟩
  rw [← hs2] at h2 m2
  have hconf : configure c = c.pcsConfUnit.elim s2 fun u => s2.addConfUnit (u, c.mainPartition) := by
    rw [hs2, hs1, configure]
    cases c.pcsConfUnit <;> rfl
  have m3 : ∀ n p, (n, p) ∈ s2.pairs ↔
      (n, p) ∈ c.units ∨ p ∈ c.declared ∧ (n, 0) ∈ c.units := by
    intro n p
    rw [m2, m1]
    refine or_congr Iff.rfl ⟨hdefault (n, p), fun h => ?_⟩
    obtain ⟨cu, hcu, he⟩ := List.mem_map.mp ((m1 _).mpr h.2)
    simp only [Prod.mk.injEq] at he
    simp only [List.mem_flatMap, List.mem_filter, decide_eq_true_eq, List.mem_map,
      Prod.mk.injEq]
    exact ⟨cu, ⟨hcu, he.2⟩, p, h.1, he.1, rfl⟩
  have m4 : (configure c).Marked (createPartitions c).names ∧
      ∀ n p, (n, p) ∈ (configure c).pairs ↔
        (n, p) ∈ s2.pairs ∨ c.pcsConfUnit = some n ∧ p = c.mainPartition := by
    rw [hconf]
    cases hpcs : c.pcsConfUnit with
    | none => exact ⟨h2, fun n p => by simp⟩
    | some u =>
      obtain ⟨h, m⟩ := h2.addConfUnit (u := (u, c.mainPartition))
        ((hfree u).mpr (c.pcs_apart u hpcs))
      refine ⟨h, fun n p => ?_⟩
      rw [Option.elim_some, m, Prod.mk.injEq, Option.some.injEq, eq_comm (a := u)]
  refine ⟨m4.1, fun n p => ?_⟩
  rw [m4.2, m3]
  constructor
  · rintro ((hu | ⟨hp, hn⟩) | ⟨hn, rfl⟩)
    · have := c.units_declared _ hu
      by_cases hp : p = 0
      · subst hp
        exact Or.inr ⟨rfl, hu⟩
      · exact Or.inl ⟨mem_declared.mpr ⟨Nat.pos_of_ne_zero hp, this⟩, Or.inl hu⟩
    · exact Or.inl ⟨hp, Or.inr (Or.inl hn)⟩
    · exact Or.inl ⟨mem_declared.mpr c.main_declared, Or.inr (Or.inr ⟨hn, rfl⟩)⟩
  · rintro (⟨hp, hu | hn | hn⟩ | ⟨rfl, hu⟩)
    · exact Or.inl (Or.inl hu)
    · exact Or.inl (Or.inr ⟨hp, hn⟩)
    · exact Or.inr hn
    · exact Or.inl (Or.inl hu)

/-! ### The name table of the checks -/

/-- The Info field of a name leads to its unit. -/
def Prepared (l : LoadedUnits) (x : NameTable) : Prop :=
  ∀ n, (l.find n = none ∧ x.info n = .none) ∨
    ∃ a j, l.find n = some a ∧ x.info n = .ali j ∧ l.alis[j]? = some a

theorem LoadedUnits.find_eq_some {n : NameId} {a : AliRecord} :
    l.find n = some a ↔ a ∈ l.alis ∧ a.uname = n := by
  unfold LoadedUnits.find
  refine ⟨fun h => ⟨List.mem_of_find?_eq_some h, by simpa using List.find?_some h⟩, ?_⟩
  rintro ⟨ha, rfl⟩
  cases hf : l.alis.find? fun b => b.uname = a.uname with
  | none => simpa using List.find?_eq_none.mp hf a ha
  | some b =>
    have hb : b.uname = a.uname := by simpa using List.find?_some hf
    rw [List.inj_on_of_nodup_map l.nodup (List.mem_of_find?_eq_some hf) ha hb]

theorem info_foldl (n : NameId) : ∀ (as : List AliRecord) (k : Nat) (x : NameTable),
    (as.map AliRecord.uname).Nodup →
    ((∀ a ∈ as, a.uname ≠ n) →
      ((as.zipIdx k).foldl (fun x a => x.setInfo a.1.uname (.ali a.2)) x).info n = x.info n) ∧
    ∀ (j : Nat) (a : AliRecord), as[j]? = some a → a.uname = n →
      ((as.zipIdx k).foldl (fun x a => x.setInfo a.1.uname (.ali a.2)) x).info n = .ali (k + j)
  | [], _, _, _ => ⟨fun _ => rfl, by simp⟩
  | a :: as, k, x, hnodup => by
    rw [List.map_cons, List.nodup_cons] at hnodup
    obtain ⟨hrest, hfound⟩ := info_foldl n as (k + 1) (x.setInfo a.uname (.ali k)) hnodup.2
    rw [List.zipIdx_cons, List.foldl_cons]
    constructor
    · intro hne
      rw [hrest fun b hb => hne b (List.mem_cons_of_mem _ hb)]
      exact Function.update_of_ne (hne a List.mem_cons_self).symm _ _
    · intro j b hj hb
      cases j with
      | zero =>
        obtain rfl : a = b := by simpa using hj
        rw [hrest, ← hb]
        · exact Function.update_self _ _ _
        · rintro d hd rfl
          exact hnodup.1 (List.mem_map.mpr ⟨d, hd, hb.symm ▸ rfl⟩)
      | succ j =>
        rw [hfound j b (by simpa using hj) hb, Nat.add_right_comm, Nat.add_assoc]

theorem info_alis_byte (as : List AliRecord) (k : Nat) (x : NameTable) (n : NameId) :
    ((as.zipIdx k).foldl (fun x a => x.setInfo a.1.uname (.ali a.2)) x).byte n = x.byte n := by
  induction as generalizing k x with
  | nil => rfl
  | cons a as ih =>
    rw [List.zipIdx_cons, List.foldl_cons, ih]
    rfl

theorem reset_foldl (n : NameId) : ∀ (cus : List ConfUnit) (x : NameTable),
    (x.info n = .none →
      (cus.foldl (fun x cu => (x.setInfo cu.name .none).setByte cu.name none) x).info n = .none) ∧
    (x.byte n = none ∨ (∃ cu ∈ cus, cu.name = n) →
      (cus.foldl (fun x cu => (x.setInfo cu.name .none).setByte cu.name none) x).byte n = none) ∧
    ((∀ cu ∈ cus, cu.name ≠ n) →
      (cus.foldl (fun x cu => (x.setInfo cu.name .none).setByte cu.name none) x).byte n = x.byte n)
  | [], x => ⟨id, by simp, fun _ => rfl⟩
  | cu :: cus, x => by
    obtain ⟨hinfo, hbyte, hkept⟩ :=
      reset_foldl n cus ((x.setInfo cu.name .none).setByte cu.name none)
    rw [List.foldl_cons]
    refine ⟨fun h => hinfo ?_, fun h => hbyte ?_, fun h => ?_⟩
    · by_cases hn : n = cu.name
      · rw [hn]
        exact Function.update_self _ _ _
      · exact (Function.update_of_ne hn _ _).trans h
    · by_cases hn : n = cu.name
      · refine Or.inl ?_
        rw [hn]
        exact Function.update_self _ _ _
      · rcases h with h | ⟨cu', hcu', hn'⟩
        · exact Or.inl ((Function.update_of_ne hn _ _).trans h)
        · rcases List.mem_cons.mp hcu' with rfl | hcu'
          · exact absurd hn'.symm hn
          · exact Or.inr ⟨cu', hcu', hn'⟩
    · rw [List.forall_mem_cons] at h
      rw [hkept h.2]
      exact Function.update_of_ne h.1.symm _ _

theorem prepare_prepared {x : NameTable} {s : Tables} (h : s.Marked x) :
    Prepared l (prepare l s) ∧ ∀ n, (prepare l s).byte n = x.byte n := by
  unfold prepare
  constructor
  · intro n
    obtain ⟨hrest, hfound⟩ := info_foldl n l.alis 0
      (s.confUnits.foldl (fun x cu => (x.setInfo cu.name .none).setByte cu.name none) s.names)
      l.nodup
    cases hf : l.find n with
    | none =>
      refine Or.inl ⟨rfl, ?_⟩
      have hne : ∀ a ∈ l.alis, a.uname ≠ n := fun a ha hn => by
        rw [LoadedUnits.find_eq_some.mpr ⟨ha, hn⟩] at hf
        cases hf
      exact (hrest hne).trans ((reset_foldl n _ _).1 (h.info n))
    | some a =>
      obtain ⟨ha, hn⟩ := LoadedUnits.find_eq_some.mp hf
      obtain ⟨j, hj⟩ := List.getElem?_of_mem ha
      refine Or.inr ⟨a, j, rfl, ?_, hj⟩
      rw [hfound j a hj hn, Nat.zero_add]
  · intro n
    rw [info_alis_byte]
    obtain ⟨-, hreset, hkept⟩ := reset_foldl n s.confUnits s.names
    cases hn : x.byte n with
    | none =>
      refine hreset ?_
      cases hb : s.names.byte n with
      | none => exact Or.inl rfl
      | some p =>
        obtain ⟨cu, hcu, he⟩ := List.mem_map.mp (h.mem n p hn hb)
        exact Or.inr ⟨cu, hcu, (Prod.ext_iff.mp he).1⟩
    | some p =>
      have hapart : ∀ cu ∈ s.confUnits, cu.name ≠ n := by
        rintro cu hcu rfl
        have := h.apart _ (List.mem_map.mpr ⟨cu, hcu, rfl⟩)
        rw [hn] at this
        cases this
      rw [hkept hapart, h.kept n (by simp [hn]), hn]

/-! ### The first loop -/

def resolve (l : LoadedUnits) (x : NameTable) (cu : ConfUnit) : ConfUnit :=
  match l.find cu.name, x.info cu.name with
  | some a, .ali j => { cu with myUnit := some a.lastUnit, myAli := some j }
  | _, _ => cu

theorem resolve_name (x : NameTable) (cu : ConfUnit) : (resolve l x cu).name = cu.name := by
  unfold resolve
  split <;> rfl

theorem resolve_partition (x : NameTable) (cu : ConfUnit) :
    (resolve l x cu).partition = cu.partition := by
  unfold resolve
  split <;> rfl

theorem resolve_myUnit {x : NameTable} (hx : Prepared l x) {cu : ConfUnit}
    (hcu : cu.myUnit = none) :
    (resolve l x cu).myUnit = (l.find cu.name).map AliRecord.lastUnit := by
  unfold resolve
  rcases hx cu.name with ⟨hf, -⟩ | ⟨a, j, hf, hi, -⟩
  · rw [hf]
    exact hcu
  · rw [hf, hi]
    rfl

/-- The units of the list are loaded and not generic, and no RCI or SP unit is marked or comes
twice. -/
def Unassigned (l : LoadedUnits) (x : NameTable) (cus : List ConfUnit) : Prop :=
  (∀ cu ∈ cus, ∃ a, l.find cu.name = some a ∧ a.lastUnit.isGeneric = false) ∧
    (∀ cu ∈ cus, l.categorized cu.name = true → x.byte cu.name = none) ∧
    cus.Pairwise fun cu cu' => l.categorized cu.name = true → cu.name ≠ cu'.name

def mark (l : LoadedUnits) (x : NameTable) (cu : ConfUnit) : NameTable :=
  if l.categorized cu.name = true then x.setByte cu.name (some cu.partition) else x

theorem detectMultiplyAssignedConfUnit_eq {x : NameTable} (hx : Prepared l x) (cu : ConfUnit) :
    ∃ once, detectMultiplyAssignedConfUnit l x cu = .ok (resolve l x cu, mark l x cu, once) ∧
      ∀ a, l.find cu.name = some a → (once = true ↔
        a.lastUnit.isGeneric = false ∧ (l.categorized cu.name = true → x.byte cu.name = none)) := by
  unfold detectMultiplyAssignedConfUnit NameTable.getAliId resolve mark LoadedUnits.categorized
  rcases hx cu.name with ⟨hf, hi⟩ | ⟨a, j, hf, hi, hj⟩
  · refine ⟨true, ?_, fun a ha => ?_⟩
    · rw [hf, hi]
      rfl
    · rw [hf] at ha
      cases ha
  · rw [hf, hi]
    have ht : l.table j = .ok a := by
      unfold LoadedUnits.table
      rw [hj]
    simp only [ht, Checked.bind_ok, Checked.pure_eq, Option.any_some, Option.some.injEq,
      forall_eq']
    by_cases hg : a.lastUnit.isGeneric = true
    · exact ⟨false, by simp [hg], by simp [hg]⟩
    · by_cases hc : a.lastUnit.isCategorized = true
      · exact ⟨(x.byte cu.name).isNone, by simp [hg, hc], by simp [hg, hc]⟩
      · exact ⟨true, by simp [hg, hc], by simp [hg, hc]⟩

theorem prepared_mark {x : NameTable} (hx : Prepared l x) (cu : ConfUnit) :
    Prepared l (mark l x cu) ∧ ∀ cu', resolve l (mark l x cu) cu' = resolve l x cu' := by
  have : (mark l x cu).info = x.info := by
    unfold mark
    split <;> rfl
  exact ⟨fun n => by rw [this]; exact hx n, fun cu' => by unfold resolve; rw [this]⟩

theorem mark_byte_of_ne (x : NameTable) (cu : ConfUnit) {n : NameId} (h : n ≠ cu.name) :
    (mark l x cu).byte n = x.byte n := by
  unfold mark
  split
  · exact Function.update_of_ne h _ _
  · rfl

theorem mark_byte_self (x : NameTable) (cu : ConfUnit) (h : l.categorized cu.name = true) :
    (mark l x cu).byte cu.name = some cu.partition := by
  unfold mark
  rw [if_pos h]
  exact Function.update_self _ _ _

theorem unassigned_cons {x : NameTable} {cu : ConfUnit} {cus : List ConfUnit} :
    Unassigned l x (cu :: cus) ↔
      (∃ a, l.find cu.name = some a ∧ a.lastUnit.isGeneric = false) ∧
        (l.categorized cu.name = true → x.byte cu.name = none) ∧
        Unassigned l (mark l x cu) cus := by
  unfold Unassigned
  simp only [List.forall_mem_cons, List.pairwise_cons]
  constructor
  · rintro ⟨⟨hl, hls⟩, ⟨hb, hbs⟩, hp, hps⟩
    refine ⟨hl, hb, hls, fun cu' hcu' hc => ?_, hps⟩
    rw [mark_byte_of_ne x cu fun he => hp cu' hcu' (he ▸ hc) he.symm]
    exact hbs cu' hcu' hc
  · rintro ⟨hl, hb, hls, hbs, hps⟩
    have hne : ∀ cu' ∈ cus, l.categorized cu.name = true → cu.name ≠ cu'.name := by
      intro cu' hcu' hc he
      have := hbs cu' hcu' (he ▸ hc)
      rw [← he, mark_byte_self x cu hc] at this
      cases this
    refine ⟨⟨hl, hls⟩, ⟨hb, fun cu' hcu' hc => ?_⟩, hne, hps⟩
    by_cases he : cu.name = cu'.name
    · exact absurd he (hne cu' hcu' (he ▸ hc))
    · rw [← mark_byte_of_ne x cu (Ne.symm he)]
      exact hbs cu' hcu' hc

theorem checkConfUnits_eq : ∀ (cus : List ConfUnit) {x : NameTable}, Prepared l x →
    ∃ ok, checkConfUnits l cus x =
        .ok (cus.map (resolve l x), cus.foldl (mark l) x, ok) ∧
      (ok = true ↔ Unassigned l x cus)
  | [], x, _ => ⟨true, rfl, by simp [Unassigned]⟩
  | cu :: cus, x, hx => by
    obtain ⟨hx', hresolve⟩ := prepared_mark hx cu
    obtain ⟨ok, hrest, hok⟩ := checkConfUnits_eq cus hx'
    obtain ⟨once, hmult, honce⟩ := detectMultiplyAssignedConfUnit_eq hx cu
    have hada : detectNonAdaConfUnit x cu = .ok (l.find cu.name).isSome := by
      unfold detectNonAdaConfUnit NameTable.getAliId
      rcases hx cu.name with ⟨hf, hi⟩ | ⟨a, j, hf, hi, -⟩ <;> rw [hf, hi] <;> rfl
    refine ⟨(l.find cu.name).isSome && once && ok, ?_, ?_⟩
    · rw [checkConfUnits, hada, Checked.bind_ok, hmult]
      show (checkConfUnits l cus (mark l x cu) >>= _) = _
      rw [hrest, List.map_cons, List.foldl_cons, funext hresolve]
      rfl
    · rw [Bool.and_eq_true, Bool.and_eq_true, hok, unassigned_cons, and_assoc]
      cases hf : l.find cu.name with
      | none => simp
      | some a =>
        simp only [Option.isSome_some, true_and, honce a hf, Option.some.injEq, exists_eq_left']
        rw [and_assoc]

theorem marks_foldl : ∀ (cus : List ConfUnit) {x : NameTable}, Unassigned l x cus →
    (∀ cu ∈ cus, l.categorized cu.name = true →
      (cus.foldl (mark l) x).byte cu.name = some cu.partition) ∧
    ∀ n, (∀ cu ∈ cus, cu.name ≠ n) → (cus.foldl (mark l) x).byte n = x.byte n
  | [], _, _ => ⟨by simp, fun _ _ => rfl⟩
  | cu :: cus, x, h => by
    have hne := (List.pairwise_cons.mp h.2.2).1
    obtain ⟨hself, hrest⟩ := marks_foldl cus (unassigned_cons.mp h).2.2
    rw [List.foldl_cons]
    refine ⟨?_, fun n hn => ?_⟩
    · intro cu' hcu' hc
      rcases List.mem_cons.mp hcu' with rfl | hcu'
      · rw [hrest _ fun cu'' hcu'' he => hne cu'' hcu'' hc he.symm]
        exact mark_byte_self x _ hc
      · exact hself cu' hcu' hc
    · rw [hrest n fun cu' hcu' => hn cu' (List.mem_cons_of_mem _ hcu')]
      exact mark_byte_of_ne x cu (hn cu List.mem_cons_self).symm

end PolyORB.Gnatdist
