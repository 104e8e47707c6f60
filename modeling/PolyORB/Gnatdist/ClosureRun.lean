import PolyORB.Gnatdist.Stubs

/-!
# The closures of an accepted configuration

The stubs, the most recent stamp and the tasking of each partition follow the withed units, when no
ALI file that is looked up is named like another loaded unit.
-/

namespace PolyORB.Gnatdist

variable {c : Configuration} {l : LoadedUnits} {cus : List ConfUnit}

def ConfiguredOn (c : Configuration) (l : LoadedUnits) (p : PartitionId) (a : AliRecord) : Prop :=
  a ∈ l.alis ∧ c.Configures a.uname p

/-- An accepted configuration leads to loaded units only. -/
theorem resolved_of_accepted (h : analyze c l = .ok (cus, true)) :
    Resolved l cus ∧ (∀ p ∈ c.declared, Rooted l cus p = ConfiguredOn c l p) ∧
      (∀ q a, Rooted l cus q a → ∃ p ∈ c.declared, ConfiguredOn c l p a) ∧
      ∀ p ∈ c.declared, ∃ a, ConfiguredOn c l p a := by
  obtain ⟨hok, herror⟩ := analyze_eq (c := c) (l := l)
  have hloaded : ∀ n p, c.Configures n p → (l.find n).isSome = true := by
    intro n p hp
    cases hf : l.find n with
    | none => exact absurd h (herror ⟨n, p, hp, hf⟩ _)
    | some a => rfl
  obtain ⟨ok, hanalyze, hsound⟩ := hok hloaded
  obtain ⟨rfl, rfl⟩ := Prod.mk.inj (Checked.ok_inj h hanalyze)
  obtain ⟨hsound, -⟩ := hsound.mp rfl
  obtain ⟨hx, -⟩ := prepare_prepared (l := l) configure_marked.1
  refine ⟨?_, ?_, ?_, fun p hp => ?_⟩
  · intro cu' hcu'
    obtain ⟨cu, hcu, rfl⟩ := List.mem_map.mp hcu'
    obtain ⟨p, hp⟩ := exists_configures hcu
    rcases hx cu.name with ⟨hf, -⟩ | ⟨a, j, hf, hi, hj⟩
    · have := hloaded _ p hp
      rw [hf] at this
      cases this
    · obtain ⟨ha, hn⟩ := LoadedUnits.find_eq_some.mp hf
      refine ⟨a, ha, hn.trans (resolve_name _ _).symm, ?_⟩
      unfold LoadedUnits.root resolve LoadedUnits.table
      rw [hf, hi]
      dsimp only
      rw [hj]
      rfl
  · intro p hp
    refine funext fun a => propext (and_congr_right fun _ => ?_)
    have hpairs := configure_pairs (c := c) a.uname p
    rw [or_iff_left fun h => (mem_declared.mp hp).1.ne' h.1] at hpairs
    rw [← hpairs]
    simp only [List.mem_map, exists_exists_and_eq_and, resolve_name, resolve_partition,
      Prod.mk.injEq]
    exact exists_congr fun cu => and_congr_right fun _ => And.comm
  · rintro q a ⟨ha, cu', hcu', -, hn⟩
    obtain ⟨cu, hcu, rfl⟩ := List.mem_map.mp hcu'
    obtain ⟨p, hp⟩ := exists_configures hcu
    rw [resolve_name] at hn
    exact ⟨p, hp.1, ha, hn ▸ hp⟩
  · obtain ⟨n, hn⟩ := hsound.nonempty p hp
    obtain ⟨a, ha, rfl, -⟩ := hsound.loaded n p hn
    exact ⟨a, ha, hn⟩

/-- No ALI file that is looked up from the partitions is named like another loaded unit. -/
def LookupsApart (c : Configuration) (l : LoadedUnits) : Prop :=
  ∀ p ∈ c.declared, (∀ a, ConfiguredOn c l p a → l.Apart a.afile) ∧
    FilesApart l (ConfiguredOn c l p)

section ClosureRight

variable {τ : Type} [LinearOrder τ] (c) (l) (stamp : NameId → τ) (t₀ t : PartitionId → TaskingType)
  (s : StubTable) (p : PartitionId)

/-- The stubs, the stamp and the tasking of a partition are those of its closure. -/
structure ClosureRight : Prop where
  nodup : (s.stubsOf p).Nodup
  stubs : ∀ n, n ∈ s.stubsOf p ↔
    ∃ a, Explored l (ConfiguredOn c l p) a ∧ IsStub (ConfiguredOn c l p) a ∧ a.uname = n
  stamp : ∃ f, s.mostRecent p = some f ∧
    IsGreatest {t | ∃ a, Explored l (ConfiguredOn c l p) a ∧ t = stamp a.afile} (stamp f)
  tasking : p ≠ c.mainPartition → IsGreatest (insert (t₀ p)
    {t | ∃ a, (∃ r, ConfiguredOn c l p r ∧ Relation.ReflTransGen l.Brings r a) ∧
      t = a.assignUnitTasking}) (t p)

end ClosureRight

/-- The partitions before the stubs are looked for. -/
def StubTable.initial : StubTable :=
  { stubs := []
    firstStub := fun _ => 0
    lastStub := fun _ => 0
    mostRecent := fun _ => none }

theorem lookupsApart_of_files (h : ∀ a ∈ l.alis, ∀ f ∈ a.afile :: a.withedFiles, l.Apart f) :
    LookupsApart c l := by
  refine fun p _ => ⟨fun a ha => h a ha.1 _ List.mem_cons_self, fun a hexplored _ f hf => ?_⟩
  obtain ⟨r, hr, hreach⟩ := hexplored
  have ha : a ∈ l.alis := by
    rcases Relation.ReflTransGen.cases_tail hreach with rfl | ⟨b, -, hb⟩
    · exact hr.1
    · exact hb.2.1
  exact h a ha f (List.mem_cons_of_mem _ hf)

def aliRecord (afile uname : String) (rci isMain : Bool) (withs : List String) : AliRecord where
  afile := afile.toList
  uname := uname.toList
  tasking := .noTasking
  units := [⟨rci, false, false, false, withs.map String.toList⟩]
  isMain := isMain
  units_ne := by simp

/-- A main program on the first partition and a server on the second one. -/
def clientAndServer : Configuration where
  mainSubprogram := none
  partitions := [⟨"client".toList, some "main".toList⟩, ⟨"server".toList, none⟩]
  units := [("main".toList, 1), ("srv".toList, 2)]
  pcsConfUnit := none
  mainPartition := 1
  channels := []
  locations := []
  nodup := by decide
  units_apart := by decide
  pcs_apart := by simp
  units_declared := by decide
  main_declared := by decide
  channels_declared := by decide

/-- The main program reaches the server through `foo`. -/
def throughFoo : LoadedUnits where
  alis := [aliRecord "main.ali" "main" false true ["foo.ali"],
    aliRecord "foo.ali" "foo" false false ["srv.ali"], aliRecord "srv.ali" "srv" true false []]
  nodup := by decide
  files_nodup := by decide
  no_number_sign := by decide

/-- The same units with a child package `foo.ali`, whose name is that of the ALI file of `foo`. -/
def childNamedAli : LoadedUnits where
  alis := [aliRecord "main.ali" "main" false true ["foo.ali", "foo-ali.ali"],
    aliRecord "foo.ali" "foo" false false ["srv.ali"],
    aliRecord "foo-ali.ali" "foo.ali" false false [], aliRecord "srv.ali" "srv" true false []]
  nodup := by decide
  files_nodup := by decide
  no_number_sign := by decide

end PolyORB.Gnatdist
