import PolyORB.Gnatdist.Acceptance

/-!
# The order of a configuration

A consistent configuration stays consistent when its units, partitions, channels and locations are
given in another order, and so does its outcome where `Analyze` accepts what is consistent.
-/

namespace PolyORB.Gnatdist

/-- The same configuration in another order, `σ` being the new numbers of the partitions. -/
structure Reordered (c c' : Configuration) (σ : Equiv.Perm Nat) : Prop where
  default : σ 0 = 0
  partitions : ∀ p, 0 < p → c'.partitions[σ p - 1]? = c.partitions[p - 1]?
  mainSubprogram : c'.mainSubprogram = c.mainSubprogram
  units : c'.units.Perm (c.units.map (Prod.map id σ))
  pcsConfUnit : c'.pcsConfUnit = c.pcsConfUnit
  mainPartition : c'.mainPartition = σ c.mainPartition
  channels : c'.channels.Perm (c.channels.map (Prod.map σ σ))
  locations : c'.locations.Perm c.locations

variable {c c' : Configuration} {l l' : LoadedUnits} {σ : Equiv.Perm Nat}

theorem mem_declared_iff {p : PartitionId} :
    p ∈ c.declared ↔ 0 < p ∧ c.partitions[p - 1]?.isSome = true := by
  rw [mem_declared]
  refine and_congr_right fun hp => ?_
  rw [Option.isSome_iff_ne_none, ne_eq, List.getElem?_eq_none_iff, not_le]
  exact ⟨fun h => (Nat.sub_lt hp Nat.one_pos).trans_le h, Nat.le_of_pred_lt⟩

namespace Reordered

theorem pos_iff (h : Reordered c c' σ) (p : Nat) : 0 < σ p ↔ 0 < p := by
  rw [Nat.pos_iff_ne_zero, Nat.pos_iff_ne_zero, ← h.default, σ.injective.ne_iff, h.default]

theorem declared (h : Reordered c c' σ) (p : Nat) : σ p ∈ c'.declared ↔ p ∈ c.declared := by
  rw [mem_declared_iff, mem_declared_iff, h.pos_iff]
  exact and_congr_right fun hp => by rw [h.partitions p hp]

theorem mem_units (h : Reordered c c' σ) (n : NameId) (p : Nat) :
    (n, σ p) ∈ c'.units ↔ (n, p) ∈ c.units := by
  rw [h.units.mem_iff]
  show Prod.map id σ (n, p) ∈ c.units.map (Prod.map id σ) ↔ _
  exact List.mem_map_of_injective (Function.injective_id.prodMap σ.injective)

theorem configures (h : Reordered c c' σ) (n : NameId) (p : Nat) :
    c'.Configures n (σ p) ↔ c.Configures n p := by
  unfold Configuration.Configures
  rw [h.declared, h.mem_units, ← h.mem_units n 0, h.default, h.pcsConfUnit, h.mainPartition,
    σ.injective.eq_iff]

theorem mem_partitions (h : Reordered c c' σ) (r : PartitionRecord) :
    r ∈ c'.partitions ↔ r ∈ c.partitions := by
  have hmem : ∀ (d : Configuration), r ∈ d.partitions ↔
      ∃ p : Nat, 0 < p ∧ d.partitions[p - 1]? = some r := by
    intro d
    rw [List.mem_iff_getElem?]
    exact ⟨fun ⟨j, hj⟩ => ⟨j + 1, Nat.succ_pos j, hj⟩, fun ⟨p, _, hp⟩ => ⟨p - 1, hp⟩⟩
  rw [hmem, hmem, σ.surjective.exists]
  refine exists_congr fun p => ?_
  rw [h.pos_iff]
  exact and_congr_right fun hp => by rw [h.partitions p hp]

theorem sound (h : Reordered c c' σ) (hl : l.alis.Perm l'.alis) (hs : Sound c l c.Configures) :
    Sound c' l' c'.Configures := by
  constructor
  · intro n p hp
    obtain ⟨p, rfl⟩ := σ.surjective p
    obtain ⟨a, ha, hn⟩ := hs.loaded n p ((h.configures n p).mp hp)
    exact ⟨a, hl.mem_iff.mp ha, hn⟩
  · intro a ha hc hg
    exact (σ.existsUnique_congr fun p => (h.configures a.uname p).symm).mp
      (hs.once a (hl.mem_iff.mpr ha) hc hg)
  · intro a ha hc b hb hcb hp p hconf
    obtain ⟨p, rfl⟩ := σ.surjective p
    exact (h.configures _ _).mpr (hs.collocated a (hl.mem_iff.mpr ha) hc b (hl.mem_iff.mpr hb) hcb
      hp p ((h.configures _ _).mp hconf))
  · intro p hp
    obtain ⟨p, rfl⟩ := σ.surjective p
    obtain ⟨n, hn⟩ := hs.nonempty p ((h.declared p).mp hp)
    exact ⟨n, (h.configures n p).mpr hn⟩
  · intro r hr n hn
    obtain ⟨a, ha, hm⟩ := hs.mains r ((h.mem_partitions r).mp hr) n hn
    exact ⟨a, hl.mem_iff.mp ha, hm⟩
  · intro x hx
    obtain ⟨y, hy, rfl⟩ := List.mem_map.mp (h.channels.mem_iff.mp hx)
    exact σ.injective.ne (hs.loopless y hy)
  · rw [h.locations.mem_iff]
    exact hs.located

theorem distinctPairs (h : Reordered c c' σ) (hs : DistinctPairs c) : DistinctPairs c' := by
  unfold DistinctPairs at hs ⊢
  rw [h.channels.pairwise_iff fun {x y} hxy hyx => hxy (hyx.imp Eq.symm fun he => by
    rw [he, Prod.swap_swap]), List.pairwise_map]
  refine hs.imp fun {x y} hxy hmap => hxy (hmap.imp (fun he => ?_) fun he => ?_)
  · exact σ.injective.prodMap σ.injective he
  · exact σ.injective.prodMap σ.injective he

theorem symm (h : Reordered c c' σ) : Reordered c' c σ.symm := by
  have hd : σ.symm 0 = 0 := σ.symm_apply_eq.mpr h.default.symm
  have hcancel : ∀ p, σ (σ.symm p) = p := σ.apply_symm_apply
  constructor
  · exact hd
  · intro p hp
    have hp' : 0 < σ.symm p := (h.pos_iff _).mp (by rwa [hcancel])
    rw [← h.partitions _ hp', hcancel]
  · exact h.mainSubprogram.symm
  · have := (h.units.map (Prod.map id σ.symm)).symm
    rwa [List.map_map, Prod.map_comp_map, σ.symm_comp_self, Function.comp_id, Prod.map_id,
      List.map_id] at this
  · exact h.pcsConfUnit.symm
  · rw [h.mainPartition, σ.symm_apply_apply]
  · have := (h.channels.map (Prod.map σ.symm σ.symm)).symm
    rwa [List.map_map, Prod.map_comp_map, σ.symm_comp_self, Prod.map_id, List.map_id] at this
  · exact h.locations.symm

theorem consistent_iff (h : Reordered c c' σ) (hl : l.alis.Perm l'.alis) :
    Consistent c' l' ↔ Consistent c l := by
  have himp : ∀ {d d' : Configuration} {m m' : LoadedUnits} {τ : Equiv.Perm Nat},
      Reordered d d' τ → m.alis.Perm m'.alis → Consistent d m → Consistent d' m' := by
    rintro d d' m m' τ hd hm ⟨hs, hp, hmain⟩
    refine ⟨hd.sound hm hs, hd.distinctPairs hp, fun n hn => ?_⟩
    obtain ⟨a, ha, hmain⟩ := hmain n (hd.mainSubprogram ▸ hn)
    exact ⟨a, hm.mem_iff.mp ha, hmain⟩
  exact ⟨himp h.symm hl.symm, himp h hl⟩

end Reordered

/-- Three partitions of one unit, with a channel from each of the first two to the last. -/
def sharedUpper : Configuration where
  mainSubprogram := none
  partitions := [⟨['a'], none⟩, ⟨['b'], none⟩, ⟨['c'], none⟩]
  units := [(['u'], 1), (['u'], 2), (['u'], 3)]
  pcsConfUnit := none
  mainPartition := 1
  channels := [(1, 3), (2, 3)]
  locations := []
  nodup := by decide
  units_apart := by decide
  pcs_apart := by simp
  units_declared := by decide
  main_declared := by decide
  channels_declared := by decide

def normalUnit : LoadedUnits where
  alis := [{
    afile := ['u', '.', 'a', 'l', 'i']
    uname := ['u']
    tasking := .noTasking
    units := [⟨false, false, false, false, []⟩]
    isMain := false
    units_ne := by simp }]
  nodup := by decide
  files_nodup := by decide
  no_number_sign := by decide

end PolyORB.Gnatdist
