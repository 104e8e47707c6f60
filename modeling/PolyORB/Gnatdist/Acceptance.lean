import PolyORB.Gnatdist.Consistency

/-!
# The configurations that are accepted

What each check finds in the tables, and from it when `Analyze` accepts exactly the consistent
configurations.
-/

namespace PolyORB.Gnatdist

variable {c : Configuration} {l : LoadedUnits}

section CheckAll

variable {α : Type} {f : α → Except Exn Bool}

theorem checkAll_ok : ∀ (as : List α), (∀ a ∈ as, ∃ b, f a = .ok b) →
    ∃ b, checkAll f as = .ok b ∧ (b = true ↔ ∀ a ∈ as, f a = .ok true)
  | [], _ => ⟨true, rfl, by simp⟩
  | a :: as, h => by
    rw [List.forall_mem_cons] at h
    obtain ⟨⟨b, hb⟩, hrest⟩ := h
    obtain ⟨bs, hbs, hiff⟩ := checkAll_ok as hrest
    refine ⟨b && bs, ?_, ?_⟩
    · rw [checkAll, hb, Checked.bind_ok, hbs]
      rfl
    · rw [Bool.and_eq_true, hiff, List.forall_mem_cons, hb, Except.ok.injEq]

theorem checkAll_error {a : α} {e : Exn} (h : f a = .error e) : ∀ (as : List α), a ∈ as →
    ∀ b, checkAll f as ≠ .ok b
  | a' :: as, ha, b, hb => by
    rw [checkAll, Checked.bind_eq_ok] at hb
    obtain ⟨b', hb', hb⟩ := hb
    rw [Checked.bind_eq_ok] at hb
    obtain ⟨bs, hbs, -⟩ := hb
    rcases List.mem_cons.mp ha with rfl | ha
    · rw [h] at hb'
      cases hb'
    · exact checkAll_error h as ha bs hbs

end CheckAll

/-! ### The checks of the units -/

theorem prepared_foldl : ∀ (cus : List ConfUnit) {x : NameTable}, Prepared l x →
    Prepared l (cus.foldl (mark l) x) ∧ (cus.foldl (mark l) x).info = x.info
  | [], _, hx => ⟨hx, rfl⟩
  | cu :: cus, x, hx => by
    obtain ⟨hp, hi⟩ := prepared_foldl cus (prepared_mark hx cu).1
    refine ⟨hp, hi.trans ?_⟩
    unfold mark
    split <;> rfl

theorem detectNonCollocated_eq {y : NameTable} (hy : Prepared l y) {cu : ConfUnit}
    {u : UnitRecord} (hu : cu.myUnit = some u) :
    ∃ b, detectNonCollocatedCategorizedChildUnit l y cu = .ok b ∧
      (b = true ↔ (u.isCategorized = true → ∀ d ∈ l.alis, parentName cu.name = some d.uname →
        d.lastUnit.isCategorized = true → y.byte d.uname = some cu.partition)) := by
  unfold detectNonCollocatedCategorizedChildUnit NameTable.getAliId
  rw [hu]
  by_cases hc : u.isCategorized = true
  · cases hp : parentName cu.name with
    | none => exact ⟨true, by simp [hc], by simp⟩
    | some n =>
      rcases hy n with ⟨hf, hi⟩ | ⟨d, j, hf, hi, hj⟩
      · refine ⟨true, by simp [hc, hi], ?_⟩
        simp only [true_iff]
        rintro - d hd he
        rw [Option.some.injEq] at he
        rw [LoadedUnits.find_eq_some.mpr ⟨hd, he.symm⟩] at hf
        cases hf
      · have ht : l.table j = .ok d := by
          unfold LoadedUnits.table
          rw [hj]
        obtain ⟨hd, rfl⟩ := LoadedUnits.find_eq_some.mp hf
        refine ⟨!(d.lastUnit.isCategorized && decide (y.byte d.uname ≠ some cu.partition)),
          by simp [hc, hi, ht], ?_⟩
        rw [Bool.not_eq_true', Bool.and_eq_false_iff, decide_eq_false_iff_not, not_not]
        constructor
        · rintro h - d' hd' he hcat
          obtain rfl := List.inj_on_of_nodup_map l.nodup hd hd' (Option.some.inj he)
          rcases h with h | h
          · rw [h] at hcat
            cases hcat
          · exact h
        · intro h
          cases hcat : d.lastUnit.isCategorized with
          | false => exact Or.inl rfl
          | true => exact Or.inr (h hc d hd rfl hcat)
  · exact ⟨true, by simp [hc], by simp [hc]⟩

theorem detectIncorrectMainSubprogram_eq {y : NameTable} (hy : Prepared l y)
    (p : PartitionRecord) : ∃ b, detectIncorrectMainSubprogram l y p = .ok b ∧
      (b = true ↔ ∀ n ∈ p.mainSubprogram, ∃ a ∈ l.alis, a.uname = n ∧ a.isMain = true) := by
  unfold detectIncorrectMainSubprogram NameTable.getAliId
  cases hp : p.mainSubprogram with
  | none => exact ⟨true, rfl, by simp⟩
  | some n =>
    simp only [Option.mem_def, Option.some.injEq, forall_eq']
    rcases hy n with ⟨hf, hi⟩ | ⟨a, j, hf, hi, hj⟩
    · refine ⟨false, by rw [hi]; rfl, ?_⟩
      simp only [Bool.false_eq_true, false_iff]
      rintro ⟨a, ha, rfl, -⟩
      rw [LoadedUnits.find_eq_some.mpr ⟨ha, rfl⟩] at hf
      cases hf
    · have ht : l.table j = .ok a := by
        unfold LoadedUnits.table
        rw [hj]
      obtain ⟨ha, rfl⟩ := LoadedUnits.find_eq_some.mp hf
      refine ⟨a.isMain, by simp [hi, ht], fun h => ⟨a, ha, rfl, h⟩, ?_⟩
      rintro ⟨a', ha', he, hm⟩
      rwa [List.inj_on_of_nodup_map l.nodup ha ha' he.symm]

/-- The mark of an RCI or SP unit is its partition, or what it was before. -/
theorem byte_eq_some_iff {x : NameTable} {cus : List ConfUnit}
    (hx : ∀ cu ∈ cus, x.byte cu.name = none) (h : Unassigned l x cus) {a : AliRecord}
    (ha : a ∈ l.alis) (hc : a.lastUnit.isCategorized = true) {p : PartitionId} :
    (cus.foldl (mark l) x).byte a.uname = some p ↔
      (a.uname, p) ∈ cus.map (fun cu => (cu.name, cu.partition)) ∨ x.byte a.uname = some p := by
  obtain ⟨hmark, hrest⟩ := marks_foldl cus h
  have hcat : ∀ cu ∈ cus, cu.name = a.uname → l.categorized cu.name = true := by
    intro cu hcu he
    obtain ⟨b, hb, hg⟩ := h.1 cu hcu
    obtain ⟨hb', hbn⟩ := LoadedUnits.find_eq_some.mp hb
    obtain rfl := List.inj_on_of_nodup_map l.nodup ha hb' (he.symm.trans hbn.symm)
    simp [LoadedUnits.categorized, hb, hc, hg]
  constructor
  · intro hb
    by_cases he : ∃ cu ∈ cus, cu.name = a.uname
    · obtain ⟨cu, hcu, he⟩ := he
      have := hmark cu hcu (hcat cu hcu he)
      rw [he, hb, Option.some.injEq] at this
      exact Or.inl (List.mem_map.mpr ⟨cu, hcu, by rw [he, this]⟩)
    · rw [hrest _ fun cu hcu hn => he ⟨cu, hcu, hn⟩] at hb
      exact Or.inr hb
  · rintro (hm | hb)
    · obtain ⟨cu, hcu, he⟩ := List.mem_map.mp hm
      rw [Prod.mk.injEq] at he
      rw [← he.1, ← he.2]
      exact hmark cu hcu (hcat cu hcu he.1)
    · rw [hrest _ fun cu hcu hn => ?_]
      · exact hb
      · have := hx cu hcu
        rw [hn, hb] at this
        cases this

/-! ### The checks of the channels -/

/-- The name that stands for the upper partition of a channel. -/
def upperKey (c : Configuration) (p : PartitionId) : NameId :=
  match c.partitions[p - 1]? with
  | none => []
  | some r => r.name ++ '#' :: r.name

theorem upperKey_injective {p q : PartitionId} (hp : 0 < p ∧ p ≤ c.partitions.length)
    (hq : 0 < q ∧ q ≤ c.partitions.length) (h : upperKey c p = upperKey c q) : p = q := by
  have hp' : p - 1 < c.partitions.length := (Nat.sub_lt hp.1 Nat.one_pos).trans_le hp.2
  have hq' : q - 1 < c.partitions.length := (Nat.sub_lt hq.1 Nat.one_pos).trans_le hq.2
  unfold upperKey at h
  rw [List.getElem?_eq_getElem hp', List.getElem?_eq_getElem hq'] at h
  have hname : c.partitions[p - 1].name = c.partitions[q - 1].name := by
    have hlen := congrArg List.length h
    simp only [List.length_append, List.length_cons] at hlen
    exact (List.append_inj h (by omega)).1
  have hnodup : (c.partitions.map PartitionRecord.name).Nodup := (List.nodup_cons.mp c.nodup).2
  have := List.inj_on_of_nodup_map hnodup (List.getElem_mem hp') (List.getElem_mem hq') hname
  exact Nat.sub_one_cancel hp.1 hq.1 ((List.Nodup.of_map _ hnodup).getElem_inj_iff.mp this)

theorem buildNewChannel_eq (x : PartitionId × PartitionId) :
    buildNewChannel x = { lower := some (min x.1 x.2), upper := some (max x.1 x.2) } := by
  unfold buildNewChannel addChannelPartition
  by_cases h : x.1 < x.2
  · simp only [h, if_true]
    rw [min_eq_left (Nat.le_of_lt h), max_eq_right (Nat.le_of_lt h)]
  · simp only [h, if_false]
    rw [min_eq_right (Nat.le_of_not_lt h), max_eq_left (Nat.le_of_not_lt h)]

theorem checkChannels_eq : ∀ (xs : List (PartitionId × PartitionId)) (j : ChannelId)
    {x : NameTable},
    (∀ a ∈ xs, (0 < a.1 ∧ a.1 ≤ c.partitions.length) ∧ 0 < a.2 ∧ a.2 ≤ c.partitions.length) →
    (∀ p, 0 < p ∧ p ≤ c.partitions.length →
      x.info (upperKey c p) = .none ∨ ∃ k, x.info (upperKey c p) = .channel k) →
    ∃ ok, checkChannels c j (xs.map buildNewChannel) x = .ok ok ∧
      (ok = true ↔ (∀ a ∈ xs, a.1 ≠ a.2 ∧ x.info (upperKey c (max a.1 a.2)) = .none) ∧
        xs.Pairwise fun a b => max a.1 a.2 ≠ max b.1 b.2)
  | [], _, _, _, _ => ⟨true, rfl, by simp⟩
  | a :: xs, j, x, hxs, hx => by
    rw [List.forall_mem_cons] at hxs
    obtain ⟨⟨ha1, ha2⟩, hxs⟩ := hxs
    have hmax : ∀ {b : PartitionId × PartitionId},
        (0 < b.1 ∧ b.1 ≤ c.partitions.length) ∧ 0 < b.2 ∧ b.2 ≤ c.partitions.length →
        0 < max b.1 b.2 ∧ max b.1 b.2 ≤ c.partitions.length := fun {b} hb =>
      ⟨lt_max_of_lt_left hb.1.1, max_le hb.1.2 hb.2.2⟩
    have hup := hmax ⟨ha1, ha2⟩
    have hlt : max a.1 a.2 - 1 < c.partitions.length :=
      (Nat.sub_lt hup.1 Nat.one_pos).trans_le hup.2
    obtain ⟨key, hkey⟩ : ∃ key, key = upperKey c (max a.1 a.2) := ⟨_, rfl⟩
    have hname : c.partitions[max a.1 a.2 - 1].name ++
        '#' :: c.partitions[max a.1 a.2 - 1].name = key := by
      rw [hkey, upperKey, List.getElem?_eq_getElem hlt]
    have hself : (x.setInfo key (.channel j)).info key = .channel j := Function.update_self _ _ _
    have hne : ∀ k, k ≠ key → (x.setInfo key (.channel j)).info k = x.info k :=
      fun k hk => Function.update_of_ne hk _ _
    obtain ⟨ok, hrest, hok⟩ := checkChannels_eq xs (j + 1) hxs
      (x := x.setInfo key (.channel j)) fun p hdecl => by
        by_cases hp : upperKey c p = key
        · exact Or.inr ⟨j, by rw [hp, hself]⟩
        · rw [hne _ hp]
          exact hx p hdecl
    have hdetect : detectConfiguredChannelDuplication c x j (buildNewChannel a) =
        .ok (x.setInfo key (.channel j),
          decide (a.1 ≠ a.2) && decide (x.info key = .none)) := by
      have hpart : c.partition (max a.1 a.2) = .ok c.partitions[max a.1 a.2 - 1] := by
        unfold Configuration.partition
        rw [List.getElem?_eq_getElem hlt]
      have hminmax : min a.1 a.2 ≠ max a.1 a.2 ↔ a.1 ≠ a.2 := not_congr inf_eq_sup
      rw [buildNewChannel_eq]
      unfold detectConfiguredChannelDuplication NameTable.getChannelId
      rw [hkey] at hname ⊢
      rcases hx (max a.1 a.2) hup with hi | ⟨k, hi⟩ <;>
        simp [hpart, hname, hi, hminmax]
    refine ⟨decide (a.1 ≠ a.2) && decide (x.info key = .none) && ok, ?_, ?_⟩
    · rw [List.map_cons, checkChannels, hdetect]
      show (checkChannels c (j + 1) _ _ >>= _) = _
      rw [hrest]
      rfl
    · rw [Bool.and_eq_true, Bool.and_eq_true, decide_eq_true_eq, decide_eq_true_eq, hok,
        List.forall_mem_cons, List.pairwise_cons, ← hkey]
      constructor
      · rintro ⟨⟨hloop, hnew⟩, hall, hpair⟩
        have hsep : ∀ b ∈ xs, max a.1 a.2 ≠ max b.1 b.2 := by
          intro b hb he
          have := (hall b hb).2
          rw [← he, ← hkey, hself] at this
          cases this
        refine ⟨⟨⟨hloop, hnew⟩, fun b hb => ⟨(hall b hb).1, ?_⟩⟩, hsep, hpair⟩
        have hk : upperKey c (max b.1 b.2) ≠ key := fun he =>
          hsep b hb (upperKey_injective hup (hmax (hxs b hb)) (hkey ▸ he.symm))
        rw [← hne _ hk]
        exact (hall b hb).2
      · rintro ⟨⟨hself', hall⟩, hsep, hpair⟩
        refine ⟨hself', fun b hb => ⟨(hall b hb).1, ?_⟩, hpair⟩
        have hk : upperKey c (max b.1 b.2) ≠ key := fun he =>
          hsep b hb (upperKey_injective hup (hmax (hxs b hb)) (hkey ▸ he.symm))
        rw [hne _ hk]
        exact (hall b hb).2

/-! ### Analyze -/

theorem configure_pairs (n : NameId) (p : PartitionId) :
    (n, p) ∈ (configure c).confUnits.map (fun cu => (cu.name, cu.partition)) ↔
      c.Configures n p ∨ p = 0 ∧ (n, 0) ∈ c.units :=
  configure_marked.2 n p

theorem configures_main {n : NameId} (h : (n, 0) ∈ c.units) : c.Configures n c.mainPartition :=
  ⟨mem_declared.mpr c.main_declared, Or.inr (Or.inl h)⟩

theorem exists_configures {cu : ConfUnit} (h : cu ∈ (configure c).confUnits) :
    ∃ p, c.Configures cu.name p := by
  rcases (configure_pairs cu.name cu.partition).mp (List.mem_map.mpr ⟨cu, h, rfl⟩) with h | ⟨-, h⟩
  · exact ⟨_, h⟩
  · exact ⟨_, configures_main h⟩

theorem unassigned_iff :
    Unassigned l (prepare l (configure c)) (configure c).confUnits ↔
      (∀ n p, c.Configures n p → ∃ a ∈ l.alis, a.uname = n ∧ a.lastUnit.isGeneric = false) ∧
        DefaultUncategorized c l ∧
        ∀ n p q, l.categorized n = true → c.Configures n p → c.Configures n q → p = q := by
  have hmarked := (configure_marked (c := c)).1
  have hbyte := (prepare_prepared (l := l) hmarked).2
  constructor
  · rintro ⟨hl, -, hpair⟩
    have hsym : Std.Symm fun cu cu' : ConfUnit =>
        l.categorized cu.name = true → cu.name ≠ cu'.name :=
      ⟨fun cu cu' h hc he => h (he ▸ hc) he.symm⟩
    have huniq : ∀ n p q, l.categorized n = true →
        (n, p) ∈ (configure c).confUnits.map (fun cu => (cu.name, cu.partition)) →
        (n, q) ∈ (configure c).confUnits.map (fun cu => (cu.name, cu.partition)) → p = q := by
      intro n p q hc hp hq
      obtain ⟨cu, hcu, he⟩ := List.mem_map.mp hp
      obtain ⟨cu', hcu', he'⟩ := List.mem_map.mp hq
      rw [Prod.mk.injEq] at he he'
      by_cases heq : cu = cu'
      · rw [← he.2, ← he'.2, heq]
      · exact absurd (he.1.trans he'.1.symm)
          (hpair.forall hcu hcu' heq (he.1.symm ▸ hc))
    refine ⟨fun n p h => ?_, fun n hn => ?_, fun n p q hc hp hq => huniq n p q hc
      ((configure_pairs n p).mpr (Or.inl hp)) ((configure_pairs n q).mpr (Or.inl hq))⟩
    · obtain ⟨cu, hcu, he⟩ := List.mem_map.mp ((configure_pairs n p).mpr (Or.inl h))
      obtain ⟨a, ha, hg⟩ := hl cu hcu
      obtain ⟨ha, hn⟩ := LoadedUnits.find_eq_some.mp ha
      exact ⟨a, ha, hn.trans (Prod.mk.injEq .. ▸ he).1, hg⟩
    · by_contra hc
      rw [Bool.not_eq_false] at hc
      have := huniq n 0 c.mainPartition hc ((configure_pairs n 0).mpr (Or.inr ⟨rfl, hn⟩))
        ((configure_pairs n _).mpr (Or.inl (configures_main hn)))
      exact absurd this c.main_declared.1.ne
  · rintro ⟨hl, htype, huniq⟩
    refine ⟨fun cu hcu => ?_, fun cu hcu _ => (hbyte _).trans
      (hmarked.apart _ (List.mem_map.mpr ⟨cu, hcu, rfl⟩)), ?_⟩
    · obtain ⟨p, hp⟩ := exists_configures hcu
      obtain ⟨a, ha, hn, hg⟩ := hl _ p hp
      exact ⟨a, LoadedUnits.find_eq_some.mpr ⟨ha, hn⟩, hg⟩
    · rw [List.pairwise_iff_forall_sublist]
      intro cu cu' hsub hc he
      have hmem : ∀ q, (cu.name, q) ∈ (configure c).pairs → c.Configures cu.name q := by
        intro q hq
        rcases (configure_pairs cu.name q).mp hq with h | ⟨-, h⟩
        · exact h
        · rw [htype _ h] at hc
          cases hc
      have hcu : cu ∈ (configure c).confUnits := hsub.mem (by simp)
      have honce := hmarked.once cu.name cu.partition fun q hq => huniq _ _ _ hc (hmem q hq)
        (hmem _ (List.mem_map.mpr ⟨cu, hcu, rfl⟩))
      have hsub' := hsub.map fun cu : ConfUnit => (cu.name, cu.partition)
      exact List.pairwise_iff_forall_sublist.mp honce hsub' rfl he.symm

theorem checks_iff {x y : NameTable} (hx : x = prepare l (configure c))
    (hy : y = (configure c).confUnits.foldl (mark l) x) :
    (Unassigned l x (configure c).confUnits ∧
      (∀ a ∈ l.alis, detectNonConfiguredCategorizedUnit y a = true) ∧
      (∀ cu ∈ (configure c).confUnits, ∀ a ∈ l.alis, a.uname = cu.name →
        a.lastUnit.isCategorized = true → ∀ d ∈ l.alis, parentName cu.name = some d.uname →
          d.lastUnit.isCategorized = true → y.byte d.uname = some cu.partition) ∧
      (∀ p ∈ c.declared, ∃ cu ∈ (configure c).confUnits, cu.partition = p) ∧
      (∀ p ∈ c.partitions, ∀ n ∈ p.mainSubprogram,
        ∃ a ∈ l.alis, a.uname = n ∧ a.isMain = true) ∧
      (∀ a ∈ c.channels, a.1 ≠ a.2) ∧ [] ∉ c.locations) ↔
    Sound c l c.Marks ∧ DefaultUncategorized c l := by
  have hmarked := (configure_marked (c := c)).1
  have hbyte : ∀ n p, x.byte n = some p ↔ (partitionNames c.partitions)[p]? = some n := by
    intro n p
    rw [hx, (prepare_prepared hmarked).2]
    exact createPartitions_marked.2.2.2 n p
  have hfree : ∀ cu ∈ (configure c).confUnits, x.byte cu.name = none := by
    intro cu hcu
    rw [hx, (prepare_prepared hmarked).2]
    exact hmarked.apart _ (List.mem_map.mpr ⟨cu, hcu, rfl⟩)
  have hiff := unassigned_iff (c := c) (l := l)
  rw [← hx] at hiff
  have hcat : ∀ a ∈ l.alis, a.lastUnit.isCategorized = true → a.lastUnit.isGeneric = false →
      l.categorized a.uname = true := by
    intro a ha hc hg
    simp [LoadedUnits.categorized, LoadedUnits.find_eq_some.mpr ⟨ha, rfl⟩, hc, hg]
  have hmark : Unassigned l x (configure c).confUnits → DefaultUncategorized c l →
      ∀ a ∈ l.alis, a.lastUnit.isCategorized = true →
        ∀ p, y.byte a.uname = some p ↔ c.Marks a.uname p := by
    intro hu ht a ha hc p
    rw [hy, byte_eq_some_iff hfree hu ha hc, configure_pairs, hbyte]
    refine or_congr_left (or_iff_left_iff_imp.mpr ?_)
    rintro ⟨-, h0⟩
    obtain ⟨b, hb, hn, hg⟩ := (hiff.mp hu).1 _ _ (configures_main h0)
    obtain rfl := List.inj_on_of_nodup_map l.nodup hb ha hn
    have := ht _ h0
    rw [hcat b ha hc hg] at this
    cases this
  constructor
  · rintro ⟨hu, hconf, hcoll, hempty, hmain, hloop, hloc⟩
    obtain ⟨hl, ht, huniq⟩ := hiff.mp hu
    refine ⟨⟨hl, fun a ha hc hg => ?_, fun a ha hc d hd hcd hp p hconfigures => ?_, fun p hp => ?_,
      hmain, hloop, hloc⟩, ht⟩
    · have hassigned := hconf a ha
      simp only [detectNonConfiguredCategorizedUnit, hc, hg, Bool.not_false, Bool.and_true,
        Bool.true_and, Bool.not_eq_true', Option.isNone_eq_false_iff] at hassigned
      obtain ⟨p, hp⟩ := Option.isSome_iff_exists.mp hassigned
      refine ⟨p, (hmark hu ht a ha hc p).mp hp, fun q hq => ?_⟩
      have hq' := (hmark hu ht a ha hc q).mpr hq
      rw [hp, Option.some.injEq] at hq'
      exact hq'.symm
    · obtain ⟨cu, hcu, he⟩ := List.mem_map.mp
        ((configure_pairs a.uname p).mpr (Or.inl hconfigures))
      rw [Prod.mk.injEq] at he
      rw [← hmark hu ht d hd hcd, ← he.2]
      exact hcoll cu hcu a ha he.1.symm hc d hd (he.1 ▸ hp) hcd
    · obtain ⟨cu, hcu, rfl⟩ := hempty p hp
      rcases (configure_pairs cu.name cu.partition).mp (List.mem_map.mpr ⟨cu, hcu, rfl⟩) with
        h | ⟨h0, -⟩
      · exact ⟨cu.name, h⟩
      · exact absurd h0 (mem_declared.mp hp).1.ne'
  · rintro ⟨hs, ht⟩
    have hu : Unassigned l x (configure c).confUnits := by
      refine hiff.mpr ⟨hs.loaded, ht, fun n p q hc hp hq => ?_⟩
      obtain ⟨a, ha, rfl, hg⟩ := hs.loaded n p hp
      have hc' : a.lastUnit.isCategorized = true := by
        rw [LoadedUnits.categorized, LoadedUnits.find_eq_some.mpr ⟨ha, rfl⟩, Option.any_some,
          Bool.and_eq_true] at hc
        exact hc.1
      exact (hs.once a ha hc' hg).unique (Or.inl hp) (Or.inl hq)
    refine ⟨hu, fun a ha => ?_, fun cu hcu a ha hn hc d hd hp hcd => ?_, fun p hp => ?_, hs.mains,
      hs.loopless, hs.located⟩
    · unfold detectNonConfiguredCategorizedUnit
      by_cases hc : a.lastUnit.isCategorized = true
      · by_cases hg : a.lastUnit.isGeneric = true
        · simp [hg]
        · obtain ⟨p, hp, -⟩ := hs.once a ha hc (by simpa using hg)
          simp [(hmark hu ht a ha hc p).mpr hp]
      · simp [hc]
    · rw [hmark hu ht d hd hcd]
      have hpairs : (cu.name, cu.partition) ∈
          (configure c).confUnits.map fun cu => (cu.name, cu.partition) :=
        List.mem_map.mpr ⟨cu, hcu, rfl⟩
      rw [← hn] at hp hpairs
      refine hs.collocated a ha hc d hd hcd hp _ ?_
      rcases (configure_pairs _ _).mp hpairs with h | ⟨-, h0⟩
      · exact h
      · obtain ⟨b, hb, hbn, hg⟩ := hs.loaded _ _ (configures_main h0)
        obtain rfl := List.inj_on_of_nodup_map l.nodup hb ha hbn
        have := ht _ h0
        rw [hcat b ha hc hg] at this
        cases this
    · obtain ⟨n, hn⟩ := hs.nonempty p hp
      obtain ⟨cu, hcu, he⟩ := List.mem_map.mp ((configure_pairs n p).mpr (Or.inl hn))
      exact ⟨cu, hcu, (Prod.mk.injEq .. ▸ he).2⟩

/-- `Analyze` fails in the tables when a configured unit is not loaded, and otherwise accepts what
is sound but for the channels and the partition type. -/
theorem analyze_eq :
    ((∀ n p, c.Configures n p → (l.find n).isSome = true) →
      ∃ ok, analyze c l =
          .ok ((configure c).confUnits.map (resolve l (prepare l (configure c))), ok) ∧
        (ok = true ↔ Sound c l c.Marks ∧ DistinctUppers c ∧ DefaultUncategorized c l)) ∧
    ((∃ n p, c.Configures n p ∧ l.find n = none) → ∀ result, analyze c l ≠ .ok result) := by
  obtain ⟨hmarked, -⟩ := configure_marked (c := c)
  obtain ⟨hx, hbyte⟩ := prepare_prepared (l := l) hmarked
  obtain ⟨x, hx'⟩ : ∃ x, x = prepare l (configure c) := ⟨_, rfl⟩
  have hiff := unassigned_iff (c := c) (l := l)
  rw [← hx'] at hx hbyte hiff
  obtain ⟨y, hy'⟩ : ∃ y, y = (configure c).confUnits.foldl (mark l) x := ⟨_, rfl⟩
  obtain ⟨hy, hinfo⟩ := prepared_foldl (configure c).confUnits hx
  obtain ⟨ok1, hfirst, hok1⟩ := checkConfUnits_eq (configure c).confUnits hx
  rw [← hy'] at hy hinfo hfirst
  have hunres : ∀ cu ∈ (configure c).confUnits,
      (resolve l x cu).myUnit = (l.find cu.name).map AliRecord.lastUnit :=
    fun cu hcu => resolve_myUnit hx (hmarked.unresolved cu hcu)
  constructor
  · intro hloaded
    have hfind : ∀ cu ∈ (configure c).confUnits, ∃ a ∈ l.alis, a.uname = cu.name ∧
        (resolve l x cu).myUnit = some a.lastUnit := by
      intro cu hcu
      obtain ⟨p, hp⟩ := exists_configures hcu
      obtain ⟨a, ha⟩ := Option.isSome_iff_exists.mp (hloaded _ p hp)
      obtain ⟨ha', hn⟩ := LoadedUnits.find_eq_some.mp ha
      exact ⟨a, ha', hn, by rw [hunres cu hcu, ha]; rfl⟩
    obtain ⟨ok2, hcoll, hok2⟩ := checkAll_ok
      (f := detectNonCollocatedCategorizedChildUnit l y)
      ((configure c).confUnits.map (resolve l x)) (by
        rw [List.forall_mem_map]
        intro cu hcu
        obtain ⟨a, -, -, hu⟩ := hfind cu hcu
        obtain ⟨b, hb, -⟩ := detectNonCollocated_eq hy hu
        exact ⟨b, hb⟩)
    obtain ⟨ok3, hmain, hok3⟩ := checkAll_ok (f := detectIncorrectMainSubprogram l y) c.partitions
      fun p _ => (detectIncorrectMainSubprogram_eq hy p).imp fun _ h => h.1
    have hkey : ∀ p, 0 < p ∧ p ≤ c.partitions.length → y.info (upperKey c p) = .none := by
      intro p hp
      have hlt : p - 1 < c.partitions.length := (Nat.sub_lt hp.1 Nat.one_pos).trans_le hp.2
      rcases hy (upperKey c p) with ⟨-, hi⟩ | ⟨a, j, hf, -, -⟩
      · exact hi
      · obtain ⟨ha, hn⟩ := LoadedUnits.find_eq_some.mp hf
        refine absurd ?_ (l.no_number_sign a ha)
        rw [hn, upperKey, List.getElem?_eq_getElem hlt]
        exact List.mem_append_right _ List.mem_cons_self
    obtain ⟨ok4, hchan, hok4⟩ := checkChannels_eq c.channels 0 (x := y) c.channels_declared
      fun p hp => Or.inl (hkey p hp)
    refine ⟨ok1 && l.alis.all (detectNonConfiguredCategorizedUnit y) && ok2 &&
      c.declared.all (detectEmptyPartition ((configure c).confUnits.map (resolve l x))) && ok3 &&
      ok4 && c.locations.all detectMalformedLocation, ?_, ?_⟩
    · unfold analyze
      simp [← hx', hfirst, hcoll, hmain, hchan]
    · have hchecks := checks_iff hx' hy'
      have hcoll' : (∀ cu ∈ (configure c).confUnits.map (resolve l x),
            detectNonCollocatedCategorizedChildUnit l y cu = .ok true) ↔
          ∀ cu ∈ (configure c).confUnits, ∀ a ∈ l.alis, a.uname = cu.name →
            a.lastUnit.isCategorized = true → ∀ d ∈ l.alis, parentName cu.name = some d.uname →
              d.lastUnit.isCategorized = true → y.byte d.uname = some cu.partition := by
        rw [List.forall_mem_map]
        refine forall₂_congr fun cu hcu => ?_
        obtain ⟨a, ha, hn, hu⟩ := hfind cu hcu
        obtain ⟨b, hb, hbiff⟩ := detectNonCollocated_eq hy hu
        rw [hb, Except.ok.injEq, hbiff, resolve_name, resolve_partition]
        refine ⟨fun h a' ha' hn' hc => ?_, fun h => h a ha hn⟩
        obtain rfl := List.inj_on_of_nodup_map l.nodup ha ha' (hn.trans hn'.symm)
        exact h hc
      have hmain' : (∀ p ∈ c.partitions, detectIncorrectMainSubprogram l y p = .ok true) ↔
          ∀ p ∈ c.partitions, ∀ n ∈ p.mainSubprogram,
            ∃ a ∈ l.alis, a.uname = n ∧ a.isMain = true := by
        refine forall₂_congr fun p _ => ?_
        obtain ⟨b, hb, hbiff⟩ := detectIncorrectMainSubprogram_eq hy p
        rw [hb, Except.ok.injEq, hbiff]
      have hempty : c.declared.all
            (detectEmptyPartition ((configure c).confUnits.map (resolve l x))) = true ↔
          ∀ p ∈ c.declared, ∃ cu ∈ (configure c).confUnits, cu.partition = p := by
        simp [detectEmptyPartition, resolve_partition]
      have hloc : c.locations.all detectMalformedLocation = true ↔ [] ∉ c.locations := by
        simp [detectMalformedLocation, List.forall_mem_ne']
      have hchan' : ok4 = true ↔ (∀ a ∈ c.channels, a.1 ≠ a.2) ∧ DistinctUppers c := by
        rw [hok4]
        refine and_congr (forall₂_congr fun a ha => ?_) Iff.rfl
        obtain ⟨h1, h2⟩ := c.channels_declared a ha
        rw [hkey _ ⟨lt_max_of_lt_left h1.1, max_le h1.2 h2.2⟩]
        exact and_iff_left rfl
      simp only [Bool.and_eq_true, hok1, hok2, hok3, hcoll', hmain', hempty, hloc, hchan',
        List.all_eq_true]
      have hswap : Sound c l c.Marks ∧ DistinctUppers c ∧ DefaultUncategorized c l ↔
          (Sound c l c.Marks ∧ DefaultUncategorized c l) ∧ DistinctUppers c := by
        rw [and_assoc, and_comm (a := DistinctUppers c)]
      rw [hswap, ← hchecks]
      constructor
      · rintro ⟨⟨⟨⟨⟨⟨hu, hconf⟩, hcol⟩, hemp⟩, hmn⟩, hloop, hpairs⟩, hlocs⟩
        exact ⟨⟨hu, hconf, hcol, hemp, hmn, hloop, hlocs⟩, hpairs⟩
      · rintro ⟨⟨hu, hconf, hcol, hemp, hmn, hloop, hlocs⟩, hpairs⟩
        exact ⟨⟨⟨⟨⟨⟨hu, hconf⟩, hcol⟩, hemp⟩, hmn⟩, hloop, hpairs⟩, hlocs⟩
  · rintro ⟨n, p, hp, hf⟩ result hok
    obtain ⟨cu, hcu, he⟩ := List.mem_map.mp ((configure_pairs n p).mpr (Or.inl hp))
    rw [Prod.mk.injEq] at he
    have herr : detectNonCollocatedCategorizedChildUnit l y (resolve l x cu) =
        .error .constraintError := by
      unfold detectNonCollocatedCategorizedChildUnit
      rw [hunres cu hcu, he.1, hf]
      rfl
    unfold analyze at hok
    simp only [← hx', hfirst, Checked.bind_ok] at hok
    obtain ⟨ok2, hcoll, -⟩ := Checked.bind_eq_ok.mp hok
    exact checkAll_error herr _ (List.mem_map.mpr ⟨cu, hcu, rfl⟩) ok2 hcoll

/-- The names of the partitions count as configured units only where an RCI or SP unit bears one. -/
theorem sound_configures_iff :
    Sound c l c.Configures ↔ Sound c l c.Marks ∧ NamesFree c l := by
  have hmarks : ∀ {n : NameId} {p : PartitionId}, n ∉ partitionNames c.partitions →
      (c.Marks n p ↔ c.Configures n p) := fun hn =>
    or_iff_left fun h => hn (List.mem_of_getElem? h)
  constructor
  · intro h
    refine ⟨⟨h.loaded, fun a ha hc hg => ?_, fun a ha hc b hb hcb hp p hconf =>
      Or.inl (h.collocated a ha hc b hb hcb hp p hconf), h.nonempty, h.mains, h.loopless,
      h.located⟩, ?_⟩
    · obtain ⟨p, hp, -⟩ := h.once a ha hc hg
      exact (existsUnique_congr fun q => hmarks hp.apart).mpr (h.once a ha hc hg)
    · rintro a ha hc (hg | ⟨b, hb, hcb, hp, p, hconf⟩)
      · obtain ⟨p, hp, -⟩ := h.once a ha hc hg
        exact hp.apart
      · exact (h.collocated b hb hcb a ha hc hp p hconf).apart
  · rintro ⟨h, hfree⟩
    refine ⟨h.loaded, fun a ha hc hg => ?_, fun a ha hc b hb hcb hp p hconf => ?_, h.nonempty,
      h.mains, h.loopless, h.located⟩
    · exact (existsUnique_congr fun q => hmarks (hfree a ha hc (Or.inl hg))).mp (h.once a ha hc hg)
    · exact (hmarks (hfree b hb hcb (Or.inr ⟨a, ha, hc, hp, p, hconf⟩))).mp
        (h.collocated a ha hc b hb hcb hp p hconf)

theorem meets_iff : Meets c l ↔ Condition c l := by
  obtain ⟨hok, herror⟩ := analyze_eq (c := c) (l := l)
  by_cases hl : ∀ n p, c.Configures n p → (l.find n).isSome = true
  · obtain ⟨ok, hanalyze, hiff⟩ := hok hl
    constructor
    · rintro ⟨cus', ok', hanalyze', hiff'⟩
      obtain ⟨rfl, rfl⟩ := Prod.mk.inj (Checked.ok_inj hanalyze hanalyze')
      unfold Consistent at hiff'
      rw [sound_configures_iff, and_assoc] at hiff'
      exact ⟨hl, fun hs => ⟨fun h => (hiff'.mp (hiff.mpr ⟨hs, h⟩)).2,
        fun h => (hiff.mp (hiff'.mpr ⟨hs, h⟩)).2⟩⟩
    · rintro ⟨-, hcond⟩
      refine ⟨_, ok, hanalyze, ?_⟩
      unfold Consistent
      rw [sound_configures_iff, and_assoc]
      exact hiff.trans (and_congr_right hcond)
  · refine iff_of_false ?_ fun h => hl h.1
    rintro ⟨cus, ok, hanalyze, -⟩
    obtain ⟨n, p, hp, hf⟩ : ∃ n p, c.Configures n p ∧ l.find n = none := by
      push Not at hl
      simpa using hl
    exact herror ⟨n, p, hp, hf⟩ _ hanalyze

end PolyORB.Gnatdist
