import PolyORB.Poa.ObjectMaps

/-!
# What the operations of a system map change

Each operation changes the entry at one index at most.
-/

namespace PolyORB

open Literals

variable {item : UnmarshalledOid}

namespace SystemObjectMap

variable {m m' : SystemObjectMap} {i j : Nat}

@[simp] theorem length_setEntry (m : SystemObjectMap) (j : Nat) (e : Option MapEntry) :
    (m.setEntry j e).table.length = m.table.length := List.length_set ..

@[simp] theorem last_setEntry (m : SystemObjectMap) (j : Nat) (e : Option MapEntry) :
    (m.setEntry j e).last = m.last := rfl

theorem entryAt_setEntry_self (h0 : 0 < j) (h : j ≤ m.table.length) (e : Option MapEntry) :
    (m.setEntry j e).entryAt j = e := by
  rw [entryAt, setEntry, List.getElem?_set_self (by omega)]
  rfl

theorem entryAt_setEntry_of_ne (hi : 0 < i) (hj : 0 < j) (h : i ≠ j) (e : Option MapEntry) :
    (m.setEntry j e).entryAt i = m.entryAt i := by
  rw [entryAt, setEntry, List.getElem?_set_ne (by omega), entryAt]

theorem entryAt_initialMap (j : Nat) : initialMap.entryAt j = none := by
  rw [entryAt, initialMap, List.getElem?_replicate]
  split_ifs <;> rfl

theorem entryAt_eq_none_of_lt (h : m.table.length < j) : m.entryAt j = none := by
  rw [entryAt, List.getElem?_eq_none (by omega)]
  rfl

theorem le_length_of_entryAt {e : MapEntry} (h : m.entryAt j = some e) : j ≤ m.table.length := by
  by_contra hlt
  rw [entryAt_eq_none_of_lt (not_le.1 hlt)] at h
  cases h

theorem index_le {e : MapEntry} (h : m.entryAt j = some e) : j ≤ integerLast :=
  (le_length_of_entryAt h).trans m.length_le

def Vacant (m : SystemObjectMap) (j : Nat) : Prop := ∀ e ∈ m.entryAt j, e.servant = none

instance (m : SystemObjectMap) (j : Nat) : Decidable (Vacant m j) := by
  unfold Vacant
  infer_instance

theorem setEntry_self (h : m.table[j - 1]? = some none) : m.setEntry j none = m := by
  obtain ⟨table, last, hle, hlen⟩ := m
  obtain ⟨hlt, hget⟩ := List.getElem?_eq_some_iff.1 h
  have : table.set (j - 1) none = table := by
    rw [← hget]
    exact List.set_getElem_self hlt
  simp [setEntry, this]

theorem setEntry_some {e : MapEntry} (h : m.table[j - 1]? = some (some e)) :
    m.setEntry j (some e) = m := by
  obtain ⟨table, last, hle, hlen⟩ := m
  obtain ⟨hlt, hget⟩ := List.getElem?_eq_some_iff.1 h
  have : table.set (j - 1) (some e) = table := by
    rw [← hget]
    exact List.set_getElem_self hlt
  simp [setEntry, this]

/-! ## Indices -/

theorem firstFree_eq_some (h : m.firstFree = some j) :
    0 < j ∧ j ≤ m.last ∧ m.table[j - 1]? = some none := by
  obtain ⟨k, hk, rfl⟩ := Option.map_eq_some_iff.1 h
  rw [List.findIdx?_eq_some_iff_getElem] at hk
  obtain ⟨hlt, hnone, -⟩ := hk
  rw [List.length_take] at hlt
  rw [List.getElem_take, Option.isNone_iff_eq_none] at hnone
  refine ⟨Nat.succ_pos _, by omega, ?_⟩
  rw [Nat.add_sub_cancel, List.getElem?_eq_getElem (by omega), hnone]

theorem entryAt_firstFree (h : m.firstFree = some j) : m.entryAt j = none := by
  rw [entryAt, (firstFree_eq_some h).2.2]
  rfl

theorem checkIndex_eq_ok {index : Int} :
    m.checkIndex index = .ok j ↔ 0 < j ∧ j ≤ m.table.length ∧ index = j := by
  unfold checkIndex
  split_ifs with h
  · rw [Except.ok.injEq]
    omega
  · refine iff_of_false (by rintro ⟨⟩) (by omega)

theorem indexOf_decimal (hid : item.id = decimal j) (h0 : 0 < j)
    (h : j ≤ m.table.length) : m.indexOf item = .ok j := by
  have hval : integerValue item.id = some (j : Int) := by
    rw [hid]
    exact integerValue_decimal (h.trans m.length_le)
  rw [indexOf, hval]
  exact checkIndex_eq_ok.2 ⟨h0, h, rfl⟩

/-! ## Growth -/

theorem incrementLast_eq_ok (h : m.incrementLast = .ok m') :
    m'.last = m.last + 1 ∧ m.table.length ≤ m'.table.length ∧
      ∀ i, m'.entryAt i = m.entryAt i := by
  unfold incrementLast at h
  split_ifs at h with h1 h2
  · obtain rfl := Except.ok.inj h
    exact ⟨rfl, le_rfl, fun _ => rfl⟩
  · obtain rfl := Except.ok.inj h
    refine ⟨rfl, by simp, fun i => ?_⟩
    simp only [entryAt]
    by_cases hi : i - 1 < m.table.length
    · rw [List.getElem?_append_left hi]
    · rw [List.getElem?_append_right (by omega), List.getElem?_eq_none (not_lt.1 hi),
        List.getElem?_replicate]
      split_ifs <;> rfl

/-- `m'` is `m` with the entry `e` at the index `j`; `Add` may have put one more index in use. -/
structure Takes (m m' : SystemObjectMap) (j : Nat) (e : MapEntry) : Prop where
  pos : 0 < j
  le : j ≤ m'.table.length
  last : m.last ≤ m'.last
  within : ∀ i, i ≤ m'.last → i ≠ j → i ≤ m.last
  grows : m.table.length ≤ m'.table.length
  entry : m'.entryAt j = some e
  others : ∀ i, 0 < i → i ≠ j → m'.entryAt i = m.entryAt i

theorem takes_setEntry (h0 : 0 < j) (hle : j ≤ m.table.length) (e : MapEntry) :
    Takes m (m.setEntry j (some e)) j e where
  pos := h0
  le := by simpa using hle
  last := le_rfl
  within := fun _ hi _ => hi
  grows := by simp
  entry := entryAt_setEntry_self h0 hle _
  others := fun _ hi hne => entryAt_setEntry_of_ne hi h0 hne _

/-- The index that `Add` takes without a hint. -/
def nextIndex (m : SystemObjectMap) : Nat := m.firstFree.getD (m.last + 1)

theorem vacant_nextIndex (h : m.nextIndex ≤ m.last) : m.Vacant m.nextIndex := by
  rw [nextIndex] at h ⊢
  cases hfree : m.firstFree with
  | some j =>
    rw [Option.getD_some, Vacant, entryAt_firstFree hfree]
    simp
  | none =>
    rw [hfree, Option.getD_none] at h
    omega

/-- There is an index for `Add`, or the table can grow. -/
def HasRoom (m : SystemObjectMap) : Prop :=
  m.firstFree.isSome = true ∨ m.last < m.table.length ∨ m.table.length * 101 ≤ integerLast

theorem add_eq_ok {oidOf : Nat → UnmarshalledOid} (h : m.add oidOf = .ok (m', j)) :
    Takes m m' j ⟨oidOf j, none⟩ ∧ j = m.nextIndex ∧ m' ≠ m := by
  unfold add at h
  cases hfree : m.firstFree with
  | some k =>
    rw [hfree] at h
    obtain ⟨rfl, rfl⟩ := Prod.mk.inj (Except.ok.inj h)
    obtain ⟨h0, hle, -⟩ := firstFree_eq_some hfree
    have htakes := takes_setEntry h0 (hle.trans m.last_le) ⟨oidOf k, none⟩
    refine ⟨htakes, by rw [nextIndex, hfree]; rfl, fun heq => ?_⟩
    have hentry := htakes.entry
    rw [heq, entryAt_firstFree hfree] at hentry
    cases hentry
  | none =>
    rw [hfree] at h
    obtain ⟨m1, h1, h⟩ := Checked.bind_eq_ok.1 h
    obtain ⟨rfl, rfl⟩ := Prod.mk.inj (Except.ok.inj h)
    obtain ⟨hlast, hle, hat⟩ := incrementLast_eq_ok h1
    have h0 : 0 < m1.last := by omega
    have htakes := takes_setEntry h0 m1.last_le ⟨oidOf m1.last, none⟩
    refine ⟨{
      pos := h0
      le := htakes.le
      last := by simp; omega
      within := fun i hi hne => by simp at hi; omega
      grows := hle.trans htakes.grows
      entry := htakes.entry
      others := fun i hi hne => (htakes.others i hi hne).trans (hat i) },
      by rw [nextIndex, hfree]; exact hlast, fun heq => ?_⟩
    have hlast' : (m1.setEntry m1.last (some ⟨oidOf m1.last, none⟩)).last = m.last :=
      congrArg last heq
    rw [last_setEntry] at hlast'
    omega

theorem add_hasRoom {oidOf : Nat → UnmarshalledOid} :
    (∃ r, m.add oidOf = .ok r) ↔ m.HasRoom := by
  unfold add HasRoom
  cases hfree : m.firstFree with
  | some k => simp
  | none =>
    unfold incrementLast
    split_ifs with h1 h2
    · simp [h1]
    · simp [h1, h2]
    · simp [h1, not_lt.1 h2]

theorem addAt_eq_ok {obj : MapEntry} {index : Int} (hsys : obj.oid.systemGenerated = true) :
    m.addAt obj index = .ok m' ↔
      ∃ j : Nat, index = j ∧ 0 < j ∧ j ≤ m.table.length ∧ Vacant m j ∧
        m' = m.setEntry j (some obj) := by
  unfold addAt
  rw [if_neg (by simp [hsys]), Checked.bind_eq_ok]
  refine exists_congr fun j => ?_
  rw [checkIndex_eq_ok]
  constructor
  · rintro ⟨⟨h0, hle, hj⟩, hset⟩
    refine ⟨hj, h0, hle, ?_⟩
    cases he : m.entryAt j with
    | none =>
      rw [he] at hset
      exact ⟨by simp [Vacant, he], (Except.ok.inj hset).symm⟩
    | some old =>
      rw [he] at hset
      dsimp only at hset
      split_ifs at hset with hs
      exact ⟨by simpa [Vacant, he] using hs, (Except.ok.inj hset).symm⟩
  · rintro ⟨hj, h0, hle, hv, rfl⟩
    refine ⟨⟨h0, hle, hj⟩, ?_⟩
    cases he : m.entryAt j with
    | none => rfl
    | some old =>
      have hs : old.servant = none := hv old he
      simp [hs]

theorem getById_decimal (hs : item.systemGenerated = true)
    (hid : item.id = decimal j) (h0 : 0 < j) (h : j ≤ m.table.length) :
    m.getById item = .ok (m.entryAt j) := by
  rw [getById, if_neg (by simp [hs]), indexOf_decimal hid h0 h]
  rfl

theorem removeById_eq_ok {e : Option MapEntry} (h : m.removeById item = .ok (m', e)) :
    ∃ j, m.getById item = .ok e ∧ m.indexOf item = .ok j ∧ 0 < j ∧ j ≤ m.table.length ∧
      m' = m.setEntry j none ∧ e = m.entryAt j := by
  unfold removeById at h
  split_ifs at h with hsys
  obtain ⟨j, hj, h⟩ := Checked.bind_eq_ok.1 h
  obtain ⟨rfl, rfl⟩ := Prod.mk.inj (Except.ok.inj h)
  have hcheck : ∃ i, m.checkIndex i = .ok j := by
    unfold indexOf at hj
    split at hj
    · exact ⟨_, hj⟩
    · cases hj
  obtain ⟨i, hi⟩ := hcheck
  obtain ⟨h0, hle, -⟩ := checkIndex_eq_ok.1 hi
  refine ⟨j, ?_, hj, h0, hle, rfl, rfl⟩
  rw [getById, if_neg hsys, hj]
  rfl

theorem removeById_eq_none (h : m.removeById item = .ok (m', none)) :
    m' = m := by
  obtain ⟨j, -, -, h0, hle, rfl, hentry⟩ := removeById_eq_ok h
  have hget : m.table[j - 1]? = some m.table[j - 1] := List.getElem?_eq_getElem (by omega)
  rw [entryAt, hget] at hentry
  refine setEntry_self ?_
  rw [hget]
  exact congrArg some hentry.symm

theorem getByServant_isSome {p : Servant} :
    (m.getByServant p).isSome = true ↔
      ∃ j e, 0 < j ∧ j ≤ m.last ∧ m.entryAt j = some e ∧ e.servant = some p := by
  have := m.last_le
  rw [getByServant, List.find?_isSome]
  constructor
  · rintro ⟨e, hmem, hp⟩
    rw [List.mem_filterMap] at hmem
    obtain ⟨o, ho, rfl⟩ := hmem
    obtain ⟨k, hk, hget⟩ := List.mem_iff_getElem.1 ho
    rw [List.length_take] at hk
    rw [List.getElem_take] at hget
    refine ⟨k + 1, e, Nat.succ_pos k, by omega, ?_, by simpa using hp⟩
    rw [entryAt, Nat.add_sub_cancel, List.getElem?_eq_getElem (by omega), hget]
    rfl
  · rintro ⟨j, e, h0, hle, hentry, hp⟩
    refine ⟨e, List.mem_filterMap.2 ⟨some e, ?_, rfl⟩, by simpa using hp⟩
    rw [entryAt, List.getElem?_eq_getElem (by omega)] at hentry
    refine List.mem_iff_getElem.2 ⟨j - 1, by rw [List.length_take]; omega, ?_⟩
    rw [List.getElem_take]
    exact hentry

theorem Takes.getByServant {e : MapEntry} (h : Takes m m' j e) (hv : j ≤ m.last → m.Vacant j)
    (he : e.servant = none) (p : Servant) :
    (m'.getByServant p).isSome = true ↔ (m.getByServant p).isSome = true := by
  rw [getByServant_isSome, getByServant_isSome]
  constructor
  · rintro ⟨i, e', h0, hle, hentry, hp⟩
    have hne : i ≠ j := by
      rintro rfl
      rw [h.entry] at hentry
      cases hentry
      rw [he] at hp
      cases hp
    exact ⟨i, e', h0, h.within i hle hne, (h.others i h0 hne).symm.trans hentry, hp⟩
  · rintro ⟨i, e', h0, hle, hentry, hp⟩
    have hne : i ≠ j := by
      rintro rfl
      rw [hv hle e' hentry] at hp
      cases hp
    exact ⟨i, e', h0, hle.trans h.last, (h.others i h0 hne).trans hentry, hp⟩

end SystemObjectMap

theorem ObjectMap.removeById_eq_none {om om' : ObjectMap}
    (h : om.removeById item = .ok (om', none)) : om' = om := by
  cases om with
  | system m =>
    obtain ⟨⟨m', e⟩, hrem, h⟩ := Checked.bind_eq_ok.1 h
    cases h
    rw [SystemObjectMap.removeById_eq_none hrem]
  | user m =>
    obtain ⟨rfl, hnone⟩ := Prod.mk.inj (Except.ok.inj h)
    rw [UserObjectMap.removeById, UserObjectMap.getById, Option.map_eq_none_iff,
      List.find?_eq_none] at hnone
    have hall : ∀ e ∈ m, (e.1 != item.id) = true := by
      intro e he
      simpa using hnone e he
    exact congrArg ObjectMap.user (List.filter_eq_self.2 hall)

end PolyORB
