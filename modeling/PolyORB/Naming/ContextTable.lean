import PolyORB.Naming.Directories

/-!
# The shared table

`Represents s m L`: the contexts of `s` are the maps `m`, and `L i` has the nodes of the list of the context
`i`.  The table has exactly the nodes of the lists, under their encoded names; keys of contexts
differ, so that two names meet in the table only within a context.
-/

namespace PolyORB

open Linked (Node IsList addresses first last)

def BoundObject.binding (bo : BoundObject) : Binding := ⟨bo.bn, bo.bt, bo.obj⟩

abbrev ContextNodes := Nat → List (Nat × BoundObject)

structure Represents (s : NamingState) (m : List Directory) (L : ContextNodes) : Prop where
  size : m.length = s.contexts.length
  seed : s.seed.length = NamingState.keySize ∧ Letters s.seed ∧ keyValue s.seed = s.contexts.length
  keys : ∀ i < s.contexts.length,
    (s.context i).key.length = NamingState.keySize ∧ keyValue (s.context i).key = i
  lists : ∀ i < s.contexts.length, IsList s.heap (s.context i).ends (L i)
  directory : ∀ i, Directories.directory m i = (L i).map fun p => p.2.binding
  encoded : ∀ i, ∀ p ∈ L i, p.2.key = (s.context i).encode p.2.bn
  inside : ∀ i, ∀ p ∈ L i, i < s.contexts.length
  table : ∀ k a, s.boht k = some a ↔ ∃ i x, (a, x) ∈ L i ∧ x.key = k
  fresh : ∀ i, ∀ a ∈ addresses (L i), a < s.allocated

/-! ## Contexts by number -/

variable {i j a : Nat}

namespace NamingState

variable {s : NamingState}

theorem context_eq {s' : NamingState} {cs : List NamingContext} (h : s'.contexts = cs) (i : Nat) :
    s'.context i = cs.getD i ⟨[], ⟨none, none⟩⟩ := by rw [context, h]

/-- The context `i` has other ends after its list was changed, and all others are the same. -/
structure Relisted (s s' : NamingState) (i : Nat) (e : Linked.Ends) : Prop where
  size : s'.contexts.length = s.contexts.length
  self : i < s.contexts.length → s'.context i = { s.context i with ends := e }
  other : ∀ j, i ≠ j → s'.context j = s.context j
  key : ∀ j, (s'.context j).key = (s.context j).key

theorem relisted {u : NamingState} {e : Linked.Ends}
    (h : u.contexts = s.contexts.set i { s.context i with ends := e }) : s.Relisted u i e := by
  have hself : i < s.contexts.length → u.context i = { s.context i with ends := e } := by
    intro hi
    rw [context_eq h, Directories.getD_set_self hi]
  have hother : ∀ j, i ≠ j → u.context j = s.context j := by
    intro j hij
    rw [context_eq h, Directories.getD_set_ne _ hij, context]
  refine ⟨by rw [h, List.length_set], hself, hother, fun j => ?_⟩
  by_cases hij : i = j
  · subst hij
    by_cases hi : i < s.contexts.length
    · rw [hself hi]
    · rw [context_eq h, List.set_eq_of_length_le (Nat.le_of_not_lt hi), context]
  · rw [hother j hij]

end NamingState

theorem NamingContext.encode_inj {c : NamingContext} {n n' : NameComponent} :
    c.encode n = c.encode n' ↔ n.entry = n'.entry := List.append_right_inj c.key

/-! ## Consequences -/

namespace Represents

variable {s : NamingState} {m : List Directory} {L : ContextNodes} {x y : BoundObject}

theorem content_unique (h : Represents s m L) (hx : (a, x) ∈ L i) (hy : (a, y) ∈ L j) : x = y := by
  obtain ⟨n, hn, rfl⟩ := (h.lists i (h.inside i _ hx)).nodes.content hx
  obtain ⟨n', hn', rfl⟩ := (h.lists j (h.inside j _ hy)).nodes.content hy
  rw [hn] at hn'
  rw [Option.some.inj hn']

theorem context_unique (h : Represents s m L) {b : Nat}
    (hx : (a, x) ∈ L i) (hy : (b, y) ∈ L j) (hk : x.key = y.key) : i = j := by
  have hi := h.inside i _ hx
  have hj := h.inside j _ hy
  rw [h.encoded i _ hx, h.encoded j _ hy] at hk
  have hlen := (h.keys i hi).1.trans (h.keys j hj).1.symm
  have hkey := (List.append_inj hk hlen).1
  rw [← (h.keys i hi).2, ← (h.keys j hj).2, hkey]

theorem address_unique (h : Represents s m L) {b : Nat} (hx : (a, x) ∈ L i)
    (hy : (b, y) ∈ L j) (hk : x.key = y.key) : a = b := by
  have ha := (h.table y.key a).mpr ⟨i, x, hx, hk⟩
  have hb := (h.table y.key b).mpr ⟨j, y, hy, rfl⟩
  exact Option.some.inj (ha.symm.trans hb)

theorem disjoint (h : Represents s m L) (hi : a ∈ addresses (L i))
    (hj : a ∈ addresses (L j)) : i = j := by
  obtain ⟨⟨b, x⟩, hx, rfl⟩ := List.mem_map.mp hi
  obtain ⟨⟨c, y⟩, hy, hc⟩ := List.mem_map.mp hj
  obtain rfl : c = b := hc
  exact h.context_unique hx hy (by rw [h.content_unique hx hy])

theorem eq_of_entry (h : Represents s m L) {p q : Nat × BoundObject} (hp : p ∈ L i)
    (hq : q ∈ L i) (he : p.2.bn.entry = q.2.bn.entry) : p = q := by
  have hk : p.2.key = q.2.key := by
    rw [h.encoded i p hp, h.encoded i q hq, NamingContext.encode_inj.mpr he]
  have ha : p.1 = q.1 := h.address_unique hp hq hk
  obtain ⟨a, x⟩ := p
  obtain ⟨b, y⟩ := q
  obtain rfl : a = b := ha
  rw [h.content_unique hp hq]

theorem lookForBo (h : Represents s m L) (hi : i < s.contexts.length) (c : NameComponent) :
    (s.lookForBo ((s.context i).encode c) = none ∧ s.boht ((s.context i).encode c) = none ∧
      ∀ p ∈ L i, p.2.bn.entry ≠ c.entry) ∨
    ∃ l r a x, L i = l ++ (a, x) :: r ∧ x.bn.entry = c.entry ∧
      s.lookForBo ((s.context i).encode c) = some (a, ⟨x, last none l, first none r⟩) := by
  cases hb : s.boht ((s.context i).encode c) with
  | none =>
    refine .inl ⟨by rw [NamingState.lookForBo, hb]; rfl, rfl, fun p hp he => ?_⟩
    have := (h.table ((s.context i).encode c) p.1).mpr
      ⟨i, p.2, hp, by rw [h.encoded i p hp, NamingContext.encode_inj.mpr he]⟩
    rw [hb] at this
    cases this
  | some a =>
    obtain ⟨j, x, hx, hk⟩ := (h.table _ a).mp hb
    -- the name was encoded for this context, as the key shows
    have hj := h.inside j _ hx
    have hk' := hk
    rw [h.encoded j _ hx] at hk'
    have hkey := List.append_inj hk' ((h.keys j hj).1.trans (h.keys i hi).1.symm)
    obtain rfl : j = i := by rw [← (h.keys j hj).2, ← (h.keys i hi).2, hkey.1]
    obtain ⟨l, r, hL⟩ := List.append_of_mem hx
    have hnode := (hL ▸ h.lists j hj : IsList s.heap _ (l ++ (a, x) :: r)).node
    refine .inr ⟨l, r, a, x, hL, hkey.2, ?_⟩
    rw [NamingState.lookForBo, hb]
    show (s.heap a).map _ = _
    rw [hnode]
    rfl

/-! ## Changes to a list -/

theorem relist (h : Represents s m L) {s' : NamingState} {e : Linked.Ends}
    {K : List (Nat × BoundObject)} (hi : i < s.contexts.length) (hr : s.Relisted s' i e)
    (hseed : s'.seed = s.seed) (hK : IsList s'.heap e K)
    (hframe : ∀ j, i ≠ j → ∀ a ∈ addresses (L j), s'.heap a = s.heap a)
    (henc : ∀ p ∈ K, p.2.key = (s.context i).encode p.2.bn) (htable : ∀ k a, s'.boht k = some a ↔
      (∃ x, (a, x) ∈ K ∧ x.key = k) ∨ ∃ j x, i ≠ j ∧ (a, x) ∈ L j ∧ x.key = k)
    (hfresh : ∀ a ∈ addresses K, a < s'.allocated) (hle : s.allocated ≤ s'.allocated) :
    Represents s' (m.set i (K.map fun p => p.2.binding)) (Function.update L i K) := by
  have hself : Function.update L i K i = K := Function.update_self ..
  have hother : ∀ j, i ≠ j → Function.update L i K j = L j :=
    fun j hij => Function.update_of_ne hij.symm ..
  refine ⟨?_, ?_, ?_, ?_, ?_, ?_, ?_, ?_, ?_⟩
  · rw [List.length_set, h.size, hr.size]
  · rw [hseed, hr.size]
    exact h.seed
  · intro j hj
    rw [hr.size] at hj
    rw [hr.key j]
    exact h.keys j hj
  · intro j hj
    rw [hr.size] at hj
    by_cases hij : i = j
    · subst hij
      rw [hself, hr.self hi]
      exact hK
    · rw [hother j hij, hr.other j hij]
      exact (h.lists j hj).congr (hframe j hij)
  · intro j
    by_cases hij : i = j
    · subst hij
      rw [hself, Directories.directory_set_self (by rw [h.size]; exact hi)]
    · rw [hother j hij, Directories.directory_set_ne m hij, h.directory j]
  · intro j p hp
    rw [NamingContext.encode, hr.key j]
    by_cases hij : i = j
    · subst hij
      rw [hself] at hp
      exact henc p hp
    · rw [hother j hij] at hp
      exact h.encoded j p hp
  · intro j p hp
    rw [hr.size]
    by_cases hij : i = j
    · subst hij
      exact hi
    · rw [hother j hij] at hp
      exact h.inside j p hp
  · intro k a
    rw [htable]
    constructor
    · rintro (⟨x, hx, hk⟩ | ⟨j, x, hij, hx, hk⟩)
      · exact ⟨i, x, by rw [hself]; exact hx, hk⟩
      · exact ⟨j, x, by rw [hother j hij]; exact hx, hk⟩
    · rintro ⟨j, x, hx, hk⟩
      by_cases hij : i = j
      · subst hij
        rw [hself] at hx
        exact .inl ⟨x, hx, hk⟩
      · rw [hother j hij] at hx
        exact .inr ⟨j, x, hij, hx, hk⟩
  · intro j a ha
    by_cases hij : i = j
    · subst hij
      rw [hself] at ha
      exact hfresh a ha
    · rw [hother j hij] at ha
      exact Nat.lt_of_lt_of_le (h.fresh j a ha) hle

theorem append (h : Represents s m L) (hi : i < s.contexts.length) {o : BoundObject}
    (hkey : o.key = (s.context i).encode o.bn) (hnew : s.boht o.key = none) :
    Represents (s.appendBoToNc i (s.context i) o)
      (m.set i ((L i ++ [(s.allocated, o)]).map fun p => p.2.binding))
      (Function.update L i (L i ++ [(s.allocated, o)])) := by
  have hl := h.lists i hi
  have hnot : ∀ j, s.allocated ∉ addresses (L j) := fun j hm => absurd (h.fresh j _ hm) (lt_irrefl _)
  refine h.relist hi (NamingState.relisted rfl) rfl (hl.append (hnot i)) ?_ ?_ ?_ ?_ (Nat.le_succ _)
  · intro j hij a ha
    exact hl.append_frame (fun hm => hij (h.disjoint hm ha)) (by rintro rfl; exact hnot j ha)
  · intro p hp
    rcases List.mem_append.mp hp with hp | hp
    · exact h.encoded i p hp
    · obtain rfl := List.mem_singleton.mp hp
      exact hkey
  · intro k a
    show Function.update s.boht o.key (some s.allocated) k = some a ↔ _
    by_cases hk : k = o.key
    · subst hk
      rw [Function.update_self]
      constructor
      · intro ha
        obtain rfl := Option.some.inj ha
        exact .inl ⟨o, List.mem_append_right _ List.mem_cons_self, rfl⟩
      · have hno : ∀ j x, (a, x) ∈ L j → x.key ≠ o.key := by
          intro j x hx hk
          have := (h.table o.key a).mpr ⟨j, x, hx, hk⟩
          rw [hnew] at this
          cases this
        rintro (⟨x, hx, hk⟩ | ⟨j, x, -, hx, hk⟩)
        · rcases List.mem_append.mp hx with hx | hx
          · exact absurd hk (hno i x hx)
          · cases List.mem_singleton.mp hx
            rfl
        · exact absurd hk (hno j x hx)
    · rw [Function.update_of_ne hk, h.table]
      constructor
      · rintro ⟨j, x, hx, hk'⟩
        by_cases hij : i = j
        · subst hij
          exact .inl ⟨x, List.mem_append_left _ hx, hk'⟩
        · exact .inr ⟨j, x, hij, hx, hk'⟩
      · rintro (⟨x, hx, hk'⟩ | ⟨j, x, -, hx, hk'⟩)
        · rcases List.mem_append.mp hx with hx | hx
          · exact ⟨i, x, hx, hk'⟩
          · cases List.mem_singleton.mp hx
            exact absurd hk'.symm hk
        · exact ⟨j, x, hx, hk'⟩
  · intro a ha
    rw [Linked.addresses_append] at ha
    rcases List.mem_append.mp ha with ha | ha
    · exact Nat.lt_succ_of_lt (h.fresh i a ha)
    · obtain rfl := List.mem_singleton.mp ha
      exact Nat.lt_succ_self _

theorem remove (h : Represents s m L) {l r : List (Nat × BoundObject)}
    (hi : i < s.contexts.length) (hL : L i = l ++ (a, x) :: r) :
    Represents (s.removeBoFromNc i (s.context i) a ⟨x, last none l, first none r⟩)
      (m.set i ((l ++ r).map fun p => p.2.binding)) (Function.update L i (l ++ r)) := by
  have hl := h.lists i hi
  rw [hL] at hl
  have hax : (a, x) ∈ L i := by
    rw [hL]
    exact List.mem_append_right _ List.mem_cons_self
  have hmem : ∀ p, p ∈ L i ↔ p = (a, x) ∨ p ∈ l ++ r := by
    intro p
    rw [hL, List.mem_append, List.mem_cons, List.mem_append]
    exact or_left_comm
  have hout : ∀ y, (a, y) ∉ l ++ r := by
    intro y hy
    have hnd := hl.nodup
    have hm := Linked.mem_addresses hy
    rw [Linked.addresses_append] at hnd hm
    obtain ⟨-, hr, hlr⟩ := List.nodup_append.mp hnd
    rcases List.mem_append.mp hm with hm | hm
    · exact hlr a hm a List.mem_cons_self rfl
    · exact (List.nodup_cons.mp hr).1 hm
  refine h.relist hi (NamingState.relisted rfl) rfl hl.remove ?_ ?_ ?_ ?_ le_rfl
  · intro j hij b hb
    exact IsList.remove_frame (e := (s.context i).ends) fun hm => hij (h.disjoint (by rw [hL]; exact hm) hb)
  · intro p hp
    exact h.encoded i p ((hmem p).mpr (.inr hp))
  · intro k b
    show Function.update s.boht x.key none k = some b ↔ _
    by_cases hk : k = x.key
    · subst hk
      rw [Function.update_self]
      constructor
      · intro hb
        cases hb
      · rintro (⟨y, hy, hk⟩ | ⟨j, y, hij, hy, hk⟩)
        · obtain rfl := h.address_unique ((hmem _).mpr (.inr hy)) hax hk
          exact absurd hy (hout y)
        · exact absurd (h.context_unique hax hy hk.symm) hij
    · rw [Function.update_of_ne hk, h.table]
      constructor
      · rintro ⟨j, y, hy, hk'⟩
        by_cases hij : i = j
        · subst hij
          rcases (hmem _).mp hy with heq | hy
          · cases heq
            exact absurd hk'.symm hk
          · exact .inl ⟨y, hy, hk'⟩
        · exact .inr ⟨j, y, hij, hy, hk'⟩
      · rintro (⟨y, hy, hk'⟩ | ⟨j, y, -, hy, hk'⟩)
        · exact ⟨i, y, (hmem _).mpr (.inr hy), hk'⟩
        · exact ⟨j, y, hy, hk'⟩
  · intro b hb
    obtain ⟨p, hp, rfl⟩ := List.mem_map.mp hb
    exact h.fresh i _ (Linked.mem_addresses ((hmem p).mpr (.inr hp)))

/-! ## New contexts -/

theorem start : Represents .start [] fun _ => [] := by
  refine ⟨rfl, ⟨List.length_replicate, letters_replicate _, keyValue_replicate _⟩, fun i hi => ?_,
    fun i hi => ?_, fun _ => rfl, fun i p hp => ?_, fun i p hp => ?_, fun k a => ?_, fun i a ha => ?_⟩
  · cases hi
  · cases hi
  · cases hp
  · cases hp
  · constructor
    · intro h
      cases h
    · rintro ⟨_, _, hx, -⟩
      cases hx
  · cases ha

theorem newContext (h : Represents s m L) :
    (s.newContext = none ∧ Directories.newContext m = none) ∨
    ∃ s', s.newContext = some s' ∧ Directories.newContext m = some (m ++ [[]]) ∧
      s'.contexts.length = s.contexts.length + 1 ∧ Represents s' (m ++ [[]]) L := by
  obtain ⟨hlen, hlet, hval⟩ := h.seed
  have hspec := nextKey_spec hlet
  cases hn : nextKey s.seed with
  | none =>
    rw [hn] at hspec
    have hmax : keyValue s.seed + 1 = 26 ^ s.seed.length := hspec
    rw [hlen, hval, ← h.size] at hmax
    refine .inl ⟨by rw [NamingState.newContext, hn]; rfl, if_neg ?_⟩
    rw [Directories.maxContexts]
    omega
  | some k =>
    rw [hn] at hspec
    obtain ⟨hklen, hklet, hkval⟩ := hspec
    have hlt : m.length < Directories.maxContexts := by
      have := keyValue_lt hklet
      rw [hklen, hlen, hkval, hval, ← h.size] at this
      rw [Directories.maxContexts]
      omega
    have hs : s.newContext =
        some { s with seed := k, contexts := s.contexts ++ [⟨s.seed, ⟨none, none⟩⟩] } := by
      rw [NamingState.newContext, hn]
      rfl
    refine .inr ⟨_, hs, if_pos hlt, List.length_append, ?_⟩
    have hempty : L s.contexts.length = [] := by
      refine List.eq_nil_iff_forall_not_mem.mpr fun p hp => ?_
      exact lt_irrefl _ (h.inside _ p hp)
    have hold : ∀ j < s.contexts.length,
        NamingState.context { s with seed := k, contexts := s.contexts ++ [⟨s.seed, ⟨none, none⟩⟩] } j =
          s.context j := fun j hj => by
      rw [NamingState.context, NamingState.context, Directories.getD_append_of_lt hj]
    have hlast :
        NamingState.context { s with seed := k, contexts := s.contexts ++ [⟨s.seed, ⟨none, none⟩⟩] }
          s.contexts.length = ⟨s.seed, ⟨none, none⟩⟩ := by
      rw [NamingState.context, Directories.getD_append_length]
    have hcases : ∀ j, j < s.contexts.length + 1 → j < s.contexts.length ∨ j = s.contexts.length :=
      fun j hj => Nat.lt_or_eq_of_le (Nat.le_of_lt_succ hj)
    have hlen' : (s.contexts ++ [(⟨s.seed, ⟨none, none⟩⟩ : NamingContext)]).length =
        s.contexts.length + 1 := List.length_append
    refine ⟨?_, ⟨hklen.trans hlen, hklet, ?_⟩, ?_, ?_, ?_, ?_, ?_, h.table, h.fresh⟩
    · rw [hlen', List.length_append, h.size]
      rfl
    · rw [hlen', hkval, hval]
    · intro j hj
      rw [hlen'] at hj
      rcases hcases j hj with hj | rfl
      · rw [hold j hj]
        exact h.keys j hj
      · rw [hlast]
        exact ⟨hlen, hval⟩
    · intro j hj
      rw [hlen'] at hj
      rcases hcases j hj with hj | rfl
      · rw [hold j hj]
        exact h.lists j hj
      · rw [hlast, hempty]
        exact IsList.nil _
    · intro j
      rw [← h.directory j]
      exact Directories.getD_append_default m j []
    · intro j p hp
      rw [hold j (h.inside j p hp)]
      exact h.encoded j p hp
    · intro j p hp
      rw [hlen']
      exact Nat.lt_succ_of_lt (h.inside j p hp)

end Represents

end PolyORB
