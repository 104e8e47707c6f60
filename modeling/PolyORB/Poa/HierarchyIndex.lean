import PolyORB.Poa.Hierarchy
import PolyORB.Lib.Runs

/-!
# The global table and the children tables

In every hierarchy that calls of `Initialize_POA` and `Destroy` lead to, the global table names each
POA below the root by its path, and nothing else.
-/

namespace PolyORB

open Branches Character

/-! ## Full names -/

/-- The text of a path. -/
def pathName (names : List Text) : Text := [slash].intercalate names

theorem pathName_cons_cons (c d : Text) (cs : List Text) :
    pathName (c :: d :: cs) = c ++ slash :: pathName (d :: cs) := by
  rw [pathName, List.intercalate_cons_cons, pathName]
  simp

theorem pathName_inj {cs ds : List Text} (hc : ∀ c ∈ cs, c ≠ [] ∧ slash ∉ c)
    (hd : ∀ d ∈ ds, d ≠ [] ∧ slash ∉ d) (h : pathName cs = pathName ds) : cs = ds := by
  have hne : ∀ {cs : List Text}, cs ≠ [] → (∀ c ∈ cs, c ≠ [] ∧ slash ∉ c) → pathName cs ≠ [] := by
    rintro (_ | ⟨c, _ | ⟨d, cs⟩⟩) hnil hcs hname
    · exact hnil rfl
    · refine (hcs c List.mem_cons_self).1 ?_
      rw [← hname]
      exact (List.intercalate_singleton ..).symm
    · rw [pathName_cons_cons] at hname
      simp at hname
  by_cases hcs : cs = []
  · subst hcs
    by_contra hds
    exact hne (fun heq => hds heq.symm) hd h.symm
  · by_cases hds : ds = []
    · subst hds
      exact absurd h (hne hcs hc)
    · have hc' := List.splitOn_intercalate slash (fun l hl => (hc l hl).2) hcs
      rw [← List.splitOn_intercalate slash (fun l hl => (hd l hl).2) hds, ← hc']
      exact congrArg (List.splitOn slash) h

/-- `Absolute_Address` of the POA at the end of a path that starts at the given address. -/
def addressFrom (address : Text) (path : List AdapterName) : Text :=
  path.foldl (fun address name => absoluteAddress address name.1) address

theorem addressFrom_eq {address : Text} (h : address ≠ []) (path : List AdapterName) :
    addressFrom address path = pathName (address :: path.map Subtype.val) := by
  induction path generalizing address with
  | nil => exact (List.intercalate_singleton ..).symm
  | cons name path ih =>
    have hpos : 0 < address.length := List.length_pos_iff.2 h
    have hstep : absoluteAddress address name.1 = address ++ slash :: name.1 := by
      rw [absoluteAddress, if_pos hpos]
    rw [addressFrom, List.foldl_cons, hstep]
    have hlonger : address ++ slash :: name.1 ≠ [] := by simp
    have ih' := ih hlonger
    rw [addressFrom] at ih'
    rw [ih', List.map_cons, pathName_cons_cons]
    cases path with
    | nil => simp [pathName]
    | cons other path => simp [pathName_cons_cons]

theorem addressOf_eq (path : List AdapterName) :
    addressOf path = pathName (path.map Subtype.val) := by
  cases path with
  | nil => rfl
  | cons name path =>
    have hstep : absoluteAddress [] name.1 = name.1 := rfl
    exact addressFrom_eq name.2.1 path

theorem addressOf_inj {p q : List AdapterName} (h : addressOf p = addressOf q) : p = q := by
  rw [addressOf_eq, addressOf_eq] at h
  have hval : ∀ {p : List AdapterName}, ∀ c ∈ p.map Subtype.val, c ≠ [] ∧ slash ∉ c := by
    intro p c hc
    obtain ⟨name, -, rfl⟩ := List.mem_map.1 hc
    exact ⟨name.2.1, name.2.2.1⟩
  exact List.map_injective_iff.2 Subtype.val_injective (pathName_inj hval hval h)

theorem addressFrom_addressOf (p q : List AdapterName) :
    addressFrom (addressOf p) q = addressOf (p ++ q) := by
  rw [addressFrom, addressOf, addressOf, List.foldl_append]

theorem addressOf_cons (name : AdapterName) (path : List AdapterName) :
    ∃ rest, addressOf (name :: path) = name.1 ++ rest := by
  rw [addressOf_eq]
  cases path with
  | nil => exact ⟨[], by simp [pathName]⟩
  | cons other path => exact ⟨_, pathName_cons_cons _ _ _⟩

/-! ## The global table -/

namespace PoaTable

theorem lookup_delete (t : PoaTable) (key k : Text) :
    List.lookup k (t.delete key) = if k = key then none else List.lookup k t := by
  induction t with
  | nil => simp [delete]
  | cons e t ih =>
    obtain ⟨x, i⟩ := e
    rw [delete, List.filter_cons]
    rw [delete] at ih
    by_cases hx : x = key
    · subst hx
      simp only [bne_self_eq_false, Bool.false_eq_true, if_false, List.lookup_cons]
      rw [ih]
      by_cases hk : k = x
      · simp [hk]
      · simp [beq_eq_false_iff_ne.2 hk]
    · simp only [bne_iff_ne, ne_eq, hx, not_false_eq_true, if_true, List.lookup_cons]
      by_cases hk : k = x
      · subst hk
        simp [hx]
      · simp only [beq_eq_false_iff_ne.2 hk]
        exact ih

theorem lookup_insert {t : PoaTable} {key : Text} (h : List.lookup key t = none) (i : Nat)
    (k : Text) : List.lookup k (t.insert key i) = if k = key then some i else List.lookup k t := by
  rw [insert, h, if_neg (by simp), List.lookup_cons]
  by_cases hk : k = key
  · simp [hk]
  · simp [beq_eq_false_iff_ne.2 hk, if_neg hk]

mutual

theorem lookup_destroy (address : Text) (k : Text) : ∀ (poa : PoaTree) (t : PoaTable),
    List.lookup k (t.destroy address poa) =
      if ∃ q ∈ poa.paths, k = slash :: addressFrom address q then none else List.lookup k t
  | .node _ children, t => by
    rw [destroy, lookup_destroyAll address k children, lookup_delete, Tree.paths]
    have hself : addressFrom address [] = address := rfl
    simp only [List.mem_cons, exists_eq_or_imp, hself]
    by_cases hk : k = slash :: address <;> simp [hk]

theorem lookup_destroyAll (address : Text) (k : Text) :
    ∀ (children : Forest AdapterName PoaNode) (t : PoaTable),
      List.lookup k (destroyAll address children t) =
        if ∃ q ∈ children.paths, k = slash :: addressFrom address q then none else List.lookup k t
  | .nil, t => by simp [destroyAll, Forest.paths]
  | .cons name poa rest, t => by
    rw [destroyAll, lookup_destroyAll address k rest,
      lookup_destroy (absoluteAddress address name.1) k poa, Forest.paths]
    have hcons : ∀ q, addressFrom address (name :: q) =
        addressFrom (absoluteAddress address name.1) q := fun _ => rfl
    simp only [List.mem_append, List.mem_map, or_and_right, exists_or, exists_exists_and_eq_and,
      hcons]
    split_ifs with h1 h2 h3 h4 h5
    · rfl
    · exact absurd (.inr h1) h2
    · rfl
    · exact absurd (.inl h3) h4
    · exact (h5.elim h3 h1).elim
    · rfl

end

end PoaTable

/-! ## What the operations change -/

namespace Hierarchy

variable {h : Hierarchy}

theorem poaAt_of_append {p q : List AdapterName} (hp : h.poaAt p = none) :
    h.poaAt (p ++ q) = none := by
  rw [poaAt] at hp ⊢
  cases hr : h.root with
  | none => rfl
  | some t =>
    rw [hr] at hp
    exact Tree.valueAt_of_append hp

theorem poaAt_destroy (h : Hierarchy) (path q : List AdapterName) :
    (h.destroy path).poaAt q = if path <+: q then none else h.poaAt q := by
  rw [destroy]
  cases hr : h.root with
  | none => simp [poaAt, hr]
  | some t =>
    dsimp only
    cases hf : t.follow path with
    | none =>
      by_cases hpre : path <+: q
      · rw [if_pos hpre]
        obtain ⟨r, rfl⟩ := hpre
        refine poaAt_of_append ?_
        rw [poaAt, hr, Option.bind_some, Tree.valueAt, hf]
        rfl
      · rw [if_neg hpre]
    | some poa =>
      simp only [poaAt, hr, Option.bind_some]
      rcases List.eq_nil_or_concat path with rfl | ⟨front, name, rfl⟩
      · simp
      · rw [List.concat_eq_append]
        simp only [List.getLast?_append, List.getLast?_singleton, Option.some_or, Option.map_some,
          Option.bind_some, List.dropLast_concat]
        exact Tree.valueAt_cutAt t front name q

theorem lookup_destroy (h : Hierarchy) (path : List AdapterName) (k : Text) :
    List.lookup k (h.destroy path).table = none ∧
        (∃ q, k = slash :: addressOf (path ++ q)) ∨
      List.lookup k (h.destroy path).table = List.lookup k h.table ∧
        ∀ q, (h.poaAt (path ++ q)).isSome = true → k ≠ slash :: addressOf (path ++ q) := by
  rw [destroy]
  cases hr : h.root with
  | none => exact .inr ⟨rfl, fun q hq => by simp [poaAt, hr] at hq⟩
  | some t =>
    dsimp only
    cases hf : t.follow path with
    | none =>
      refine .inr ⟨rfl, fun q hq => ?_⟩
      have hnone : h.poaAt path = none := by
        rw [poaAt, hr, Option.bind_some, Tree.valueAt, hf]
        rfl
      rw [poaAt_of_append hnone] at hq
      cases hq
    | some poa =>
      rw [PoaTable.lookup_destroy]
      split_ifs with hk
      · obtain ⟨q, -, hq⟩ := hk
        exact .inl ⟨rfl, q, by rw [hq, addressFrom_addressOf]⟩
      · refine .inr ⟨rfl, fun q hq heq => hk ⟨q, ?_, by rw [heq, addressFrom_addressOf]⟩⟩
        refine Tree.mem_paths_of_valueAt ?_
        rw [poaAt, hr, Option.bind_some, Tree.valueAt, Tree.follow_append, hf] at hq
        exact hq

/-- What `Initialize_POA` comes to: a new POA below that at `path`, or nothing but that the identity
of a POA that was destroyed at once is used up. -/
inductive Initializes (h : Hierarchy) (path : List AdapterName) (name : Text) (activator : Bool)
    (compatible : Bool) : Hierarchy → Prop where
  | created {h' : Hierarchy} (valid : ValidAdapterName name) : (h.poaAt path).isSome = true →
      h.poaAt (path ++ [⟨name, valid⟩]) = none → compatible = true →
      (∀ q, h'.poaAt q =
        if q = path ++ [⟨name, valid⟩] then some ⟨h.next, activator⟩ else h.poaAt q) →
      h'.table = h.table.insert (slash :: addressOf (path ++ [⟨name, valid⟩])) h.next →
      h'.next = h.next + 1 → Initializes h path name activator compatible h'
  | unchanged {h' : Hierarchy} : (∀ q, h'.poaAt q = h.poaAt q) →
      (∀ k, List.lookup k h'.table = List.lookup k h.table ∨
        List.lookup k h'.table = none ∧ ∃ q, h.poaAt q = none ∧ k = slash :: addressOf q) →
      h.next ≤ h'.next → (compatible = true → h'.next = h.next) →
      (compatible = true → ∀ valid : ValidAdapterName name, (h.poaAt path).isSome = true →
        (h.poaAt (path ++ [⟨name, valid⟩])).isSome = true) →
      Initializes h path name activator compatible h'

theorem initializePoa_initializes (h : Hierarchy) (path : List AdapterName) (name : Text)
    (activator compatible : Bool) : Initializes h path name activator compatible
      (h.initializePoa path name activator compatible).1 := by
  by_cases valid : ValidAdapterName name
  · rw [initializePoa, dif_pos valid]
    cases hr : h.root with
    | none =>
      refine .unchanged (fun _ => rfl) (fun _ => .inl rfl) le_rfl (fun _ => rfl)
        fun _ _ hsome => ?_
      simp [poaAt, hr] at hsome
    | some t =>
      have hat : ∀ q, h.poaAt q = t.valueAt q := fun q => by rw [poaAt, hr, Option.bind_some]
      dsimp only
      by_cases hself : (t.valueAt path).isNone = true
      · rw [if_pos hself]
        refine .unchanged (fun _ => rfl) (fun _ => .inl rfl) le_rfl (fun _ => rfl)
          fun _ _ hsome => ?_
        rw [hat, Option.isNone_iff_eq_none.1 hself] at hsome
        cases hsome
      rw [if_neg hself]
      by_cases hchild : (t.valueAt (path ++ [⟨name, valid⟩])).isSome = true
      · rw [if_pos hchild]
        exact .unchanged (fun _ => rfl) (fun _ => .inl rfl) le_rfl (fun _ => rfl)
          fun _ _ _ => by rw [hat]; exact hchild
      rw [if_neg hchild]
      have hself' : (t.valueAt path).isSome = true := by
        simpa [Option.isSome_iff_ne_none] using hself
      have hchild' : t.valueAt (path ++ [⟨name, valid⟩]) = none := by simpa using hchild
      have hnone : h.poaAt (path ++ [⟨name, valid⟩]) = none := (hat _).trans hchild'
      have hadd : ∀ q, (t.addAt path ⟨name, valid⟩ ⟨h.next, activator⟩).valueAt q =
          if q = path ++ [⟨name, valid⟩] then some ⟨h.next, activator⟩ else t.valueAt q :=
        Tree.valueAt_addAt hself' hchild'
      cases compatible with
      | false =>
        rw [if_pos rfl]
        refine .unchanged (fun q => ?_) (fun k => ?_) ?_ (by rintro ⟨⟩) (by rintro ⟨⟩)
        · rw [poaAt_destroy]
          split_ifs with hpre
          · obtain ⟨r, rfl⟩ := hpre
            exact (poaAt_of_append hnone).symm
          · rw [poaAt, Option.bind_some, hadd, hat, if_neg]
            rintro rfl
            exact hpre (List.prefix_refl _)
        · rcases lookup_destroy ⟨some (t.addAt path ⟨name, valid⟩ ⟨h.next, activator⟩), h.table,
            h.next + 1⟩ (path ++ [⟨name, valid⟩]) k with ⟨hk, q, hq⟩ | ⟨hk, -⟩
          · exact .inr ⟨hk, _, poaAt_of_append hnone, hq⟩
          · exact .inl hk
        · rw [destroy]
          dsimp only
          split <;> exact Nat.le_succ _
      | true =>
        rw [if_neg (by simp)]
        refine .created valid (by rwa [hat]) hnone rfl (fun q => ?_) rfl rfl
        rw [poaAt, Option.bind_some, hat]
        exact hadd q
  · rw [initializePoa, dif_neg valid]
    exact .unchanged (fun _ => rfl) (fun _ => .inl rfl) le_rfl (fun _ => rfl) fun _ v => absurd v valid

/-! ## Hierarchies that are well indexed -/

/-- The global table is that of the POAs below the root, and each POA has its own identity. -/
structure Indexed (h : Hierarchy) : Prop where
  fresh : ∀ p n, h.poaAt p = some n → n.id < h.next
  ids : ∀ p q n m, h.poaAt p = some n → h.poaAt q = some m → n.id = m.id → p = q
  table : ∀ k i, List.lookup k h.table = some i ↔
    ∃ p, p ≠ [] ∧ k = slash :: addressOf p ∧ (h.poaAt p).map PoaNode.id = some i

theorem indexed_createRoot (activator : Bool) : Indexed (createRoot activator) := by
  have hroot : ∀ p n, (createRoot activator).poaAt p = some n → p = [] ∧ n.id = 0 := by
    rintro (_ | ⟨x, p⟩) n hn
    · cases hn
      exact ⟨rfl, rfl⟩
    · cases hn
  refine ⟨fun p n hn => ?_, fun p q n m hn hm _ => ?_, fun k i => ?_⟩
  · rw [(hroot p n hn).2]
    exact Nat.zero_lt_one
  · rw [(hroot p n hn).1, (hroot q m hm).1]
  · refine iff_of_false (by rintro ⟨⟩) ?_
    rintro ⟨p, hp, -, hn⟩
    obtain ⟨n, hn', -⟩ := Option.map_eq_some_iff.1 hn
    exact hp (hroot p n hn').1

theorem Indexed.initializePoa (hi : Indexed h) (path : List AdapterName) (name : Text)
    (activator compatible : Bool) : Indexed (h.initializePoa path name activator compatible).1 := by
  cases initializePoa_initializes h path name activator compatible with
  | @created valid hself hnone hcompat hat htable hnext =>
    have hold : ∀ {q n}, q ≠ path ++ [⟨name, valid⟩] →
        (h.initializePoa path name activator compatible).1.poaAt q = some n →
        h.poaAt q = some n := by
      intro q n hq hn
      rwa [hat, if_neg hq] at hn
    have hnew : ∀ {q n}, q = path ++ [⟨name, valid⟩] →
        (h.initializePoa path name activator compatible).1.poaAt q = some n → n.id = h.next := by
      intro q n hq hn
      rw [hat, if_pos hq] at hn
      cases hn
      rfl
    have hkey : List.lookup (slash :: addressOf (path ++ [⟨name, valid⟩])) h.table = none := by
      by_contra hsome
      obtain ⟨i, hi'⟩ := Option.ne_none_iff_exists'.1 hsome
      obtain ⟨p, -, hp, hn⟩ := (hi.table _ _).1 hi'
      obtain rfl := addressOf_inj (List.cons.inj hp).2
      rw [hnone] at hn
      cases hn
    refine ⟨fun p n hn => ?_, fun p q n m hn hm hid => ?_, fun k i => ?_⟩
    · rw [hnext]
      by_cases hp : p = path ++ [⟨name, valid⟩]
      · rw [hnew hp hn]
        exact Nat.lt_succ_self _
      · exact (hi.fresh p n (hold hp hn)).trans (Nat.lt_succ_self _)
    · by_cases hp : p = path ++ [⟨name, valid⟩] <;> by_cases hq : q = path ++ [⟨name, valid⟩]
      · rw [hp, hq]
      · have := hi.fresh q m (hold hq hm)
        rw [hnew hp hn] at hid
        omega
      · have := hi.fresh p n (hold hp hn)
        rw [hnew hq hm] at hid
        omega
      · exact hi.ids p q n m (hold hp hn) (hold hq hm) hid
    · rw [htable, PoaTable.lookup_insert hkey]
      split_ifs with hk
      · constructor
        · rintro ⟨⟩
          exact ⟨_, by simp, hk, by rw [hat, if_pos rfl]; rfl⟩
        · rintro ⟨p, -, hp, hn⟩
          obtain rfl := addressOf_inj (List.cons.inj (hk.symm.trans hp)).2
          rw [hat, if_pos rfl] at hn
          exact hn
      · rw [hi.table]
        refine exists_congr fun p => and_congr_right fun _ => and_congr_right fun hp => ?_
        rw [hat, if_neg]
        rintro rfl
        exact hk hp
  | unchanged hat htable hnext _ _ =>
    refine ⟨fun p n hn => ?_, fun p q n m hn hm hid => ?_, fun k i => ?_⟩
    · exact (hi.fresh p n (by rwa [hat] at hn)).trans_le hnext
    · exact hi.ids p q n m (by rwa [hat] at hn) (by rwa [hat] at hm) hid
    · simp only [hat]
      rcases htable k with hk | ⟨hk, q, hq, hkey⟩
      · rw [hk]
        exact hi.table k i
      · refine iff_of_false (by rw [hk]; rintro ⟨⟩) ?_
        rintro ⟨p, -, hp, hn⟩
        obtain rfl := addressOf_inj (List.cons.inj (hkey.symm.trans hp)).2
        rw [hq] at hn
        cases hn

theorem Indexed.destroy (hi : Indexed h) (path : List AdapterName) : Indexed (h.destroy path) := by
  have hnext : (h.destroy path).next = h.next := by
    rw [Hierarchy.destroy]
    split
    · rfl
    · split <;> rfl
  have hold : ∀ {q n}, (h.destroy path).poaAt q = some n → ¬path <+: q ∧ h.poaAt q = some n := by
    intro q n hn
    rw [poaAt_destroy] at hn
    split_ifs at hn with hpre
    exact ⟨hpre, hn⟩
  refine ⟨fun p n hn => ?_, fun p q n m hn hm hid => ?_, fun k i => ?_⟩
  · rw [hnext]
    exact hi.fresh p n (hold hn).2
  · exact hi.ids p q n m (hold hn).2 (hold hm).2 hid
  · rcases lookup_destroy h path k with ⟨hk, q, hq⟩ | ⟨hk, hother⟩
    · rw [hk]
      refine iff_of_false (by rintro ⟨⟩) ?_
      rintro ⟨p, -, hp, hn⟩
      obtain rfl := addressOf_inj (List.cons.inj (hq.symm.trans hp)).2
      rw [poaAt_destroy, if_pos (List.prefix_append _ _)] at hn
      cases hn
    · rw [hk, hi.table]
      refine exists_congr fun p => and_congr_right fun _ => and_congr_right fun hp => ?_
      rw [poaAt_destroy]
      split_ifs with hpre
      · obtain ⟨r, rfl⟩ := hpre
        cases hn : h.poaAt (path ++ r) with
        | none => rfl
        | some n => exact absurd hp (hother r (by rw [hn]; rfl))
      · rfl

theorem Indexed.perform (hi : Indexed h) (call : PoaCall) : Indexed (h.perform call) := by
  cases call with
  | initializePoa path name activator compatible => exact hi.initializePoa path name activator compatible
  | destroy path => exact hi.destroy path

theorem indexed_reach (activator : Bool) (calls : List PoaCall) :
    Indexed (Runs.reach Hierarchy.perform (createRoot activator) calls) :=
  Runs.reach_of_inv (A := fun _ _ => True) (fun _ call hi _ => hi.perform call) calls _
    (indexed_createRoot activator) (Runs.along_true calls _)

end Hierarchy

end PolyORB
