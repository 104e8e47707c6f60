import Mathlib.Tactic

/-!
# Trees with named branches

Every node carries a value and a table of subtrees by key, as a directory does.  A node is reached
by following a path from the root; the operations here add a leaf below a node and cut a branch off,
and the lemmas say what they change in the values seen along every path.
-/

namespace Branches

mutual

inductive Tree (κ α : Type) where
  | node (value : α) (branches : Forest κ α)

inductive Forest (κ α : Type) where
  | nil
  | cons (key : κ) (tree : Tree κ α) (rest : Forest κ α)

end

variable {κ α : Type}

namespace Tree

def value : Tree κ α → α
  | node v _ => v

def branches : Tree κ α → Forest κ α
  | node _ f => f

@[simp] theorem value_node (v : α) (f : Forest κ α) : (node v f).value = v := rfl

@[simp] theorem branches_node (v : α) (f : Forest κ α) : (node v f).branches = f := rfl

end Tree

section Defs

variable [DecidableEq κ]

def Forest.lookup (k : κ) : Forest κ α → Option (Tree κ α)
  | .nil => none
  | .cons x t rest => if x = k then some t else rest.lookup k

def Forest.erase (k : κ) : Forest κ α → Forest κ α
  | .nil => .nil
  | .cons x t rest => if x = k then rest.erase k else .cons x t (rest.erase k)

/-- Apply `g` to the subtrees of a key. -/
def Forest.modify (k : κ) (g : Tree κ α → Tree κ α) : Forest κ α → Forest κ α
  | .nil => .nil
  | .cons x t rest => .cons x (if x = k then g t else t) (rest.modify k g)

namespace Tree

def follow : Tree κ α → List κ → Option (Tree κ α)
  | t, [] => some t
  | t, k :: ks => (t.branches.lookup k).bind fun u => u.follow ks

/-- The value seen at the end of a path. -/
def valueAt (t : Tree κ α) (p : List κ) : Option α := (t.follow p).map value

def modifyAt : List κ → (Tree κ α → Tree κ α) → Tree κ α → Tree κ α
  | [], g, t => g t
  | k :: ks, g, t => .node t.value (t.branches.modify k (modifyAt ks g))

def addAt (t : Tree κ α) (p : List κ) (k : κ) (v : α) : Tree κ α :=
  t.modifyAt p fun u => .node u.value (.cons k (.node v .nil) u.branches)

def cutAt (t : Tree κ α) (p : List κ) (k : κ) : Tree κ α :=
  t.modifyAt p fun u => .node u.value (u.branches.erase k)

end Tree

end Defs

mutual

def Tree.paths : Tree κ α → List (List κ)
  | .node _ f => [] :: f.paths

def Forest.paths : Forest κ α → List (List κ)
  | .nil => []
  | .cons k t rest => t.paths.map (k :: ·) ++ rest.paths

end

/-! ## Tables -/

section Lemmas

variable [DecidableEq κ]

namespace Forest

theorem lookup_erase (k x : κ) : ∀ f : Forest κ α,
    (f.erase k).lookup x = if x = k then none else f.lookup x
  | .nil => by simp [erase, lookup]
  | .cons y t rest => by
    have ih := lookup_erase k x rest
    rw [erase]
    split_ifs at ih ⊢ with hy hx hx
    · exact ih
    · rw [ih, lookup, if_neg (by rintro rfl; exact hx hy)]
    · rw [lookup, if_neg (by rintro rfl; exact hy hx), ih]
    · rw [lookup, lookup, ih]

theorem lookup_modify (k x : κ) (g : Tree κ α → Tree κ α) : ∀ f : Forest κ α,
    (f.modify k g).lookup x = if x = k then (f.lookup x).map g else f.lookup x
  | .nil => by simp [modify, lookup]
  | .cons y t rest => by
    have ih := lookup_modify k x g rest
    rw [modify, lookup, lookup]
    by_cases hy : y = x
    · subst hy
      by_cases hk : y = k <;> simp [hk]
    · rw [if_neg hy, if_neg hy, ih]

end Forest

namespace Tree

theorem follow_append (t : Tree κ α) (p q : List κ) :
    t.follow (p ++ q) = (t.follow p).bind fun u => u.follow q := by
  induction p generalizing t with
  | nil => rfl
  | cons k p ih =>
    rw [List.cons_append, follow, follow]
    cases t.branches.lookup k with
    | none => rfl
    | some u => exact ih u

@[simp] theorem valueAt_nil (t : Tree κ α) : t.valueAt [] = some t.value := rfl

theorem valueAt_cons (t : Tree κ α) (k : κ) (p : List κ) :
    t.valueAt (k :: p) = (t.branches.lookup k).bind fun u => u.valueAt p := by
  rw [valueAt, follow]
  cases t.branches.lookup k <;> rfl

theorem valueAt_of_append {t : Tree κ α} {p q : List κ} (h : t.valueAt p = none) :
    t.valueAt (p ++ q) = none := by
  rw [valueAt, Option.map_eq_none_iff] at h ⊢
  rw [follow_append, h]
  rfl

theorem Forest.mem_paths_of_lookup {k : κ} {p : List κ} {u : Tree κ α} (hp : p ∈ u.paths) :
    ∀ {f : Forest κ α}, f.lookup k = some u → k :: p ∈ f.paths
  | .nil, h => by cases h
  | .cons x t rest, h => by
    rw [Forest.lookup] at h
    rw [Forest.paths, List.mem_append]
    split_ifs at h with hx
    · cases h
      exact .inl (List.mem_map.2 ⟨p, hp, by rw [hx]⟩)
    · exact .inr (mem_paths_of_lookup hp h)

theorem mem_paths_of_valueAt {p : List κ} : ∀ {t : Tree κ α}, (t.valueAt p).isSome = true →
    p ∈ t.paths := by
  induction p with
  | nil =>
    intro t _
    cases t
    exact List.mem_cons_self
  | cons k p ih =>
    rintro ⟨v, f⟩ h
    rw [valueAt_cons, branches_node] at h
    obtain ⟨u, hu⟩ : ∃ u, f.lookup k = some u := by
      cases hu : f.lookup k with
      | none =>
        rw [hu] at h
        cases h
      | some u => exact ⟨u, rfl⟩
    rw [hu] at h
    exact List.mem_cons_of_mem _ (Forest.mem_paths_of_lookup (ih h) hu)

/-! ## Adding and cutting -/

theorem valueAt_addAt {t : Tree κ α} {p : List κ} {k : κ} {v : α} (hp : (t.valueAt p).isSome = true)
    (hk : t.valueAt (p ++ [k]) = none) (q : List κ) :
    (t.addAt p k v).valueAt q = if q = p ++ [k] then some v else t.valueAt q := by
  induction p generalizing t q with
  | nil =>
    rw [List.nil_append] at hk ⊢
    cases q with
    | nil => rfl
    | cons x q =>
      rw [addAt, modifyAt, valueAt_cons, branches_node, Forest.lookup, valueAt_cons]
      by_cases hx : k = x
      · subst hx
        rw [valueAt_cons] at hk
        have hnone : t.branches.lookup k = none := by
          cases hu : t.branches.lookup k with
          | none => rfl
          | some u =>
            rw [hu] at hk
            cases hk
        rw [hnone]
        cases q with
        | nil => simp
        | cons y q => simp [valueAt_cons, Forest.lookup]
      · rw [if_neg hx, if_neg]
        rintro ⟨⟩
        exact hx rfl
  | cons y p ih =>
    cases q with
    | nil => rfl
    | cons x q =>
      rw [List.cons_append, valueAt_cons] at hk
      rw [valueAt_cons] at hp
      rw [addAt, modifyAt, valueAt_cons, branches_node, Forest.lookup_modify, valueAt_cons,
        List.cons_append]
      by_cases hx : x = y
      · subst hx
        cases hu : t.branches.lookup x with
        | none =>
          rw [hu] at hp
          cases hp
        | some u =>
          rw [hu] at hp hk
          simp only [Option.map_some, Option.bind_some, List.cons.injEq, true_and]
          exact ih hp hk q
      · rw [if_neg hx, if_neg]
        rintro ⟨⟩
        exact hx rfl

theorem valueAt_cutAt (t : Tree κ α) (p : List κ) (k : κ) (q : List κ) :
    (t.cutAt p k).valueAt q = if p ++ [k] <+: q then none else t.valueAt q := by
  induction p generalizing t q with
  | nil =>
    cases q with
    | nil => rfl
    | cons x q =>
      rw [cutAt, modifyAt, valueAt_cons, branches_node, Forest.lookup_erase, valueAt_cons,
        List.nil_append]
      by_cases hx : x = k
      · subst hx
        rw [if_pos rfl, if_pos ⟨q, rfl⟩]
        rfl
      · rw [if_neg hx, if_neg]
        rw [List.cons_prefix_cons]
        rintro ⟨rfl, -⟩
        exact hx rfl
  | cons y p ih =>
    cases q with
    | nil => rfl
    | cons x q =>
      rw [cutAt, modifyAt, valueAt_cons, branches_node, Forest.lookup_modify, valueAt_cons]
      simp only [List.cons_append, List.cons_prefix_cons]
      by_cases hx : x = y
      · subst hx
        cases hu : t.branches.lookup x with
        | none => simp
        | some u =>
          simp only [Option.map_some, Option.bind_some, true_and]
          exact ih u q
      · rw [if_neg hx, if_neg]
        rintro ⟨heq, -⟩
        exact hx heq.symm

end Tree

end Lemmas

end Branches
