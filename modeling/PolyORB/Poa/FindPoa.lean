import Mathlib.Data.List.TakeWhile
import PolyORB.Poa.HierarchyIndex

/-!
# Find_POA

A path whose names are all in the children tables leads to the POA that `Find_POA` returns.  For a
name that is missing the adapter activator is asked, and the search is made again.
-/

namespace PolyORB

open Branches Character

namespace Hierarchy

/-- The POA that the children tables lead to, component by component. -/
def follow (h : Hierarchy) : List AdapterName → List Text → Option PoaNode
  | path, [] => h.poaAt path
  | path, c :: cs =>
    match h.childOf path c with
    | some child => h.follow (path ++ [child]) cs
    | none => none

/-- The last POA on the way, and the components that are not there. -/
def missing (h : Hierarchy) : List AdapterName → List Text → List AdapterName × List Text
  | path, [] => (path, [])
  | path, c :: cs =>
    match h.childOf path c with
    | some child => h.missing (path ++ [child]) cs
    | none => (path, c :: cs)

end Hierarchy

/-- The components of a relative path, as `Find_POA` takes them off one by one. -/
def components (name : Text) : List Text :=
  if _ : name = [] then []
  else firstComponent name :: components (afterComponent name)
termination_by name.length
decreasing_by
  have hle := (List.dropWhile_suffix (· != slash) (l := name)).length_le
  have hpos := List.length_pos_iff.2 ‹name ≠ []›
  rw [afterComponent, List.length_tail]
  omega

/-- Components that are not empty. -/
def Components (cs : List Text) : Prop := ∀ c ∈ cs, c ≠ [] ∧ slash ∉ c

instance (cs : List Text) : Decidable (Components cs) := inferInstanceAs (Decidable (∀ c ∈ cs, _))

section Answers

variable (answers : Nat → Answer)

/-- Whether the activator's `k`-th answer creates the child, and with an activator of its own. -/
def creation (c : Text) (k : Nat) : Option Bool :=
  if ValidAdapterName c then (answers k).creates else none

/-- After an answer that declines, no further one completes the path. -/
def Declined : List Text → Nat → Bool → Prop
  | [], _, _ => False
  | c :: cs, k, activator =>
    activator = false ∨ (answers k).error ≠ none ∨ creation answers c k = none ∨ cs ≠ []

/-- From the `k`-th answer on the activators create the missing components, until one reports an
error, declines or is not there.  One that claims success without the child is asked again. -/
inductive Fair : List Text → Nat → Bool → Prop where
  | complete {k activator} : Fair [] k activator
  | silent {c cs k} : Fair (c :: cs) k false
  | reported {c cs k} : (answers k).error ≠ none → Fair (c :: cs) k true
  | claimed {c cs k} : (answers k).error = none → (answers k).result = true →
      creation answers c k = none → Fair (c :: cs) (k + 1) true → Fair (c :: cs) k true
  | created {c cs k activator} : (answers k).error = none → (answers k).result = true →
      creation answers c k = some activator → Fair cs (k + 1) activator → Fair (c :: cs) k true
  | declined {c cs k} : (answers k).error = none → (answers k).result = false →
      creation answers c k = none → Declined answers (c :: cs) (k + 1) true → Fair (c :: cs) k true
  | declinedCreated {c cs k activator} : (answers k).error = none → (answers k).result = false →
      creation answers c k = some activator → Declined answers cs (k + 1) activator →
      Fair (c :: cs) k true

/-- The activators answer fairly from the last POA on the way on. -/
def FairSearch (h : Hierarchy) (asked : Nat) (path : List AdapterName) (cs : List Text) : Prop :=
  ∀ node, h.poaAt (h.missing path cs).1 = some node →
    Fair answers (h.missing path cs).2 asked node.activator

/-- The POA that the children tables lead to in the end, and no POA at another place; else no POA
and `AdapterNonExistent_E`, or the error of an activator. -/
def RightlyFound (asked : Nat) (path : List AdapterName) (cs : List Text) (s' : Search) :
    Found → Prop
  | (some id, none) => (s'.hierarchy.follow path cs).map PoaNode.id = some id ∧
      ∀ q n, s'.hierarchy.poaAt q = some n → n.id = id →
        q.map Subtype.val = path.map Subtype.val ++ cs
  | (none, some e) =>
      (e = .adapterNonExistentE ∧ s'.hierarchy.follow path cs = none) ∨
        ∃ k, asked ≤ k ∧ k < s'.asked ∧ (answers k).error = some e
  | _ => False

end Answers

/-! ## Following the children tables -/

variable {child : AdapterName}

namespace Hierarchy

variable {h h' : Hierarchy} {path : List AdapterName} {c : Text} {cs : List Text}

theorem childOf_eq_some :
    h.childOf path c = some child ↔ child.1 = c ∧ (h.poaAt (path ++ [child])).isSome = true := by
  rw [childOf]
  constructor
  · intro hc
    split_ifs at hc with valid hsome
    cases hc
    exact ⟨rfl, hsome⟩
  · rintro ⟨rfl, hsome⟩
    rw [dif_pos child.2, if_pos hsome]

theorem childOf_eq_none (hc : h.childOf path c = none) (valid : ValidAdapterName c) :
    h.poaAt (path ++ [⟨c, valid⟩]) = none := by
  rw [childOf, dif_pos valid] at hc
  split_ifs at hc with hsome
  simpa using hsome

theorem follow_cons (hc : h.childOf path c = some child) (cs : List Text) :
    h.follow path (c :: cs) = h.follow (path ++ [child]) cs := by
  rw [follow, hc]

theorem follow_eq_none (hc : h.childOf path c = none) (cs : List Text) :
    h.follow path (c :: cs) = none := by
  rw [follow, hc]

theorem follow_path {p : List AdapterName} (hp : (h.poaAt (path ++ p)).isSome = true) :
    h.follow path (p.map Subtype.val) = h.poaAt (path ++ p) := by
  induction p generalizing path with
  | nil => simp [follow]
  | cons n p ih =>
    have hp' : (h.poaAt (path ++ [n] ++ p)).isSome = true := by simpa using hp
    have hn : (h.poaAt (path ++ [n])).isSome = true := by
      by_contra hnone
      rw [poaAt_of_append (by simpa using hnone)] at hp'
      cases hp'
    rw [List.map_cons, follow_cons (childOf_eq_some.2 ⟨rfl, hn⟩), ih hp', List.append_assoc]
    rfl

theorem exists_path {n : PoaNode} (hf : h.follow path cs = some n) :
    ∃ p, p.map Subtype.val = cs ∧ h.poaAt (path ++ p) = some n := by
  induction cs generalizing path with
  | nil => exact ⟨[], rfl, by simpa [follow] using hf⟩
  | cons c cs ih =>
    cases hc : h.childOf path c with
    | none =>
      rw [follow_eq_none hc] at hf
      cases hf
    | some child =>
      rw [follow_cons hc] at hf
      obtain ⟨p, hp, hn⟩ := ih hf
      obtain ⟨rfl, -⟩ := childOf_eq_some.1 hc
      exact ⟨child :: p, by rw [List.map_cons, hp], by simpa using hn⟩

/-- Every POA that is there in `h` is there in `h'`. -/
def Extends (h h' : Hierarchy) : Prop := ∀ q n, h.poaAt q = some n → h'.poaAt q = some n

theorem Extends.childOf (he : Extends h h')
    (hc : h.childOf path c = some child) : h'.childOf path c = some child := by
  obtain ⟨rfl, hsome⟩ := childOf_eq_some.1 hc
  obtain ⟨n, hn⟩ := Option.isSome_iff_exists.1 hsome
  exact childOf_eq_some.2 ⟨rfl, by rw [he _ n hn]; rfl⟩

end Hierarchy

/-! ## Components -/

@[simp] theorem components_nil : components [] = [] := by rw [components, dif_pos rfl]

theorem components_of_ne {name : Text} (h : name ≠ []) :
    components name = firstComponent name :: components (afterComponent name) := by
  rw [components, dif_neg h]

theorem components_eq_nil {name : Text} : components name = [] ↔ name = [] := by
  constructor
  · intro h
    by_contra hne
    rw [components_of_ne hne] at h
    cases h
  · rintro rfl
    exact components_nil

theorem components_eq_cons {name c : Text} {cs : List Text} (h : components name = c :: cs) :
    name ≠ [] ∧ firstComponent name = c ∧ components (afterComponent name) = cs := by
  have hne : name ≠ [] := by
    rintro rfl
    rw [components_nil] at h
    cases h
  rw [components_of_ne hne] at h
  obtain ⟨hc, hcs⟩ := List.cons.inj h
  exact ⟨hne, hc, hcs⟩

theorem components_pathName {cs : List Text} (h : Components cs) : components (pathName cs) = cs := by
  induction cs with
  | nil => exact components_nil
  | cons c cs ih =>
    have hc : ∀ x ∈ c, (x != slash) = true := by
      intro x hx
      rw [bne_iff_ne]
      rintro rfl
      exact (h c List.mem_cons_self).2 hx
    have hcne := (h c List.mem_cons_self).1
    have ih' := ih fun d hd => h d (List.mem_cons_of_mem _ hd)
    cases cs with
    | nil =>
      have hone : pathName [c] = c := List.intercalate_singleton ..
      rw [hone, components_of_ne hcne, firstComponent, afterComponent,
        List.takeWhile_eq_self_iff.2 hc, List.dropWhile_eq_nil_iff.2 hc, List.tail_nil,
        components_nil]
    | cons d cs =>
      rw [components_of_ne (by rw [pathName_cons_cons]; simp), pathName_cons_cons, firstComponent,
        afterComponent, List.takeWhile_append_of_pos hc, List.dropWhile_append_of_pos hc, List.takeWhile_cons,
        List.dropWhile_cons]
      simp [ih']

theorem Hierarchy.Indexed.lookup_fullName {h : Hierarchy} (hi : Indexed h)
    {path : List AdapterName} {name : Text} {i : Nat}
    (hk : List.lookup (addressOf path ++ slash :: name) h.table = some i) :
    (h.follow path (components name)).map PoaNode.id = some i := by
  obtain ⟨p, -, hp, hn⟩ := (hi.table _ _).1 hk
  cases path with
  | cons first path =>
    obtain ⟨rest, hrest⟩ := addressOf_cons first path
    obtain ⟨char, tail, hname⟩ := List.exists_cons_of_ne_nil first.2.1
    rw [hrest, hname] at hp
    have hslash : char = slash := (List.cons.inj hp).1
    refine absurd ?_ first.2.2.1
    rw [hname, hslash]
    exact List.mem_cons_self
  | nil =>
    have haddr : name = addressOf p := (List.cons.inj hp).2
    have hp' : components name = p.map Subtype.val := by
      rw [haddr, addressOf_eq]
      refine components_pathName fun d hd => ?_
      obtain ⟨first, -, rfl⟩ := List.mem_map.1 hd
      exact ⟨first.2.1, first.2.2.1⟩
    obtain ⟨n, hn', -⟩ := Option.map_eq_some_iff.1 hn
    rw [hp', follow_path (by rw [List.nil_append, hn']; rfl), List.nil_append]
    exact hn

/-! ## Single steps of the search -/

namespace Search

open Hierarchy

variable {answers : Nat → Answer} {s : Search} {path : List AdapterName} {name c : Text}
  {cs : List Text} {self : PoaNode} {activateIt : Bool} {error : Option ErrorId}

theorem findPoa_nil (hself : s.hierarchy.poaAt path = some self) (hname : components name = [])
    (depth : Nat) :
    findPoa answers (depth + 1) s path name activateIt error = (s, .ok (some self.id, error)) := by
  rw [findPoa, hself, components_eq_nil.1 hname]
  rfl

theorem findPoa_cons (hself : s.hierarchy.poaAt path = some self)
    (hname : components name = c :: cs) (hc : c ≠ []) (depth : Nat) :
    findPoa answers (depth + 1) s path name activateIt error =
      match List.lookup (addressOf path ++ slash :: name) s.hierarchy.table with
      | some id => (s, .ok (some id, error))
      | none =>
        match s.hierarchy.childOf path c with
        | some child =>
          findPoa answers depth s (path ++ [child]) (afterComponent name) activateIt error
        | none =>
          if activateIt = true ∧ self.activator = true then
            if ((answers s.asked).error.or error).isSome = true then
              (s.ask answers path c, .ok (none, (answers s.asked).error.or error))
            else
              findPoa answers depth (s.ask answers path c) path name activateIt
                (if (answers s.asked).result = true then none else some .adapterNonExistentE)
          else (s, .ok (none, some .adapterNonExistentE)) := by
  obtain ⟨hne, htake, -⟩ := components_eq_cons hname
  rw [findPoa, hself]
  dsimp only
  rw [if_neg hne, htake]
  cases s.hierarchy.table.lookup (addressOf path ++ slash :: name) with
  | some id => rfl
  | none => exact if_neg hc

theorem ne_nil_of_childOf {h : Hierarchy} (hc : h.childOf path c = some child) : c ≠ [] := by
  obtain ⟨rfl, -⟩ := childOf_eq_some.1 hc
  exact child.2.1

theorem findPoa_followed (hi : Indexed s.hierarchy) (hname : components name = cs) {n : PoaNode}
    (hf : s.hierarchy.follow path cs = some n) (hself : (s.hierarchy.poaAt path).isSome = true)
    (depth : Nat) :
    findPoa answers (depth + cs.length + 1) s path name activateIt error =
      (s, .ok (some n.id, error)) := by
  induction cs generalizing path name with
  | nil => exact findPoa_nil hf hname _
  | cons c cs ih =>
    obtain ⟨self, hself⟩ := Option.isSome_iff_exists.1 hself
    cases hc : s.hierarchy.childOf path c with
    | none =>
      rw [follow_eq_none hc] at hf
      cases hf
    | some child =>
      rw [List.length_cons, ← Nat.add_assoc, findPoa_cons hself hname (ne_nil_of_childOf hc)]
      cases hk : List.lookup (addressOf path ++ slash :: name) s.hierarchy.table with
      | some id =>
        have hid := hi.lookup_fullName hk
        rw [hname, hf] at hid
        cases hid
        rfl
      | none =>
        rw [follow_cons hc] at hf
        rw [hc]
        exact ih (components_eq_cons hname).2.2 hf (childOf_eq_some.1 hc).2

theorem lookup_eq_none (hi : Indexed s.hierarchy)
    (hf : s.hierarchy.follow path (components name) = none) :
    List.lookup (addressOf path ++ slash :: name) s.hierarchy.table = none := by
  by_contra hsome
  obtain ⟨i, hk⟩ := Option.ne_none_iff_exists'.1 hsome
  have hid := hi.lookup_fullName hk
  rw [hf] at hid
  cases hid

theorem findPoa_descends (hi : Indexed s.hierarchy) (hname : components name = c :: cs)
    (hself : s.hierarchy.poaAt path = some self) (hc : s.hierarchy.childOf path c = some child)
    (hf : s.hierarchy.follow path (c :: cs) = none) (depth : Nat) :
    findPoa answers (depth + 1) s path name activateIt error =
      findPoa answers depth s (path ++ [child]) (afterComponent name) activateIt error := by
  rw [findPoa_cons hself hname (ne_nil_of_childOf hc), lookup_eq_none hi (hname ▸ hf), hc]

theorem findPoa_silent (hi : Indexed s.hierarchy) (hname : components name = c :: cs)
    (hne : c ≠ []) (hself : s.hierarchy.poaAt path = some self)
    (hc : s.hierarchy.childOf path c = none)
    (hact : ¬(activateIt = true ∧ self.activator = true)) (depth : Nat) :
    findPoa answers (depth + 1) s path name activateIt error =
      (s, .ok (none, some .adapterNonExistentE)) := by
  rw [findPoa_cons hself hname hne, lookup_eq_none hi (hname ▸ follow_eq_none hc cs), hc]
  rw [if_neg hact]

theorem findPoa_asks (hi : Indexed s.hierarchy) (hname : components name = c :: cs)
    (hne : c ≠ []) (hself : s.hierarchy.poaAt path = some self)
    (hc : s.hierarchy.childOf path c = none) (hact : self.activator = true) (depth : Nat) :
    findPoa answers (depth + 1) s path name true error =
      if ((answers s.asked).error.or error).isSome = true then
        (s.ask answers path c, .ok (none, (answers s.asked).error.or error))
      else
        findPoa answers depth (s.ask answers path c) path name true
          (if (answers s.asked).result = true then none else some .adapterNonExistentE) := by
  rw [findPoa_cons hself hname hne, lookup_eq_none hi (hname ▸ follow_eq_none hc cs), hc]
  rw [if_pos ⟨rfl, hact⟩]

/-! ## Questions -/

/-- What a question changes: the child is created, or nothing in the tree. -/
inductive Asks (answers : Nat → Answer) (s : Search) (path : List AdapterName) (c : Text) :
    Search → Prop where
  | nothing {s' : Search} : Indexed s'.hierarchy → s'.asked = s.asked + 1 →
      s'.hierarchy.next = s.hierarchy.next → creation answers c s.asked = none →
      (∀ q, s'.hierarchy.poaAt q = s.hierarchy.poaAt q) → Asks answers s path c s'
  | created {s' : Search} {child : AdapterName} {activator : Bool} :
      Indexed s'.hierarchy → s'.asked = s.asked + 1 →
      s'.hierarchy.next = s.hierarchy.next + 1 →
      creation answers c s.asked = some activator → child.1 = c →
      (∀ q, s'.hierarchy.poaAt q =
        if q = path ++ [child] then some ⟨s.hierarchy.next, activator⟩ else s.hierarchy.poaAt q) →
      Asks answers s path c s'

theorem ask_asks (answers : Nat → Answer) (hi : Indexed s.hierarchy) (hself : (s.hierarchy.poaAt path).isSome = true)
    (hc : s.hierarchy.childOf path c = none) : Asks answers s path c (s.ask answers path c) := by
  rw [ask]
  cases hans : (answers s.asked).creates with
  | none =>
    refine .nothing hi rfl rfl ?_ fun _ => rfl
    rw [creation, hans]
    split_ifs <;> rfl
  | some activator =>
    have hi' := hi.initializePoa path c activator true
    have hinit := initializePoa_initializes s.hierarchy path c activator true
    cases hinit with
    | created valid _ _ _ hat _ hnext =>
      exact @Asks.created _ _ _ _ _ ⟨c, valid⟩ _ hi' rfl hnext
        (by rw [creation, if_pos valid, hans]) rfl hat
    | unchanged hat _ _ hnext hvalid =>
      refine .nothing hi' rfl (hnext rfl) ?_ hat
      rw [creation, if_neg]
      intro valid
      have hsome := hvalid rfl valid hself
      rw [childOf_eq_none hc valid] at hsome
      cases hsome

theorem Asks.extends {s' : Search} (h : Asks answers s path c s')
    (hc : s.hierarchy.childOf path c = none) : Extends s.hierarchy s'.hierarchy := by
  intro q n hn
  cases h with
  | nothing _ _ _ _ hat => rwa [hat]
  | @created child activator _ _ _ _ hchild hat =>
    rw [hat, if_neg]
    · exact hn
    rintro rfl
    subst hchild
    rw [childOf_eq_none hc child.2] at hn
    cases hn

/-! ## Searches that stand before a missing component -/

theorem findPoa_succ {s' : Search} {r : Found} (depth : Nat) :
    ∀ {s : Search} {path : List AdapterName} {name : Text} {error : Option ErrorId},
      findPoa answers depth s path name activateIt error = (s', .ok r) →
      findPoa answers (depth + 1) s path name activateIt error = (s', .ok r) := by
  induction depth with
  | zero => rintro s path name error ⟨⟩
  | succ depth ih =>
    intro s path name error h
    rw [findPoa] at h ⊢
    cases hself : s.hierarchy.poaAt path with
    | none =>
      rw [hself] at h
      cases h
    | some self =>
      rw [hself] at h
      dsimp only at h ⊢
      by_cases hname : name = []
      · rwa [if_pos hname] at h ⊢
      rw [if_neg hname] at h ⊢
      cases hk : List.lookup (addressOf path ++ slash :: name) s.hierarchy.table with
      | some id => rwa [hk] at h
      | none =>
        rw [hk] at h
        by_cases hempty : firstComponent name = []
        · rwa [if_pos hempty] at h ⊢
        rw [if_neg hempty] at h ⊢
        cases hc : s.hierarchy.childOf path (firstComponent name) with
        | some child =>
          rw [hc] at h
          exact ih h
        | none =>
          rw [hc] at h
          by_cases hact : activateIt = true ∧ self.activator = true
          · rw [if_pos hact] at h ⊢
            by_cases herror : ((answers s.asked).error.or error).isSome = true
            · rwa [if_pos herror] at h ⊢
            · rw [if_neg herror] at h ⊢
              exact ih h
          · rwa [if_neg hact] at h ⊢

theorem findPoa_mono {s' : Search} {r : Found} {name : Text} {d d' : Nat} (hd : d ≤ d')
    (h : findPoa answers d s path name activateIt error = (s', .ok r)) :
    findPoa answers d' s path name activateIt error = (s', .ok r) := by
  induction hd with
  | refl => exact h
  | step _ ih => exact findPoa_succ _ ih

/-- The search is at a POA whose children table does not have the next component. -/
structure Stuck (s : Search) (path : List AdapterName) (cs : List Text) (node : PoaNode) : Prop where
  indexed : Indexed s.hierarchy
  stands : s.hierarchy.poaAt path = some node
  missing : ∀ c ∈ cs.head?, s.hierarchy.childOf path c = none

theorem Stuck.follow_eq_none (h : Stuck s path (c :: cs) self) :
    s.hierarchy.follow path (c :: cs) = none :=
  Hierarchy.follow_eq_none (h.missing c rfl) cs

theorem Stuck.asked (answers : Nat → Answer) (h : Stuck s path (c :: cs) self) :
    (s.ask answers path c).asked = s.asked + 1 ∧
      (creation answers c s.asked = none ∧
          (s.ask answers path c).hierarchy.next = s.hierarchy.next ∧
          Stuck (s.ask answers path c) path (c :: cs) self ∨
        ∃ activator child, creation answers c s.asked = some activator ∧
          (s.ask answers path c).hierarchy.next = s.hierarchy.next + 1 ∧
          (s.ask answers path c).hierarchy.childOf path c = some child ∧
          (s.ask answers path c).hierarchy.poaAt path = some self ∧
          Stuck (s.ask answers path c) (path ++ [child]) cs ⟨s.hierarchy.next, activator⟩) := by
  have hc := h.missing c rfl
  have hasks := ask_asks answers h.indexed (by rw [h.stands]; rfl) hc
  have hself := hasks.extends hc path self h.stands
  cases hasks with
  | nothing hi hasked hnext hnone hat =>
    refine ⟨hasked, .inl ⟨hnone, hnext, hi, hself, ?_⟩⟩
    rintro _ ⟨⟩
    rw [← hc, childOf, childOf]
    simp [hat]
  | @created child activator hi hasked hnext hsome hchild hat =>
    subst hchild
    have hnew : (s.ask answers path child.1).hierarchy.poaAt (path ++ [child]) =
        some ⟨s.hierarchy.next, activator⟩ := by
      rw [hat, if_pos rfl]
    refine ⟨hasked, .inr ⟨activator, child, hsome, hnext,
      childOf_eq_some.2 ⟨rfl, by rw [hnew]; rfl⟩, hself, hi, hnew, fun d _ => ?_⟩⟩
    cases hd : (s.ask answers path child.1).hierarchy.childOf (path ++ [child]) d with
    | none => rfl
    | some grandchild =>
      obtain ⟨-, hsome'⟩ := childOf_eq_some.1 hd
      rw [hat, if_neg (by simp), poaAt_of_append (childOf_eq_none hc child.2)] at hsome'
      cases hsome'

theorem Stuck.follow_after (h : Stuck s path cs self) (hne : cs ≠ []) :
    s.hierarchy.follow path cs = none := by
  obtain ⟨c, cs, rfl⟩ := List.exists_cons_of_ne_nil hne
  exact h.follow_eq_none

section Right

variable {asked : Nat}

theorem rightlyFound_congr {asked' : Nat} {s' : Search} {r : Found} (hle : asked ≤ asked')
    (hquiet : ∀ k, asked ≤ k → k < asked' → (answers k).error = none) :
    RightlyFound answers asked path cs s' r ↔ RightlyFound answers asked' path cs s' r := by
  rcases r with ⟨_ | id, _ | e⟩
  · exact Iff.rfl
  · refine or_congr_right ?_
    constructor
    · rintro ⟨k, hk, hlt, he⟩
      refine ⟨k, ?_, hlt, he⟩
      by_contra hk'
      rw [hquiet k hk (not_le.1 hk')] at he
      cases he
    · rintro ⟨k, hk, hlt, he⟩
      exact ⟨k, hle.trans hk, hlt, he⟩
  · exact Iff.rfl
  · exact Iff.rfl

theorem rightlyFound_cons {s' : Search} {r : Found}
    (hc : s'.hierarchy.childOf path c = some child) :
    RightlyFound answers asked path (c :: cs) s' r ↔
      RightlyFound answers asked (path ++ [child]) cs s' r := by
  obtain ⟨hchild, -⟩ := childOf_eq_some.1 hc
  rcases r with ⟨_ | id, _ | e⟩
  · exact Iff.rfl
  · simp [RightlyFound, follow_cons hc]
  · simp [RightlyFound, follow_cons hc, hchild]
  · exact Iff.rfl

theorem rightlyFound_followed (hi : Indexed s.hierarchy) {n : PoaNode}
    (hf : s.hierarchy.follow path cs = some n) :
    RightlyFound answers asked path cs s (some n.id, none) := by
  refine ⟨by rw [hf]; rfl, fun q m hm hid => ?_⟩
  obtain ⟨p, hp, hn⟩ := exists_path hf
  rw [hi.ids q (path ++ p) m n hm hn hid, List.map_append, hp]

theorem declined_iff {node : PoaNode} (h : Stuck s path cs node) (hname : components name = cs)
    (hcs : ∀ c ∈ cs, c ≠ []) (hle : asked ≤ s.asked)
    (hquiet : ∀ k, asked ≤ k → k < s.asked → (answers k).error = none) :
    (∃ depth s' r, findPoa answers depth s path name true (some .adapterNonExistentE) =
        (s', .ok r) ∧ RightlyFound answers asked path cs s' r) ↔
      Declined answers cs s.asked node.activator := by
  cases cs with
  | nil =>
    refine iff_of_false ?_ (fun hd => hd)
    rintro ⟨_ | depth, s', r, hfind, hright⟩
    · cases hfind
    · rw [findPoa_nil h.stands hname] at hfind
      cases hfind
      exact hright
  | cons c cs =>
    have hc := h.missing c rfl
    have hne := hcs c List.mem_cons_self
    by_cases hact : node.activator = true
    · have hask : ∀ depth, findPoa answers (depth + 1) s path name true
          (some .adapterNonExistentE) = (s.ask answers path c,
            .ok (none, (answers s.asked).error.or (some .adapterNonExistentE))) := by
        intro depth
        rw [findPoa_asks h.indexed hname hne h.stands hc hact, if_pos]
        cases (answers s.asked).error <;> rfl
      obtain ⟨hasked, hcases⟩ := h.asked answers
      have hright : (∃ depth s' r, findPoa answers depth s path name true
          (some .adapterNonExistentE) = (s', .ok r) ∧ RightlyFound answers asked path (c :: cs) s' r) ↔
          RightlyFound answers asked path (c :: cs) (s.ask answers path c)
            (none, (answers s.asked).error.or (some .adapterNonExistentE)) := by
        constructor
        · rintro ⟨_ | depth, s', r, hfind, hr⟩
          · cases hfind
          · rw [hask] at hfind
            cases hfind
            exact hr
        · exact fun hr => ⟨1, _, _, hask 0, hr⟩
      rw [hright, Declined]
      cases herror : (answers s.asked).error with
      | some e =>
        exact iff_of_true (.inr ⟨s.asked, hle, by omega, herror⟩) (.inr (.inl (by simp)))
      | none =>
        have hnot : ¬∃ k, asked ≤ k ∧ k < (s.ask answers path c).asked ∧
            (answers k).error = some .adapterNonExistentE := by
          rintro ⟨k, hk, hlt, he⟩
          have hnone : (answers k).error = none := by
            rcases Nat.lt_or_ge k s.asked with hk' | hk'
            · exact hquiet k hk hk'
            · obtain rfl : k = s.asked := by omega
              exact herror
          rw [hnone] at he
          cases he
        change (_ ∧ _) ∨ _ ↔ _
        rw [or_iff_left hnot]
        simp only [hact, Bool.true_eq_false, ne_eq, not_true_eq_false, false_or, true_and]
        rcases hcases with ⟨hnone, -, hs⟩ | ⟨activator, child, hsome, -, hchild, -, hs⟩
        · exact iff_of_true hs.follow_eq_none (.inl hnone)
        · rw [follow_cons hchild, hsome, or_iff_right (by simp)]
          constructor
          · rintro hnone rfl
            rw [follow, hs.stands] at hnone
            cases hnone
          · exact hs.follow_after
    · refine iff_of_true ?_ (.inl (by simpa using hact))
      refine ⟨1, s, _, findPoa_silent h.indexed hname hne h.stands hc (fun hh => hact hh.2) 0,
        .inl ⟨rfl, h.follow_eq_none⟩⟩

/-- A search destroys nothing. -/
theorem findPoa_extends (depth : Nat) : ∀ {s : Search} {path : List AdapterName} {name : Text}
    {error : Option ErrorId}, Indexed s.hierarchy → (s.hierarchy.poaAt path).isSome = true →
      Extends s.hierarchy (findPoa answers depth s path name activateIt error).1.hierarchy := by
  induction depth with
  | zero => exact fun _ _ _ _ hn => hn
  | succ depth ih =>
    intro s path name error hi hself
    obtain ⟨node, hnode⟩ := Option.isSome_iff_exists.1 hself
    rw [findPoa, hnode]
    dsimp only
    by_cases hname : name = []
    · rw [if_pos hname]
      exact fun _ _ hn => hn
    rw [if_neg hname]
    cases List.lookup (addressOf path ++ slash :: name) s.hierarchy.table with
    | some id => exact fun _ _ hn => hn
    | none =>
      by_cases hempty : firstComponent name = []
      · rw [if_pos hempty]
        exact fun _ _ hn => hn
      rw [if_neg hempty]
      cases hc : s.hierarchy.childOf path (firstComponent name) with
      | some child => exact ih hi (childOf_eq_some.1 hc).2
      | none =>
        have hasks := ask_asks answers hi hself hc
        have hext := hasks.extends hc
        have hi' : Indexed (s.ask answers path (firstComponent name)).hierarchy := by
          cases hasks with
          | nothing hi' | created hi' => exact hi'
        have hself' : ((s.ask answers path (firstComponent name)).hierarchy.poaAt path).isSome =
            true := by
          rw [hext path node hnode]
          rfl
        split_ifs
        · exact hext
        · exact fun q n hn => ih hi' hself' q n (hext q n hn)
        · exact fun q n hn => ih hi' hself' q n (hext q n hn)
        · exact fun _ _ hn => hn

theorem extends_of_findPoa {depth : Nat} {s' : Search} {x : Except Exn Found}
    (hi : Indexed s.hierarchy) (hself : (s.hierarchy.poaAt path).isSome = true)
    (h : findPoa answers depth s path name activateIt error = (s', x)) :
    Extends s.hierarchy s'.hierarchy := by
  have hext : Extends s.hierarchy
      (findPoa answers depth s path name activateIt error).1.hierarchy :=
    findPoa_extends depth hi hself
  rwa [h] at hext

theorem findPoa_child_iff {node : PoaNode} {P : Search → Found → Prop}
    (hi : Indexed s.hierarchy) (hname : components name = c :: cs)
    (hnode : s.hierarchy.poaAt path = some node) (hc : s.hierarchy.childOf path c = some child) :
    (∃ depth s' r, findPoa answers depth s path name activateIt error = (s', .ok r) ∧ P s' r) ↔
      ∃ depth s' r, findPoa answers depth s (path ++ [child]) (afterComponent name) activateIt
        error = (s', .ok r) ∧ P s' r := by
  have hself : (s.hierarchy.poaAt path).isSome = true := by rw [hnode]; rfl
  have hrest := (components_eq_cons hname).2.2
  cases hf : s.hierarchy.follow path (c :: cs) with
  | none =>
    constructor
    · rintro ⟨_ | depth, s', r, hfind, hp⟩
      · cases hfind
      · rw [findPoa_descends hi hname hnode hc hf] at hfind
        exact ⟨depth, s', r, hfind, hp⟩
    · rintro ⟨depth, s', r, hfind, hp⟩
      exact ⟨depth + 1, s', r, by rw [findPoa_descends hi hname hnode hc hf, hfind], hp⟩
  | some n =>
    have hf' : s.hierarchy.follow (path ++ [child]) cs = some n := by rwa [← follow_cons hc]
    have hone : ∀ {path : List AdapterName} {cs : List Text} {name : Text}, components name = cs →
        s.hierarchy.follow path cs = some n → (s.hierarchy.poaAt path).isSome = true →
        ((∃ depth s' r, findPoa answers depth s path name activateIt error =
          (s', .ok r) ∧ P s' r) ↔ P s (some n.id, error)) := by
      intro path cs name hname hf hself
      have hfound (depth : Nat) : findPoa answers (depth + cs.length + 1) s path name activateIt
          error = (s, .ok (some n.id, error)) := findPoa_followed hi hname hf hself depth
      constructor
      · rintro ⟨depth, s', r, hfind, hp⟩
        have heq := findPoa_mono (show depth ≤ depth + cs.length + 1 by omega) hfind
        rw [hfound depth] at heq
        cases heq
        exact hp
      · exact fun hp => ⟨_, _, _, hfound 0, hp⟩
    rw [hone hname hf hself, hone hrest hf' (childOf_eq_some.1 hc).2]

/-- From a POA without the next component, the search ends rightly if the activators answer fairly.
The induction is on the answers. -/
theorem found_of_fair {cs : List Text} {k : Nat} {activator : Bool}
    (hfair : Fair answers cs k activator) : ∀ {s : Search} {path : List AdapterName}
      {name : Text} {node : PoaNode}, Stuck s path cs node → components name = cs →
      (∀ c ∈ cs, c ≠ []) → s.asked = k → node.activator = activator →
      ∃ depth s' r, findPoa answers depth s path name true none = (s', .ok r) ∧
        RightlyFound answers k path cs s' r := by
  induction hfair with
  | complete =>
    intro s path name node h hname _ _ _
    exact ⟨1, s, _, findPoa_nil h.stands hname 0, rightlyFound_followed h.indexed h.stands⟩
  | @silent c cs k =>
    intro s path name node h hname hcs hk hact
    exact ⟨1, s, _, findPoa_silent h.indexed hname (hcs c List.mem_cons_self) h.stands
      (h.missing c rfl) (fun hh => by rw [hact] at hh; cases hh.2) 0, .inl ⟨rfl, h.follow_eq_none⟩⟩
  | @reported c cs k herror =>
    rintro s path name node h hname hcs rfl hact
    have hne := hcs c List.mem_cons_self
    obtain ⟨e, he⟩ := Option.ne_none_iff_exists'.1 herror
    refine ⟨1, s.ask answers path c, (none, some e), ?_, .inr ⟨s.asked, le_rfl, ?_, he⟩⟩
    · rw [findPoa_asks h.indexed hname hne h.stands (h.missing c rfl) hact, he]
      rfl
    · rw [(h.asked answers).1]
      exact Nat.lt_succ_self _
  | @claimed c cs k herror hresult hnone _ ih =>
    rintro s path name node h hname hcs rfl hact
    have hne := hcs c List.mem_cons_self
    obtain ⟨hasked, ⟨-, -, hs⟩ | ⟨activator, child, hsome, -⟩⟩ := h.asked answers
    · obtain ⟨depth, s', r, hfind, hr⟩ := ih hs hname hcs hasked hact
      refine ⟨depth + 1, s', r, ?_, (rightlyFound_congr (Nat.le_succ _) fun k hk hlt => ?_).2 hr⟩
      · rw [findPoa_asks h.indexed hname hne h.stands (h.missing c rfl) hact, herror, hresult]
        exact hfind
      · obtain rfl : k = s.asked := by omega
        exact herror
    · rw [hnone] at hsome
      cases hsome
  | @created c cs k activator herror hresult hsome _ ih =>
    rintro s path name node h hname hcs rfl hact
    have hne := hcs c List.mem_cons_self
    obtain ⟨hasked, ⟨hnone, -⟩ | ⟨activator', child, hsome', -, hchild, hstands, hs⟩⟩ :=
      h.asked answers
    · rw [hnone] at hsome
      cases hsome
    · obtain rfl : activator' = activator := Option.some.inj (hsome'.symm.trans hsome)
      obtain ⟨depth, s', r, hfind, hr⟩ := ih hs (components_eq_cons hname).2.2
        (fun d hd => hcs d (List.mem_cons_of_mem _ hd)) hasked rfl
      have hext := extends_of_findPoa hs.indexed (by rw [hs.stands]; rfl) hfind
      obtain ⟨depth', s'', r', hfind', hr'⟩ := (findPoa_child_iff hs.indexed hname hstands
        hchild).2 ⟨depth, s', r, hfind, (rightlyFound_cons (hext.childOf hchild)).2 hr⟩
      refine ⟨depth' + 1, s'', r', ?_,
        (rightlyFound_congr (Nat.le_succ _) fun k hk hlt => ?_).2 hr'⟩
      · rw [findPoa_asks h.indexed hname hne h.stands (h.missing c rfl) hact, herror, hresult]
        exact hfind'
      · obtain rfl : k = s.asked := by omega
        exact herror
  | @declined c cs k herror hresult hnone hdeclined =>
    rintro s path name node h hname hcs rfl hact
    have hne := hcs c List.mem_cons_self
    obtain ⟨hasked, ⟨-, -, hs⟩ | ⟨activator, child, hsome, -⟩⟩ := h.asked answers
    · have hquiet : ∀ k, s.asked ≤ k → k < (s.ask answers path c).asked →
          (answers k).error = none := by
        intro k hk hlt
        obtain rfl : k = s.asked := by omega
        exact herror
      rw [← hasked, ← hact] at hdeclined
      obtain ⟨depth, s', r, hfind, hr⟩ := (declined_iff hs hname hcs (by omega) hquiet).2 hdeclined
      refine ⟨depth + 1, s', r, ?_, hr⟩
      rw [findPoa_asks h.indexed hname hne h.stands (h.missing c rfl) hact, herror, hresult]
      exact hfind
    · rw [hnone] at hsome
      cases hsome
  | @declinedCreated c cs k activator herror hresult hsome hdeclined =>
    rintro s path name node h hname hcs rfl hact
    have hne := hcs c List.mem_cons_self
    obtain ⟨hasked, ⟨hnone, -⟩ | ⟨activator', child, hsome', -, hchild, hstands, hs⟩⟩ :=
      h.asked answers
    · rw [hnone] at hsome
      cases hsome
    · obtain rfl : activator' = activator := Option.some.inj (hsome'.symm.trans hsome)
      have hquiet : ∀ k, s.asked ≤ k → k < (s.ask answers path c).asked →
          (answers k).error = none := by
        intro k hk hlt
        obtain rfl : k = s.asked := by omega
        exact herror
      rw [← hasked] at hdeclined
      obtain ⟨depth, s', r, hfind, hr⟩ := (declined_iff hs (components_eq_cons hname).2.2
        (fun d hd => hcs d (List.mem_cons_of_mem _ hd)) (by omega) hquiet).2 hdeclined
      have hext := extends_of_findPoa hs.indexed (by rw [hs.stands]; rfl) hfind
      obtain ⟨depth', s'', r', hfind', hr'⟩ := (findPoa_child_iff hs.indexed hname hstands
        hchild).2 ⟨depth, s', r, hfind, (rightlyFound_cons (hext.childOf hchild)).2 hr⟩
      refine ⟨depth' + 1, s'', r', ?_, hr'⟩
      rw [findPoa_asks h.indexed hname hne h.stands (h.missing c rfl) hact, herror, hresult]
      exact hfind'

/-- A search that ends rightly is answered fairly.  The induction is on the depth of the search. -/
theorem fair_of_found (depth : Nat) : ∀ {s : Search} {path : List AdapterName} {name : Text}
    {cs : List Text} {node : PoaNode} {s' : Search} {r : Found}, Stuck s path cs node →
      components name = cs → (∀ c ∈ cs, c ≠ []) →
      findPoa answers depth s path name true none = (s', .ok r) →
      RightlyFound answers s.asked path cs s' r → Fair answers cs s.asked node.activator := by
  induction depth using Nat.strong_induction_on with
  | _ depth ih =>
    intro s path name cs node s' r h hname hcs hfind hr
    cases depth with
    | zero => cases hfind
    | succ depth =>
      cases cs with
      | nil => exact .complete
      | cons c cs =>
        cases hact : node.activator with
        | false => exact .silent
        | true =>
          by_cases herror : (answers s.asked).error = none
          swap
          · exact .reported herror
          have hne := hcs c List.mem_cons_self
          have hrest := (components_eq_cons hname).2.2
          have hcs' : ∀ d ∈ cs, d ≠ [] := fun d hd => hcs d (List.mem_cons_of_mem _ hd)
          rw [findPoa_asks h.indexed hname hne h.stands (h.missing c rfl) hact, herror] at hfind
          obtain ⟨hasked, hcases⟩ := h.asked answers
          have hquiet : ∀ k, s.asked ≤ k → k < (s.ask answers path c).asked →
              (answers k).error = none := by
            intro k hk hlt
            obtain rfl : k = s.asked := by omega
            exact herror
          have hr' := (rightlyFound_congr (by omega) hquiet).1 hr
          cases hresult : (answers s.asked).result with
          | true =>
            rw [hresult, if_pos rfl] at hfind
            rcases hcases with ⟨hnone, -, hs⟩ | ⟨activator, child, hsome, -, hchild, hstands, hs⟩
            · have hfair := ih depth (Nat.lt_succ_self _) hs hname hcs hfind hr'
              rw [hasked, hact] at hfair
              exact .claimed herror hresult hnone hfair
            · refine .created herror hresult hsome ?_
              rw [← hasked]
              cases cs with
              | nil => exact .complete
              | cons d cs =>
                cases depth with
                | zero => cases hfind
                | succ depth =>
                  have hnone : (s.ask answers path c).hierarchy.follow path (c :: d :: cs) = none := by
                    rw [follow_cons hchild]
                    exact hs.follow_eq_none
                  rw [findPoa_descends hs.indexed hname hstands hchild hnone] at hfind
                  have hext := extends_of_findPoa hs.indexed (by rw [hs.stands]; rfl) hfind
                  exact ih depth (by omega) hs hrest hcs' hfind
                    ((rightlyFound_cons (hext.childOf hchild)).1 hr')
          | false =>
            rw [hresult, if_neg (by simp)] at hfind
            rcases hcases with ⟨hnone, -, hs⟩ | ⟨activator, child, hsome, -, hchild, hstands, hs⟩
            · refine .declined herror hresult hnone ?_
              rw [← hasked, ← hact]
              exact (declined_iff hs hname hcs (by omega) hquiet).1 ⟨depth, s', r, hfind, hr⟩
            · refine .declinedCreated herror hresult hsome ?_
              rw [← hasked]
              obtain ⟨depth', s'', r', hfind', hr''⟩ := (findPoa_child_iff hs.indexed hname
                hstands hchild).1 ⟨depth, s', r, hfind, hr⟩
              have hext' := extends_of_findPoa hs.indexed (by rw [hs.stands]; rfl) hfind'
              exact (declined_iff hs hrest hcs' (by omega) hquiet).1
                ⟨depth', s'', r', hfind', (rightlyFound_cons (hext'.childOf hchild)).1 hr''⟩

theorem exists_stuck (answers : Nat → Answer) (asked : Nat) (activateIt : Bool)
    (hi : Indexed s.hierarchy) (hname : components name = cs) {node : PoaNode}
    (hnode : s.hierarchy.poaAt path = some node) :
    ∃ name' node', components name' = (s.hierarchy.missing path cs).2 ∧
      Stuck s (s.hierarchy.missing path cs).1 (s.hierarchy.missing path cs).2 node' ∧
      ((∃ depth s' r, findPoa answers depth s path name activateIt none = (s', .ok r) ∧
          RightlyFound answers asked path cs s' r) ↔
        ∃ depth s' r, findPoa answers depth s (s.hierarchy.missing path cs).1 name' activateIt none =
            (s', .ok r) ∧
          RightlyFound answers asked (s.hierarchy.missing path cs).1
            (s.hierarchy.missing path cs).2 s' r) := by
  induction cs generalizing path name node with
  | nil => exact ⟨name, node, hname, ⟨hi, hnode, by rintro _ ⟨⟩⟩, Iff.rfl⟩
  | cons c cs ih =>
    rw [missing]
    cases hc : s.hierarchy.childOf path c with
    | none =>
      refine ⟨name, node, hname, ⟨hi, hnode, ?_⟩, Iff.rfl⟩
      rintro _ ⟨⟩
      exact hc
    | some child =>
      obtain ⟨-, hsome⟩ := childOf_eq_some.1 hc
      obtain ⟨node', hnode'⟩ := Option.isSome_iff_exists.1 hsome
      obtain ⟨name', node'', hname', hstuck, hiff⟩ := ih (components_eq_cons hname).2.2 hnode'
      refine ⟨name', node'', hname', hstuck, Iff.trans ?_ hiff⟩
      rw [findPoa_child_iff hi hname hnode hc]
      refine exists_congr fun depth => exists_congr fun s' => exists_congr fun r =>
        and_congr_right fun hfind => rightlyFound_cons ?_
      exact (extends_of_findPoa hi hsome hfind).childOf hc

theorem mem_of_mem_missing {h : Hierarchy} {path : List AdapterName} {cs : List Text} {c : Text}
    (hc : c ∈ (h.missing path cs).2) : c ∈ cs := by
  induction cs generalizing path with
  | nil => exact hc
  | cons d cs ih =>
    rw [missing] at hc
    cases hd : h.childOf path d with
    | none =>
      rw [hd] at hc
      exact hc
    | some child =>
      rw [hd] at hc
      exact List.mem_cons_of_mem _ (ih hc)

end Right

/-- An activator that claims success once without the child, and then creates it. -/
def hastyAnswers (k : Nat) : Answer := ⟨if k = 0 then none else some false, true, none⟩

/-- An activator that declines, and creates the child when it is asked a second time. -/
def waveringAnswers (k : Nat) : Answer :=
  ⟨if k = 0 then none else some false, !(decide (k = 0)), none⟩

end Search

end PolyORB
