import PolyORB.Poa.FindPoa

/-!
# What a search returns

The POA or the error that `Find_POA` returns, by the answers of the activators.  No result stands
for a component that is empty, or for an activator that claims success without end.
-/

namespace PolyORB

open Branches Character

section Answers

variable (answers : Nat → Answer)

/-- What is returned after an answer that declines, for a POA that has an activator or not. -/
def declinedError (activator : Bool) (k : Nat) : Option ErrorId :=
  if activator = true then (answers k).error.or (some .adapterNonExistentE)
  else some .adapterNonExistentE

/-- From the `k`-th answer on, a search ends that stands at `node` before components that are not
there; `next` is the identity of the next POA. -/
inductive Ends : List Text → Nat → Nat → PoaNode → Found → Prop where
  | complete {k next node} : Ends [] k next node (some node.id, none)
  | silent {c cs k next node} : c ≠ [] → node.activator = false →
      Ends (c :: cs) k next node (none, some .adapterNonExistentE)
  | reported {c cs k next node e} : c ≠ [] → node.activator = true → (answers k).error = some e →
      Ends (c :: cs) k next node (none, some e)
  | claimed {c cs k next node r} : c ≠ [] → node.activator = true → (answers k).error = none →
      (answers k).result = true → creation answers c k = none →
      Ends (c :: cs) (k + 1) next node r → Ends (c :: cs) k next node r
  | created {c cs k next node activator r} : c ≠ [] → node.activator = true →
      (answers k).error = none → (answers k).result = true →
      creation answers c k = some activator → Ends cs (k + 1) (next + 1) ⟨next, activator⟩ r →
      Ends (c :: cs) k next node r
  | declined {c cs k next node} : c ≠ [] → node.activator = true → (answers k).error = none →
      (answers k).result = false → creation answers c k = none →
      Ends (c :: cs) k next node (none, declinedError answers true (k + 1))
  | declinedLast {c k next node activator} : c ≠ [] → node.activator = true →
      (answers k).error = none → (answers k).result = false →
      creation answers c k = some activator →
      Ends [c] k next node (some next, some .adapterNonExistentE)
  | declinedInside {c d cs k next node activator} : c ≠ [] → d ≠ [] → node.activator = true →
      (answers k).error = none → (answers k).result = false →
      creation answers c k = some activator →
      Ends (c :: d :: cs) k next node (none, declinedError answers activator (k + 1))

/-- `Find_POA` with activation ends with `r`, in a hierarchy and for a path by its components. -/
def SearchEnds (h : Hierarchy) (asked : Nat) (path : List AdapterName) (cs : List Text)
    (r : Found) : Prop :=
  ∃ node, h.poaAt (h.missing path cs).1 = some node ∧
    Ends answers (h.missing path cs).2 asked h.next node r

end Answers

/-- The POAs of `h'` are those of `h` and the ones created for the components `cs` of a path, with the
next identities. -/
structure Hierarchy.Grown (h : Hierarchy) (path : List AdapterName) (cs : List Text)
    (h' : Hierarchy) : Prop where
  valid : ∀ c ∈ cs, ValidAdapterName c
  poas : ∀ q id, (h'.poaAt q).map PoaNode.id = some id ↔ (h.poaAt q).map PoaNode.id = some id ∨
    ∃ j < cs.length, q.map Subtype.val = path.map Subtype.val ++ cs.take (j + 1) ∧ id = h.next + j

namespace Search

open Hierarchy

variable {answers : Nat → Answer} {s : Search} {path : List AdapterName} {name c : Text}
  {cs : List Text} {node : PoaNode} {error : Option ErrorId}

theorem ne_nil_of_findPoa {depth : Nat} {activateIt : Bool} {s' : Search} {r : Found}
    (h : Stuck s path (c :: cs) node) (hname : components name = c :: cs)
    (hfind : findPoa answers depth s path name activateIt error = (s', .ok r)) : c ≠ [] := by
  rintro rfl
  obtain ⟨hne, htake, -⟩ := components_eq_cons hname
  cases depth with
  | zero => cases hfind
  | succ depth =>
    rw [findPoa, h.stands] at hfind
    dsimp only at hfind
    rw [if_neg hne, lookup_eq_none h.indexed (hname ▸ h.follow_eq_none), htake] at hfind
    cases hfind

theorem findPoa_declined (answers : Nat → Answer) (h : Stuck s path (c :: cs) node) (hname : components name = c :: cs)
    (hne : c ≠ []) (depth : Nat) :
    ∃ s', findPoa answers (depth + 1) s path name true (some .adapterNonExistentE) =
      (s', .ok (none, declinedError answers node.activator s.asked)) := by
  by_cases hact : node.activator = true
  · refine ⟨s.ask answers path c, ?_⟩
    rw [findPoa_asks h.indexed hname hne h.stands (h.missing c rfl) hact, if_pos, declinedError,
      if_pos hact]
    cases (answers s.asked).error <;> rfl
  · refine ⟨s, ?_⟩
    rw [findPoa_silent h.indexed hname hne h.stands (h.missing c rfl) (fun hh => hact hh.2),
      declinedError, if_neg hact]

theorem findPoa_child {child : AdapterName} {r : Found} (hi : Indexed s.hierarchy)
    (hname : components name = c :: cs)
    (hstands : s.hierarchy.poaAt path = some node)
    (hchild : s.hierarchy.childOf path c = some child) :
    (∃ depth s', findPoa answers depth s path name true error = (s', .ok r)) ↔
      ∃ depth s', findPoa answers depth s (path ++ [child]) (afterComponent name) true error =
        (s', .ok r) := by
  have hiff : (∃ depth s' r', findPoa answers depth s path name true error = (s', .ok r') ∧
      r' = r) ↔ ∃ depth s' r', findPoa answers depth s (path ++ [child]) (afterComponent name) true
        error = (s', .ok r') ∧ r' = r := findPoa_child_iff hi hname hstands hchild
  simpa only [exists_eq_right] using hiff

/-- A search that returns ends as told.  The induction is on the depth of the search. -/
theorem ends_of_findPoa (depth : Nat) : ∀ {s : Search} {path : List AdapterName} {name : Text}
    {cs : List Text} {node : PoaNode} {s' : Search} {r : Found}, Stuck s path cs node →
      components name = cs → findPoa answers depth s path name true none = (s', .ok r) →
      Ends answers cs s.asked s.hierarchy.next node r := by
  induction depth using Nat.strong_induction_on with
  | _ depth ih =>
    intro s path name cs node s' r h hname hfind
    cases cs with
    | nil =>
      cases depth with
      | zero => cases hfind
      | succ depth =>
        rw [findPoa_nil h.stands hname] at hfind
        cases hfind
        exact .complete
    | cons c cs =>
      have hne := ne_nil_of_findPoa h hname hfind
      have hrest := (components_eq_cons hname).2.2
      cases depth with
      | zero => cases hfind
      | succ depth =>
        cases hact : node.activator with
        | false =>
          rw [findPoa_silent h.indexed hname hne h.stands (h.missing c rfl)
            (fun hh => by rw [hact] at hh; cases hh.2)] at hfind
          cases hfind
          exact .silent hne hact
        | true =>
          rw [findPoa_asks h.indexed hname hne h.stands (h.missing c rfl) hact] at hfind
          cases herror : (answers s.asked).error with
          | some e =>
            rw [herror] at hfind
            cases hfind
            exact .reported hne hact herror
          | none =>
            rw [herror, if_neg (by simp)] at hfind
            obtain ⟨hasked, hcases⟩ := h.asked answers
            cases hresult : (answers s.asked).result with
            | true =>
              rw [hresult, if_pos rfl] at hfind
              rcases hcases with ⟨hnone, hnext, hs⟩ | ⟨activator, child, hsome, hnext, hchild,
                hstands, hs⟩
              · have hends := ih depth (Nat.lt_succ_self _) hs hname hfind
                rw [hasked, hnext] at hends
                exact .claimed hne hact herror hresult hnone hends
              · refine .created hne hact herror hresult hsome ?_
                rw [← hasked, ← hnext]
                cases cs with
                | nil =>
                  obtain ⟨depth', s'', hfind'⟩ :=
                    (findPoa_child hs.indexed hname hstands hchild).1 ⟨depth, s', hfind⟩
                  cases depth' with
                  | zero => cases hfind'
                  | succ depth' =>
                    rw [findPoa_nil hs.stands hrest] at hfind'
                    cases hfind'
                    exact .complete
                | cons d cs =>
                  cases depth with
                  | zero => cases hfind
                  | succ depth =>
                    have hnone : (s.ask answers path c).hierarchy.follow path (c :: d :: cs) =
                        none := by
                      rw [follow_cons hchild]
                      exact hs.follow_eq_none
                    rw [findPoa_descends hs.indexed hname hstands hchild hnone] at hfind
                    exact ih depth (by omega) hs hrest hfind
            | false =>
              rw [hresult, if_neg (by simp)] at hfind
              rcases hcases with ⟨hnone, -, hs⟩ | ⟨activator, child, hsome, -, hchild, hstands, hs⟩
              · cases depth with
                | zero => cases hfind
                | succ depth =>
                  obtain ⟨s'', hdeclined⟩ :=
                    findPoa_declined answers hs hname hne depth
                  rw [hdeclined] at hfind
                  cases hfind
                  rw [hasked, hact]
                  exact .declined hne hact herror hresult hnone
              · obtain ⟨depth', s'', hfind'⟩ :=
                  (findPoa_child hs.indexed hname hstands hchild).1 ⟨depth, s', hfind⟩
                cases cs with
                | nil =>
                  cases depth' with
                  | zero => cases hfind'
                  | succ depth' =>
                    rw [findPoa_nil hs.stands hrest] at hfind'
                    cases hfind'
                    exact .declinedLast hne hact herror hresult hsome
                | cons d cs =>
                  have hne' := ne_nil_of_findPoa hs hrest hfind'
                  cases depth' with
                  | zero => cases hfind'
                  | succ depth' =>
                    obtain ⟨t, hdeclined⟩ :=
                      findPoa_declined answers hs hrest hne' depth'
                    rw [hdeclined] at hfind'
                    cases hfind'
                    rw [hasked]
                    exact .declinedInside hne hne' hact herror hresult hsome

theorem grown_claimed {s' : Search} (h : Stuck s path (c :: cs) node)
    (hnext : (s.ask answers path c).hierarchy.next = s.hierarchy.next)
    (hnone : creation answers c s.asked = none)
    (hg : Grown (s.ask answers path c).hierarchy path (c :: cs) s'.hierarchy) :
    Grown s.hierarchy path (c :: cs) s'.hierarchy := by
  cases ask_asks answers h.indexed (by rw [h.stands]; rfl) (h.missing c rfl) with
  | nothing _ _ _ _ hat =>
    exact ⟨hg.valid, fun q id => by rw [hg.poas q id, hat, hnext]⟩
  | created _ _ _ hsome =>
    rw [hnone] at hsome
    cases hsome

theorem grown_created {s' : Search} (h : Stuck s path (c :: cs) node) {child : AdapterName}
    (hchild : (s.ask answers path c).hierarchy.childOf path c = some child)
    (hnext : (s.ask answers path c).hierarchy.next = s.hierarchy.next + 1)
    (hg : Grown (s.ask answers path c).hierarchy (path ++ [child]) cs s'.hierarchy) :
    Grown s.hierarchy path (c :: cs) s'.hierarchy := by
  have hc := h.missing c rfl
  obtain ⟨rfl, -⟩ := childOf_eq_some.1 hchild
  have hnone := childOf_eq_none hc child.2
  have hstep (q : List AdapterName) (id : Nat) :
      ((s.ask answers path child.1).hierarchy.poaAt q).map PoaNode.id = some id ↔
        (s.hierarchy.poaAt q).map PoaNode.id = some id ∨
          q.map Subtype.val = path.map Subtype.val ++ [child.1] ∧ id = s.hierarchy.next := by
    cases ask_asks answers h.indexed (by rw [h.stands]; rfl) hc with
    | nothing _ _ hsame => omega
    | @created child' activator _ _ _ _ hval hat =>
      obtain rfl : child' = child := Subtype.ext hval
      have hq : q = path ++ [child'] ↔
          q.map Subtype.val = path.map Subtype.val ++ [child'.1] := by
        rw [← List.map_singleton, ← List.map_append, Subtype.val_injective.list_map.eq_iff]
      rw [hat, ← hq]
      by_cases heq : q = path ++ [child']
      · rw [if_pos heq, heq, show s.hierarchy.poaAt (path ++ [child']) = none from hnone]
        simp [eq_comm]
      · rw [if_neg heq]
        simp [heq]
  refine ⟨List.forall_mem_cons.2 ⟨child.2, hg.valid⟩, fun q id => ?_⟩
  rw [hg.poas q id, hstep, hnext, List.length_cons, Nat.exists_lt_succ_left, or_assoc]
  simp [Nat.add_comm, Nat.add_left_comm]

/-- The induction is on the answers. -/
theorem findPoa_of_ends {k next : Nat} {r : Found} (hends : Ends answers cs k next node r) :
    ∀ {s : Search} {path : List AdapterName} {name : Text}, Stuck s path cs node →
      components name = cs → s.asked = k → s.hierarchy.next = next →
      ∃ depth s', findPoa answers depth s path name true none = (s', .ok r) ∧
        ∀ f, r = (some f, none) → Grown s.hierarchy path cs s'.hierarchy := by
  induction hends with
  | complete =>
    intro s path name h hname _ _
    exact ⟨1, s, findPoa_nil h.stands hname 0, fun _ _ => ⟨by simp, fun q id => by simp⟩⟩
  | silent hne hact =>
    intro s path name h hname _ _
    exact ⟨1, s, findPoa_silent h.indexed hname hne h.stands (h.missing _ rfl)
      (fun hh => by rw [hact] at hh; cases hh.2) 0, by rintro _ ⟨⟩⟩
  | @reported c cs k next node e hne hact herror =>
    rintro s path name h hname rfl rfl
    refine ⟨1, s.ask answers path c, ?_, by rintro _ ⟨⟩⟩
    rw [findPoa_asks h.indexed hname hne h.stands (h.missing c rfl) hact, herror]
    rfl
  | @claimed c cs k next node r hne hact herror hresult hnone _ ih =>
    rintro s path name h hname rfl rfl
    obtain ⟨hasked, ⟨-, hnext, hs⟩ | ⟨activator, child, hsome, -⟩⟩ := h.asked answers
    · obtain ⟨depth, s', hfind, hgrown⟩ := ih hs hname hasked hnext
      refine ⟨depth + 1, s', ?_, fun f hr => grown_claimed h hnext hnone (hgrown f hr)⟩
      rw [findPoa_asks h.indexed hname hne h.stands (h.missing c rfl) hact, herror, hresult]
      exact hfind
    · rw [hnone] at hsome
      cases hsome
  | @created c cs k next node activator r hne hact herror hresult hsome _ ih =>
    rintro s path name h hname rfl rfl
    obtain ⟨hasked, ⟨hnone, -⟩ | ⟨activator', child, hsome', hnext, hchild, hstands, hs⟩⟩ :=
      h.asked answers
    · rw [hnone] at hsome
      cases hsome
    · obtain rfl : activator' = activator := Option.some.inj (hsome'.symm.trans hsome)
      obtain ⟨depth, s', r', hfind, hr', hgrown⟩ := (findPoa_child_iff (P := fun t r' => r' = r ∧
        ∀ f, r = (some f, none) → Grown _ _ cs t.hierarchy) hs.indexed hname hstands hchild).2
          (by simpa [and_assoc] using ih hs (components_eq_cons hname).2.2 hasked hnext)
      subst hr'
      refine ⟨depth + 1, s', ?_, fun f hr => grown_created h hchild hnext (hgrown f hr)⟩
      rw [findPoa_asks h.indexed hname hne h.stands (h.missing c rfl) hact, herror, hresult]
      exact hfind
  | @declined c cs k next node hne hact herror hresult hnone =>
    rintro s path name h hname rfl rfl
    obtain ⟨hasked, ⟨-, -, hs⟩ | ⟨activator, child, hsome, -⟩⟩ := h.asked answers
    · obtain ⟨s', hdeclined⟩ := findPoa_declined answers hs hname hne 0
      rw [hasked, hact] at hdeclined
      refine ⟨2, s', ?_, by rintro _ ⟨⟩⟩
      rw [findPoa_asks h.indexed hname hne h.stands (h.missing c rfl) hact, herror, hresult]
      exact hdeclined
    · rw [hnone] at hsome
      cases hsome
  | @declinedLast c k next node activator hne hact herror hresult hsome =>
    rintro s path name h hname rfl rfl
    obtain ⟨-, ⟨hnone, -⟩ | ⟨activator', child, -, -, hchild, hstands, hs⟩⟩ :=
      h.asked answers
    · rw [hnone] at hsome
      cases hsome
    · have hlast : ∃ depth s', findPoa answers depth (s.ask answers path c) (path ++ [child])
          (afterComponent name) true (some .adapterNonExistentE) = (s', .ok _) :=
        ⟨1, _, findPoa_nil hs.stands (components_eq_cons hname).2.2 0⟩
      obtain ⟨depth, s', hfind⟩ := (findPoa_child hs.indexed hname hstands hchild).2 hlast
      refine ⟨depth + 1, s', ?_, by rintro _ ⟨⟩⟩
      rw [findPoa_asks h.indexed hname hne h.stands (h.missing c rfl) hact, herror, hresult]
      exact hfind
  | @declinedInside c d cs k next node activator hne hne' hact herror hresult hsome =>
    rintro s path name h hname rfl rfl
    obtain ⟨hasked, ⟨hnone, -⟩ | ⟨activator', child, hsome', -, hchild, hstands, hs⟩⟩ :=
      h.asked answers
    · rw [hnone] at hsome
      cases hsome
    · obtain rfl : activator' = activator := Option.some.inj (hsome'.symm.trans hsome)
      obtain ⟨s'', hdeclined⟩ := findPoa_declined answers hs
        (components_eq_cons hname).2.2 hne' 0
      rw [hasked] at hdeclined
      obtain ⟨depth, s', hfind⟩ := (findPoa_child hs.indexed hname hstands hchild).2
        ⟨1, s'', hdeclined⟩
      refine ⟨depth + 1, s', ?_, by rintro _ ⟨⟩⟩
      rw [findPoa_asks h.indexed hname hne h.stands (h.missing c rfl) hact, herror, hresult]
      exact hfind

/-- A search that ends without an error creates what is missing on the way, and nothing else. -/
theorem findPoa_of_searchEnds (hi : Indexed s.hierarchy) (hname : components name = cs)
    (hnode : s.hierarchy.poaAt path = some node) {r : Found}
    (h : SearchEnds answers s.hierarchy s.asked path cs r) :
    ∃ depth s', findPoa answers depth s path name true none = (s', .ok r) ∧
      ∀ f, r = (some f, none) → Grown s.hierarchy (s.hierarchy.missing path cs).1
        (s.hierarchy.missing path cs).2 s'.hierarchy := by
  induction cs generalizing path name node with
  | nil =>
    obtain ⟨node, hnode, hends⟩ := h
    exact findPoa_of_ends hends ⟨hi, hnode, by rintro _ ⟨⟩⟩ hname rfl rfl
  | cons c cs ih =>
    rw [SearchEnds, missing] at h
    rw [missing]
    cases hc : s.hierarchy.childOf path c with
    | none =>
      rw [hc] at h
      obtain ⟨node, hnode, hends⟩ := h
      exact findPoa_of_ends hends ⟨hi, hnode, by rintro _ ⟨⟩; exact hc⟩ hname rfl rfl
    | some child =>
      rw [hc] at h
      obtain ⟨node', hnode'⟩ := Option.isSome_iff_exists.1 (childOf_eq_some.1 hc).2
      obtain ⟨depth, s', r', hfind, hr', hgrown⟩ := (findPoa_child_iff (P := fun t r' => r' = r ∧
        ∀ f, r = (some f, none) → Grown _ _ _ t.hierarchy) hi hname hnode hc).2
          (by simpa [and_assoc] using ih (components_eq_cons hname).2.2 hnode' h)
      exact ⟨depth, s', hr' ▸ hfind, hgrown⟩

theorem findPoa_iff_searchEnds (hi : Indexed s.hierarchy) (hname : components name = cs)
    (hnode : s.hierarchy.poaAt path = some node) {r : Found} :
    (∃ depth s', findPoa answers depth s path name true none = (s', .ok r)) ↔
      SearchEnds answers s.hierarchy s.asked path cs r := by
  refine ⟨?_, fun h => ?_⟩
  swap
  · obtain ⟨depth, s', hfind, -⟩ := findPoa_of_searchEnds hi hname hnode h
    exact ⟨depth, s', hfind⟩
  rintro ⟨depth, s', hfind⟩
  induction cs generalizing path name node depth s' with
  | nil => exact ⟨node, hnode, ends_of_findPoa depth ⟨hi, hnode, by rintro _ ⟨⟩⟩ hname hfind⟩
  | cons c cs ih =>
    rw [SearchEnds, missing]
    cases hc : s.hierarchy.childOf path c with
    | none =>
      exact ⟨node, hnode, ends_of_findPoa depth ⟨hi, hnode, by rintro _ ⟨⟩; exact hc⟩ hname hfind⟩
    | some child =>
      obtain ⟨node', hnode'⟩ := Option.isSome_iff_exists.1 (childOf_eq_some.1 hc).2
      obtain ⟨depth', s'', hfind'⟩ := (findPoa_child hi hname hnode hc).1 ⟨depth, s', hfind⟩
      exact ih (components_eq_cons hname).2.2 hnode' depth' s'' hfind'

end Search

end PolyORB
