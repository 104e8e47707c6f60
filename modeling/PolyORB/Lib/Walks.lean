import Mathlib.Logic.Relation
import Mathlib.Order.WellFounded
import Mathlib.Tactic

/-!
# Walks along ordered edges

Each node has a list of edges, and a search takes the first edge with some property at each node.
A node is grounded when no walk from it is without end; the walk that always takes the first edge
to a node that is not grounded comes back to a node that it has passed.
-/

namespace Walks

variable {α δ : Type} (edges : α → List δ) (target : δ → α)

def Edge (x y : α) : Prop := ∃ d ∈ edges x, target d = y

def Reaches (x y : α) : Prop := Relation.ReflTransGen (Edge edges target) x y

/-- Every walk from `x` comes to an end. -/
def Grounded (x : α) : Prop := Acc (fun y x => Edge edges target x y) x

/-- The first element of a list with a property. -/
def FirstWith {β : Type} (p : β → Prop) (l : List β) (b : β) : Prop :=
  ∃ before after, l = before ++ b :: after ∧ (∀ a ∈ before, ¬p a) ∧ p b

/-- From `x` the walk along the first edges to nodes that are not grounded comes back to `r`, the
first node that is on it or on the way to `x`. -/
inductive Returns : List α → α → α → Prop where
  | here {way x} : x ∈ way → Returns way x x
  | further {way x d r} : x ∉ way → FirstWith (fun d => ¬Grounded edges target (target d)) (edges x) d →
      Returns (x :: way) (target d) r → Returns way x r

/-- The walk along the first edges that lead to `v` gets there by an edge with the property. -/
inductive LeadsBy (p : δ → Prop) (v : α) : α → Prop where
  | here {x d} : FirstWith (fun d => Reaches edges target (target d) v) (edges x) d → target d = v →
      p d → LeadsBy p v x
  | further {x d} : FirstWith (fun d => Reaches edges target (target d) v) (edges x) d →
      target d ≠ v → LeadsBy p v (target d) → LeadsBy p v x

section First

variable {β : Type} {p : β → Prop} {l : List β} {a b : β}

theorem firstWith_head (h : p b) : FirstWith p (b :: l) b := ⟨[], l, rfl, by rintro _ ⟨⟩, h⟩

theorem FirstWith.cons (h : FirstWith p l b) (ha : ¬p a) : FirstWith p (a :: l) b := by
  obtain ⟨before, after, rfl, hbefore, hb⟩ := h
  refine ⟨a :: before, after, rfl, ?_, hb⟩
  intro c hc
  rcases List.mem_cons.1 hc with rfl | hc
  · exact ha
  · exact hbefore c hc

theorem FirstWith.mem (h : FirstWith p l b) : b ∈ l := by
  obtain ⟨before, after, rfl, -, -⟩ := h
  exact List.mem_append_right _ List.mem_cons_self

theorem FirstWith.holds (h : FirstWith p l b) : p b := by
  obtain ⟨-, -, -, -, hb⟩ := h
  exact hb

/-- The first element of a list that goes on is the first of its beginning, if one is there. -/
theorem FirstWith.of_append {l' : List β} (h : FirstWith p (l ++ l') b) (ha : ∃ a ∈ l, p a) :
    FirstWith p l b := by
  induction l with
  | nil => obtain ⟨a, ⟨⟩, -⟩ := ha
  | cons c l ih =>
    obtain ⟨before, after, heq, hbefore, hb⟩ := h
    cases before with
    | nil =>
      obtain rfl : c = b := (List.cons.inj heq).1
      exact firstWith_head hb
    | cons c' before =>
      obtain ⟨rfl, heq'⟩ := List.cons.inj heq
      have hc : ¬p c := hbefore c List.mem_cons_self
      obtain ⟨a, ha, hpa⟩ := ha
      have hmem : a ∈ l := (List.mem_cons.1 ha).resolve_left fun heq => hc (heq ▸ hpa)
      exact (ih ⟨before, after, heq', fun x hx => hbefore x (List.mem_cons_of_mem _ hx), hb⟩
        ⟨a, hmem, hpa⟩).cons hc

end First

section Grounded

variable {edges target} {x y : α}

theorem grounded_iff :
    Grounded edges target x ↔ ∀ d ∈ edges x, Grounded edges target (target d) := by
  constructor
  · exact fun h d hd => h.inv ⟨d, hd, rfl⟩
  · intro h
    refine ⟨x, ?_⟩
    rintro _ ⟨d, hd, rfl⟩
    exact h d hd

theorem Grounded.not_cycle (h : Grounded edges target x) :
    ¬Relation.TransGen (Edge edges target) x x := by
  induction h with
  | intro x _ ih =>
    intro hcycle
    obtain ⟨y, hedge, hback⟩ := Relation.TransGen.head'_iff.1 hcycle
    exact ih y hedge (Relation.TransGen.tail' hback hedge)

end Grounded

end Walks
