import Mathlib.Tactic

/-!
# Slices of storage

Storage is a family of cells, each with its octets or whatever it holds at the indices.  A slice is
an interval of one cell; what is written to a slice leaves alone what is read from a disjoint one.
-/

namespace Slices

variable {β α : Type}

structure Slice (β : Type) where
  base : β
  first : Nat
  size : Nat
  deriving DecidableEq

namespace Slice

/-- The index `i` of the cell `b` lies in the slice. -/
def Holds (s : Slice β) (b : β) (i : Nat) : Prop := s.base = b ∧ s.first ≤ i ∧ i < s.first + s.size

instance [DecidableEq β] (s : Slice β) (b : β) (i : Nat) : Decidable (s.Holds b i) :=
  inferInstanceAs (Decidable (_ ∧ _ ∧ _))

def Within (s t : Slice β) : Prop := ∀ b i, s.Holds b i → t.Holds b i

def Disjoint (s t : Slice β) : Prop := ∀ b i, s.Holds b i → ¬t.Holds b i

/-- What is left of a slice when its cell is cut to the length `n`. -/
def cut [DecidableEq β] (b : β) (n : Nat) (s : Slice β) : Slice β :=
  if s.base = b then { s with size := min s.size (n - s.first) } else s

variable {s t u : Slice β}

theorem Disjoint.symm (h : s.Disjoint t) : t.Disjoint s := fun b i ht hs => h b i hs ht

instance : Std.Symm (Disjoint (β := β)) := ⟨fun _ _ h => h.symm⟩

theorem Disjoint.mono {s' t' : Slice β} (h : s.Disjoint t) (hs : s'.Within s) (ht : t'.Within t) :
    s'.Disjoint t' := fun b i hs' ht' => h b i (hs b i hs') (ht b i ht')

theorem Disjoint.of_base (h : s.base ≠ t.base) : s.Disjoint t :=
  fun _ _ hs ht => h (hs.1.trans ht.1.symm)

theorem Within.trans (h : s.Within t) (h' : t.Within u) : s.Within u :=
  fun b i hs => h' b i (h b i hs)

theorem cut_base [DecidableEq β] (b : β) (n : Nat) (s : Slice β) : (s.cut b n).base = s.base := by
  unfold cut
  split_ifs <;> rfl

theorem cut_first [DecidableEq β] (b : β) (n : Nat) (s : Slice β) :
    (s.cut b n).first = s.first := by
  unfold cut
  split_ifs <;> rfl

theorem cut_size_le [DecidableEq β] (b : β) (n : Nat) (s : Slice β) :
    (s.cut b n).size ≤ s.size := by
  unfold cut
  split_ifs
  · exact min_le_left ..
  · exact le_rfl

theorem cut_within [DecidableEq β] (b : β) (n : Nat) (s : Slice β) : (s.cut b n).Within s := by
  intro c i hc
  have hsize := cut_size_le b n s
  rw [Holds, cut_base, cut_first] at hc
  exact ⟨hc.1, hc.2.1, by omega⟩

/-- A slice of the cell that is cut ends where the cell does. -/
theorem cut_holds [DecidableEq β] {b : β} {n i : Nat} (h : (s.cut b n).Holds b i) : i < n := by
  have hb : s.base = b := (cut_base b n s).symm.trans h.1
  obtain ⟨-, hge, hlt⟩ := h
  rw [cut, if_pos hb] at hge hlt
  dsimp only at hge hlt
  omega

end Slice

/-- The contents of the cells after `xs` is written to the slice. -/
def write [DecidableEq β] (m : β → Nat → α) (s : Slice β) (xs : List α) : β → Nat → α := fun b i =>
  if s.Holds b i then xs[i - s.first]?.getD (m b i) else m b i

def read (m : β → Nat → α) (s : Slice β) : List α :=
  (List.range s.size).map fun i => m s.base (s.first + i)

variable {m : β → Nat → α} {s t : Slice β} {xs : List α}

@[simp] theorem length_read (m : β → Nat → α) (s : Slice β) : (read m s).length = s.size := by
  rw [read, List.length_map, List.length_range]

theorem read_congr {m' : β → Nat → α} (h : ∀ b i, s.Holds b i → m' b i = m b i) :
    read m' s = read m s := by
  refine List.map_congr_left fun i hi => h _ _ ⟨rfl, Nat.le_add_right .., ?_⟩
  have := List.mem_range.mp hi
  omega

theorem read_write [DecidableEq β] (h : xs.length = s.size) : read (write m s xs) s = xs := by
  refine List.ext_getElem ((length_read ..).trans h.symm) fun i hi hi' => ?_
  have hin : s.Holds s.base (s.first + i) := ⟨rfl, Nat.le_add_right .., by omega⟩
  simp only [read, List.getElem_map, List.getElem_range, write]
  rw [if_pos hin, Nat.add_sub_cancel_left, List.getElem?_eq_getElem hi', Option.getD_some]

theorem read_write_of_disjoint [DecidableEq β] (h : s.Disjoint t) :
    read (write m s xs) t = read m t :=
  read_congr fun b i ht => if_neg fun hs => h b i hs ht

/-- A slice is read piece by piece. -/
theorem read_append (m : β → Nat → α) (b : β) (n k l : Nat) :
    read m ⟨b, n, k + l⟩ = read m ⟨b, n, k⟩ ++ read m ⟨b, n + k, l⟩ := by
  simp only [read, List.range_add, List.map_append, List.map_map]
  congr 1
  refine List.map_congr_left fun i _ => ?_
  rw [Function.comp_apply, Nat.add_assoc]

theorem read_take (m : β → Nat → α) (b : β) (n l k : Nat) :
    (read m ⟨b, n, l⟩).take k = read m ⟨b, n, min k l⟩ := by
  simp only [read]
  rw [← List.map_take, List.take_range]

end Slices
