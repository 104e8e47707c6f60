import Mathlib.Tactic

/-!
# Byte stores cut into chunks

A store is the concatenation of its chunks.  A reader takes a run of octets that lies in one chunk
(`piece`), so that whether a field can be read depends on how the store is cut, not only on its
octets.  `Covers c c'` says that whatever can be read from `c` reads the same from `c'`: it holds
when chunks are appended, when the last one is extended, and when a store is copied into one chunk.
-/

namespace Chunks

variable {α : Type}

/-- The `n` elements at offset `off`, when they lie in one chunk. -/
def piece : List (List α) → Nat → Nat → Option (List α)
  | [], _, _ => none
  | d :: c, off, n =>
    if off < d.length then
      if off + n ≤ d.length then some ((d.drop off).take n) else none
    else piece c (off - d.length) n

/-- At most `n` elements from offset `off`, as many as lie in one chunk; none past the end. -/
def run : List (List α) → Nat → Nat → List α
  | [], _, _ => []
  | d :: c, off, n => if off < d.length then (d.drop off).take n else run c (off - d.length) n

theorem piece_cons (d : List α) (c : List (List α)) (off n : Nat) :
    piece (d :: c) off n =
      if off < d.length then
        if off + n ≤ d.length then some ((d.drop off).take n) else none
      else piece c (off - d.length) n := rfl

theorem run_nil (off n : Nat) : run ([] : List (List α)) off n = [] := rfl

theorem run_cons (d : List α) (c : List (List α)) (off n : Nat) :
    run (d :: c) off n =
      if off < d.length then (d.drop off).take n else run c (off - d.length) n := rfl

theorem length_run_le (c : List (List α)) (off n : Nat) : (run c off n).length ≤ n := by
  induction c generalizing off with
  | nil => simp [run_nil]
  | cons d c ih =>
    simp only [run_cons]
    split_ifs with h
    · exact List.length_take_le _ _
    · exact ih _

variable {c c' : List (List α)} {off n : Nat}

theorem run_past (h : c.flatten.length ≤ off) (n : Nat) :
    run c off n = [] := by
  induction c generalizing off with
  | nil => rfl
  | cons d c ih =>
    rw [List.flatten_cons, List.length_append] at h
    rw [run_cons, if_neg (by omega)]
    exact ih (by omega)

theorem run_eq (c : List (List α)) (off n : Nat) :
    run c off n = (c.flatten.drop off).take (run c off n).length := by
  induction c generalizing off with
  | nil => rw [run_nil, List.length_nil, List.take_zero]
  | cons d c ih =>
    rw [run_cons, List.flatten_cons]
    split_ifs with h
    · rw [List.drop_append_of_le_length h.le,
        List.take_append_of_le_length (List.length_take_le' ..), List.length_take]
      exact List.take_eq_take_min
    · rw [List.drop_append, List.drop_eq_nil_of_le (Nat.le_of_not_lt h), List.nil_append]
      exact ih _

theorem run_append_right (off n : Nat) :
    run (c ++ c') (c.flatten.length + off) n = run c' off n := by
  induction c with
  | nil => rw [List.nil_append, List.flatten_nil, List.length_nil, Nat.zero_add]
  | cons d c ih =>
    rw [List.cons_append, run_cons, List.flatten_cons, List.length_append, if_neg (by omega),
      Nat.add_assoc, Nat.add_sub_cancel_left, ih]

theorem piece_eq_run (hn : 0 < n) :
    piece c off n = if (run c off n).length = n then some (run c off n) else none := by
  induction c generalizing off with
  | nil =>
    have h : (run ([] : List (List α)) off n).length ≠ n := by
      simp only [run_nil, List.length_nil]
      omega
    rw [if_neg h]
    rfl
  | cons d c ih =>
    simp only [piece_cons, run_cons]
    split_ifs with h1 h2 h3 h3
    · rfl
    · exact absurd (by rw [List.length_take, List.length_drop]; omega) h3
    · rw [List.length_take, List.length_drop] at h3
      omega
    · rfl
    · rw [ih, if_pos (by assumption)]
    · rw [ih, if_neg (by assumption)]

/-- Whatever lies in one piece of `c` lies in one piece of `c'`, at the same offset. -/
def Covers (c c' : List (List α)) : Prop :=
  c.flatten.length ≤ c'.flatten.length ∧
    ∀ off n xs, 0 < n → piece c off n = some xs → piece c' off n = some xs

theorem Covers.refl (c : List (List α)) : Covers c c :=
  ⟨le_refl _, fun _ _ _ _ h => h⟩

theorem Covers.trans {c'' : List (List α)} (h : Covers c c') (h' : Covers c' c'') :
    Covers c c'' :=
  ⟨h.1.trans h'.1, fun off n xs hn hp => h'.2 off n xs hn (h.2 off n xs hn hp)⟩

variable {xs e : List α}

theorem piece_append (h : piece c off n = some xs) : piece (c ++ c') off n = some xs := by
  induction c generalizing off with
  | nil => cases h
  | cons d c ih =>
    simp only [List.cons_append, piece_cons] at h ⊢
    split_ifs at h ⊢ with h1
    · exact h
    · exact ih h

theorem piece_append_right (off n : Nat) :
    piece (c ++ c') (c.flatten.length + off) n = piece c' off n := by
  induction c with
  | nil => simp
  | cons d c ih =>
    simp only [List.cons_append, piece_cons, List.flatten_cons, List.length_append]
    rw [if_neg (by omega)]
    have : d.length + c.flatten.length + off - d.length = c.flatten.length + off := by omega
    rw [this, ih]

theorem Covers.append (c c' : List (List α)) : Covers c (c ++ c') := by
  refine ⟨?_, fun off n xs _ h => piece_append h⟩
  rw [List.flatten_append, List.length_append]
  omega

theorem piece_extend {d : List α}
    (h : piece (c ++ [d]) off n = some xs) : piece (c ++ [d ++ e]) off n = some xs := by
  induction c generalizing off with
  | nil =>
    simp only [List.nil_append, piece_cons] at h ⊢
    split_ifs at h with h1 h2
    · rw [if_pos (by simp; omega), if_pos (by simp; omega)]
      rw [List.drop_append_of_le_length (by omega), List.take_append_of_le_length (by simp; omega)]
      exact h
    · cases h
  | cons d' c ih =>
    simp only [List.cons_append, piece_cons] at h ⊢
    split_ifs at h ⊢ with h1
    · exact h
    · exact ih h

theorem Covers.extend (c : List (List α)) (d e : List α) : Covers (c ++ [d]) (c ++ [d ++ e]) := by
  refine ⟨?_, fun off n xs _ h => piece_extend h⟩
  simp only [List.flatten_append, List.flatten_cons, List.flatten_nil, List.length_append]
  omega

theorem piece_extend_new {d : List α} (he : 0 < e.length) :
    piece (c ++ [d ++ e]) (c ++ [d]).flatten.length e.length = some e := by
  have : (c ++ [d]).flatten.length = c.flatten.length + d.length := by simp
  rw [this, piece_append_right]
  simp only [piece_cons, List.length_append]
  rw [if_pos (by omega), if_pos (by omega)]
  simp

theorem piece_append_new (he : 0 < e.length) :
    piece (c ++ [e]) c.flatten.length e.length = some e := by
  have h : piece (c ++ [e]) (c.flatten.length + 0) e.length = piece [e] 0 e.length :=
    piece_append_right 0 e.length
  rw [Nat.add_zero] at h
  rw [h]
  simp only [piece_cons]
  rw [if_pos he, if_pos (by omega)]
  simp

theorem piece_eq (h : piece c off n = some xs) :
    off + n ≤ c.flatten.length ∧ xs = (c.flatten.drop off).take n := by
  induction c generalizing off with
  | nil => cases h
  | cons d c ih =>
    simp only [piece_cons] at h
    split_ifs at h with h1 h2
    · injection h with h
      refine ⟨by simp; omega, ?_⟩
      rw [List.flatten_cons, List.drop_append_of_le_length (by omega),
        List.take_append_of_le_length (by simp; omega)]
      exact h.symm
    · obtain ⟨hle, hxs⟩ := ih h
      refine ⟨by rw [List.flatten_cons, List.length_append]; omega, ?_⟩
      have hd : d.drop off = [] := List.drop_eq_nil_of_le (by omega)
      rw [hxs, List.flatten_cons, List.drop_append, hd, List.nil_append]

theorem length_piece (h : piece c off n = some xs) : xs.length = n := by
  obtain ⟨hle, hxs⟩ := piece_eq h
  rw [hxs, List.length_take, List.length_drop]
  omega

theorem piece_sub {a k : Nat} (h : piece c off n = some xs) (hk : 0 < k) (ha : a + k ≤ n) :
    piece c (off + a) k = some ((xs.drop a).take k) := by
  induction c generalizing off with
  | nil => cases h
  | cons d c ih =>
    simp only [piece_cons] at h ⊢
    split_ifs at h with h1 h2
    · injection h with h
      rw [if_pos (by omega), if_pos (by omega), ← h, List.drop_take, List.drop_drop,
        List.take_take]
      congr 2
      omega
    · rw [if_neg (by omega)]
      have h3 := ih h
      rwa [show off - d.length + a = off + a - d.length by omega] at h3

theorem piece_one (h : off < c.flatten.length) :
    piece c off 1 = some [c.flatten[off]] := by
  induction c generalizing off with
  | nil => simp at h
  | cons d c ih =>
    simp only [List.flatten_cons, List.length_append] at h
    simp only [piece_cons]
    split_ifs with h1 h2
    · simp only [List.flatten_cons, List.getElem_append_left h1]
      rw [List.take_one_drop_eq_of_lt_length h1]
      rfl
    · omega
    · rw [ih (by omega)]
      simp only [List.flatten_cons]
      rw [List.getElem_append_right (by omega)]

end Chunks
