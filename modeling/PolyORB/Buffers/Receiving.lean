import PolyORB.Buffers

/-!
# Receiving in several parts

`Receive_Buffer` allocates as many octets as it may receive, and gives back those that have not
come.  Receiving the rest later leads to the same buffer as receiving all at once.
-/

namespace PolyORB

namespace Buffer

/-- `Grow_Shrink` with a negative size, on an iovec that has just been allocated or grown. -/
def shrinkLast : List Iovec → Nat → List Iovec
  | [], _ => []
  | [v], size => [{ data := v.data.take (v.data.length - size), room := v.room + size }]
  | v :: vs, size => v :: shrinkLast vs size

def unuseAllocation (size : Nat) (b : Buffer) : Buffer :=
  if size = 0 then b
  else
    { b with
      contents := shrinkLast b.contents size
      cdrPosition := b.cdrPosition - size
      length := b.length - size }

/-- `Receive_Buffer`: of the `max` octets that are allocated, `xs` is what `Lowlevel_Receive` fills. -/
def receiveAtMost (max : Nat) (xs : List UInt8) (b : Buffer) : Buffer :=
  let zone := xs ++ List.replicate (max - xs.length) 0
  let allocated :=
    { b with
      contents := growOrAppend b.contents zone (Nat.max defaultChunkSize zone.length - zone.length)
      cdrPosition := b.cdrPosition + zone.length
      length := b.length + zone.length }
  { unuseAllocation (max - xs.length) allocated with cdrPosition := b.cdrPosition }

theorem growShrink_concat (init : List Iovec) (v : Iovec) (xs : List UInt8) :
    growShrink (init ++ [v]) xs =
      if 0 < xs.length ∧ xs.length ≤ v.room then
        some (init ++ [⟨v.data ++ xs, v.room - xs.length⟩])
      else none := by
  induction init with
  | nil => rfl
  | cons w init ih =>
    cases h : init ++ [v] with
    | nil => simp at h
    | cons u us =>
      rw [List.cons_append, h, growShrink_cons_cons, ← h, ih]
      split_ifs <;> rfl

theorem shrinkLast_concat (init : List Iovec) (v : Iovec) (size : Nat) :
    shrinkLast (init ++ [v]) size =
      init ++ [⟨v.data.take (v.data.length - size), v.room + size⟩] := by
  induction init with
  | nil => rfl
  | cons w init ih =>
    cases h : init ++ [v] with
    | nil => simp at h
    | cons u us =>
      rw [List.cons_append, h]
      show w :: shrinkLast (u :: us) size = _
      rw [← h, ih, List.cons_append]

variable {b : Buffer} {max : Nat} {xs ys : List UInt8}

theorem length_zone (hle : xs.length ≤ max) :
    (xs ++ List.replicate (max - xs.length) 0).length = max := by
  rw [List.length_append, List.length_replicate]
  omega

theorem shrinkLast_zone (init : List Iovec) (d : List UInt8) (room : Nat) :
    shrinkLast (init ++ [⟨d ++ (xs ++ List.replicate (max - xs.length) 0), room⟩])
      (max - xs.length) = init ++ [⟨d ++ xs, room + (max - xs.length)⟩] := by
  rw [shrinkLast_concat, ← List.append_assoc, List.length_append, List.length_replicate,
    Nat.add_sub_cancel, List.take_left]

theorem unuseAllocation_zone (init : List Iovec) (d : List UInt8) (room : Nat) (b : Buffer) :
    (unuseAllocation (max - xs.length) { b with
      contents := init ++ [⟨d ++ (xs ++ List.replicate (max - xs.length) 0), room⟩] }).contents =
        init ++ [⟨d ++ xs, room + (max - xs.length)⟩] := by
  unfold unuseAllocation
  split_ifs with hz
  · rw [hz, List.replicate_zero, List.append_nil]
    rfl
  · exact shrinkLast_zone init d room

theorem unuseAllocation_length (size : Nat) (b : Buffer) :
    (unuseAllocation size b).length = b.length - size := by
  unfold unuseAllocation
  split_ifs with hz
  · rw [hz, Nat.sub_zero]
  · rfl

theorem receiveAtMost_eq (hle : xs.length ≤ max) {init : List Iovec} {d : List UInt8} {room : Nat}
    (hgrow : growOrAppend b.contents (xs ++ List.replicate (max - xs.length) 0)
        (Nat.max defaultChunkSize max - max) =
      init ++ [⟨d ++ (xs ++ List.replicate (max - xs.length) 0), room⟩]) :
    receiveAtMost max xs b = { b with
      contents := init ++ [⟨d ++ xs, room + (max - xs.length)⟩]
      length := b.length + xs.length } := by
  have hsame : ∀ (size : Nat) (b : Buffer), unuseAllocation size b = { b with
      contents := (unuseAllocation size b).contents
      cdrPosition := (unuseAllocation size b).cdrPosition
      length := b.length - size } := by
    intro size b
    rw [← unuseAllocation_length]
    unfold unuseAllocation
    split_ifs <;> rfl
  unfold receiveAtMost
  dsimp only
  rw [length_zone hle, hgrow, hsame]
  dsimp only
  have hc : (unuseAllocation (max - xs.length) { b with
      contents := init ++ [⟨d ++ (xs ++ List.replicate (max - xs.length) 0), room⟩]
      cdrPosition := b.cdrPosition + max
      length := b.length + max }).contents = init ++ [⟨d ++ xs, room + (max - xs.length)⟩] :=
    unuseAllocation_zone init d room { b with
      cdrPosition := b.cdrPosition + max, length := b.length + max }
  congr 1
  omega

theorem receiveAtMost_grow {init : List Iovec} {v : Iovec} (hc : b.contents = init ++ [v])
    (hmax : 0 < max) (hroom : max ≤ v.room) (hle : xs.length ≤ max) :
    receiveAtMost max xs b = { b with
      contents := init ++ [⟨v.data ++ xs, v.room - xs.length⟩]
      length := b.length + xs.length } := by
  have hgrow : growOrAppend b.contents (xs ++ List.replicate (max - xs.length) 0)
      (Nat.max defaultChunkSize max - max) =
        init ++ [⟨v.data ++ (xs ++ List.replicate (max - xs.length) 0), v.room - max⟩] := by
    rw [growOrAppend, hc, growShrink_concat, length_zone hle, if_pos ⟨hmax, hroom⟩,
      Option.getD_some]
  rw [receiveAtMost_eq hle hgrow]
  congr 4
  omega

theorem receiveAtMost_append
    (hnone : ∀ zone : List UInt8, zone.length = max → growShrink b.contents zone = none)
    (hle : xs.length ≤ max) :
    receiveAtMost max xs b = { b with
      contents := b.contents ++ [⟨xs, Nat.max defaultChunkSize max - xs.length⟩]
      length := b.length + xs.length } := by
  have hgrow : growOrAppend b.contents (xs ++ List.replicate (max - xs.length) 0)
      (Nat.max defaultChunkSize max - max) = b.contents ++
        [⟨[] ++ (xs ++ List.replicate (max - xs.length) 0), Nat.max defaultChunkSize max - max⟩] := by
    rw [growOrAppend, hnone _ (length_zone hle), Option.getD_none]
    rfl
  have hm : max ≤ Nat.max defaultChunkSize max := Nat.le_max_right ..
  rw [receiveAtMost_eq hle hgrow, List.nil_append]
  congr 4
  omega

theorem grow_or_append (b : Buffer) (max : Nat) :
    (∃ init v, b.contents = init ++ [v] ∧ max ≤ v.room) ∨
      ∀ zone : List UInt8, zone.length = max → growShrink b.contents zone = none := by
  rcases List.eq_nil_or_concat b.contents with hnil | ⟨init, v, hc⟩
  · right
    intro zone _
    rw [hnil]
    rfl
  · by_cases hroom : max ≤ v.room
    · exact .inl ⟨init, v, by rw [hc, List.concat_eq_append], hroom⟩
    · right
      intro zone hz
      rw [hc, List.concat_eq_append, growShrink_concat, hz, if_neg fun h => hroom h.2]

theorem receiveAtMost_receiveAtMost (b : Buffer) (hrest : 0 < max - xs.length)
    (hle : xs.length + ys.length ≤ max) :
    receiveAtMost (max - xs.length) ys (receiveAtMost max xs b) = receiveAtMost max (xs ++ ys) b := by
  have hle₁ : xs.length ≤ max := by omega
  have hle₂ : (xs ++ ys).length ≤ max := by rw [List.length_append]; exact hle
  have hle₃ : ys.length ≤ max - xs.length := by omega
  rcases b.grow_or_append max with ⟨init, v, hc, hroom⟩ | hnone
  · have hmax : 0 < max := by omega
    rw [receiveAtMost_grow hc hmax hroom hle₁, receiveAtMost_grow hc hmax hroom hle₂,
      receiveAtMost_grow rfl hrest (by dsimp only; omega) hle₃, List.length_append,
      List.append_assoc, Nat.sub_sub, Nat.add_assoc]
  · have hm : max ≤ Nat.max defaultChunkSize max := Nat.le_max_right ..
    rw [receiveAtMost_append hnone hle₁, receiveAtMost_append hnone hle₂,
      receiveAtMost_grow rfl hrest (by dsimp only; omega) hle₃, List.length_append, Nat.sub_sub,
      Nat.add_assoc]

end Buffer

end PolyORB
