import PolyORB.Giop.Message

/-!
# Copying octets from one buffer into another

`Copy` reads the octets one by one, and marshalls each of them.  The position of the target need not
be at its end.
-/

namespace PolyORB

open Buffer

/-- The buffer that is read, and the one that is filled. -/
structure Copying where
  source : Buffer
  target : Buffer

def onSource {α : Type} (p : BufferProg α) : EStateM Exn Copying α :=
  Program.zoom Copying.source (fun s b => { s with source := b }) p

def onTarget {α : Type} (p : BufferProg α) : EStateM Exn Copying α :=
  Program.zoom Copying.target (fun s b => { s with target := b }) p

def copyOctets (host : Endianness) : Nat → EStateM Exn Copying Unit
  | 0 => return ()
  | len + 1 => do
    let temp ← onSource (unmarshallElementary host 1)
    onTarget (marshallElementary host 1 temp)
    copyOctets host len

variable {xs ys : List UInt8}

namespace Buffer

/-- The contents after the octets have been put at their end one by one. -/
def putOctets (contents : List Iovec) (xs : List UInt8) : List Iovec :=
  xs.foldl (fun c x => growOrAppend c [x] (defaultChunkSize - 1)) contents

def put (b : Buffer) (xs : List UInt8) : Buffer :=
  { b with
    contents := putOctets b.contents xs
    cdrPosition := b.cdrPosition + xs.length
    length := b.length + xs.length }

theorem putOctets_append (c : List Iovec) (xs ys : List UInt8) :
    putOctets c (xs ++ ys) = putOctets (putOctets c xs) ys := List.foldl_append ..

theorem flatten_putOctets (xs : List UInt8) :
    ∀ c : List Iovec, ((putOctets c xs).map Iovec.data).flatten = (c.map Iovec.data).flatten ++ xs := by
  induction xs with
  | nil =>
    intro c
    exact (List.append_nil _).symm
  | cons x xs ih =>
    intro c
    show ((putOctets (growOrAppend c [x] _) xs).map Iovec.data).flatten = _
    rw [ih, flatten_growOrAppend, List.append_assoc]
    rfl

theorem putOctets_room (xs : List UInt8) :
    ∀ (d : List UInt8) (room : Nat), xs.length ≤ room →
      putOctets [⟨d, room⟩] xs = [⟨d ++ xs, room - xs.length⟩] := by
  induction xs with
  | nil =>
    intro d room _
    rw [List.append_nil]
    rfl
  | cons x xs ih =>
    intro d room hroom
    rw [List.length_cons] at hroom
    have hgrow : growOrAppend [⟨d, room⟩] [x] (defaultChunkSize - 1) = [⟨d ++ [x], room - 1⟩] := by
      unfold growOrAppend growShrink
      rw [if_pos ⟨one_pos, by show 1 ≤ room; omega⟩, Option.getD_some]
      rfl
    show putOctets (growOrAppend [⟨d, room⟩] [x] _) xs = _
    rw [hgrow, ih _ _ (by omega), List.append_assoc, List.length_cons, Nat.sub_sub, Nat.add_comm 1]
    rfl

theorem putOctets_nil (hne : xs ≠ []) (hle : xs.length ≤ defaultChunkSize) :
    putOctets [] xs = [⟨xs, defaultChunkSize - xs.length⟩] := by
  cases xs with
  | nil => exact absurd rfl hne
  | cons x xs =>
    rw [List.length_cons] at hle
    show putOctets [⟨[x], defaultChunkSize - 1⟩] xs = _
    rw [putOctets_room _ _ _ (by omega), List.length_cons, Nat.sub_sub, Nat.add_comm 1]
    rfl

theorem put_put (b : Buffer) (xs ys : List UInt8) : (b.put xs).put ys = b.put (xs ++ ys) := by
  unfold put
  rw [putOctets_append, List.length_append, Nat.add_assoc, Nat.add_assoc]

theorem octets_put (b : Buffer) (xs : List UInt8) : (b.put xs).octets = b.octets ++ xs :=
  flatten_putOctets xs b.contents

@[simp] theorem put_cdrPosition (b : Buffer) (xs : List UInt8) :
    (b.put xs).cdrPosition = b.cdrPosition + xs.length := rfl

theorem length_rest {r : Buffer} (hr : r.Readable) : r.rest.length = r.remaining := by
  have hl := hr.length_eq
  have hi := hr.initial_le
  rw [rest, List.length_drop, ← hl]
  unfold remaining
  omega

end Buffer

theorem marshallOctet_eq (host : Endianness) (o : UInt8) (b : Buffer) :
    marshallElementary host 1 o.toNat b = .ok () (b.put [o]) := by
  unfold marshallElementary
  show allocateAndInsertCookedData (if 1 < 1 ∧ _ then _ else orderedOctets host 1 o.toNat) b = _
  rw [if_neg fun h => absurd h.1 (lt_irrefl 1), orderedOctets_one]
  rfl

theorem copyOctets_ok (host : Endianness) (xs : List UInt8) :
    ∀ {s : Copying}, s.source.Readable → s.source.rest = xs ++ ys →
      copyOctets host xs.length s = .ok () ⟨s.source.advance xs.length, s.target.put xs⟩ := by
  induction xs with
  | nil =>
    intro s _ _
    rfl
  | cons x xs ih =>
    intro s hr hrest
    have hread : onSource (unmarshallElementary host 1) s = .ok x.toNat _ :=
      Program.zoom_ok (unmarshallOctet_ok host hr hrest)
    have hwrite : onTarget (marshallElementary host 1 x.toNat) ⟨s.source.advance 1, s.target⟩ =
        .ok () ⟨s.source.advance 1, s.target.put [x]⟩ := Program.zoom_ok (marshallOctet_eq host x _)
    have hcopy := ih (s := ⟨s.source.advance 1, s.target.put [x]⟩) (hr.advance 1) (by
      rw [rest_advance hr, hrest]
      rfl)
    rw [List.length_cons, copyOctets, Program.bind_ok hread, Program.bind_ok hwrite, hcopy, put_put,
      advance_advance, Nat.add_comm 1]
    rfl

/-- `Copy`, which leaves the position of the target where it is. -/
def copyKept (host : Endianness) (len : Nat) : EStateM Exn Copying Unit := do
  let k := (← get).target.cdrPosition
  copyOctets host len
  modify fun s => { s with target := { s.target with cdrPosition := k } }

namespace Buffer

/-- The octets `xs` are put at the end, and the position stays. -/
def append (b : Buffer) (xs : List UInt8) : Buffer :=
  { b.put xs with cdrPosition := b.cdrPosition }

/-- The octets from the position on are `xs`. -/
structure Pending (b : Buffer) (xs : List UInt8) : Prop where
  readable : b.Readable
  rest_eq : b.rest = xs
  le : b.cdrPosition ≤ b.initialCdrPosition + b.length

theorem Pending.new (host : Endianness) : (Buffer.new host).Pending [] :=
  ⟨⟨rfl, le_refl _⟩, rfl, le_refl _⟩

theorem Pending.remaining_eq {b : Buffer} (h : b.Pending xs) :
    b.remaining = xs.length := by
  rw [← length_rest h.readable, h.rest_eq]

theorem Pending.append {b : Buffer} (h : b.Pending xs) (ys : List UInt8) :
    (b.append ys).Pending (xs ++ ys) := by
  have hoctets : (b.append ys).octets = b.octets ++ ys := octets_put b ys
  have hlength := h.readable.length_eq
  have hle := h.le
  refine ⟨⟨?_, h.readable.initial_le⟩, ?_, ?_⟩
  · rw [hoctets, List.length_append, ← hlength]
    rfl
  · rw [rest, hoctets]
    show (b.octets ++ ys).drop (b.cdrPosition - b.initialCdrPosition) = _
    rw [List.drop_append_of_le_length (by omega), ← h.rest_eq]
    rfl
  · show b.cdrPosition ≤ b.initialCdrPosition + (b.length + ys.length)
    omega

theorem Pending.advance {b : Buffer} (h : b.Pending (xs ++ ys)) :
    (b.advance xs.length).Pending ys := by
  have hremaining := h.remaining_eq
  rw [List.length_append, remaining] at hremaining
  have hle := h.le
  refine ⟨h.readable.advance _, ?_, ?_⟩
  · rw [rest_advance h.readable, h.rest_eq, List.drop_left]
  · show b.cdrPosition + xs.length ≤ b.initialCdrPosition + b.length
    omega

theorem Pending.receiveBuffer (host : Endianness) (xs : List UInt8) :
    (Buffer.receiveBuffer xs (Buffer.new host)).Pending xs := by
  have hoctets : (Buffer.receiveBuffer xs (Buffer.new host)).octets = xs := List.append_nil xs
  refine ⟨⟨?_, le_refl _⟩, ?_, Nat.zero_le _⟩
  · rw [hoctets]
    exact Nat.zero_add _
  · rw [rest, hoctets]
    rfl

end Buffer

theorem copyKept_ok (host : Endianness) {s : Copying}
    (h : s.source.Pending (xs ++ ys)) : copyKept host xs.length s =
      .ok () ⟨s.source.advance xs.length, s.target.append xs⟩ := by
  have hcopy := copyOctets_ok host xs h.readable h.rest_eq
  rw [copyKept, Program.bind_get, Program.bind_ok hcopy]
  rfl

theorem unmarshallOctets_pending (host : Endianness) {b : Buffer} (h : b.Pending (xs ++ ys)) :
    unmarshallOctets host xs.length b = .ok xs (b.advance xs.length) :=
  unmarshallOctets_ok host xs h.readable h.rest_eq

end PolyORB
