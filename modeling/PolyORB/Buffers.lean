import PolyORB.Types
import PolyORB.Lib.Chunks

/-!
# Marshalling buffers

A buffer is a vector of iovecs, a byte order and a CDR position.  An iovec that lies at the end of
a chunk of the buffer's own storage can be grown in place (`room` octets are left); one that refers
to foreign data cannot.  How the octets are cut into iovecs is observable: `extractData` returns
contiguous storage, so that an item which straddles two iovecs cannot be extracted.

`Written b b'` says that `b'` is `b` after marshalling, and `Presents w r start` that a reader of
`r` finds, from position `start` on, what `w` holds.  They are what every marshalling round trip is
stated with.  The cache of the last extraction (`Last_Extract_Iovec`) only saves a search and is
left out.
-/

namespace PolyORB

open Chunks
open Program (raiseIf)

/-- Size of the chunks a buffer allocates, unless more is asked for. -/
def defaultChunkSize : Nat := 512

/-- A slice of storage, with the room left after it in its chunk. -/
structure Iovec where
  data : List UInt8
  room : Nat
  deriving DecidableEq

structure Buffer where
  endianness : Endianness
  initialCdrPosition : Nat
  cdrPosition : Nat
  length : Nat
  contents : List Iovec
  deriving DecidableEq

abbrev BufferProg := EStateM Exn Buffer

namespace Buffer

/-- A buffer object as it is created. -/
def new (host : Endianness) : Buffer :=
  { endianness := host, initialCdrPosition := 0, cdrPosition := 0, length := 0, contents := [] }

def chunks (b : Buffer) : List (List UInt8) := b.contents.map Iovec.data

/-- `To_Stream_Element_Array`, the octets of the buffer. -/
def octets (b : Buffer) : List UInt8 := b.chunks.flatten

/-- `Initialize_Buffer`: a buffer over octets that are already there. -/
def initializeBuffer (data : List UInt8) (endianness : Endianness) (initialCdrPosition : Nat) :
    Buffer :=
  { endianness, initialCdrPosition, cdrPosition := initialCdrPosition, length := data.length,
    contents := [⟨data, 0⟩] }

def releaseContents (host : Endianness) : BufferProg Unit := set (new host)

def rewind : BufferProg Unit := modify fun b => { b with cdrPosition := b.initialCdrPosition }

def setEndianness (e : Endianness) : BufferProg Unit := do
  let b ← get
  if b.cdrPosition = b.initialCdrPosition then set { b with endianness := e }
  else throw .assertionError

def remaining (b : Buffer) : Nat := b.initialCdrPosition + b.length - b.cdrPosition

/-- `Peek`, which raises past the end of the contents. -/
def peek (position : Nat) : BufferProg UInt8 := do
  let b ← get
  match b.octets[position - b.initialCdrPosition]? with
  | some o => pure o
  | none => throw .constraintError

/-! ## Growing the contents -/

/-- `Grow_Shrink` on the last iovec; `none` when its chunk has no room for the new octets. -/
def growShrink : List Iovec → List UInt8 → Option (List Iovec)
  | [], _ => none
  | [v], xs =>
    if 0 < xs.length ∧ xs.length ≤ v.room then
      some [{ data := v.data ++ xs, room := v.room - xs.length }]
    else none
  | v :: vs, xs => (growShrink vs xs).map (v :: ·)

/-- The contents after `xs` were put at their end: in the last chunk when it has room, else in an
iovec of their own with `room` octets left after it. -/
def growOrAppend (contents : List Iovec) (xs : List UInt8) (room : Nat) : List Iovec :=
  (growShrink contents xs).getD (contents ++ [⟨xs, room⟩])

/-- `Allocate_And_Insert_Cooked_Data`, the storage being filled with `xs` by the caller. -/
def allocateAndInsertCookedData (xs : List UInt8) : BufferProg Unit :=
  modify fun b =>
    { b with
      contents := growOrAppend b.contents xs (max defaultChunkSize xs.length - xs.length)
      cdrPosition := b.cdrPosition + xs.length
      length := b.length + xs.length }

/-- `Insert_Raw_Data`: a reference to foreign data becomes an iovec of its own. -/
def insertRawData (host : Endianness) (xs : List UInt8) : BufferProg Unit := do
  let b ← get
  if b.endianness = host then
    set { b with
      contents := b.contents ++ [(⟨xs, 0⟩ : Iovec)]
      cdrPosition := b.cdrPosition + xs.length
      length := b.length + xs.length }
  else throw .assertionError

/-! ## Data that is filled in later -/

/-- The storage of a `Reservation` is given by its offset in the contents. -/
structure Reservation where
  offset : Nat
  endianness : Endianness
  cdrPosition : Nat
  length : Nat

def reserve (amount : Nat) : BufferProg Reservation := do
  let b ← get
  allocateAndInsertCookedData (List.replicate amount 0)
  return {
    offset := b.cdrPosition - b.initialCdrPosition
    endianness := b.endianness
    cdrPosition := b.cdrPosition
    length := amount }

/-- `xs` in place of the octets from offset `n` on, which lie in one iovec. -/
def overwriteAt : List Iovec → Nat → List UInt8 → List Iovec
  | [], _, _ => []
  | v :: vs, n, xs =>
    if n < v.data.length then
      { v with data := v.data.take n ++ xs ++ v.data.drop (n + xs.length) } :: vs
    else v :: overwriteAt vs (n - v.data.length) xs

/-- `Copy_Data`, with the assertion or without: no buffer that starts at position 0 meets it unless
the reservation does. -/
def copyData (assertions : Bool) (source : Buffer) (into : Reservation) : BufferProg Unit := do
  raiseIf (assertions = true ∧ ¬(source.endianness = into.endianness ∧
    source.initialCdrPosition = into.cdrPosition ∧ source.length = into.length)) .assertionError
  modify fun b => { b with contents := overwriteAt b.contents into.offset source.octets }

/-! ## Alignment -/

/-- `Align_Position`: skip the padding, which must be there. -/
def alignPosition (alignment : Nat) : BufferProg Unit := do
  let b ← get
  let padding := Octets.padding b.cdrPosition alignment
  if b.cdrPosition + padding ≤ b.initialCdrPosition + b.length then
    set { b with cdrPosition := b.cdrPosition + padding }
  else throw .assertionError

/-- `Pad_Align`: insert zeroed padding, in the last chunk when it has room for it. -/
def padAlign (alignment : Nat) : BufferProg Unit := do
  let b ← get
  let padding := Octets.padding b.cdrPosition alignment
  if padding = 0 then return
  set { b with
    contents := growOrAppend b.contents (List.replicate padding 0) 0
    length := b.length + padding }
  alignPosition alignment

/-! ## Extraction -/

/-- `Partial_Extract_Data` at the current position: at most `size` octets, those that lie in one
iovec. -/
def partialExtractData (size : Nat) : BufferProg (List UInt8) := do
  let b ← get
  let xs := run b.chunks (b.cdrPosition - b.initialCdrPosition) size
  set { b with cdrPosition := b.cdrPosition + xs.length }
  return xs

/-- `Extract_Data` at the current position, which raises when fewer octets are contiguous. -/
def extractData (size : Nat) : BufferProg (List UInt8) := do
  let b ← get
  let xs := run b.chunks (b.cdrPosition - b.initialCdrPosition) size
  raiseIf (xs.length < size) .constraintError
  set { b with cdrPosition := b.cdrPosition + xs.length }
  return xs

/-! ## What marshalling does to a buffer -/

/-- The position of a buffer that is being filled is at the end of its contents. -/
structure AtEnd (b : Buffer) : Prop where
  length_eq : b.length = b.octets.length
  position_eq : b.cdrPosition = b.initialCdrPosition + b.length

theorem atEnd_new (host : Endianness) : (new host).AtEnd := ⟨rfl, rfl⟩

/-- `b'` is `b` after some more data was marshalled into it. -/
structure Written (b b' : Buffer) : Prop where
  atEnd : b'.AtEnd
  endianness_eq : b'.endianness = b.endianness
  initial_eq : b'.initialCdrPosition = b.initialCdrPosition
  covers : Covers b.chunks b'.chunks

/-- The `n` octets at position `pos`, when they lie in one iovec. -/
def pieceAt (b : Buffer) (pos n : Nat) : Option (List UInt8) :=
  if pos < b.initialCdrPosition then none else piece b.chunks (pos - b.initialCdrPosition) n

/-- From position `start` on, `r` holds what `w` holds. -/
structure Presents (w r : Buffer) (start : Nat) : Prop where
  endianness_eq : r.endianness = w.endianness
  limit_le : w.initialCdrPosition + w.length ≤ r.initialCdrPosition + r.length
  piece_eq : ∀ pos n xs, start ≤ pos → 0 < n → w.pieceAt pos n = some xs →
    r.pieceAt pos n = some xs

variable {b b' w r : Buffer}

theorem Written.refl (h : b.AtEnd) : Written b b :=
  ⟨h, rfl, rfl, .refl _⟩

theorem Written.trans {b'' : Buffer} (h : Written b b') (h' : Written b' b'') :
    Written b b'' :=
  ⟨h'.atEnd, h'.endianness_eq.trans h.endianness_eq, h'.initial_eq.trans h.initial_eq,
    h.covers.trans h'.covers⟩

theorem Written.position_le (hb : b.AtEnd) (h : Written b b') :
    b.cdrPosition ≤ b'.cdrPosition := by
  have hc := h.covers.1
  rw [hb.position_eq, h.atEnd.position_eq, h.initial_eq, hb.length_eq, h.atEnd.length_eq]
  exact Nat.add_le_add_left hc _

variable {start n : Nat}

theorem Presents.mono {start' : Nat} (h : Presents w r start)
    (hs : start ≤ start') : Presents w r start' :=
  ⟨h.endianness_eq, h.limit_le, fun pos n xs hp => h.piece_eq pos n xs (hs.trans hp)⟩

theorem Presents.of_written {w' : Buffer} (hw : Written w w') (hb : w.AtEnd)
    (h : Presents w' r start) : Presents w r start := by
  refine ⟨h.endianness_eq.trans hw.endianness_eq, ?_, fun pos n xs hp hn hx => ?_⟩
  · have hpos := hw.position_le hb
    rw [hb.position_eq, hw.atEnd.position_eq] at hpos
    exact hpos.trans h.limit_le
  · refine h.piece_eq pos n xs hp hn ?_
    unfold pieceAt at hx ⊢
    rw [hw.initial_eq]
    split_ifs at hx with h1
    rw [if_neg h1]
    exact hw.covers.2 _ _ _ hn hx

theorem Presents.setPosition (h : Presents w r start) (p : Nat) :
    Presents w { r with cdrPosition := p } start :=
  ⟨h.endianness_eq, h.limit_le, h.piece_eq⟩

theorem Presents.self (b : Buffer) (start : Nat) : Presents b b start :=
  ⟨rfl, le_refl _, fun _ _ _ _ _ h => h⟩

/-! ## Each insertion is a `Written` step -/

variable {xs : List UInt8}

theorem growShrink_some {c c' : List Iovec} (h : growShrink c xs = some c') :
    ∃ init d, c.map Iovec.data = init ++ [d] ∧ c'.map Iovec.data = init ++ [d ++ xs] := by
  induction c generalizing c' with
  | nil => cases h
  | cons v vs ih =>
    cases vs with
    | nil =>
      simp only [growShrink] at h
      split_ifs at h
      injection h with h
      exact ⟨[], v.data, rfl, by rw [← h]; rfl⟩
    | cons v' vs' =>
      simp only [growShrink, Option.map_eq_some_iff] at h
      obtain ⟨c₁, h₁, rfl⟩ := h
      obtain ⟨init, d, e₁, e₂⟩ := ih h₁
      refine ⟨v.data :: init, d, ?_, ?_⟩
      · rw [List.map_cons, e₁, List.cons_append]
      · rw [List.map_cons, e₂, List.cons_append]

theorem flatten_growOrAppend (c : List Iovec) (xs : List UInt8) (room : Nat) :
    ((growOrAppend c xs room).map Iovec.data).flatten = (c.map Iovec.data).flatten ++ xs := by
  unfold growOrAppend
  cases h : growShrink c xs with
  | some c' =>
    obtain ⟨init, d, e₁, e₂⟩ := growShrink_some h
    simp only [Option.getD_some]
    rw [e₁, e₂]
    simp
  | none => simp

theorem covers_growOrAppend (c : List Iovec) (xs : List UInt8) (room : Nat) :
    Covers (c.map Iovec.data) ((growOrAppend c xs room).map Iovec.data) := by
  unfold growOrAppend
  cases h : growShrink c xs with
  | some c' =>
    obtain ⟨init, d, e₁, e₂⟩ := growShrink_some h
    simp only [Option.getD_some]
    rw [e₁, e₂]
    exact .extend init d xs
  | none =>
    simp only [Option.getD_none, List.map_append, List.map_cons, List.map_nil]
    exact .append _ _

theorem piece_growOrAppend (c : List Iovec) (room : Nat) (hx : 0 < xs.length) :
    piece ((growOrAppend c xs room).map Iovec.data) (c.map Iovec.data).flatten.length xs.length =
      some xs := by
  unfold growOrAppend
  cases h : growShrink c xs with
  | some c' =>
    obtain ⟨init, d, e₁, e₂⟩ := growShrink_some h
    simp only [Option.getD_some]
    rw [e₁, e₂]
    exact piece_extend_new hx
  | none =>
    simp only [Option.getD_none, List.map_append, List.map_cons, List.map_nil]
    exact piece_append_new hx

theorem growShrink_cons_cons (v w : Iovec) (c : List Iovec) (xs : List UInt8) :
    growShrink (v :: w :: c) xs = (growShrink (w :: c) xs).map (v :: ·) := rfl

theorem overwriteAt_growOrAppend_new (c : List Iovec) {ys : List UInt8} (room : Nat)
    (hlen : ys.length = xs.length) (hx : 0 < xs.length) :
    overwriteAt (growOrAppend c xs room) (c.map Iovec.data).flatten.length ys =
      growOrAppend c ys room := by
  have happend : ∀ d : List Iovec, overwriteAt (d ++ [⟨xs, room⟩]) (d.map Iovec.data).flatten.length ys =
      d ++ [⟨ys, room⟩] := by
    intro d
    induction d with
    | nil =>
      show overwriteAt [⟨xs, room⟩] 0 ys = [⟨ys, room⟩]
      rw [overwriteAt, if_pos hx, Nat.zero_add, hlen, List.take_zero, List.drop_length]
      simp
    | cons v d ih =>
      rw [List.map_cons, List.flatten_cons, List.length_append, List.cons_append, overwriteAt,
        if_neg (by omega), Nat.add_sub_cancel_left, ih]
      rfl
  have hgrow : ∀ d : List Iovec, (growShrink d xs).map (overwriteAt · (d.map Iovec.data).flatten.length ys) =
      growShrink d ys := by
    intro d
    induction d with
    | nil => rfl
    | cons v d ih =>
      cases d with
      | nil =>
        rw [growShrink, growShrink, hlen]
        split_ifs with h
        · show some (overwriteAt [⟨v.data ++ xs, v.room - xs.length⟩] (v.data ++ []).length ys) = _
          rw [List.append_nil, overwriteAt, if_pos (by rw [List.length_append]; omega), hlen,
            ← List.length_append, List.drop_length, List.take_left, List.append_nil]
        · rfl
      | cons w d =>
        rw [growShrink_cons_cons, growShrink_cons_cons, ← ih, Option.map_map, Option.map_map]
        congr 1
        funext e
        show overwriteAt (v :: e) (v.data ++ _).length ys = _
        rw [List.length_append, overwriteAt, if_neg (by omega), Nat.add_sub_cancel_left]
        rfl
  rw [growOrAppend, growOrAppend, ← hgrow c]
  cases growShrink c xs with
  | some c' => rfl
  | none => exact happend c

theorem overwriteAt_growOrAppend {c : List Iovec} {zs : List UInt8}
    (hp : piece (c.map Iovec.data) n xs.length = some zs) (ys : List UInt8) (room : Nat) :
    overwriteAt (growOrAppend c ys room) n xs = growOrAppend (overwriteAt c n xs) ys room := by
  have happend : ∀ {d : List Iovec} {n : Nat}, piece (d.map Iovec.data) n xs.length = some zs →
      overwriteAt (d ++ [⟨ys, room⟩]) n xs = overwriteAt d n xs ++ [⟨ys, room⟩] := by
    intro d
    induction d with
    | nil => intro n hp; cases hp
    | cons v d ih =>
      intro n hp
      rw [List.map_cons, piece] at hp
      rw [List.cons_append, overwriteAt, overwriteAt]
      by_cases h : n < v.data.length
      · rw [if_pos h, if_pos h]
        rfl
      · rw [if_neg h] at hp
        rw [if_neg h, if_neg h, ih hp]
        rfl
  have hgrow : ∀ {d : List Iovec} {n : Nat}, piece (d.map Iovec.data) n xs.length = some zs →
      (growShrink d ys).map (overwriteAt · n xs) = growShrink (overwriteAt d n xs) ys := by
    intro d
    induction d with
    | nil => intro n hp; cases hp
    | cons v d ih =>
      intro n hp
      rw [List.map_cons, piece] at hp
      rw [overwriteAt]
      by_cases h : n < v.data.length
      · rw [if_pos h] at hp ⊢
        split_ifs at hp with hfit
        cases d with
        | nil =>
          rw [growShrink, growShrink]
          split_ifs with hr
          · show some (overwriteAt [⟨v.data ++ ys, v.room - ys.length⟩] n xs) = _
            rw [overwriteAt, if_pos (by rw [List.length_append]; omega),
              List.take_append_of_le_length h.le, List.drop_append_of_le_length hfit]
            simp
          · rfl
        | cons w d =>
          rw [growShrink_cons_cons, growShrink_cons_cons, Option.map_map]
          congr 1
          funext e
          show overwriteAt (v :: e) n xs = _
          rw [overwriteAt, if_pos h]
      · rw [if_neg h] at hp ⊢
        cases d with
        | nil => cases hp
        | cons w d =>
          obtain ⟨w', d', hw⟩ : ∃ w' d', overwriteAt (w :: d) (n - v.data.length) xs = w' :: d' := by
            rw [overwriteAt]
            split_ifs <;> exact ⟨_, _, rfl⟩
          rw [growShrink_cons_cons, hw, growShrink_cons_cons, ← hw, ← ih hp, Option.map_map,
            Option.map_map]
          congr 1
          funext e
          show overwriteAt (v :: e) n xs = _
          rw [overwriteAt, if_neg h]
          rfl
  rw [growOrAppend, growOrAppend, ← hgrow hp]
  cases growShrink c ys with
  | some c' => rfl
  | none => exact happend hp

theorem written_insert (hb : b.AtEnd) {c : List Iovec}
    (hf : (c.map Iovec.data).flatten = b.octets ++ xs) (hc : Covers b.chunks (c.map Iovec.data)) :
    Written b { b with
      contents := c
      cdrPosition := b.cdrPosition + xs.length
      length := b.length + xs.length } := by
  refine ⟨⟨?_, ?_⟩, rfl, rfl, hc⟩
  · show b.length + xs.length = (c.map Iovec.data).flatten.length
    rw [hf, List.length_append, hb.length_eq]
  · show b.cdrPosition + xs.length = b.initialCdrPosition + (b.length + xs.length)
    rw [hb.position_eq]
    omega

theorem pieceAt_lt {pos : Nat} (h : b.pieceAt pos n = some xs) :
    b.initialCdrPosition ≤ pos ∧ xs.length = n := by
  unfold pieceAt at h
  split_ifs at h with h1
  exact ⟨by omega, length_piece h⟩

theorem allocateAndInsertCookedData_ok (hb : b.AtEnd) (hx : 0 < xs.length) :
    ∃ b', allocateAndInsertCookedData xs b = .ok () b' ∧ Written b b' ∧
      b'.cdrPosition = b.cdrPosition + xs.length ∧
      b'.pieceAt b.cdrPosition xs.length = some xs := by
  refine ⟨_, rfl, written_insert hb ?_ (covers_growOrAppend ..), rfl, ?_⟩
  · exact flatten_growOrAppend ..
  · unfold pieceAt
    rw [if_neg (by have := hb.position_eq; simp only; omega)]
    have hp : b.cdrPosition - b.initialCdrPosition = b.octets.length := by
      rw [hb.position_eq, ← hb.length_eq]
      omega
    simp only [hp]
    exact piece_growOrAppend b.contents _ hx

theorem insertRawData_ok {host : Endianness} (hb : b.AtEnd)
    (hh : b.endianness = host) (hx : 0 < xs.length) :
    ∃ b', insertRawData host xs b = .ok () b' ∧ Written b b' ∧
      b'.cdrPosition = b.cdrPosition + xs.length ∧
      b'.pieceAt b.cdrPosition xs.length = some xs := by
  have hc : ((b.contents ++ [(⟨xs, 0⟩ : Iovec)]).map Iovec.data) = b.chunks ++ [xs] := by
    simp [chunks]
  refine ⟨{ b with
    contents := b.contents ++ [⟨xs, 0⟩]
    cdrPosition := b.cdrPosition + xs.length
    length := b.length + xs.length }, ?_, written_insert hb ?_ ?_, rfl, ?_⟩
  · rw [insertRawData, Program.bind_ok (Program.get_apply b), if_pos hh]
    rfl
  · rw [hc]
    simp [octets]
  · rw [hc]
    exact .append _ _
  · unfold pieceAt
    rw [if_neg (by have := hb.position_eq; simp only; omega)]
    have hp : b.cdrPosition - b.initialCdrPosition = b.chunks.flatten.length := by
      rw [hb.position_eq, hb.length_eq]
      simp [octets]
    simp only [hp]
    show piece ((b.contents ++ [(⟨xs, 0⟩ : Iovec)]).map Iovec.data) _ _ = _
    rw [hc]
    exact piece_append_new hx

theorem alignPosition_ok {alignment : Nat}
    (h : r.cdrPosition + Octets.padding r.cdrPosition alignment ≤
      r.initialCdrPosition + r.length) :
    alignPosition alignment r = .ok () { r with
      cdrPosition := r.cdrPosition + Octets.padding r.cdrPosition alignment } := by
  exact congrFun (if_pos h) r

theorem padAlign_ok (hb : b.AtEnd) (alignment : Nat) :
    ∃ b', padAlign alignment b = .ok () b' ∧ Written b b' ∧
      b'.cdrPosition = b.cdrPosition + Octets.padding b.cdrPosition alignment := by
  rw [padAlign, Program.bind_ok (Program.get_apply b)]
  by_cases h0 : Octets.padding b.cdrPosition alignment = 0
  · refine ⟨b, ?_, .refl hb, by omega⟩
    simp only [h0, if_true]
    rfl
  · simp only [h0, if_false]
    have hz : (List.replicate (Octets.padding b.cdrPosition alignment) (0 : UInt8)).length =
      Octets.padding b.cdrPosition alignment := List.length_replicate
    have hw := written_insert hb (flatten_growOrAppend b.contents
      (List.replicate (Octets.padding b.cdrPosition alignment) 0) 0) (covers_growOrAppend ..)
    rw [hz] at hw
    refine ⟨_, ?_, hw, rfl⟩
    rw [Program.bind_ok (Program.set_apply ..), alignPosition_ok]
    have := hb.position_eq
    simp only
    omega

theorem extractData_of_pieceAt (hn : 0 < n) (h : r.pieceAt r.cdrPosition n = some xs) :
    extractData n r = .ok xs { r with cdrPosition := r.cdrPosition + n } := by
  unfold pieceAt at h
  split_ifs at h with h1
  rw [piece_eq_run hn] at h
  split_ifs at h with h2
  injection h with h
  have hlen : xs.length = n := by rw [← h, h2]
  rw [extractData, Program.bind_ok (Program.get_apply r)]
  simp only [h]
  rw [Program.bind_ok (Program.raiseIf_false (by omega) _ _),
    Program.bind_ok (Program.set_apply ..), hlen]
  rfl

/-! ## The octets of a buffer -/

/-- `b'` is `b` with the octets `xs` put at its end. -/
structure Appended (b : Buffer) (xs : List UInt8) (b' : Buffer) : Prop where
  written : Written b b'
  octets_eq : b'.octets = b.octets ++ xs

theorem Appended.refl (hb : b.AtEnd) : Appended b [] b :=
  ⟨.refl hb, by simp⟩

theorem Appended.trans {b'' : Buffer} {ys : List UInt8} (h : Appended b xs b')
    (h' : Appended b' ys b'') : Appended b (xs ++ ys) b'' :=
  ⟨h.written.trans h'.written, by rw [h'.octets_eq, h.octets_eq, List.append_assoc]⟩

theorem Appended.position_eq (hb : b.AtEnd)
    (h : Appended b xs b') : b'.cdrPosition = b.cdrPosition + xs.length := by
  have hl := h.written.atEnd.length_eq
  rw [h.octets_eq, List.length_append, ← hb.length_eq] at hl
  rw [h.written.atEnd.position_eq, hb.position_eq, h.written.initial_eq, hl]
  omega

theorem allocateAndInsertCookedData_appended (hb : b.AtEnd) (xs : List UInt8) :
    ∃ b', allocateAndInsertCookedData xs b = .ok () b' ∧ Appended b xs b' := by
  have hf := flatten_growOrAppend b.contents xs (max defaultChunkSize xs.length - xs.length)
  exact ⟨_, rfl, written_insert hb hf (covers_growOrAppend ..), hf⟩

def rest (b : Buffer) : List UInt8 := b.octets.drop (b.cdrPosition - b.initialCdrPosition)

/-- A buffer whose position is somewhere in its contents. -/
structure Readable (r : Buffer) : Prop where
  length_eq : r.length = r.octets.length
  initial_le : r.initialCdrPosition ≤ r.cdrPosition

/-- `r` with `n` more octets read. -/
def advance (r : Buffer) (n : Nat) : Buffer := { r with cdrPosition := r.cdrPosition + n }

@[simp] theorem advance_position (r : Buffer) (n : Nat) :
    (r.advance n).cdrPosition = r.cdrPosition + n := rfl

@[simp] theorem advance_endianness (r : Buffer) (n : Nat) :
    (r.advance n).endianness = r.endianness := rfl

@[simp] theorem advance_advance (r : Buffer) (m n : Nat) :
    (r.advance m).advance n = r.advance (m + n) := by
  simp [advance, Nat.add_assoc]

theorem rest_advance (hr : r.Readable) (n : Nat) :
    (r.advance n).rest = r.rest.drop n := by
  have hle := hr.initial_le
  show r.octets.drop (r.cdrPosition + n - r.initialCdrPosition) = _
  rw [rest, List.drop_drop]
  congr 1
  omega

theorem Readable.advance (hr : r.Readable) (n : Nat) : (r.advance n).Readable :=
  ⟨hr.length_eq, Nat.le_add_right_of_le hr.initial_le⟩

theorem pieceAt_rest (hr : r.Readable) {o : UInt8}
    (h : r.rest = o :: xs) : r.pieceAt r.cdrPosition 1 = some [o] := by
  have hle := hr.initial_le
  have hlt : r.cdrPosition - r.initialCdrPosition < r.octets.length := by
    by_contra hn
    rw [rest, List.drop_eq_nil_of_le (by omega)] at h
    cases h
  rw [rest, List.drop_eq_getElem_cons hlt] at h
  injection h with h1 h2
  rw [pieceAt, if_neg (by omega), piece_one hlt]
  exact congrArg (fun o => some [o]) h1

theorem pieceAt_sub {pos a k : Nat} (h : r.pieceAt pos n = some xs) (hk : 0 < k) (ha : a + k ≤ n) :
    r.pieceAt (pos + a) k = some ((xs.drop a).take k) := by
  unfold pieceAt at h ⊢
  split_ifs at h with h1
  rw [if_neg (by omega)]
  have hs := piece_sub h hk ha
  rwa [show pos - r.initialCdrPosition + a = pos + a - r.initialCdrPosition by omega] at hs

theorem rest_of_pieceAt (h : r.pieceAt r.cdrPosition n = some xs) : ∃ ys, r.rest = xs ++ ys := by
  unfold pieceAt at h
  split_ifs at h with h1
  obtain ⟨-, hxs⟩ := piece_eq h
  refine ⟨(r.octets.drop (r.cdrPosition - r.initialCdrPosition)).drop n, ?_⟩
  rw [rest, hxs]
  exact (List.take_append_drop n _).symm

/-- `Receive_Buffer` when all the octets asked for have come. -/
def receiveBuffer (xs : List UInt8) (b : Buffer) : Buffer :=
  { b with
    contents := growOrAppend b.contents xs (max defaultChunkSize xs.length - xs.length)
    length := b.length + xs.length }

end Buffer

end PolyORB
