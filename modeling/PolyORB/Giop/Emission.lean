import PolyORB.Giop.Message

/-!
# Emission of GIOP 1.2 messages

`Emit_Message` of GIOP 1.2 cuts a message that is longer than the configured limit into fragments.
The lower layer is a parameter, `lower`: its answer to the messages handed over so far.
`IsFragmentation max msg frags` says what a correct fragmentation of `msg` is; `fragments` computes
the one that the code makes, and `emitMessage_ok` says that the code hands it over.
-/

namespace PolyORB

open Buffer
open Program (onlyIf raiseIf)

structure GiopImplem where
  maxGiopMessageSize : Nat
  maxBody : Nat
  deriving DecidableEq

/-- `Initialize_Implem`, `max` being the configured `max_message_size`, an `Integer`. -/
def initializeImplem (max : Int) : Except Exn GiopImplem :=
  if 0 ≤ max ∧ max < 2 ^ 31 then
    let maxSize := max.toNat - max.toNat % 8
    .ok { maxGiopMessageSize := maxSize, maxBody := subUnsignedLong maxSize giopHeaderSize }
  else .error .constraintError

/-- The buffer to be emitted, `Out_Buf`, the messages handed to the lower layer, and the error. -/
structure Emission where
  buffer : Buffer
  outBuf : Buffer
  sent : List (List UInt8)
  error : Option SysError

abbrev EmitProg := EStateM Exn Emission

def onOutgoing {α : Type} (p : BufferProg α) : EmitProg α :=
  Program.zoom Emission.buffer (fun s b => { s with buffer := b }) p

def onOutBuf {α : Type} (p : BufferProg α) : EmitProg α :=
  Program.zoom Emission.outBuf (fun s b => { s with outBuf := b }) p

section Emit

variable (host : Endianness) (implem : GiopImplem) (lower : List (List UInt8) → Option SysError)

/-- `Emit_Message` common to all versions: hand a buffer to the lower layer. -/
def handOver (xs : List UInt8) : EmitProg Unit :=
  modify fun s => { s with
    sent := s.sent ++ [xs]
    error := (lower (s.sent ++ [xs])).or s.error }

def copy : Nat → EmitProg Unit
  | 0 => return ()
  | count + 1 => do
    let temp ← onOutgoing (unmarshallElementary host 1)
    onOutBuf (marshallElementary host 1 temp)
    copy count

/-- One message made in `Out_Buf`: header, request id, and `count` octets of the buffer. -/
def emitFragment (messageType : MsgType) (fragmented : Bool) (messageSize requestId count : Nat) :
    EmitProg Unit := do
  onOutBuf (marshallGlobalGiopHeader host 2
    { MessageContext.new host with messageType, fragmented, messageSize })
  onOutBuf (marshallElementary host 4 requestId)
  copy host count
  handOver lower (← get).outBuf.octets
  onOutBuf (releaseContents host)

/-- The loop over the fragments after the first one, `messageSize` octets being left. -/
def emitFragments (requestId : Nat) : Nat → Nat → EmitProg Unit
  | 0, _ => throw .unfinished
  | fuel + 1, messageSize => do
    let room := subUnsignedLong implem.maxBody fragHeaderSize
    let fragmented := decide (room < messageSize)
    let emitSize := if fragmented then room else messageSize
    emitFragment host lower .fragment fragmented ((emitSize + fragHeaderSize) % unsignedLongModulus)
      requestId emitSize
    if (← get).error.isSome ∨ fragmented = false then return ()
    else emitFragments requestId fuel (subUnsignedLong messageSize emitSize)

/-- `Emit_Message` of GIOP 1.2; its loop is given `fuel` turns. -/
def emitMessage (mctx : MessageContext) (fuel : Nat) : EmitProg Unit := do
  let s ← get
  raiseIf (2 ^ 32 ≤ s.buffer.length) .constraintError
  let messageSize := s.buffer.length
  if messageSize ≤ implem.maxGiopMessageSize then handOver lower s.buffer.octets
  else
    set { s with outBuf := Buffer.new host }
    onOutBuf (setEndianness s.buffer.endianness)
    onOutgoing rewind
    let mctx ← onOutgoing do
      unmarshallGlobalGiopHeader host 2
      unmarshallGiopHeader host mctx
    raiseIf (mctx.messageType.carriesRequestId = false) .giopError
    raiseIf ((mctx.messageSize + giopHeaderSize) % unsignedLongModulus ≠ messageSize)
      .assertionError
    let requestId ← onOutgoing (unmarshallElementary host 4)
    emitFragment host lower mctx.messageType true implem.maxBody requestId
      (subUnsignedLong implem.maxBody fragHeaderSize)
    if (← get).error.isSome then return ()
    else
      emitFragments host implem lower requestId fuel
        (subUnsignedLong mctx.messageSize implem.maxBody)

end Emit

/-! ## What a correct fragmentation is -/

/-- `frags` is a fragmentation of `msg` into messages of at most `max` octets. -/
structure IsFragmentation (max : Nat) (msg : Message) (frags : List Message) : Prop where
  nonempty : frags ≠ []
  type_eq : ∀ j m, frags[j]? = some m → m.messageType = if j = 0 then msg.messageType else .fragment
  requestId_eq : ∀ m ∈ frags, m.requestId = msg.requestId
  fragmented_iff : ∀ j m, frags[j]? = some m → (m.fragmented = true ↔ j + 1 < frags.length)
  size_le : ∀ m ∈ frags, m.encode.length ≤ max
  size_mod : ∀ m ∈ frags, m.fragmented = true → m.encode.length % 8 = 0
  payload_eq : (frags.map Message.payload).flatten = msg.payload

/-- The messages among `ms` that are handed over until the lower layer refuses one, after those of
`sent`, and its last answer. -/
def handedOver (lower : List (List UInt8) → Option SysError) :
    List (List UInt8) → List (List UInt8) → List (List UInt8) × Option SysError
  | sent, [] => (sent, none)
  | sent, m :: ms =>
    match lower (sent ++ [m]) with
    | some e => (sent ++ [m], some e)
    | none => handedOver lower (sent ++ [m]) ms

/-- An outgoing message as it stands in its buffer: the header and the request id were marshalled
into the same chunk. -/
structure IsOutgoing (b : Buffer) (msg : Message) : Prop where
  initial_eq : b.initialCdrPosition = 0
  length_eq : b.length = b.octets.length
  order_eq : b.endianness = msg.order
  octets_eq : b.octets = msg.encode
  type_ok : msg.messageType.carriesRequestId = true
  whole : msg.fragmented = false
  requestId_lt : msg.requestId < 2 ^ 32
  size_lt : msg.payload.length + fragHeaderSize < 2 ^ 32
  start : b.pieceAt 0 16 = some (msg.header ++ orderedOctets msg.order 4 msg.requestId)

/-- `Emit_Message` terminates, and hands over the message, or a fragmentation of it when it is
longer than the limit. -/
def EmitsCorrectly (host : Endianness) (implem : GiopImplem)
    (lower : List (List UInt8) → Option SysError) (mctx : MessageContext) (b : Buffer)
    (msg : Message) : Prop :=
  ∃ fuel s, emitMessage host implem lower mctx fuel ⟨b, Buffer.new host, [], none⟩ = .ok () s ∧
    if b.length ≤ implem.maxGiopMessageSize then
      (s.sent, s.error) = handedOver lower [] [msg.encode]
    else ∃ frags, IsFragmentation implem.maxGiopMessageSize msg frags ∧
      (s.sent, s.error) = handedOver lower [] (frags.map Message.encode)

/-! ## The fragments that the code makes -/

/-- The fragments after the first one, `room` octets of payload in each. -/
def fragmentsFrom (host : Endianness) (requestId room : Nat) : Nat → List UInt8 → List Message
  | 0, _ => []
  | n + 1, xs =>
    if room < xs.length then
      ⟨host, .fragment, true, requestId, xs.take room⟩ ::
        fragmentsFrom host requestId room n (xs.drop room)
    else [⟨host, .fragment, false, requestId, xs⟩]

def fragments (host : Endianness) (room : Nat) (msg : Message) : List Message :=
  { msg with fragmented := true, payload := msg.payload.take room } ::
    fragmentsFrom host msg.requestId room (msg.payload.length + 1) (msg.payload.drop room)

theorem fragmentsFrom_ne_nil (host : Endianness) (id room n : Nat) (xs : List UInt8) :
    fragmentsFrom host id room (n + 1) xs ≠ [] := by
  rw [fragmentsFrom]
  split_ifs <;> exact List.cons_ne_nil _ _

variable {id room n : Nat} {xs : List UInt8} {host : Endianness}

theorem mem_fragmentsFrom {m : Message} (hm : m ∈ fragmentsFrom host id room n xs) :
    m.messageType = .fragment ∧ m.requestId = id ∧ m.payload.length ≤ room ∧
      (m.fragmented = true → m.payload.length = room) := by
  induction n generalizing xs with
  | zero => cases hm
  | succ n ih =>
    rw [fragmentsFrom] at hm
    split_ifs at hm with hlt
    · rcases List.mem_cons.mp hm with rfl | hm
      · have hlen : (xs.take room).length = room := by
          rw [List.length_take]
          omega
        exact ⟨rfl, rfl, le_of_eq hlen, fun _ => hlen⟩
      · exact ih hm
    · rw [List.mem_singleton] at hm
      rw [hm]
      exact ⟨rfl, rfl, Nat.le_of_not_lt hlt, fun h => by cases h⟩

theorem fragmentsFrom_fragmented (hr : 0 < room) (hn : xs.length < n) {j : Nat} {m : Message}
    (hm : (fragmentsFrom host id room n xs)[j]? = some m) :
    m.fragmented = true ↔ j + 1 < (fragmentsFrom host id room n xs).length := by
  induction n generalizing xs j with
  | zero => omega
  | succ n ih =>
    rw [fragmentsFrom] at hm ⊢
    split_ifs at hm ⊢ with hlt
    · have hlen : (xs.drop room).length < n := by
        rw [List.length_drop]
        omega
      cases j with
      | zero =>
        simp only [List.getElem?_cons_zero, Option.some.injEq] at hm
        have hpos : 0 < (fragmentsFrom host id room n (xs.drop room)).length := by
          obtain ⟨k, rfl⟩ : ∃ k, n = k + 1 := ⟨n - 1, by omega⟩
          exact List.length_pos_iff.mpr (fragmentsFrom_ne_nil host id room k _)
        rw [← hm, List.length_cons]
        simp only [true_iff]
        omega
      | succ j =>
        rw [List.getElem?_cons_succ] at hm
        rw [ih hlen hm, List.length_cons]
        omega
    · cases j with
      | zero =>
        simp only [List.getElem?_cons_zero, Option.some.injEq] at hm
        rw [← hm]
        simp
      | succ j => simp at hm

theorem flatten_fragmentsFrom (hr : 0 < room) (hn : xs.length < n) :
    ((fragmentsFrom host id room n xs).map Message.payload).flatten = xs := by
  induction n generalizing xs with
  | zero => omega
  | succ n ih =>
    rw [fragmentsFrom]
    split_ifs with hlt
    · have hlen : (xs.drop room).length < n := by
        rw [List.length_drop]
        omega
      rw [List.map_cons, List.flatten_cons, ih hlen, List.take_append_drop]
    · simp

theorem isFragmentation_fragments (host : Endianness) {max : Nat} {msg : Message}
    (hm : max % 8 = 0) (hroom : room + 16 = max) (hr : 0 < room)
    (hl : max < msg.encode.length) : IsFragmentation max msg (fragments host room msg) := by
  rw [Message.length_encode] at hl
  have hfirst : (msg.payload.take room).length = room := by
    rw [List.length_take]
    omega
  have hrest : (msg.payload.drop room).length < msg.payload.length + 1 := by
    rw [List.length_drop]
    omega
  refine ⟨List.cons_ne_nil _ _, ?_, ?_, ?_, ?_, ?_, ?_⟩
  · intro j m hj
    cases j with
    | zero =>
      simp only [fragments, List.getElem?_cons_zero, Option.some.injEq] at hj
      rw [← hj]
      rfl
    | succ j =>
      rw [fragments, List.getElem?_cons_succ] at hj
      exact (mem_fragmentsFrom (List.mem_of_getElem? hj)).1
  · intro m hj
    rcases List.mem_cons.mp hj with rfl | hj
    · rfl
    · exact (mem_fragmentsFrom hj).2.1
  · intro j m hj
    cases j with
    | zero =>
      simp only [fragments, List.getElem?_cons_zero, Option.some.injEq] at hj
      have hpos := List.length_pos_iff.mpr (fragmentsFrom_ne_nil host msg.requestId room
        msg.payload.length (msg.payload.drop room))
      rw [← hj, fragments, List.length_cons]
      simp only [true_iff]
      omega
    | succ j =>
      rw [fragments, List.getElem?_cons_succ] at hj
      rw [fragmentsFrom_fragmented hr hrest hj, fragments, List.length_cons]
      omega
  · intro m hj
    rw [Message.length_encode]
    rcases List.mem_cons.mp hj with rfl | hj
    · show (msg.payload.take room).length + 16 ≤ max
      omega
    · have := (mem_fragmentsFrom hj).2.2.1
      omega
  · intro m hj hf
    rw [Message.length_encode]
    rcases List.mem_cons.mp hj with rfl | hj
    · show ((msg.payload.take room).length + 16) % 8 = 0
      rw [hfirst, hroom, hm]
    · rw [(mem_fragmentsFrom hj).2.2.2 hf, hroom, hm]
  · show (msg.payload.take room ++ _) = msg.payload
    rw [flatten_fragmentsFrom hr hrest, List.take_append_drop]

/-! ## The code hands them over -/

section Emit

variable (host : Endianness) {implem : GiopImplem} (lower : List (List UInt8) → Option SysError)

theorem onOutgoing_ok {α : Type} {p : BufferProg α} {s : Emission} {a : α} {b : Buffer}
    (h : p s.buffer = .ok a b) : onOutgoing p s = .ok a { s with buffer := b } :=
  Program.zoom_ok h

theorem onOutBuf_ok {α : Type} {p : BufferProg α} {s : Emission} {a : α} {b : Buffer}
    (h : p s.outBuf = .ok a b) : onOutBuf p s = .ok a { s with outBuf := b } :=
  Program.zoom_ok h

theorem copy_ok (xs : List UInt8) {ys : List UInt8} :
    ∀ {s : Emission}, s.buffer.Readable → s.buffer.rest = xs ++ ys → s.outBuf.AtEnd →
      ∃ b, copy host xs.length s =
        .ok () { s with buffer := s.buffer.advance xs.length, outBuf := b } ∧
        Appended s.outBuf xs b := by
  induction xs with
  | nil =>
    intro s _ _ ho
    exact ⟨s.outBuf, rfl, .refl ho⟩
  | cons x xs ih =>
    intro s hr hrest ho
    have hread := onOutgoing_ok (s := s) (unmarshallOctet_ok host hr hrest)
    obtain ⟨b₁, h₁, a₁⟩ := marshallOctet_appended host ho x
    obtain ⟨b₂, h₂, a₂⟩ := ih (s := ⟨s.buffer.advance 1, b₁, s.sent, s.error⟩) (hr.advance 1)
      (by rw [rest_advance hr, hrest]; rfl) a₁.written.atEnd
    have hwrite := onOutBuf_ok (s := ⟨s.buffer.advance 1, s.outBuf, s.sent, s.error⟩) h₁
    refine ⟨b₂, ?_, a₁.trans a₂⟩
    rw [List.length_cons, copy, Program.bind_ok hread, Program.bind_ok hwrite, h₂]
    simp [Nat.add_comm 1]

theorem emitFragment_ok (t : MsgType) (fragmented : Bool) (size id : Nat) (xs : List UInt8)
    {ys : List UInt8} {s : Emission} (hr : s.buffer.Readable) (hrest : s.buffer.rest = xs ++ ys)
    (ho : s.outBuf.AtEnd) (hp : s.outBuf.cdrPosition = 0) (he : s.outBuf.octets = []) :
    emitFragment host lower t fragmented size id xs.length s = .ok ()
      { buffer := s.buffer.advance xs.length
        outBuf := Buffer.new host
        sent := s.sent ++ [giopHeader s.outBuf.endianness 2 fragmented t size ++
          orderedOctets s.outBuf.endianness 4 id ++ xs]
        error := (lower (s.sent ++ [giopHeader s.outBuf.endianness 2 fragmented t size ++
          orderedOctets s.outBuf.endianness 4 id ++ xs])).or s.error } := by
  obtain ⟨b₁, h₁, a₁⟩ := marshallGlobalGiopHeader_appended host 2 (by omega)
    { MessageContext.new host with messageType := t, fragmented, messageSize := size } ho hp
  have hpos : b₁.cdrPosition % 4 = 0 := by
    rw [a₁.position_eq ho, hp, length_giopHeader]
  obtain ⟨b₂, h₂, a₂⟩ := marshallElementary_appended host a₁.written.atEnd (by omega) hpos id
  obtain ⟨b₃, h₃, a₃⟩ := copy_ok host xs (s := ⟨s.buffer, b₂, s.sent, s.error⟩) hr hrest
    a₂.written.atEnd
  have hoct : b₃.octets = giopHeader s.outBuf.endianness 2 fragmented t size ++
      orderedOctets s.outBuf.endianness 4 id ++ xs := by
    rw [((a₁.trans a₂).trans a₃).octets_eq, he, a₁.written.endianness_eq]
    rfl
  rw [emitFragment, Program.bind_ok (onOutBuf_ok h₁),
    Program.bind_ok (onOutBuf_ok (s := ⟨s.buffer, b₁, s.sent, s.error⟩) h₂), Program.bind_ok h₃,
    Program.bind_get]
  simp only [hoct]
  rfl

theorem handedOver_cons (sent : List (List UInt8)) (m : List UInt8) (ms : List (List UInt8)) :
    handedOver lower sent (m :: ms) =
      if (lower (sent ++ [m])).isSome then (sent ++ [m], lower (sent ++ [m]))
      else handedOver lower (sent ++ [m]) ms := by
  rw [handedOver]
  cases lower (sent ++ [m]) <;> rfl

theorem subUnsignedLong_sub {a b : Nat} (h : b ≤ a) (ha : a < 2 ^ 32) :
    subUnsignedLong a b = a - b := subUnsignedLong_of_le h ha

theorem emitFragments_ok (id : Nat) (hroom : subUnsignedLong implem.maxBody fragHeaderSize = room)
    (hr : 0 < room) : ∀ (fuel : Nat) (xs : List UInt8) (s : Emission), xs.length < fuel →
      xs.length + fragHeaderSize < 2 ^ 32 → s.buffer.Readable → s.buffer.rest = xs →
      s.outBuf = Buffer.new host → s.error = none →
      ∃ s', emitFragments host implem lower id fuel xs.length s = .ok () s' ∧
        (s'.sent, s'.error) = handedOver lower s.sent
          ((fragmentsFrom host id room fuel xs).map Message.encode) := by
  intro fuel
  induction fuel with
  | zero => intro xs s hlt; omega
  | succ fuel ih =>
    intro xs s hlt hmax hread hrest hout herr
    rw [emitFragments, hroom, fragmentsFrom]
    have hat : s.outBuf.AtEnd := by rw [hout]; exact atEnd_new host
    have hpos : s.outBuf.cdrPosition = 0 := by rw [hout]; rfl
    have hoct : s.outBuf.octets = [] := by rw [hout]; rfl
    have horder : s.outBuf.endianness = host := by rw [hout]; rfl
    by_cases hmore : room < xs.length
    · -- a full fragment, and more to come
      have htake : (xs.take room).length = room := by
        rw [List.length_take]
        omega
      have hlen : (xs.drop room).length = xs.length - room := List.length_drop
      have hsplit : s.buffer.rest = xs.take room ++ xs.drop room := by
        rw [List.take_append_drop, hrest]
      have hfrag := emitFragment_ok host lower .fragment true
        ((room + fragHeaderSize) % unsignedLongModulus) id (xs.take room) hread hsplit hat hpos hoct
      rw [htake, horder, herr, Option.or_none] at hfrag
      have hsize : (room + fragHeaderSize) % unsignedLongModulus = room + fragHeaderSize :=
        Nat.mod_eq_of_lt (by unfold unsignedLongModulus; omega)
      rw [hsize] at hfrag
      have henc : giopHeader host 2 true .fragment (room + fragHeaderSize) ++
          orderedOctets host 4 id ++ xs.take room =
          Message.encode ⟨host, .fragment, true, id, xs.take room⟩ := by
        simp [Message.encode, Message.header, Message.body, htake]
      rw [henc] at hfrag
      simp only [if_pos hmore, decide_eq_true hmore, if_true, List.map_cons, hsize]
      rw [Program.bind_ok hfrag, Program.bind_get, handedOver_cons]
      by_cases href : (lower (s.sent ++
          [Message.encode ⟨host, .fragment, true, id, xs.take room⟩])).isSome = true
      · refine ⟨_, congrFun (if_pos (Or.inl href)) _, ?_⟩
        rw [if_pos href]
      · have hnone := Option.not_isSome_iff_eq_none.mp href
        have hdrop : (s.buffer.advance room).rest = xs.drop room := by
          rw [rest_advance hread, hrest]
        obtain ⟨s', hs', hsent⟩ := ih (xs.drop room) ⟨s.buffer.advance room, Buffer.new host,
          s.sent ++ [Message.encode ⟨host, .fragment, true, id, xs.take room⟩], none⟩
          (by omega) (by omega) (hread.advance room) hdrop rfl rfl
        refine ⟨s', ?_, ?_⟩
        · rw [hnone]
          simp only [Option.isSome_none, Bool.false_eq_true, false_or, Bool.true_eq_false, if_false]
          rw [subUnsignedLong_sub (by omega) (by omega), ← hlen, hs']
        · rw [if_neg href, hsent]
    · -- the last fragment
      have hsplit : s.buffer.rest = xs ++ [] := by
        rw [List.append_nil, hrest]
      have hfrag := emitFragment_ok host lower .fragment false
        ((xs.length + fragHeaderSize) % unsignedLongModulus) id xs hread hsplit hat hpos hoct
      rw [horder, herr, Option.or_none] at hfrag
      have hsize : (xs.length + fragHeaderSize) % unsignedLongModulus = xs.length + fragHeaderSize :=
        Nat.mod_eq_of_lt (by unfold unsignedLongModulus; omega)
      rw [hsize] at hfrag
      have henc : giopHeader host 2 false .fragment (xs.length + fragHeaderSize) ++
          orderedOctets host 4 id ++ xs = Message.encode ⟨host, .fragment, false, id, xs⟩ := by
        simp [Message.encode, Message.header, Message.body]
      rw [henc] at hfrag
      simp only [if_neg hmore, decide_eq_false hmore, Bool.false_eq_true, if_false, List.map_cons,
        List.map_nil, hsize]
      rw [Program.bind_ok hfrag, Program.bind_get, handedOver_cons]
      refine ⟨_, congrFun (if_pos (Or.inr trivial)) _, ?_⟩
      cases hl : lower (s.sent ++ [Message.encode ⟨host, .fragment, false, id, xs⟩]) with
      | none => rfl
      | some e => rfl

theorem initializeImplem_ok {max : Int} (h : initializeImplem max = .ok implem) :
    implem.maxGiopMessageSize < 2 ^ 31 ∧ implem.maxGiopMessageSize % 8 = 0 ∧
      implem.maxBody = subUnsignedLong implem.maxGiopMessageSize giopHeaderSize := by
  unfold initializeImplem at h
  split_ifs at h with hr
  injection h with h
  subst h
  refine ⟨?_, ?_, rfl⟩
  · show max.toNat - max.toNat % 8 < 2 ^ 31
    omega
  · show (max.toNat - max.toNat % 8) % 8 = 0
    omega

theorem emitMessage_whole (mctx : MessageContext) (fuel : Nat) {s : Emission}
    (hl : s.buffer.length < 2 ^ 32) (hm : s.buffer.length ≤ implem.maxGiopMessageSize)
    (hx : s.buffer.octets = xs) (hs : s.sent = []) (he : s.error = none) :
    ∃ s', emitMessage host implem lower mctx fuel s = .ok () s' ∧
      (s'.sent, s'.error) = handedOver lower [] [xs] := by
  refine ⟨{ s with sent := [xs], error := lower [xs] }, ?_, ?_⟩
  · rw [emitMessage, Program.bind_get, Program.bind_raiseIf (by omega)]
    simp only [if_pos hm, hx]
    rw [handOver, Program.modify_apply, hs, he, Option.or_none]
    rfl
  · rw [handedOver_cons, List.nil_append]
    cases lower [xs] with
    | none => rfl
    | some e => rfl

/-- The two headers and the request id of an outgoing message are read back. -/
theorem readOutgoing {b : Buffer} {msg : Message} (ho : IsOutgoing b msg) (mctx : MessageContext) :
    ∃ b₁ : Buffer, (do
        unmarshallGlobalGiopHeader host 2
        unmarshallGiopHeader host mctx) { b with cdrPosition := b.initialCdrPosition } =
      .ok (mctx.ofHeader msg.order false msg.messageType (msg.payload.length + fragHeaderSize)) b₁ ∧
      unmarshallElementary host 4 b₁ = .ok msg.requestId (b₁.advance 4) ∧
      (b₁.advance 4).Readable ∧ (b₁.advance 4).rest = msg.payload := by
  obtain ⟨r, hrdef⟩ : ∃ r : Buffer, r = { b with cdrPosition := b.initialCdrPosition } := ⟨_, rfl⟩
  have hi : r.initialCdrPosition = 0 := by rw [hrdef]; exact ho.initial_eq
  have hp : r.cdrPosition = 0 := by rw [hrdef]; exact ho.initial_eq
  have hr : r.Readable := by rw [hrdef]; exact ⟨ho.length_eq, le_refl _⟩
  have hstart : r.pieceAt 0 16 =
      some (msg.header ++ orderedOctets msg.order 4 msg.requestId) := by
    rw [hrdef]
    exact ho.start
  have h12 : r.pieceAt 0 12 = some (giopHeader msg.order 2 false msg.messageType
      (msg.payload.length + fragHeaderSize)) := by
    have h := pieceAt_sub (a := 0) (k := 12) hstart (by omega) (by omega)
    rw [Nat.add_zero, List.drop_zero, List.take_append_of_le_length (by simp),
      List.take_of_length_le (by simp), Message.header, ho.whole] at h
    exact h
  have hh := unmarshallHeader_ok host hr hi hp (by omega) ho.size_lt h12 mctx
  have horder : ({ r with endianness := msg.order, cdrPosition := 12 } : Buffer) =
      { b with cdrPosition := 12 } := by
    rw [hrdef, ← ho.order_eq]
  rw [horder, hrdef] at hh
  have hr₁ : ({ b with cdrPosition := 12 } : Buffer).Readable :=
    ⟨ho.length_eq, by rw [ho.initial_eq]; omega⟩
  refine ⟨{ b with cdrPosition := 12 }, hh, ?_, hr₁.advance 4, ?_⟩
  · refine unmarshallUnsignedLong_ok host hr₁ (show 12 % 4 = 0 from rfl) ho.requestId_lt ?_
    have h := pieceAt_sub (a := 12) (k := 4) ho.start (by omega) (by omega)
    have hd : (msg.header ++ orderedOctets msg.order 4 msg.requestId).drop 12 =
        orderedOctets msg.order 4 msg.requestId :=
      List.drop_left' (Message.length_header msg)
    rw [hd, List.take_of_length_le (by simp)] at h
    rw [ho.order_eq]
    exact h
  · show b.octets.drop (12 + 4 - b.initialCdrPosition) = msg.payload
    rw [ho.initial_eq, ho.octets_eq, Message.encode, Message.body, ← List.append_assoc]
    exact List.drop_left' (by simp)

theorem emitMessage_over (mctx : MessageContext) (fuel : Nat) {b : Buffer} {msg : Message}
    (ho : IsOutgoing b msg) (hl : b.length < 2 ^ 32)
    (hm : implem.maxGiopMessageSize < b.length) :
    ∃ r : Buffer, r.Readable ∧ r.rest = msg.payload ∧
      emitMessage host implem lower mctx fuel ⟨b, Buffer.new host, [], none⟩ =
        (do
          emitFragment host lower msg.messageType true implem.maxBody msg.requestId
            (subUnsignedLong implem.maxBody fragHeaderSize)
          if (← get).error.isSome then return ()
          else
            emitFragments host implem lower msg.requestId fuel
              (subUnsignedLong (msg.payload.length + fragHeaderSize) implem.maxBody) :
          EmitProg Unit)
          ⟨r, { Buffer.new host with endianness := msg.order }, [], none⟩ := by
  have hlen : b.length = msg.payload.length + 16 := by
    rw [ho.length_eq, ho.octets_eq, Message.length_encode]
  obtain ⟨b₁, hheader, hid, hread, hrest⟩ := readOutgoing host ho mctx
  have hnot : msg.messageType ≠ .fragment := by
    intro h
    have := ho.type_ok
    rw [h] at this
    cases this
  have hctx : (mctx.ofHeader msg.order false msg.messageType
      (msg.payload.length + fragHeaderSize)).messageType = msg.messageType ∧
      (mctx.ofHeader msg.order false msg.messageType
        (msg.payload.length + fragHeaderSize)).messageSize = msg.payload.length + fragHeaderSize := by
    simp [MessageContext.ofHeader, hnot]
  have hset : setEndianness b.endianness (Buffer.new host) =
      .ok () { Buffer.new host with endianness := msg.order } := by
    rw [ho.order_eq]
    rfl
  have hrewind : rewind b = .ok () { b with cdrPosition := b.initialCdrPosition } := rfl
  refine ⟨b₁.advance 4, hread, hrest, ?_⟩
  rw [emitMessage, Program.bind_get, Program.bind_raiseIf (by simp only; omega)]
  simp only [if_neg (Nat.not_le.mpr hm)]
  rw [Program.bind_ok (Program.set_apply ..), Program.bind_ok (onOutBuf_ok hset),
    Program.bind_ok (onOutgoing_ok hrewind), Program.bind_ok (onOutgoing_ok hheader), hctx.1,
    hctx.2, Program.bind_raiseIf (by rw [ho.type_ok]; simp), Program.bind_raiseIf (by
      unfold unsignedLongModulus giopHeaderSize fragHeaderSize
      rw [Nat.mod_eq_of_lt (by omega)]
      omega), Program.bind_ok (onOutgoing_ok hid)]

theorem emitMessage_fragments (mctx : MessageContext) {b : Buffer} {msg : Message}
    (ho : IsOutgoing b msg) (hl : b.length < 2 ^ 32) (hm : implem.maxGiopMessageSize < b.length)
    (hbody : implem.maxBody = room + fragHeaderSize)
    (hmax : implem.maxGiopMessageSize = room + 16) (hr : 0 < room) :
    ∃ s, emitMessage host implem lower mctx (msg.payload.length + 1)
        ⟨b, Buffer.new host, [], none⟩ = .ok () s ∧
      (s.sent, s.error) =
        handedOver lower [] ((fragments host room msg).map Message.encode) := by
  have hlen : b.length = msg.payload.length + 16 := by
    rw [ho.length_eq, ho.octets_eq, Message.length_encode]
  have hroom : subUnsignedLong implem.maxBody fragHeaderSize = room := by
    rw [hbody, subUnsignedLong_sub (by omega) (by unfold fragHeaderSize; omega)]
    omega
  have hleft : subUnsignedLong (msg.payload.length + fragHeaderSize) implem.maxBody =
      (msg.payload.drop room).length := by
    unfold fragHeaderSize at *
    rw [hbody, subUnsignedLong_sub (by omega) (by omega), List.length_drop]
    omega
  obtain ⟨r, hread, hrest, hrun⟩ := emitMessage_over host lower mctx
    (msg.payload.length + 1) ho hl hm
  rw [hroom, hleft] at hrun
  -- the first fragment keeps the type and the byte order of the message
  have htake : (msg.payload.take room).length = room := by
    rw [List.length_take]
    omega
  have hsplit : r.rest = msg.payload.take room ++ msg.payload.drop room := by
    rw [List.take_append_drop, hrest]
  have hfirst := emitFragment_ok host lower msg.messageType true implem.maxBody msg.requestId
    (msg.payload.take room)
    (s := ⟨r, { Buffer.new host with endianness := msg.order }, [], none⟩) hread hsplit
    ⟨rfl, rfl⟩ rfl rfl
  rw [htake, List.nil_append, Option.or_none] at hfirst
  have henc : giopHeader msg.order 2 true msg.messageType implem.maxBody ++
      orderedOctets msg.order 4 msg.requestId ++ msg.payload.take room =
      Message.encode { msg with fragmented := true, payload := msg.payload.take room } := by
    rw [hbody]
    simp [Message.encode, Message.header, Message.body, htake]
  simp only [henc] at hfirst
  rw [Program.bind_ok hfirst, Program.bind_get] at hrun
  rw [fragments, List.map_cons, handedOver_cons, List.nil_append, hrun]
  by_cases href : (lower
      [Message.encode { msg with fragmented := true, payload := msg.payload.take room }]).isSome = true
  · refine ⟨_, congrFun (if_pos href) _, ?_⟩
    rw [if_pos href]
  · have hdrop : (r.advance room).rest = msg.payload.drop room := by
      rw [rest_advance hread, hrest]
    obtain ⟨s', hs', hsent⟩ := emitFragments_ok host lower msg.requestId
      hroom hr (msg.payload.length + 1) (msg.payload.drop room)
      ⟨r.advance room, Buffer.new host,
        [Message.encode { msg with fragmented := true, payload := msg.payload.take room }], none⟩
      (by rw [List.length_drop]; omega)
      (by rw [List.length_drop]; have := ho.size_lt; omega) (hread.advance room) hdrop rfl rfl
    have hnone := Option.not_isSome_iff_eq_none.mp href
    refine ⟨s', ?_, ?_⟩
    · rw [hnone]
      exact hs'
    · rw [if_neg href]
      exact hsent

/-! ## The limits that leave no room for a payload -/

/-- With no room for a payload, the loop hands over empty fragments forever. -/
theorem emitFragments_diverges (id : Nat) {messageSize : Nat}
    (hroom : subUnsignedLong implem.maxBody fragHeaderSize = 0) (hpos : 0 < messageSize)
    (hsize : messageSize < 2 ^ 32) (haccept : ∀ sent, lower sent = none) :
    ∀ (fuel : Nat) (s : Emission), s.buffer.Readable → s.outBuf = Buffer.new host →
      s.error = none → ∃ s', emitFragments host implem lower id fuel messageSize s =
        .error .unfinished s' := by
  intro fuel
  induction fuel with
  | zero =>
    intro s _ _ _
    exact ⟨s, rfl⟩
  | succ fuel ih =>
    intro s hread hout herr
    have hfrag := emitFragment_ok host lower .fragment true
      ((0 + fragHeaderSize) % unsignedLongModulus) id [] hread rfl
      (by rw [hout]; exact atEnd_new host) (by rw [hout]; rfl) (by rw [hout]; rfl)
    rw [emitFragments, hroom]
    simp only [decide_eq_true hpos, if_true]
    rw [List.length_nil] at hfrag
    rw [Program.bind_ok hfrag, Program.bind_get, haccept, herr]
    simp only [Option.or_none, Option.isSome_none, Bool.false_eq_true, false_or,
      Bool.true_eq_false, if_false]
    rw [subUnsignedLong_sub (Nat.zero_le _) hsize, Nat.sub_zero]
    exact ih _ (hread.advance 0) rfl rfl

theorem emitMessage_diverges (mctx : MessageContext) {b : Buffer} {msg : Message}
    (ho : IsOutgoing b msg) (hl : b.length < 2 ^ 32)
    (hm : implem.maxGiopMessageSize = 16) (hbody : implem.maxBody = fragHeaderSize)
    (hlong : 16 < b.length) (haccept : ∀ sent, lower sent = none) (fuel : Nat) :
    ∃ s, emitMessage host implem lower mctx fuel ⟨b, Buffer.new host, [], none⟩ =
      .error .unfinished s := by
  have hlen : b.length = msg.payload.length + 16 := by
    rw [ho.length_eq, ho.octets_eq, Message.length_encode]
  obtain ⟨r, hread, -, hrun⟩ := emitMessage_over host lower mctx fuel ho hl
    (by rw [hm]; exact hlong)
  have hroom : subUnsignedLong implem.maxBody fragHeaderSize = 0 := by
    rw [hbody]
    rfl
  have hfirst := emitFragment_ok host lower msg.messageType true implem.maxBody msg.requestId []
    (s := ⟨r, { Buffer.new host with endianness := msg.order }, [], none⟩) hread rfl ⟨rfl, rfl⟩
    rfl rfl
  have hleft : subUnsignedLong (msg.payload.length + fragHeaderSize) implem.maxBody =
      msg.payload.length := by
    unfold fragHeaderSize at *
    rw [hbody, subUnsignedLong_sub (by omega) (by omega)]
    omega
  rw [List.length_nil] at hfirst
  rw [hroom, Program.bind_ok hfirst, Program.bind_get, haccept, hleft] at hrun
  rw [hrun]
  exact emitFragments_diverges host lower _ hroom (by omega) (by omega) haccept fuel _
    (hread.advance 0) rfl rfl

/-- No fragmentation fits into messages of at most 16 octets. -/
theorem not_isFragmentation {max : Nat} {msg : Message} {frags : List Message} (hm : max ≤ 16)
    (hl : max < msg.encode.length) : ¬IsFragmentation max msg frags := by
  intro hf
  rw [Message.length_encode] at hl
  have hempty : ∀ m ∈ frags, m.payload = [] ∧ max = 16 := by
    intro m hmem
    have hle := hf.size_le m hmem
    rw [Message.length_encode] at hle
    exact ⟨List.length_eq_zero_iff.mp (by omega), by omega⟩
  obtain ⟨m, hmem⟩ := List.exists_mem_of_ne_nil frags hf.nonempty
  have h16 := (hempty m hmem).2
  have hflat : (frags.map Message.payload).flatten = [] := by
    rw [List.flatten_eq_nil_iff]
    intro xs hxs
    obtain ⟨m', hmem', rfl⟩ := List.mem_map.mp hxs
    exact (hempty m' hmem').1
  rw [hf.payload_eq] at hflat
  rw [hflat] at hl
  simp only [List.length_nil] at hl
  omega

/-- A message is emitted correctly exactly when its length is an `Unsigned_Long` and, unless it is
within the limit, the limit leaves room for some payload in a fragment. -/
theorem emitMessage_correct_iff {max : Int} (mctx : MessageContext) {b : Buffer} {msg : Message}
    (hi : initializeImplem max = .ok implem) (ho : IsOutgoing b msg) :
    EmitsCorrectly host implem lower mctx b msg ↔
      b.length < 2 ^ 32 ∧ (b.length ≤ implem.maxGiopMessageSize ∨ 24 ≤ max) := by
  obtain ⟨hlt, hmod, hbody⟩ := initializeImplem_ok hi
  have hmax : implem.maxGiopMessageSize = max.toNat - max.toNat % 8 := by
    unfold initializeImplem at hi
    split_ifs at hi
    injection hi with hi
    rw [← hi]
  have hlen : b.length = msg.encode.length := by
    rw [ho.length_eq, ho.octets_eq]
  constructor
  · rintro ⟨fuel, s, hrun, hsent⟩
    have hl : b.length < 2 ^ 32 := by
      by_contra hn
      rw [emitMessage, Program.bind_get,
        Program.bind_error (Program.raiseIf_true (by simp only; omega) _ _)] at hrun
      cases hrun
    refine ⟨hl, ?_⟩
    by_contra hn
    rw [not_or] at hn
    rw [if_neg hn.1] at hsent
    obtain ⟨frags, hf, -⟩ := hsent
    exact not_isFragmentation (by omega) (by omega) hf
  · rintro ⟨hl, hcase⟩
    by_cases hm : b.length ≤ implem.maxGiopMessageSize
    · obtain ⟨s, hrun, hsent⟩ := emitMessage_whole host lower mctx 0
        (s := ⟨b, Buffer.new host, [], none⟩) hl hm ho.octets_eq rfl rfl
      exact ⟨0, s, hrun, by rw [if_pos hm]; exact hsent⟩
    · have h24 : 24 ≤ max := hcase.resolve_left hm
      have hroom : implem.maxBody = implem.maxGiopMessageSize - 16 + fragHeaderSize := by
        unfold fragHeaderSize giopHeaderSize at *
        rw [hbody, subUnsignedLong_sub (by omega) (by omega)]
        omega
      obtain ⟨s, hrun, hsent⟩ := emitMessage_fragments host lower mctx ho hl (by omega) hroom
        (by omega) (by omega)
      refine ⟨_, s, hrun, ?_⟩
      rw [if_neg hm]
      exact ⟨_, isFragmentation_fragments host hmod (by omega) (by omega) (by omega), hsent⟩

end Emit

/-! ## A limit of 16 octets -/

/-- A reply with eight octets after its request id, as it is marshalled. -/
def sampleReply : Message :=
  { order := .littleEndian, messageType := .reply, fragmented := false, requestId := 7,
    payload := [0, 0, 0, 0, 0, 0, 0, 0] }

def sampleReplyBuffer : Buffer :=
  { endianness := .littleEndian, initialCdrPosition := 0, cdrPosition := 24, length := 24,
    contents := [⟨sampleReply.encode, 488⟩] }

theorem isOutgoing_sampleReply : IsOutgoing sampleReplyBuffer sampleReply :=
  ⟨rfl, rfl, rfl, rfl, rfl, rfl, by decide, by decide, rfl⟩

/-- The emission of the reply never ends under a limit of 16 octets. -/
theorem emitMessage_sampleReply_diverges :
    initializeImplem 16 = .ok ⟨16, 4⟩ ∧ IsOutgoing sampleReplyBuffer sampleReply ∧
    (∀ fuel, ∃ s, emitMessage .littleEndian ⟨16, 4⟩ (fun _ => none) (.new .littleEndian) fuel
      ⟨sampleReplyBuffer, Buffer.new .littleEndian, [], none⟩ = .error .unfinished s) ∧
    ¬EmitsCorrectly .littleEndian ⟨16, 4⟩ (fun _ => none) (.new .littleEndian) sampleReplyBuffer
      sampleReply := by
  have hd := @emitMessage_diverges .littleEndian ⟨16, 4⟩ (fun _ => none) (.new .littleEndian) _ _
    isOutgoing_sampleReply (by decide) rfl rfl (by decide) (fun _ => rfl)
  refine ⟨rfl, isOutgoing_sampleReply, hd, ?_⟩
  rintro ⟨fuel, s, hrun, -⟩
  obtain ⟨s', hs'⟩ := hd fuel
  rw [hs'] at hrun
  cases hrun

theorem emitMessage_correct_iff_sampleReply :
    EmitsCorrectly .littleEndian ⟨24, 12⟩ (fun _ => none) (.new .littleEndian) sampleReplyBuffer
      sampleReply ↔ 24 < 2 ^ 32 ∧ (24 ≤ 24 ∨ (24 : Int) ≤ 24) :=
  @emitMessage_correct_iff _ _ _ 24 (.new .littleEndian) _ _ rfl isOutgoing_sampleReply

end PolyORB
