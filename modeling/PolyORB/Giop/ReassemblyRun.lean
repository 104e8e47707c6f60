import PolyORB.Giop.Reassembly

/-!
# Runs of the reassembly

What the arrival of one message does to a session that waits for a header: a whole message and a
last fragment are delivered, the other fragments go to the reassembly context of their request id.
`Holds u m` says that the context `u` holds the message `m` as far as it has arrived.
-/

namespace PolyORB

open Buffer
open Program (onlyIf raiseIf)

variable {host : Endianness}

/-! ## Receive buffers -/

/-- `b` holds the octets `xs`, of which those before position `pos` were read. -/
structure Held (b : Buffer) (order : Endianness) (pos : Nat) (xs : List UInt8) : Prop where
  order_eq : b.endianness = order
  initial_eq : b.initialCdrPosition = 0
  position_eq : b.cdrPosition = pos
  length_eq : b.length = b.octets.length
  octets_eq : b.octets = xs

theorem Held.new (host : Endianness) : Held (Buffer.new host) host 0 [] :=
  ⟨rfl, rfl, rfl, rfl, rfl⟩

variable {xs : List UInt8} {b : Buffer} {order : Endianness} {pos : Nat}

theorem Held.readable (h : Held b order pos xs) : b.Readable :=
  ⟨h.length_eq, by rw [h.initial_eq]; exact Nat.zero_le _⟩

theorem Held.rest_eq (h : Held b order pos xs) : b.rest = xs.drop pos := by
  rw [rest, h.octets_eq, h.position_eq, h.initial_eq, Nat.sub_zero]

theorem Held.advance (h : Held b order pos xs) (n : Nat) : Held (b.advance n) order (pos + n) xs :=
  ⟨h.order_eq, h.initial_eq, by rw [advance_position, h.position_eq], h.length_eq, h.octets_eq⟩

theorem Held.receive (h : Held b order pos xs) (ys : List UInt8) :
    Held (receiveBuffer ys b) order pos (xs ++ ys) := by
  have hoct : (receiveBuffer ys b).octets = xs ++ ys := by
    rw [← h.octets_eq]
    exact flatten_growOrAppend ..
  refine ⟨h.order_eq, h.initial_eq, h.position_eq, ?_, hoct⟩
  show b.length + ys.length = _
  rw [hoct, h.length_eq, h.octets_eq, List.length_append]

theorem Held.pieceAt_receive (h : Held b order pos xs) (ys : List UInt8) (hy : 0 < ys.length) :
    (receiveBuffer ys b).pieceAt xs.length ys.length = some ys := by
  have hi : ¬xs.length < (receiveBuffer ys b).initialCdrPosition := by
    show ¬xs.length < b.initialCdrPosition
    rw [h.initial_eq]
    omega
  rw [pieceAt, if_neg hi]
  show Chunks.piece _ (xs.length - b.initialCdrPosition) _ = _
  rw [h.initial_eq, Nat.sub_zero, ← h.octets_eq]
  exact piece_growOrAppend b.contents _ hy

/-! ## Reassembly contexts -/

variable {u : ReassemblyContext}

namespace Receiver

variable (s : Receiver)

theorem get_store (u : ReassemblyContext) (id : Nat) :
    (s.storeReassemblyContext u).getReassemblyContext id =
      if u.mctx.requestId = id then some u else s.getReassemblyContext id := by
  simp only [getReassemblyContext, storeReassemblyContext, List.find?_cons]
  by_cases h : u.mctx.requestId = id
  · simp [h]
  · have hb : (u.mctx.requestId == id) = false := by simpa using h
    simp [h, hb]

theorem find_map (cs : List ReassemblyContext) {f : ReassemblyContext → ReassemblyContext}
    (hf : ∀ u, (f u).mctx.requestId = u.mctx.requestId) (id : Nat) :
    (cs.map f).find? (fun u => u.mctx.requestId == id) =
      (cs.find? fun u => u.mctx.requestId == id).map f := by
  induction cs with
  | nil => rfl
  | cons u cs ih =>
    rw [List.map_cons, List.find?_cons, List.find?_cons, hf]
    cases u.mctx.requestId == id with
    | true => rfl
    | false => exact ih

theorem get_id {id : Nat} (h : s.getReassemblyContext id = some u) :
    u.mctx.requestId = id := by
  have := List.find?_some h
  simpa using this

theorem get_update (u : ReassemblyContext) (id : Nat) :
    (s.updateReassemblyContext u).getReassemblyContext id =
      if u.mctx.requestId = id then (s.getReassemblyContext id).map fun _ => u
      else s.getReassemblyContext id := by
  have hf : ∀ v : ReassemblyContext, (if v.mctx.requestId = u.mctx.requestId then u
      else v).mctx.requestId = v.mctx.requestId := by
    intro v
    split_ifs with h
    · exact h.symm
    · rfl
  have hm := find_map s.contexts hf id
  rw [updateReassemblyContext, getReassemblyContext, hm, ← getReassemblyContext]
  cases hg : s.getReassemblyContext id with
  | none => simp
  | some v =>
    have hv := s.get_id hg
    simp only [Option.map_some, hv]
    by_cases h : u.mctx.requestId = id
    · simp [h]
    · simp [h, Ne.symm h]

theorem get_remove (i id : Nat) :
    (s.removeReassemblyContext i).getReassemblyContext id =
      if i = id then none else s.getReassemblyContext id := by
  simp only [getReassemblyContext, removeReassemblyContext]
  rw [List.find?_filter]
  by_cases h : i = id
  · rw [if_pos h, List.find?_eq_none]
    intro u _
    simp [h]
  · rw [if_neg h]
    congr 1
    funext u
    by_cases hu : u.mctx.requestId = id
    · simp [hu, Ne.symm h]
    · simp [hu]

end Receiver

/-! ## One data indication at a time -/

/-- `s` has asked for a header and has nothing of it yet. -/
structure Waiting (host : Endianness) (s : Receiver) : Prop where
  state_eq : s.state = .expectHeader
  bufferIn_eq : s.bufferIn = Buffer.new host
  expected_eq : s.expected = some ⟨.session, giopHeaderSize⟩
  error_eq : s.error = none

variable {s s' : Receiver}

theorem onBufferIn_ok {α : Type} {p : BufferProg α} {a : α}
    (h : p s.bufferIn = .ok a b) : onBufferIn p s = .ok a { s with bufferIn := b } :=
  Program.zoom_ok h

theorem serve_step {fuel : Nat} {e : DataExpected} (herr : s.error = none)
    (he : s.expected = some e) (hl : e.max ≤ s.wire.length)
    (hh : handleDataIndication host (receiveData e s) = .ok () s') :
    serve host (fuel + 1) s = serve host fuel s' := by
  rw [serve, Program.bind_get]
  simp only [herr, he, if_pos hl]
  rw [Program.bind_ok (Program.set_apply ..), Program.bind_ok hh]

theorem serve_waiting (fuel : Nat) (hs : Waiting host s) (hw : s.wire = []) :
    serve host fuel s = .ok () s := by
  cases fuel with
  | zero => rfl
  | succ fuel =>
    rw [serve, Program.bind_get]
    simp only [hs.error_eq, hs.expected_eq, hw]
    rfl

theorem handleDataIndication_body (hs : s.state = .expectBody)
    (hp : processMessage host s = .ok () s') : handleDataIndication host s = .ok () s' := by
  refine Program.tryCatch_ok ?_
  rw [Program.bind_get, Program.bind_raiseIf (by simp [hs])]
  simp only [hs]
  exact hp

/-- The context that the header of `w` gives. -/
def headerContext (w : Message) (mctx : MessageContext) : MessageContext :=
  mctx.ofHeader w.order w.fragmented w.messageType (w.payload.length + fragHeaderSize)

variable {w m : Message}

theorem headerContext_whole (ht : w.messageType ≠ .fragment)
    (hf : w.fragmented = false) (mctx : MessageContext) :
    (headerContext w mctx).messageType = w.messageType ∧
      (headerContext w mctx).messageSize = w.payload.length + fragHeaderSize := by
  simp [headerContext, MessageContext.ofHeader, ht, hf]

theorem headerContext_fragment (h : w.messageType = .fragment ∨ w.fragmented = true)
    (hs : w.payload.length + fragHeaderSize < 2 ^ 32) (mctx : MessageContext) :
    (headerContext w mctx).messageType = .fragment ∧
      (headerContext w mctx).messageSize = fragHeaderSize ∧
      (headerContext w mctx).fragSize = w.payload.length ∧
      (headerContext w mctx).fragmented = w.fragmented ∧
      (w.messageType ≠ .fragment → (headerContext w mctx).fragType = w.messageType) := by
  have hsize : subUnsignedLong (w.payload.length + fragHeaderSize) fragHeaderSize =
      w.payload.length := by
    rw [subUnsignedLong_of_le (Nat.le_add_left _ _) hs, Nat.add_sub_cancel]
  by_cases ht : w.messageType = .fragment
  · simp [headerContext, MessageContext.ofHeader, ht, hsize]
  · have hf := h.resolve_left ht
    simp [headerContext, MessageContext.ofHeader, ht, hf, hsize]

/-- The session once it has read the header of `w`, which is in the buffer `b`. -/
def afterHeader (s : Receiver) (w : Message) (b : Buffer) : Receiver :=
  { s with
    state := .expectBody
    bufferIn := b
    mctx := headerContext w s.mctx
    expected := some ⟨.session, (headerContext w s.mctx).messageSize⟩
    wire := w.body }

theorem arrive_header (hs : Waiting host s) (hw : s.wire = [])
    (hsize : w.payload.length + fragHeaderSize < 2 ^ 32) :
    ∃ b fuel, Held b w.order giopHeaderSize w.header ∧
      arrive host w s = serve host (fuel + 2) (afterHeader s w b) := by
  obtain ⟨r, hrdef⟩ : ∃ r, r = receiveBuffer w.header (Buffer.new host) := ⟨_, rfl⟩
  have hr : Held r host 0 w.header := by
    rw [hrdef]
    exact (Held.new host).receive w.header
  have hpiece : r.pieceAt 0 12 = some w.header := by
    have h := (Held.new host).pieceAt_receive w.header (by simp)
    rw [hrdef]
    simpa using h
  have hread : (do
      unmarshallGlobalGiopHeader host 2
      unmarshallGiopHeader host s.mctx) r = .ok (headerContext w s.mctx)
        { r with endianness := w.order, cdrPosition := 12 } :=
    unmarshallHeader_ok host hr.readable hr.initial_eq hr.position_eq (by omega) hsize hpiece s.mctx
  have htake : w.encode.take giopHeaderSize = w.header :=
    List.take_left' (Message.length_header w)
  have hdrop : w.encode.drop giopHeaderSize = w.body :=
    List.drop_left' (Message.length_header w)
  have hne : (headerContext w s.mctx).messageSize ≠ 0 := by
    by_cases h : w.messageType = .fragment ∨ w.fragmented = true
    · rw [(headerContext_fragment h hsize _).2.1]
      decide
    · rw [not_or, Bool.not_eq_true] at h
      rw [(headerContext_whole h.1 h.2 _).2]
      show _ + 4 ≠ 0
      omega
  have hhandle : handleDataIndication host (receiveData ⟨.session, giopHeaderSize⟩
      { s with wire := w.encode }) = .ok ()
        (afterHeader s w { r with endianness := w.order, cdrPosition := 12 }) := by
    simp only [receiveData, htake, hdrop, hs.bufferIn_eq, ← hrdef]
    refine Program.tryCatch_ok ?_
    rw [Program.bind_get, Program.bind_raiseIf (by simp [hs.state_eq])]
    simp only [hs.state_eq]
    rw [Program.bind_ok (onBufferIn_ok hread), Program.bind_ok (Program.modify_apply ..)]
    exact congrFun (if_neg hne) _
  refine ⟨{ r with endianness := w.order, cdrPosition := 12 }, w.payload.length + 13,
    ⟨rfl, hr.initial_eq, rfl, hr.length_eq, hr.octets_eq⟩, ?_⟩
  rw [arrive, Program.bind_ok (Program.modify_apply ..), Program.bind_get]
  simp only [hw, List.nil_append, Message.length_encode]
  have h12 : giopHeaderSize ≤ w.encode.length := by
    rw [Message.length_encode]
    show 12 ≤ _
    omega
  exact serve_step hs.error_eq hs.expected_eq h12 hhandle

/-! ## Whole messages -/

/-- The session once the message in `b` was handed to the normal processing. -/
def afterDelivery (host : Endianness) (s : Receiver) (mctx : MessageContext) (b : Buffer) :
    Receiver :=
  { s with
    state := .expectHeader
    bufferIn := Buffer.new host
    mctx
    expected := some ⟨.session, giopHeaderSize⟩
    delivered := s.delivered ++ [⟨mctx, b⟩] }

theorem processWhole_ok (ht : s.mctx.messageType.carriesRequestId = true) :
    processWhole host s = .ok () (afterDelivery host s s.mctx s.bufferIn) := by
  rw [processWhole, Program.bind_get]
  cases h : s.mctx.messageType <;> first
    | rfl
    | (rw [h] at ht; cases ht)

theorem waiting_afterDelivery (host : Endianness) (hs : s.error = none) (mctx : MessageContext)
    (b : Buffer) : Waiting host (afterDelivery host s mctx b) :=
  ⟨rfl, rfl, rfl, hs⟩

theorem message_whole (host : Endianness) {mctx : MessageContext}
    (hb : Held b w.order giopHeaderSize w.encode) (hp : b.pieceAt 12 w.body.length = some w.body)
    (hlt : w.requestId < 2 ^ 32) (ht : mctx.messageType = w.messageType)
    (hf : w.fragmented = false) : (⟨mctx, b⟩ : Delivered).message host = .ok w := by
  have hpos : b.cdrPosition = 12 := hb.position_eq
  have hz := pieceAt_sub (a := 0) (k := 4) hp (by omega) (by simp [Message.body])
  rw [List.drop_zero, Message.body, List.take_left' (by simp), ← hb.order_eq] at hz
  have hread := unmarshallUnsignedLong_ok host (v := w.requestId) hb.readable
    (by rw [hpos]) hlt (by rw [hpos]; exact hz)
  have hrest : (b.advance 4).rest = w.payload := by
    rw [(hb.advance 4).rest_eq, Message.encode, Message.body, ← List.append_assoc]
    exact List.drop_left' (by simp [giopHeaderSize])
  have hid : (if b.cdrPosition = giopHeaderSize then unmarshallElementary host 4
      else pure mctx.requestId : BufferProg Nat) b = .ok w.requestId (b.advance 4) := by
    rw [if_pos hb.position_eq, hread]
  simp [Delivered.message, hid, hrest, hb.order_eq, ht, ← hf]

theorem ne_fragment {t : MsgType} (ht : t.carriesRequestId = true) : t ≠ .fragment := by
  rintro rfl
  cases ht

theorem arrive_whole (hs : Waiting host s) (hw : s.wire = [])
    (ht : w.messageType.carriesRequestId = true) (hf : w.fragmented = false)
    (hid : w.requestId < 2 ^ 32) (hsize : w.payload.length + fragHeaderSize < 2 ^ 32) :
    ∃ s' d, arrive host w s = .ok () s' ∧ Waiting host s' ∧ s'.wire = [] ∧
      s'.delivered = s.delivered ++ [d] ∧ d.message host = .ok w ∧ s'.contexts = s.contexts := by
  have hnot := ne_fragment ht
  obtain ⟨hctx, hmsize⟩ := headerContext_whole hnot hf s.mctx
  obtain ⟨b, fuel, hb, harrive⟩ := arrive_header hs hw hsize
  have hlen : (headerContext w s.mctx).messageSize = w.body.length := by
    rw [hmsize, Message.body, List.length_append, length_orderedOctets]
    exact Nat.add_comm ..
  have hpos : 0 < w.body.length := by
    rw [← hlen, hmsize]
    exact Nat.lt_of_lt_of_le (by decide) (Nat.le_add_left fragHeaderSize _)
  have hpiece := hb.pieceAt_receive w.body hpos
  rw [Message.length_header] at hpiece
  have hmsg := message_whole host (hb.receive w.body) hpiece hid hctx hf
  have hhandle : handleDataIndication host (receiveData
      ⟨.session, (headerContext w s.mctx).messageSize⟩ (afterHeader s w b)) =
        .ok () (afterDelivery host s (headerContext w s.mctx) (receiveBuffer w.body b)) := by
    refine handleDataIndication_body rfl ?_
    simp only [receiveData, afterHeader, hlen, List.take_length, List.drop_length]
    rw [processMessage, Program.bind_get, if_neg (by rw [hctx]; exact hnot), processWhole_ok]
    · simp [afterDelivery, hw]
    · rw [hctx]
      exact ht
  have hwait := waiting_afterDelivery host hs.error_eq (headerContext w s.mctx)
    (receiveBuffer w.body b)
  refine ⟨_, _, ?_, hwait, hw, rfl, hmsg, rfl⟩
  rw [harrive, serve_step (s := afterHeader s w b) hs.error_eq rfl (le_of_eq hlen) hhandle]
  exact serve_waiting _ hwait hw

/-! ## Fragments -/

/-- The context holds the message `m`, as far as it has arrived, and waits for the next fragment. -/
structure Holds (u : ReassemblyContext) (m : Message) : Prop where
  requestId_eq : u.mctx.requestId = m.requestId
  type_eq : u.mctx.fragType = m.messageType
  type_ok : m.messageType.carriesRequestId = true
  whole : m.fragmented = false
  state_eq : u.mctx.fragState = .req
  held : ∃ xs, xs.length = 16 ∧ Held u.fragBuf m.order 16 (xs ++ m.payload)

/-- The session once it has read the request id of the fragment `w`. -/
def afterRequestId (s : Receiver) (w : Message) (b : Buffer) : Receiver :=
  { s with
    state := .expectBody
    bufferIn := b
    mctx := { headerContext w s.mctx with requestId := w.requestId }
    expected := none
    wire := w.payload }

theorem arrive_requestId (hs : Waiting host s) (hw : s.wire = [])
    (ht : w.messageType = .fragment ∨ w.fragmented = true) (hid : w.requestId < 2 ^ 32)
    (hsize : w.payload.length + fragHeaderSize < 2 ^ 32) :
    ∃ b fuel xs, xs.length = 16 ∧ Held b w.order 16 xs ∧
      ∀ s', processFragmentPart host (afterRequestId s w b) = .ok () s' →
        arrive host w s = serve host (fuel + 1) s' := by
  obtain ⟨hctx, hmsize, -, -, -⟩ := headerContext_fragment ht hsize s.mctx
  obtain ⟨b, fuel, hb, harrive⟩ := arrive_header hs hw hsize
  obtain ⟨r, hrdef⟩ : ∃ r, r = receiveBuffer (orderedOctets w.order 4 w.requestId) b := ⟨_, rfl⟩
  have hr : Held r w.order 12 (w.header ++ orderedOctets w.order 4 w.requestId) := by
    rw [hrdef]
    exact hb.receive _
  have hpiece := hb.pieceAt_receive (orderedOctets w.order 4 w.requestId) (by simp)
  rw [Message.length_header, length_orderedOctets, ← hrdef] at hpiece
  have hread := unmarshallUnsignedLong_ok host (v := w.requestId) hr.readable
    (by rw [hr.position_eq]) hid (by rw [hr.position_eq, hr.order_eq]; exact hpiece)
  refine ⟨r.advance 4, fuel, _, ?_, hr.advance 4, fun s' hs' => ?_⟩
  · simp
  · rw [harrive]
    have htake : w.body.take fragHeaderSize = orderedOctets w.order 4 w.requestId :=
      List.take_left' (length_orderedOctets ..)
    have hdrop : w.body.drop fragHeaderSize = w.payload :=
      List.drop_left' (length_orderedOctets ..)
    have hle : (headerContext w s.mctx).messageSize ≤ w.body.length := by
      rw [hmsize, Message.body, List.length_append, length_orderedOctets]
      exact Nat.le_add_right _ _
    refine serve_step (s := afterHeader s w b) hs.error_eq rfl hle
      (handleDataIndication_body rfl ?_)
    simp only [receiveData, afterHeader, hmsize, htake, hdrop, ← hrdef]
    rw [processMessage, Program.bind_get, if_pos hctx, processFragment, Program.bind_get]
    have hpos : r.cdrPosition = giopHeaderSize := hr.position_eq
    rw [Program.onlyIf_true hpos, bind_assoc, Program.bind_ok (onBufferIn_ok hread),
      Program.bind_ok (Program.modify_apply ..)]
    exact hs'

/-- The session `s'` is about to handle the payload of the fragment `w` of the message that `u` holds
as `m`; otherwise it is as `s`. -/
structure Fragmenting (s s' : Receiver) (u : ReassemblyContext) (m w : Message) : Prop where
  get_eq : s'.getReassemblyContext m.requestId = some u
  get_other : ∀ id, id ≠ m.requestId → s'.getReassemblyContext id = s.getReassemblyContext id
  holds : Holds u m
  type_eq : s'.mctx.messageType = .fragment
  requestId_eq : s'.mctx.requestId = m.requestId
  fragSize_eq : s'.mctx.fragSize = w.payload.length
  fragmented_eq : s'.mctx.fragmented = w.fragmented
  position_ne : s'.bufferIn.cdrPosition ≠ giopHeaderSize
  state_eq : s'.state = .expectBody
  wire_eq : s'.wire = w.payload
  delivered_eq : s'.delivered = s.delivered
  error_eq : s'.error = none

/-- A message as its first fragment is received: nothing of the payload is there yet. -/
def Message.begun (w : Message) : Message := { w with fragmented := false, payload := [] }

theorem fragmenting_first (host : Endianness)
    (hs : s.error = none) (ht : w.messageType.carriesRequestId = true) (hf : w.fragmented = true)
    (hsize : w.payload.length + fragHeaderSize < 2 ^ 32) (hx : xs.length = 16)
    (hb : Held b w.order 16 xs) (hg : s.getReassemblyContext w.requestId = none) :
    ∃ s' u, Fragmenting s s' u w.begun w ∧
      processFragmentPart host (afterRequestId s w b) = receiveFragment host u s' := by
  obtain ⟨hctx, -, hfsize, hfrag, hftype⟩ := headerContext_fragment (.inr hf) hsize s.mctx
  obtain ⟨t, htdef⟩ : ∃ t, t = afterRequestId s w b := ⟨_, rfl⟩
  have hmctx : t.mctx = { headerContext w s.mctx with requestId := w.requestId } := by
    rw [htdef]
    rfl
  let u : ReassemblyContext :=
    ⟨{ t.mctx with messageType := t.mctx.fragType, fragState := .first }, Buffer.new host⟩
  let u' : ReassemblyContext := ⟨{ u.mctx with fragState := .req }, t.bufferIn⟩
  have hid : u.mctx.requestId = w.requestId := by
    show t.mctx.requestId = _
    rw [hmctx]
  have hid' : u'.mctx.requestId = w.requestId := hid
  have hcurrent : currentContext host t = .ok u (t.storeReassemblyContext u) := by
    have hget : t.getReassemblyContext t.mctx.requestId = none := by
      rw [hmctx, htdef]
      exact hg
    have hmore : ¬t.mctx.fragmented = false := by
      rw [hmctx]
      show ¬(headerContext w s.mctx).fragmented = false
      rw [hfrag, hf]
      decide
    rw [currentContext, Program.bind_get]
    simp only [hget]
    rw [Program.bind_raiseIf hmore, Program.bind_ok (Program.set_apply ..)]
    rfl
  refine ⟨{ (t.storeReassemblyContext u).updateReassemblyContext u' with
    bufferIn := Buffer.new host }, u', ?_, ?_⟩
  · refine ⟨?_, ?_, ⟨hid', ?_, ht, rfl, rfl, xs, hx, ?_⟩, ?_, ?_, ?_, ?_, ?_, ?_, ?_, ?_, ?_⟩
    · show ((t.storeReassemblyContext u).updateReassemblyContext u').getReassemblyContext
        w.requestId = _
      rw [Receiver.get_update, if_pos hid', Receiver.get_store, if_pos hid]
      rfl
    · intro id hne
      have hne' : w.requestId ≠ id := Ne.symm hne
      show ((t.storeReassemblyContext u).updateReassemblyContext u').getReassemblyContext id = _
      rw [Receiver.get_update, if_neg (by rw [hid']; exact hne'), Receiver.get_store,
        if_neg (by rw [hid]; exact hne'), htdef]
      rfl
    · show t.mctx.fragType = _
      rw [hmctx]
      exact hftype (ne_fragment ht)
    · show Held t.bufferIn w.order 16 (xs ++ [])
      rw [List.append_nil, htdef]
      exact hb
    · show t.mctx.messageType = _
      rw [hmctx]
      exact hctx
    · show t.mctx.requestId = w.requestId
      rw [hmctx]
    · show t.mctx.fragSize = _
      rw [hmctx]
      exact hfsize
    · show t.mctx.fragmented = _
      rw [hmctx]
      exact hfrag
    · show ¬(0 : Nat) = 12
      decide
    · rw [htdef]
      rfl
    · rw [htdef]
      rfl
    · rw [htdef]
      rfl
    · rw [htdef]
      exact hs
  · rw [processFragmentPart, ← htdef, Program.bind_ok hcurrent, if_pos rfl, stealSessionBuffer,
      bind_assoc, Program.bind_get, bind_assoc, Program.bind_ok (Program.set_apply ..)]
    rfl

theorem fragmenting_next (host : Endianness) (hs : s.error = none) (ht : w.messageType = .fragment)
    (hsize : w.payload.length + fragHeaderSize < 2 ^ 32) (hb : Held b w.order 16 xs)
    (hid : w.requestId = m.requestId) (hg : s.getReassemblyContext m.requestId = some u)
    (hu : Holds u m) :
    ∃ s', Fragmenting s s' u m w ∧
      processFragmentPart host (afterRequestId s w b) = receiveFragment host u s' := by
  obtain ⟨hctx, -, hfsize, hfrag, -⟩ := headerContext_fragment (.inl ht) hsize s.mctx
  have hget : (afterRequestId s w b).getReassemblyContext
      (afterRequestId s w b).mctx.requestId = some u := by
    show s.getReassemblyContext w.requestId = _
    rw [hid, hg]
  have hcurrent : currentContext host (afterRequestId s w b) =
      .ok u (afterRequestId s w b) := by
    rw [currentContext, Program.bind_get]
    simp only [hget]
    rfl
  refine ⟨afterRequestId s w b, ⟨hg, fun _ _ => rfl, hu, hctx, hid, hfsize, hfrag, ?_, rfl, rfl,
    rfl, hs⟩, ?_⟩
  · show ¬b.cdrPosition = 12
    rw [hb.position_eq]
    decide
  · rw [processFragmentPart, Program.bind_ok hcurrent, if_neg (by rw [hu.state_eq]; decide)]
    rfl

def Message.extend (m w : Message) : Message := { m with payload := m.payload ++ w.payload }

/-- The session `s'` waits for the next message, and for each request id but one it holds what `s`
holds. -/
structure Arrived (host : Endianness) (s s' : Receiver) (requestId : Nat) : Prop where
  waiting : Waiting host s'
  wire_eq : s'.wire = []
  get_other : ∀ id, id ≠ requestId → s'.getReassemblyContext id = s.getReassemblyContext id

theorem message_reassembled (host : Endianness) (mctx : MessageContext)
    (hx : xs.length = 16) (hb : Held b m.order 16 (xs ++ m.payload))
    (hid : mctx.requestId = m.requestId) (ht : mctx.messageType = m.messageType)
    (hf : m.fragmented = false) : (⟨mctx, b⟩ : Delivered).message host = .ok m := by
  have hrest : b.rest = m.payload := by
    rw [hb.rest_eq]
    exact List.drop_left' hx
  have hread : (if b.cdrPosition = giopHeaderSize then unmarshallElementary host 4
      else pure mctx.requestId : BufferProg Nat) b = .ok m.requestId b := by
    rw [if_neg (by rw [hb.position_eq]; decide), hid]
    rfl
  simp [Delivered.message, hread, hrest, hb.order_eq, ht, ← hf]

theorem reassemblyCompleted_ok (host : Endianness) (hs : s.error = none) (hw : s.wire = [])
    (hid : u.mctx.requestId = m.requestId) (htype : u.mctx.fragType = m.messageType)
    (hok : m.messageType.carriesRequestId = true) (hf : m.fragmented = false)
    (hx : xs.length = 16) (hb : Held u.fragBuf m.order 16 (xs ++ m.payload)) :
    ∃ s' d, reassemblyCompleted host u s = .ok () s' ∧ Arrived host s s' m.requestId ∧
      s'.getReassemblyContext m.requestId = none ∧ s'.delivered = s.delivered ++ [d] ∧
      d.message host = .ok m := by
  obtain ⟨t, htdef⟩ : ∃ t : Receiver, t = { s.removeReassemblyContext u.mctx.requestId with
    bufferIn := u.fragBuf
    mctx := { u.mctx with messageType := u.mctx.fragType } } := ⟨_, rfl⟩
  have hget : ∀ id, (afterDelivery host t t.mctx t.bufferIn).getReassemblyContext id =
      if m.requestId = id then none else s.getReassemblyContext id := by
    intro id
    rw [← hid, ← Receiver.get_remove, htdef]
    rfl
  have hmsg := message_reassembled host t.mctx hx hb (by rw [htdef]; exact hid)
    (by rw [htdef]; exact htype) hf
  refine ⟨afterDelivery host t t.mctx t.bufferIn, ⟨t.mctx, t.bufferIn⟩, ?_, ⟨?_, ?_, ?_⟩, ?_, ?_,
    ?_⟩
  · rw [reassemblyCompleted, Program.bind_ok (Program.modify_apply ..), ← htdef]
    refine processWhole_ok ?_
    rw [htdef]
    show u.mctx.fragType.carriesRequestId = true
    rw [htype, hok]
  · exact waiting_afterDelivery host (by rw [htdef]; exact hs) _ _
  · show t.wire = []
    rw [htdef]
    exact hw
  · intro id hne
    rw [hget, if_neg (Ne.symm hne)]
  · rw [hget, if_pos rfl]
  · show t.delivered ++ _ = _
    rw [htdef]
    rfl
  · rw [htdef] at hmsg ⊢
    exact hmsg

theorem receiveFragment_empty (host : Endianness)
    (hfr : Fragmenting s s' u m w) (hp : w.payload = []) :
    ∃ s'' d, receiveFragment host u s' = .ok () s'' ∧ Arrived host s s'' m.requestId ∧
      s''.getReassemblyContext m.requestId = none ∧ s''.delivered = s.delivered ++ [d] ∧
      d.message host = .ok m := by
  obtain ⟨xs, hx, hheld⟩ := hfr.holds.held
  have hwire : s'.wire = [] := by rw [hfr.wire_eq, hp]
  obtain ⟨s'', d, hrun, ha, hnone, hdel, hmsg⟩ := reassemblyCompleted_ok host
    hfr.error_eq hwire hfr.holds.requestId_eq hfr.holds.type_eq hfr.holds.type_ok hfr.holds.whole
    hx hheld
  refine ⟨s'', d, ?_, ⟨ha.waiting, ha.wire_eq, ?_⟩, hnone, ?_, hmsg⟩
  · have hsize : ¬0 < s'.mctx.fragSize := by
      rw [hfr.fragSize_eq, hp]
      decide
    rw [receiveFragment, Program.bind_get, if_pos hfr.holds.state_eq, if_neg hsize, hrun]
  · intro id hne
    rw [ha.get_other id hne, hfr.get_other id hne]
  · rw [hdel, hfr.delivered_eq]

theorem receiveFragment_payload (host : Endianness)
    (hfr : Fragmenting s s' u m w) (hp : w.payload ≠ []) :
    ∃ s₁ s₂ u₂, receiveFragment host u s' = .ok () s₁ ∧
      (∀ fuel s₃, receiveFragment host u₂ s₂ = .ok () s₃ →
        serve host (fuel + 1) s₁ = serve host fuel s₃) ∧
      s₂.getReassemblyContext m.requestId = some u₂ ∧
      (∀ id, id ≠ m.requestId → s₂.getReassemblyContext id = s.getReassemblyContext id) ∧
      u₂.mctx = { u.mctx with fragState := .fragment } ∧
      (∃ xs, xs.length = 16 ∧ Held u₂.fragBuf m.order 16 (xs ++ (m.extend w).payload)) ∧
      s₂.mctx.fragmented = w.fragmented ∧ s₂.wire = [] ∧ s₂.delivered = s.delivered ∧
      s₂.error = none := by
  obtain ⟨xs, hx, hheld⟩ := hfr.holds.held
  have huid := hfr.holds.requestId_eq
  have hpos : 0 < s'.mctx.fragSize := by
    rw [hfr.fragSize_eq]
    exact List.length_pos_iff.mpr hp
  let u₁ : ReassemblyContext := { u with mctx.fragState := .fragment }
  let e : DataExpected := ⟨.reassembly u.mctx.requestId, s'.mctx.fragSize⟩
  obtain ⟨s₁, hs₁⟩ : ∃ s₁ : Receiver, s₁ =
    { s'.updateReassemblyContext u₁ with expected := some e } := ⟨_, rfl⟩
  have hrun : receiveFragment host u s' = .ok () s₁ := by
    rw [receiveFragment, Program.bind_get, if_pos hfr.holds.state_eq, if_pos hpos, hs₁]
    rfl
  let f : ReassemblyContext → ReassemblyContext := fun v =>
    if v.mctx.requestId = u.mctx.requestId then
      { v with fragBuf := receiveBuffer w.payload v.fragBuf }
    else v
  have hf : ∀ v, (f v).mctx.requestId = v.mctx.requestId := by
    intro v
    simp only [f]
    split_ifs <;> rfl
  have hwire : s₁.wire = w.payload := by
    rw [hs₁]
    exact hfr.wire_eq
  have hdata : receiveData e s₁ =
      { s₁ with wire := [], expected := none, contexts := s₁.contexts.map f } := by
    simp only [receiveData, e, hwire, hfr.fragSize_eq, List.take_length, List.drop_length]
    rfl
  have hget : ∀ id, (receiveData e s₁).getReassemblyContext id =
      ((s'.updateReassemblyContext u₁).getReassemblyContext id).map f := by
    intro id
    rw [hdata, hs₁]
    exact Receiver.find_map _ hf id
  have hget_m : (receiveData e s₁).getReassemblyContext m.requestId = some (f u₁) := by
    rw [hget, Receiver.get_update, if_pos huid, hfr.get_eq]
    rfl
  have hfu : f u₁ = { u₁ with fragBuf := receiveBuffer w.payload u.fragBuf } := if_pos rfl
  refine ⟨s₁, receiveData e s₁, f u₁, hrun, ?_, hget_m, ?_, ?_, ⟨xs, hx, ?_⟩, ?_, ?_, ?_, ?_⟩
  · intro fuel s₃ hs₃
    have hdmctx : (receiveData e s₁).mctx = s'.mctx := by
      rw [hdata, hs₁]
      rfl
    have hdbuf : (receiveData e s₁).bufferIn = s'.bufferIn := by
      rw [hdata, hs₁]
      rfl
    have hcurrent : currentContext host (receiveData e s₁) = .ok (f u₁) (receiveData e s₁) := by
      rw [currentContext, Program.bind_get, hdmctx, hfr.requestId_eq]
      simp only [hget_m]
      rfl
    refine serve_step (e := e) (by rw [hs₁]; exact hfr.error_eq) (by rw [hs₁])
      (by rw [hwire]; exact le_of_eq hfr.fragSize_eq) (handleDataIndication_body ?_ ?_)
    · rw [hdata, hs₁]
      exact hfr.state_eq
    · rw [processMessage, Program.bind_get, if_pos (by rw [hdmctx]; exact hfr.type_eq),
        processFragment, Program.bind_get,
        Program.onlyIf_false (by rw [hdbuf]; exact hfr.position_ne), pure_bind,
        processFragmentPart, Program.bind_ok hcurrent, if_neg (by rw [hfu]; rintro ⟨⟩)]
      exact hs₃
  · intro id hne
    have hne' : ¬u₁.mctx.requestId = id := by
      show ¬u.mctx.requestId = id
      rw [huid]
      exact Ne.symm hne
    rw [hget, Receiver.get_update, if_neg hne', hfr.get_other id hne]
    cases hv : s.getReassemblyContext id with
    | none => rfl
    | some v =>
      have hvid := s.get_id hv
      have hfv : f v = v := if_neg (by rw [hvid, huid]; exact hne)
      rw [Option.map_some, hfv]
  · rw [hfu]
  · rw [hfu, Message.extend, ← List.append_assoc]
    exact hheld.receive w.payload
  · rw [hdata, hs₁]
    exact hfr.fragmented_eq
  · rw [hdata]
  · rw [hdata, hs₁]
    exact hfr.delivered_eq
  · rw [hdata, hs₁]
    exact hfr.error_eq

/-! ## The arrival of a fragment -/

/-- Where the arrival of a fragment has led to, `m` being what its message is now: the message is
delivered if nothing more is to come, else it is held. -/
structure Advanced (host : Endianness) (s s' : Receiver) (m : Message) (fragmented : Bool) :
    Prop where
  arrived : Arrived host s s' m.requestId
  more : fragmented = true → s'.delivered = s.delivered ∧
    ∃ u, s'.getReassemblyContext m.requestId = some u ∧ Holds u m
  last : fragmented = false → s'.getReassemblyContext m.requestId = none ∧
    ∃ d, s'.delivered = s.delivered ++ [d] ∧ d.message host = .ok m

theorem advanced_of_fragmenting {t : Receiver}
    {fuel : Nat} (hfr : Fragmenting s s' u m w) (hp : w.fragmented = true → w.payload ≠ [])
    (hrun : ∀ s₁, receiveFragment host u s' = .ok () s₁ →
      arrive host w t = serve host (fuel + 1) s₁) :
    ∃ s₃, arrive host w t = .ok () s₃ ∧ Advanced host s s₃ (m.extend w) w.fragmented := by
  by_cases hempty : w.payload = []
  · have hf : w.fragmented = false := by
      by_contra h
      exact hp (by simpa using h) hempty
    have hm : m.extend w = m := by
      rw [Message.extend, hempty, List.append_nil]
    obtain ⟨s₃, d, hr, ha, hnone, hdel, hmsg⟩ := receiveFragment_empty host hfr hempty
    rw [hm]
    refine ⟨s₃, ?_, ha, fun h => ?_, fun _ => ⟨hnone, d, hdel, hmsg⟩⟩
    · rw [hrun _ hr]
      exact serve_waiting _ ha.waiting ha.wire_eq
    · rw [hf] at h
      cases h
  · obtain ⟨s₁, s₂, u₂, hr₁, hserve, hget, hother, hmctx, ⟨xs, hx, hheld⟩, hfrag, hwire, hdel, herr⟩ :=
      receiveFragment_payload host hfr hempty
    rw [hrun _ hr₁]
    have hnotreq : ¬u₂.mctx.fragState = .req := by
      rw [hmctx]
      rintro ⟨⟩
    have hid₂ : u₂.mctx.requestId = m.requestId := by
      rw [hmctx]
      exact hfr.holds.requestId_eq
    have htype₂ : u₂.mctx.fragType = m.messageType := by
      rw [hmctx]
      exact hfr.holds.type_eq
    obtain ⟨size, hsize⟩ : ∃ n, n = (u₂.mctx.messageSize + s₂.mctx.fragSize) % unsignedLongModulus :=
      ⟨_, rfl⟩
    cases hf : w.fragmented with
    | true =>
      let u₃ : ReassemblyContext :=
        { u₂ with mctx := { u₂.mctx with messageSize := size, fragState := .req } }
      have hid₃ : u₃.mctx.requestId = m.requestId := hid₂
      obtain ⟨s₃, hs₃⟩ : ∃ s₃ : Receiver, s₃ = { s₂.updateReassemblyContext u₃ with
        bufferIn := Buffer.new host
        state := .expectHeader
        expected := some ⟨.session, giopHeaderSize⟩ } := ⟨_, rfl⟩
      have hr₂ : receiveFragment host u₂ s₂ = .ok () s₃ := by
        rw [receiveFragment, Program.bind_get, if_neg hnotreq]
        simp only [hfrag, hf, if_true, ← hsize]
        rw [Program.bind_ok (Program.set_apply ..), hs₃]
        rfl
      have hwait : Waiting host s₃ := by
        rw [hs₃]
        exact ⟨rfl, rfl, rfl, herr⟩
      have hwire₃ : s₃.wire = [] := by
        rw [hs₃]
        exact hwire
      have hget₃ : ∀ id, s₃.getReassemblyContext id =
          (s₂.updateReassemblyContext u₃).getReassemblyContext id := by
        intro id
        rw [hs₃]
        rfl
      refine ⟨s₃, ?_, ⟨hwait, hwire₃, ?_⟩, fun _ => ⟨?_, u₃, ?_, ?_⟩, fun h => by cases h⟩
      · rw [hserve _ _ hr₂]
        exact serve_waiting _ hwait hwire₃
      · intro id hne
        rw [hget₃, Receiver.get_update, if_neg (by rw [hid₃]; exact Ne.symm hne), hother id hne]
      · rw [hs₃]
        exact hdel
      · show s₃.getReassemblyContext m.requestId = _
        rw [hget₃, Receiver.get_update, if_pos hid₃, hget]
        rfl
      · exact ⟨hid₃, htype₂, hfr.holds.type_ok, hfr.holds.whole, rfl, xs, hx, hheld⟩
    | false =>
      obtain ⟨s₃, d, hr₂, ha, hnone, hdel₃, hmsg⟩ := reassemblyCompleted_ok host
        (u := { u₂ with mctx := { u₂.mctx with messageSize := size } }) (m := m.extend w) herr hwire
        hid₂ htype₂ hfr.holds.type_ok hfr.holds.whole hx hheld
      have hr₂' : receiveFragment host u₂ s₂ = .ok () s₃ := by
        rw [receiveFragment, Program.bind_get, if_neg hnotreq]
        simp only [hfrag, hf, Bool.false_eq_true, if_false, ← hsize]
        exact hr₂
      refine ⟨s₃, ?_, ⟨ha.waiting, ha.wire_eq, ?_⟩, (by simp),
        fun _ => ⟨hnone, d, ?_, hmsg⟩⟩
      · rw [hserve _ _ hr₂']
        exact serve_waiting _ ha.waiting ha.wire_eq
      · intro id hne
        rw [ha.get_other id hne, hother id hne]
      · rw [hdel₃, hdel]

theorem arrive_first (hs : Waiting host s) (hw : s.wire = [])
    (ht : w.messageType.carriesRequestId = true) (hf : w.fragmented = true)
    (hid : w.requestId < 2 ^ 32) (hsize : w.payload.length + fragHeaderSize < 2 ^ 32)
    (hg : s.getReassemblyContext w.requestId = none) :
    (w.payload ≠ [] → ∃ s', arrive host w s = .ok () s' ∧
      Advanced host s s' (w.begun.extend w) true) ∧
    (w.payload = [] → ∃ s' d, arrive host w s = .ok () s' ∧ s'.delivered = s.delivered ++ [d]) := by
  obtain ⟨b, fuel, xs, hx, hb, hrun⟩ := arrive_requestId hs hw (.inr hf) hid hsize
  obtain ⟨s', u, hfr, hproc⟩ := fragmenting_first host hs.error_eq ht hf hsize hx hb hg
  rw [hproc] at hrun
  constructor
  · intro hp
    have h := advanced_of_fragmenting hfr (fun _ => hp) hrun
    rwa [hf] at h
  · intro hp
    obtain ⟨s₃, d, hr, ha, -, hdel, -⟩ := receiveFragment_empty host hfr hp
    refine ⟨s₃, d, ?_, hdel⟩
    rw [hrun _ hr]
    exact serve_waiting _ ha.waiting ha.wire_eq

theorem arrive_next (hs : Waiting host s)
    (hw : s.wire = []) (ht : w.messageType = .fragment) (hmw : w.requestId = m.requestId)
    (hid : w.requestId < 2 ^ 32) (hsize : w.payload.length + fragHeaderSize < 2 ^ 32)
    (hg : s.getReassemblyContext m.requestId = some u) (hu : Holds u m) :
    ((w.fragmented = true → w.payload ≠ []) → ∃ s', arrive host w s = .ok () s' ∧
      Advanced host s s' (m.extend w) w.fragmented) ∧
    (w.payload = [] → ∃ s' d, arrive host w s = .ok () s' ∧ s'.delivered = s.delivered ++ [d]) := by
  obtain ⟨b, fuel, xs, hx, hb, hrun⟩ := arrive_requestId hs hw (.inl ht) hid hsize
  obtain ⟨s', hfr, hproc⟩ := fragmenting_next host hs.error_eq ht hsize hb hmw hg hu
  rw [hproc] at hrun
  constructor
  · intro hp
    exact advanced_of_fragmenting hfr hp hrun
  · intro hp
    obtain ⟨s₃, d, hr, ha, -, hdel, -⟩ := receiveFragment_empty host hfr hp
    refine ⟨s₃, d, ?_, hdel⟩
    rw [hrun _ hr]
    exact serve_waiting _ ha.waiting ha.wire_eq

/-! ## Runs -/

/-- The parts that have arrived of a message of which more is to come. -/
def IsOpen (parts : List Message) : Prop := parts ≠ [] ∧ ∀ w ∈ parts, w.fragmented = true

/-- What holds after the messages `before` have arrived. -/
structure Invariant (host : Endianness) (before : List Message) (s : Receiver) : Prop where
  waiting : Waiting host s
  wire_eq : s.wire = []
  delivered_eq : s.delivered.map (Delivered.message host) =
    (deliveries [] before).map Except.ok
  opened : ∀ id, IsOpen (partsOf before id) → ∃ u m, s.getReassemblyContext id = some u ∧
    assemble (partsOf before id) = some m ∧ Holds u m
  closed : ∀ id, ¬IsOpen (partsOf before id) → s.getReassemblyContext id = none

theorem invariant_start (host : Endianness) : Invariant host [] (Receiver.start host) := by
  refine ⟨⟨rfl, rfl, rfl, rfl⟩, rfl, rfl, fun id h => absurd rfl h.1, fun id _ => rfl⟩

theorem partsOf_append (ws : List Message) (w : Message) (id : Nat) :
    partsOf (ws ++ [w]) id = if w.requestId = id then partsOf ws id ++ [w] else partsOf ws id := by
  simp only [partsOf, List.filter_append]
  by_cases h : w.requestId = id <;> simp [h]

theorem deliveries_append (before ws : List Message) (w : Message) :
    deliveries before (ws ++ [w]) = deliveries before ws ++
      (if w.fragmented then []
        else (assemble (partsOf (before ++ ws) w.requestId ++ [w])).toList) := by
  induction ws generalizing before with
  | nil => simp [deliveries]
  | cons v ws ih =>
    rw [List.cons_append, deliveries, deliveries, ih, List.append_assoc, List.append_assoc,
      List.singleton_append]

theorem assemble_append {parts : List Message} (h : assemble parts = some m)
    (w : Message) : assemble (parts ++ [w]) = some (m.extend w) := by
  cases parts with
  | nil => cases h
  | cons v vs =>
    simp only [assemble, Option.some.injEq] at h
    simp only [List.cons_append, assemble, ← h, Message.extend]
    simp

theorem IsInterleaving.part {before after : List Message}
    (h : IsInterleaving (before ++ w :: after)) :
    (∀ v ∈ partsOf before w.requestId, v.fragmented = true) ∧
      (if partsOf before w.requestId = [] then w.messageType.carriesRequestId = true
        else w.messageType = .fragment) := by
  have hs := h.split w.requestId
  have hparts : partsOf (before ++ w :: after) w.requestId =
      partsOf before w.requestId ++ w :: partsOf after w.requestId := by
    simp [partsOf]
  rw [hparts] at hs
  constructor
  · intro v hv
    obtain ⟨j, hj⟩ := List.mem_iff_getElem?.mp hv
    have hlt : j < (partsOf before w.requestId).length := (List.getElem?_eq_some_iff.mp hj).1
    rw [hs.fragmented_iff j v (by rw [List.getElem?_append_left hlt, hj]), List.length_append,
      List.length_cons]
    omega
  · have ht := hs.type_eq (partsOf before w.requestId).length w (by simp)
    by_cases hnil : partsOf before w.requestId = []
    · rw [if_pos hnil]
      rwa [if_pos (by simp [hnil])] at ht
    · rw [if_neg hnil]
      rwa [if_neg (by simpa using hnil)] at ht

theorem isOpen_append {parts : List Message} (hp : ∀ v ∈ parts, v.fragmented = true) (w : Message) :
    IsOpen (parts ++ [w]) ↔ w.fragmented = true := by
  constructor
  · intro h
    exact h.2 w (by simp)
  · intro h
    refine ⟨by simp, fun v hv => ?_⟩
    rcases List.mem_append.mp hv with hv | hv
    · exact hp v hv
    · rw [List.mem_singleton.mp hv]
      exact h

theorem invariant_of_advanced {before : List Message}
    (hi : Invariant host before s) (hp : ∀ v ∈ partsOf before w.requestId, v.fragmented = true)
    (ha : Advanced host s s' m w.fragmented) (hid : m.requestId = w.requestId)
    (hm : assemble (partsOf before w.requestId ++ [w]) = some m) :
    Invariant host (before ++ [w]) s' := by
  refine ⟨ha.arrived.waiting, ha.arrived.wire_eq, ?_, ?_, ?_⟩
  · rw [deliveries_append, List.nil_append, List.map_append, ← hi.delivered_eq]
    cases hf : w.fragmented with
    | true => simp [(ha.more hf).1]
    | false =>
      obtain ⟨-, d, hd, hmsg⟩ := ha.last hf
      simp [hd, hmsg, hm]
  · intro id ho
    rw [partsOf_append] at ho ⊢
    by_cases he : w.requestId = id
    · subst he
      rw [if_pos rfl] at ho ⊢
      rw [isOpen_append hp] at ho
      obtain ⟨-, u, hu, hh⟩ := ha.more ho
      exact ⟨u, m, by rw [← hid]; exact hu, hm, hh⟩
    · rw [if_neg he] at ho ⊢
      rw [ha.arrived.get_other id (by rw [hid]; exact Ne.symm he)]
      exact hi.opened id ho
  · intro id ho
    rw [partsOf_append] at ho
    by_cases he : w.requestId = id
    · subst he
      rw [if_pos rfl, isOpen_append hp, Bool.not_eq_true] at ho
      rw [← hid]
      exact (ha.last ho).1
    · rw [if_neg he] at ho
      rw [ha.arrived.get_other id (by rw [hid]; exact Ne.symm he)]
      exact hi.closed id ho

theorem invariant_arrive {before after : List Message}
    (h : IsInterleaving (before ++ w :: after)) (hi : Invariant host before s) :
    ((w.fragmented = true → w.payload ≠ []) →
      ∃ s', arrive host w s = .ok () s' ∧ Invariant host (before ++ [w]) s') ∧
    (w.fragmented = true → w.payload = [] →
      ∃ s' d, arrive host w s = .ok () s' ∧ s'.delivered = s.delivered ++ [d]) := by
  obtain ⟨hp, ht⟩ := h.part
  have hmem : w ∈ before ++ w :: after := by simp
  have hid := h.requestId_lt w hmem
  have hsize := h.size_lt w hmem
  by_cases hnil : partsOf before w.requestId = []
  · rw [if_pos hnil] at ht
    have hnone := hi.closed w.requestId (fun ho => ho.1 hnil)
    have hm : assemble (partsOf before w.requestId ++ [w]) = some (w.begun.extend w) := by
      simp [hnil, assemble, Message.extend, Message.begun]
    by_cases hf : w.fragmented = true
    · obtain ⟨hadv, hempty⟩ := arrive_first hi.waiting hi.wire_eq ht hf hid hsize hnone
      refine ⟨fun hne => ?_, fun _ he => hempty he⟩
      obtain ⟨s', hr, ha⟩ := hadv (hne hf)
      rw [← hf] at ha
      exact ⟨s', hr, invariant_of_advanced hi hp ha rfl hm⟩
    · refine ⟨fun _ => ?_, fun h' => absurd h' hf⟩
      rw [Bool.not_eq_true] at hf
      obtain ⟨s', d, hr, hwait, hwire, hdel, hmsg, hctx⟩ :=
        arrive_whole hi.waiting hi.wire_eq ht hf hid hsize
      have hw : w.begun.extend w = w := by
        simp [Message.extend, Message.begun, ← hf]
      have hget : ∀ id, s'.getReassemblyContext id = s.getReassemblyContext id := by
        intro id
        rw [Receiver.getReassemblyContext, hctx, Receiver.getReassemblyContext]
      rw [hw] at hm
      refine ⟨s', hr, invariant_of_advanced hi hp ⟨⟨hwait, hwire, fun id _ => hget id⟩, ?_, ?_⟩ rfl
        hm⟩
      · intro h'
        rw [hf] at h'
        cases h'
      · intro _
        exact ⟨by rw [hget, hnone], d, hdel, hmsg⟩
  · rw [if_neg hnil] at ht
    obtain ⟨u, m, hu, hm, hh⟩ := hi.opened w.requestId ⟨hnil, hp⟩
    have hmid : w.requestId = m.requestId := by
      rw [← hh.requestId_eq, s.get_id hu]
    rw [hmid] at hu
    obtain ⟨hadv, hempty⟩ := arrive_next hi.waiting hi.wire_eq ht hmid hid hsize hu hh
    refine ⟨fun hne => ?_, fun _ he => hempty he⟩
    obtain ⟨s', hr, ha⟩ := hadv hne
    exact ⟨s', hr, invariant_of_advanced hi hp ha hmid.symm (assemble_append hm w)⟩

theorem arriveAll_append (ws : List Message) (w : Message) (s : Receiver) :
    arriveAll host (ws ++ [w]) s = (arriveAll host ws >>= fun _ => arrive host w) s := by
  induction ws generalizing s with
  | nil =>
    rw [List.nil_append, arriveAll]
    show (arrive host w >>= fun _ => pure ()) s = arrive host w s
    rw [bind_pure_unit]
  | cons v ws ih =>
    rw [List.cons_append, arriveAll, arriveAll, bind_assoc]
    cases hv : arrive host v s with
    | ok a t => rw [Program.bind_ok hv, Program.bind_ok hv, ih]
    | error e t => rw [Program.bind_error hv, Program.bind_error hv]

theorem invariant_run (host : Endianness) {ws : List Message} (h : IsInterleaving ws) {n : Nat} (hn : n ≤ ws.length)
    (hne : ∀ w ∈ ws.take n, w.fragmented = true → w.payload ≠ []) :
    ∃ s, arriveAll host (ws.take n) (Receiver.start host) = .ok () s ∧
      Invariant host (ws.take n) s := by
  induction n with
  | zero => exact ⟨_, rfl, invariant_start host⟩
  | succ n ih =>
    have hlt : n < ws.length := hn
    have htake : ws.take (n + 1) = ws.take n ++ [ws[n]] := (List.take_append_getElem hlt).symm
    rw [htake] at hne ⊢
    obtain ⟨s, hr, hi⟩ := ih (by omega) fun w hw => hne w (List.mem_append_left _ hw)
    have hsplit : ws.take n ++ ws[n] :: ws.drop (n + 1) = ws := by
      rw [List.getElem_cons_drop, List.take_append_drop]
    rw [← hsplit] at h
    obtain ⟨s', hr', hi'⟩ := (invariant_arrive h hi).1
      (hne ws[n] (List.mem_append_right _ (List.mem_singleton_self _)))
    refine ⟨s', ?_, hi'⟩
    rw [arriveAll_append, Program.bind_ok hr, hr']

theorem contexts_of_invariant {ws : List Message} (h : IsInterleaving ws)
    (hi : Invariant host ws s) : s.contexts = [] := by
  have hnone : ∀ id, s.getReassemblyContext id = none := by
    intro id
    refine hi.closed id ?_
    rintro ⟨hne, hall⟩
    have hlast := (h.split id).fragmented_iff ((partsOf ws id).length - 1)
      ((partsOf ws id).getLast hne) (by
        rw [List.getLast_eq_getElem]
        exact List.getElem?_eq_getElem _)
    rw [hall _ (List.getLast_mem hne)] at hlast
    have := hlast.mp rfl
    omega
  rw [List.eq_nil_iff_forall_not_mem]
  intro u hu
  have h1 := hnone u.mctx.requestId
  rw [Receiver.getReassemblyContext, List.find?_eq_none] at h1
  simpa using h1 u hu

/-- An interleaving is reassembled correctly exactly when no fragment that announces more is
empty. -/
theorem reassemblesCorrectly_iff {ws : List Message} (h : IsInterleaving ws) :
    ReassemblesCorrectly host ws ↔ ∀ w ∈ ws, w.fragmented = true → w.payload ≠ [] := by
  constructor
  · intro hc
    by_contra hn
    -- the first fragment that announces more without a payload is delivered at once
    obtain ⟨n, hn, hw, hbefore⟩ : ∃ n, ∃ hn : n < ws.length,
        (ws[n].fragmented = true ∧ ws[n].payload = []) ∧
        ∀ w ∈ ws.take n, w.fragmented = true → w.payload ≠ [] := by
      push Not at hn
      have hex : ∃ n, ∃ hn : n < ws.length, ws[n].fragmented = true ∧ ws[n].payload = [] := by
        obtain ⟨w, hw, hf, hp⟩ := hn
        obtain ⟨n, hn, rfl⟩ := List.getElem_of_mem hw
        exact ⟨n, hn, hf, hp⟩
      classical
      obtain ⟨hlt, hbad⟩ := Nat.find_spec hex
      refine ⟨Nat.find hex, hlt, hbad, fun w hw hf hp => ?_⟩
      obtain ⟨j, hj, rfl⟩ := List.getElem_of_mem hw
      rw [List.length_take] at hj
      rw [List.getElem_take] at hf hp
      exact Nat.find_min hex (show j < Nat.find hex by omega) ⟨by omega, hf, hp⟩
    obtain ⟨s, hr, hi⟩ := invariant_run host h (by omega) hbefore
    have htake : ws.take (n + 1) = ws.take n ++ [ws[n]] := (List.take_append_getElem hn).symm
    have hsplit : ws.take n ++ ws[n] :: ws.drop (n + 1) = ws := by
      rw [List.getElem_cons_drop, List.take_append_drop]
    rw [← hsplit] at h
    obtain ⟨s', d, hr', hdel⟩ := (invariant_arrive h hi).2 hw.1 hw.2
    obtain ⟨t, ht, -, hdt, -⟩ := hc (n + 1) hn
    rw [htake, arriveAll_append, Program.bind_ok hr, hr'] at ht
    injection ht with _ ht
    subst ht
    have hlen := congrArg List.length hdt
    have hlen' := congrArg List.length hi.delivered_eq
    rw [htake, deliveries_append, if_pos hw.1] at hlen
    simp only [hdel, List.length_map, List.length_append, List.length_singleton, List.length_nil] at hlen hlen'
    omega
  · intro hne n hn
    obtain ⟨s, hr, hi⟩ := invariant_run host h hn fun w hw =>
      hne w (List.mem_of_mem_take hw)
    refine ⟨s, hr, hi.waiting.error_eq, hi.delivered_eq, ?_⟩
    rintro rfl
    rw [List.take_length] at hi
    exact contexts_of_invariant h hi

/-! ## A reply in two fragments -/

/-- A reply cut into two fragments. -/
def splitReply (first second : List UInt8) : List Message :=
  [⟨.littleEndian, .reply, true, 7, first⟩, ⟨.littleEndian, .fragment, false, 7, second⟩]

theorem isInterleaving_splitReply {first second : List UInt8}
    (h₁ : first.length + fragHeaderSize < 2 ^ 32) (h₂ : second.length + fragHeaderSize < 2 ^ 32) :
    IsInterleaving (splitReply first second) := by
  refine ⟨fun id => ?_, ?_, ?_⟩
  · by_cases hid : id = 7
    · subst hid
      have hparts : partsOf (splitReply first second) 7 = splitReply first second := rfl
      rw [hparts]
      refine ⟨fun j w hj => ?_, fun j w hj => ?_⟩
      · match j, hj with
        | 0, hj => cases hj; rfl
        | 1, hj => cases hj; rfl
      · match j, hj with
        | 0, hj => cases hj; simp [splitReply]
        | 1, hj => cases hj; simp [splitReply]
    · have hparts : partsOf (splitReply first second) id = [] := by
        simp [partsOf, splitReply, Ne.symm hid]
      rw [hparts]
      exact ⟨fun j w hj => by simp at hj, fun j w hj => by simp at hj⟩
  · intro w hw
    simp only [splitReply, List.mem_cons, List.not_mem_nil, or_false] at hw
    rcases hw with rfl | rfl
    · show 7 < 2 ^ 32
      decide
    · show 7 < 2 ^ 32
      decide
  · intro w hw
    simp only [splitReply, List.mem_cons, List.not_mem_nil, or_false] at hw
    rcases hw with rfl | rfl
    · exact h₁
    · exact h₂

/-- A reply whose first fragment holds only the request id is delivered before it is complete. -/
theorem not_reassemblesCorrectly_splitReply :
    IsInterleaving (splitReply [] [1]) ∧
      ¬ReassemblesCorrectly .littleEndian (splitReply [] [1]) := by
  have h : IsInterleaving ([] ++ splitReply [] [1]) :=
    isInterleaving_splitReply (by decide) (by decide)
  refine ⟨h, fun hc => ?_⟩
  obtain ⟨s', d, hr, hdel⟩ := (invariant_arrive h (invariant_start .littleEndian)).2 rfl rfl
  obtain ⟨t, ht, -, hdt, -⟩ := hc 1 (by decide)
  have harrive : arriveAll .littleEndian ((splitReply [] [1]).take 1)
      (Receiver.start .littleEndian) = .ok () s' := by
    show (arrive .littleEndian _ >>= fun _ => pure ()) _ = _
    rw [Program.bind_ok hr]
    rfl
  rw [harrive] at ht
  injection ht with _ ht
  subst ht
  have hlen := congrArg List.length hdt
  rw [hdel] at hlen
  simp [splitReply, deliveries, Receiver.start] at hlen

theorem reassemblesCorrectly_iff_splitReply :
    ReassemblesCorrectly .littleEndian (splitReply [1] []) ↔
      ∀ w ∈ splitReply [1] [], w.fragmented = true → w.payload ≠ [] :=
  reassemblesCorrectly_iff (isInterleaving_splitReply (by decide) (by decide))

end PolyORB
