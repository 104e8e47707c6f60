import PolyORB.Miop.Collections

/-!
# Messages sent in MIOP packets are received

Sizes of packets have sixteen bits: a message that does not fit in them together with a header is
not sent.
-/

namespace PolyORB

namespace Miop

open Buffer

def readHeader (host : Endianness) (datagram : List UInt8) : Option MiopHeader :=
  match unmarshallMiopHeader host (MiopHeader.new host)
      (receiveBuffer datagram (Buffer.new host)) with
  | .ok header _ => some header
  | .error _ _ => none

theorem readHeader_encode (host order : Endianness) {p : Packet} (hv : p.Valid) :
    readHeader host (p.encode order) =
      some { p.header order with uniqueId := [], uniqueIdSize := p.uniqueId.length + 1 } := by
  have hpending : (receiveBuffer (p.encode order) (Buffer.new host)).Pending (p.encode order) :=
    .receiveBuffer host _
  have hlength := length_fixedOctets (p.header order)
  have hencode : p.encode order =
      fixedOctets (p.header order) ++ (idOctets p.uniqueId ++ p.payload) := by
    rw [Packet.encode, List.append_assoc]
  have hpos : 0 < (p.encode order).length := by
    rw [hencode, List.length_append, hlength]
    exact Nat.lt_of_lt_of_le (by decide) (Nat.le_add_right _ _)
  -- the whole datagram is in one piece
  have hall : (receiveBuffer (p.encode order) (Buffer.new host)).pieceAt 0 (p.encode order).length =
      some (p.encode order) := Chunks.piece_append_new (c := []) hpos
  have hpiece := pieceAt_sub (a := 0) (k := miopHeaderSize) hall (by decide) (by
    rw [hencode, List.length_append, hlength]
    omega)
  rw [List.drop_zero, hencode, List.take_left' hlength, ← hencode] at hpiece
  have hread := unmarshallMiopHeader_ok host (hv.inRange order) (MiopHeader.new host)
    hpending.readable rfl rfl hpiece
  rw [readHeader, hread]
  rfl

/-- The datagrams that the filter sends are those that the receiver needs. -/
def Transmits (sender receiver : Endianness) (bodySize : List UInt8 → Except Exn Nat) (s : MiopOut)
    (message : List UInt8) : Prop :=
  ∃ s', handleMessage sender s = .ok () s' ∧
    (∀ d ∈ s'.sent, d.length ≤ s.maxSize) ∧
    (∀ k d, s'.sent[k]? = some d → ∃ header, readHeader receiver d = some header ∧
      header.packetSize = d.length ∧ header.packetNumber = k ∧
      header.packetTotal = s'.sent.length) ∧
    (s'.sent.map fun d => d.drop (headerSize s.nextId)).flatten = message ∧
    ∀ messages r, Fresh receiver messages r →
      Fresh receiver (messages ++ [message]) (receiveDatagrams receiver bodySize r s'.sent)

theorem fresh_start (host : Endianness) : Fresh host [] (start host) :=
  ⟨⟨rfl, rfl, rfl, rfl, rfl⟩, rfl, rfl, rfl, rfl, rfl⟩

section Transmit

variable {sender receiver : Endianness} {bodySize : List UInt8 → Except Exn Nat} {s : MiopOut}
  {message : List UInt8}

theorem Packet.drop_encode (order : Endianness) (p : Packet) :
    (p.encode order).drop (headerSize p.uniqueId) = p.payload := by
  exact List.drop_left' (by rw [List.length_append, length_fixedOctets]; rfl)

variable {c : Collection} {k : Nat} {p : Packet}

theorem Collection.Valid.number (h : c.Valid bodySize) (hp : c.packets[k]? = some p) :
    p.packetNumber = k ∧ p.packetTotal = c.packets.length ∧ p.uniqueId = c.uniqueId ∧
      p.size ≤ c.maxSize := by
  by_cases hseveral : 1 < c.packets.length
  · have hn := h.nth hseveral hp
    refine ⟨hn.packetNumber, hn.packetTotal, hn.uniqueId, ?_⟩
    have hroom := h.room
    have hlen := hn.length_payload
    rw [Packet.size, hn.uniqueId, hlen]
    unfold Collection.room
    omega
  · have heq := h.packets_eq_single hseveral
    have hsize := h.several_iff.not.mp hseveral
    rw [heq] at hp
    obtain ⟨hk, rfl⟩ := List.getElem?_eq_some_iff.mp hp
    obtain rfl : k = 0 := Nat.lt_one_iff.mp hk
    exact ⟨rfl, by rw [heq]; rfl, rfl, Nat.not_lt.mp hsize⟩

/-- A message that is well formed is sent and received unless no unique id is left, or its size and
the size of the header wrap. -/
theorem transmits_iff (hgiven : Given sender message s) (hsent : s.sent = [])
    (hform : WellFormed bodySize message) (hmax : headerSize s.nextId + giopHeaderSize ≤ s.maxSize) :
    Transmits sender receiver bodySize s message ↔
      s.indexUniqueId < naturalLast ∧
        headerSize s.nextId + message.length < unsignedShortModulus := by
  have hid : headerSize s.nextId < s.maxSize := lt_of_lt_of_le (Nat.lt_add_of_pos_right (by decide)) hmax
  constructor
  · rintro ⟨s', hok, -⟩
    by_contra hcond
    have hraise : ∃ t, handleMessage sender s = .error .constraintError t := by
      by_cases hindex : s.indexUniqueId < naturalLast
      · exact hgiven.handleMessage_raises hindex hid
          (Nat.not_lt.mp fun hsum => hcond ⟨hindex, hsum⟩)
      · exact hgiven.handleMessage_noId (Nat.not_lt.mp hindex)
    obtain ⟨t, ht⟩ := hraise
    rw [ht] at hok
    cases hok
  · rintro ⟨hindex, hsum⟩
    obtain ⟨s', hok, hsent'⟩ := hgiven.handleMessage_ok hindex hid hsum
    rw [hsent, List.nil_append] at hsent'
    have hv : Collection.Valid bodySize ⟨s.maxSize, s.nextId, message⟩ :=
      ⟨hform, hgiven.maxSize, hmax, hsum⟩
    have hpackets : s'.sent =
        (Collection.packets ⟨s.maxSize, s.nextId, message⟩).map (Packet.encode sender) := hsent'
    refine ⟨s', hok, ?_, ?_, ?_, ?_⟩
    · rw [hpackets]
      intro d hd
      obtain ⟨p, hp, rfl⟩ := List.mem_map.mp hd
      obtain ⟨k, hk⟩ := List.getElem?_of_mem hp
      rw [Packet.length_encode]
      exact (hv.number hk).2.2.2
    · rw [hpackets]
      intro k d hd
      rw [List.getElem?_map] at hd
      obtain ⟨p, hp, rfl⟩ := Option.map_eq_some_iff.mp hd
      obtain ⟨hnumber, htotal, -⟩ := hv.number hp
      refine ⟨_, readHeader_encode receiver sender (hv.packet hp), ?_, hnumber, ?_⟩
      · rw [Packet.length_encode]
        rfl
      · rw [List.length_map, ← htotal]
        rfl
    · have hdrop : ∀ p ∈ Collection.packets ⟨s.maxSize, s.nextId, message⟩,
          (p.encode sender).drop (headerSize s.nextId) = p.payload := by
        intro p hp
        obtain ⟨k, hk⟩ := List.getElem?_of_mem hp
        obtain ⟨-, -, huid, -⟩ := hv.number hk
        have hd := p.drop_encode sender
        rw [huid] at hd
        exact hd
      rw [hpackets, List.map_map]
      exact (congrArg List.flatten (List.map_congr_left hdrop)).trans (flatten_packetsOf message hid)
    · intro messages r hr
      rw [hpackets]
      exact hv.receive_all sender hr

end Transmit

/-- What a session of GIOP 1.2 takes the size of the body of a message to be. -/
def giopBodySize (host : Endianness) (header : List UInt8) : Except Exn Nat :=
  match (unmarshallGlobalGiopHeader host 2 >>= fun _ =>
      unmarshallGiopHeader host (MessageContext.new host))
      (receiveBuffer header (Buffer.new host)) with
  | .ok mctx _ => .ok mctx.messageSize
  | .error e _ => .error e

def given (maxSize : Nat) (message : List UInt8) : MiopOut :=
  { miopBuff := Buffer.new .bigEndian, maxSize, indexUniqueId := 0
    outBuf := initializeBuffer message .bigEndian 0, sent := [] }

theorem given_given {maxSize : Nat} {message : List UInt8} (hmax : maxSize < unsignedShortModulus)
    (hlength : message.length < unsignedShortModulus) :
    Given .bigEndian message (given maxSize message) :=
  ⟨rfl, congrArg List.length (List.append_nil message).symm, List.append_nil message, hmax, hlength⟩

/-- A request, with a body of four octets. -/
def shortMessage : List UInt8 := [71, 73, 79, 80, 1, 2, 0, 0, 0, 0, 0, 4, 1, 2, 3, 4]

theorem transmits_shortMessage :
    Transmits .bigEndian .littleEndian (giopBodySize .littleEndian) (given 44 shortMessage)
        shortMessage ↔
      0 < naturalLast ∧
        headerSize (given 44 shortMessage).nextId + shortMessage.length < unsignedShortModulus :=
  transmits_iff (given_given (by decide) (by decide)) rfl
    ⟨by decide, by decide +kernel⟩ (by decide +kernel)

/-- The same with a body of 65508 octets, which a packet of 65552 octets would carry. -/
def longMessage : List UInt8 :=
  [71, 73, 79, 80, 1, 2, 0, 0, 0, 0, 255, 228] ++ List.replicate 65508 0

theorem not_transmits :
    ¬∀ (s : MiopOut) (message : List UInt8), Given .bigEndian message s → s.sent = [] →
      s.indexUniqueId < naturalLast → WellFormed (giopBodySize .bigEndian) message →
      headerSize s.nextId + giopHeaderSize ≤ s.maxSize →
      Transmits .bigEndian .bigEndian (giopBodySize .bigEndian) s message := by
  intro h
  have hlength : longMessage.length = 65520 := by
    rw [longMessage, List.length_append, List.length_replicate]
    rfl
  have hgiven := given_given (by decide : 1000 < unsignedShortModulus)
    (by rw [hlength]; decide : longMessage.length < unsignedShortModulus)
  have hid : headerSize (given 1000 longMessage).nextId = 32 := by
    show headerSize (uniqueIdOf 1) = 32
    decide +kernel
  have hform : WellFormed (giopBodySize .bigEndian) longMessage := by
    have htake : longMessage.take giopHeaderSize =
        [71, 73, 79, 80, 1, 2, 0, 0, 0, 0, 255, 228] := List.take_left' rfl
    refine ⟨by rw [hlength]; decide, ?_⟩
    decide +kernel
  obtain ⟨s', hok, -⟩ := h _ _ hgiven rfl (by decide) hform (by decide)
  obtain ⟨t, ht⟩ := hgiven.handleMessage_raises (by decide) (by decide)
    (by rw [hid, hlength]; decide)
  rw [ht] at hok
  cases hok

end Miop

end PolyORB
