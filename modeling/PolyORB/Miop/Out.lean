import PolyORB.Miop.Header

/-!
# Sending a GIOP message in MIOP packets

`MIOP_Out` makes one packet of a message that fits, header included, in the size a packet may have,
else a collection of packets that are all full but the last.  Sizes are of a modular type of sixteen
bits.
-/

namespace PolyORB

namespace Miop

open Buffer
open Program (raiseIf evaluate)

/-- The filter, the counter of unique ids, the buffer to be sent, and what the lower layer has been
given. -/
structure MiopOut where
  miopBuff : Buffer
  maxSize : Nat
  indexUniqueId : Nat
  outBuf : Buffer
  sent : List (List UInt8)
  deriving DecidableEq

abbrev OutProg := EStateM Exn MiopOut

def onMiopBuff {α : Type} (p : BufferProg α) : OutProg α :=
  Program.zoom MiopOut.miopBuff (fun s b => { s with miopBuff := b }) p

def onOutBuf {α : Type} (p : BufferProg α) : OutProg α :=
  Program.zoom MiopOut.outBuf (fun s b => { s with outBuf := b }) p

/-! ## Arithmetic of `Types.Unsigned_Short` -/

/-- Conversion, which is checked. -/
def toUnsignedShort (n : Nat) : Except Exn Nat :=
  if n < unsignedShortModulus then .ok n else .error .constraintError

def addUnsignedShort (m n : Nat) : Nat := (m + n) % unsignedShortModulus

def subUnsignedShort (m n : Nat) : Nat :=
  (m + (unsignedShortModulus - n % unsignedShortModulus)) % unsignedShortModulus

theorem toUnsignedShort_ok {n : Nat} (h : n < unsignedShortModulus) : toUnsignedShort n = .ok n :=
  if_pos h

theorem addUnsignedShort_eq {m n : Nat} (h : m + n < unsignedShortModulus) :
    addUnsignedShort m n = m + n := Nat.mod_eq_of_lt h

theorem subUnsignedShort_eq {m n : Nat} (h : n ≤ m) (hm : m < unsignedShortModulus) :
    subUnsignedShort m n = m - n := by
  unfold subUnsignedShort
  rw [Nat.mod_eq_of_lt (lt_of_le_of_lt h hm), ← Nat.add_sub_assoc (by omega), Nat.add_comm,
    Nat.add_sub_assoc h, Nat.add_mod_left, Nat.mod_eq_of_lt (by omega)]

/-! ## The filter -/

section Send

variable (host : Endianness)

def generateUniqueId : OutProg (List UInt8) := do
  let s ← get
  raiseIf (naturalLast ≤ s.indexUniqueId) .constraintError
  set { s with indexUniqueId := s.indexUniqueId + 1 }
  return uniqueIdOf (s.indexUniqueId + 1)

/-- The loop that makes the size of the header a multiple of eight; it turns at most seven times. -/
def alignPacketSize : Nat → Nat → Except Exn Nat
  | 0, _ => .error .unfinished
  | fuel + 1, packetSize =>
    if packetSize % 8 ≠ 0 then alignPacketSize fuel (addUnsignedShort packetSize 1)
    else .ok packetSize

/-- The two buffers of `Copy`. -/
def MiopOut.copying (s : MiopOut) : Copying := ⟨s.outBuf, s.miopBuff⟩

def copy (len : Nat) : OutProg Unit :=
  Program.zoom MiopOut.copying (fun s c => { s with outBuf := c.source, miopBuff := c.target })
    (copyOctets host len)

/-- One packet, with the next `len` octets of the message. -/
def emitPacket (header : MiopHeader) (len : Nat) : OutProg Unit := do
  onMiopBuff (marshallMiopHeader host header)
  copy host len
  let s ← get
  let position ← evaluate (toUnsignedShort s.miopBuff.cdrPosition)
  raiseIf (position ≠ header.packetSize) .assertionError
  set { s with sent := s.sent ++ [s.miopBuff.octets] }
  onMiopBuff (releaseContents host)

/-- The size of packet number `j`; `header` has the size of the header. -/
def packetSizeOf (header : MiopHeader) (last j : Nat) : OutProg Nat := do
  let s ← get
  if j ≠ last then return s.maxSize
  return addUnsignedShort (← evaluate (toUnsignedShort s.outBuf.remaining)) header.packetSize

/-- The loop over the packets from number `j` on, `left` of them; `last` is the number of the last
one. -/
def emitPackets (header : MiopHeader) (last : Nat) : Nat → Nat → OutProg Unit
  | 0, _ => return ()
  | left + 1, j => do
    let packetSize ← packetSizeOf header last j
    emitPacket host { header with packetNumber := j, packetSize }
      (subUnsignedShort packetSize header.packetSize)
    emitPackets header last left (j + 1)

def handleMessage : OutProg Unit := do
  let s ← get
  let l ← evaluate (toUnsignedShort s.outBuf.length)
  let uniqueId ← generateUniqueId
  let idLength ← evaluate (toUnsignedShort (uniqueId.length + 1))
  let packetSize ← evaluate (alignPacketSize 8 (addUnsignedShort miopHeaderSize idLength))
  let header := { MiopHeader.new host with uniqueId, packetSize }
  onOutBuf rewind
  if addUnsignedShort packetSize l ≤ s.maxSize then
    emitPacket host
      { header with
        packetSize := addUnsignedShort packetSize l
        collectMode := false
        packetNumber := 0
        packetTotal := 1 } l
  else
    let room := subUnsignedShort s.maxSize packetSize
    raiseIf (room = 0) .constraintError
    let packetTotal :=
      if l % room ≠ 0 then addUnsignedShort (l / room) 1 else l / room
    let last := subUnsignedShort packetTotal 1
    emitPackets host { header with collectMode := true, packetTotal } last (last + 1) 0

end Send

/-! ## The packets of a message -/

structure Packet where
  collectMode : Bool
  packetNumber : Nat
  packetTotal : Nat
  uniqueId : List UInt8
  payload : List UInt8
  deriving DecidableEq

namespace Packet

def size (p : Packet) : Nat := headerSize p.uniqueId + p.payload.length

def header (host : Endianness) (p : Packet) : MiopHeader :=
  { endianness := host, collectMode := p.collectMode, packetSize := p.size
    packetNumber := p.packetNumber, packetTotal := p.packetTotal, uniqueId := p.uniqueId
    uniqueIdSize := 0 }

/-- The datagram that carries a packet. -/
def encode (host : Endianness) (p : Packet) : List UInt8 :=
  fixedOctets (p.header host) ++ idOctets p.uniqueId ++ p.payload

theorem length_encode (host : Endianness) (p : Packet) : (p.encode host).length = p.size := by
  rw [encode, List.length_append, List.length_append, length_fixedOctets]
  rfl

end Packet

def part (room : Nat) (message : List UInt8) (j : Nat) : List UInt8 :=
  (message.drop (j * room)).take room

def packetTotal (room : Nat) (message : List UInt8) : Nat :=
  if message.length % room ≠ 0 then message.length / room + 1 else message.length / room

def packetsOf (maxSize : Nat) (uniqueId message : List UInt8) : List Packet :=
  if headerSize uniqueId + message.length ≤ maxSize then [⟨false, 0, 1, uniqueId, message⟩]
  else
    let room := maxSize - headerSize uniqueId
    let total := packetTotal room message
    (List.range total).map fun j => ⟨true, j, total, uniqueId, part room message j⟩

theorem le_packetTotal_mul {room : Nat} (hroom : 0 < room) (message : List UInt8) :
    message.length ≤ packetTotal room message * room := by
  have hdiv := Nat.div_add_mod message.length room
  have hlt := Nat.mod_lt message.length hroom
  unfold packetTotal
  split_ifs with hmod
  · rw [Nat.add_mul, Nat.one_mul, Nat.mul_comm]
    omega
  · rw [Nat.mul_comm]
    omega

theorem lt_of_lt_packetTotal {room : Nat} (hroom : 0 < room) {message : List UInt8} {j : Nat}
    (hj : j < packetTotal room message) : j * room < message.length := by
  have hdiv := Nat.div_add_mod message.length room
  unfold packetTotal at hj
  split_ifs at hj with hmod
  · have hle : j * room ≤ message.length / room * room := Nat.mul_le_mul_right _ (by omega)
    rw [Nat.mul_comm] at hdiv
    omega
  · have hle : (j + 1) * room ≤ message.length / room * room := Nat.mul_le_mul_right _ (by omega)
    rw [Nat.add_mul, Nat.one_mul] at hle
    rw [Nat.mul_comm] at hdiv
    omega

theorem packetTotal_bounds {room : Nat} (hroom : 0 < room) {message : List UInt8}
    (hpos : 0 < message.length) :
    1 ≤ packetTotal room message ∧ packetTotal room message ≤ message.length := by
  have hle := le_packetTotal_mul hroom message
  have hone : 1 ≤ packetTotal room message := by
    by_contra hzero
    rw [Nat.lt_one_iff.mp (Nat.not_le.mp hzero), Nat.zero_mul] at hle
    omega
  have hlt := lt_of_lt_packetTotal hroom (Nat.sub_lt hone one_pos)
  have hmul := Nat.le_mul_of_pos_right (packetTotal room message - 1) hroom
  omega

theorem flatten_parts (room : Nat) (message : List UInt8) (n : Nat) :
    ((List.range n).map (part room message)).flatten = message.take (n * room) := by
  induction n with
  | zero => rw [Nat.zero_mul, List.take_zero]; rfl
  | succ n ih =>
    rw [List.range_succ, List.map_append, List.flatten_append, ih, List.map_singleton,
      List.flatten_singleton, part, ← List.take_add, Nat.add_mul, Nat.one_mul]

theorem flatten_packetsOf {maxSize : Nat} {uniqueId : List UInt8} (message : List UInt8)
    (h : headerSize uniqueId < maxSize) :
    ((packetsOf maxSize uniqueId message).map Packet.payload).flatten = message := by
  have hroom : 0 < maxSize - headerSize uniqueId := Nat.sub_pos_of_lt h
  unfold packetsOf
  split_ifs
  · exact List.flatten_singleton
  · rw [List.map_map]
    exact (flatten_parts _ message _).trans (List.take_of_length_le (le_packetTotal_mul hroom message))

/-! ## The code makes these packets -/

section Send

variable (host : Endianness)

theorem alignPacketSize_ok (k : Nat) : ∀ {fuel n : Nat}, k < fuel → Octets.padding n 8 = k →
    n + k < unsignedShortModulus → alignPacketSize fuel n = .ok (n + k) := by
  induction k with
  | zero =>
    intro fuel n hfuel hk _
    obtain ⟨fuel, rfl⟩ := Nat.exists_eq_succ_of_ne_zero (Nat.ne_of_gt hfuel)
    unfold Octets.padding at hk
    rw [alignPacketSize, if_neg (by omega)]
    rfl
  | succ k ih =>
    intro fuel n hfuel hk hlt
    obtain ⟨fuel, rfl⟩ := Nat.exists_eq_succ_of_ne_zero (Nat.ne_of_gt (Nat.zero_lt_of_lt hfuel))
    unfold Octets.padding at hk
    have hk' : Octets.padding (n + 1) 8 = k := by
      unfold Octets.padding
      omega
    rw [alignPacketSize, if_pos (by omega), addUnsignedShort_eq (by omega),
      ih (by omega) hk' (by omega), Nat.add_assoc, Nat.add_comm 1]

theorem alignPacketSize_headerSize {uniqueId : List UInt8}
    (h : headerSize uniqueId < unsignedShortModulus) :
    alignPacketSize 8 (addUnsignedShort miopHeaderSize (uniqueId.length + 1)) =
      .ok (headerSize uniqueId) := by
  have hsize : headerSize uniqueId = miopHeaderSize + (uniqueId.length + 1) +
      Octets.padding (miopHeaderSize + (uniqueId.length + 1)) 8 := by
    rw [headerSize, length_idOctets, ← Nat.add_assoc]
  rw [addUnsignedShort_eq (by omega),
    alignPacketSize_ok _ (Octets.padding_lt (by decide) _) rfl (by omega), hsize]

theorem copy_ok (xs : List UInt8) {ys : List UInt8} {s : MiopOut} (hr : s.outBuf.Readable)
    (hrest : s.outBuf.rest = xs ++ ys) : copy host xs.length s = .ok () { s with
      outBuf := s.outBuf.advance xs.length
      miopBuff := s.miopBuff.put xs } :=
  Program.zoom_ok (copyOctets_ok host xs (s := s.copying) hr hrest)

theorem marshallPacket_ok (header : MiopHeader) (he : header.endianness = host)
    (hid : headerSize header.uniqueId < unsignedShortModulus) (xs : List UInt8) {ys : List UInt8}
    {s : MiopOut} (hb : s.miopBuff = Buffer.new host) (hr : s.outBuf.Readable)
    (hrest : s.outBuf.rest = xs ++ ys) :
    ∃ b, (onMiopBuff (marshallMiopHeader host header) >>= fun _ => copy host xs.length) s =
        .ok () { s with outBuf := s.outBuf.advance xs.length, miopBuff := b } ∧
      b.octets = fixedOctets header ++ idOctets header.uniqueId ++ xs ∧
      b.cdrPosition = headerSize header.uniqueId + xs.length := by
  have hbound := (headerSize_bounds header.uniqueId).1
  have hlt : header.uniqueId.length + 1 < unsignedLongModulus := by
    unfold unsignedShortModulus at hid
    unfold unsignedLongModulus
    omega
  obtain ⟨b, hm, ha⟩ := marshallMiopHeader_appended host header he hlt
  have hmarshall : onMiopBuff (marshallMiopHeader host header) s = .ok () { s with miopBuff := b } :=
    Program.zoom_ok (by rw [hb, hm])
  have hcopy := copy_ok host xs (s := { s with miopBuff := b }) hr hrest
  refine ⟨b.put xs, by rw [Program.bind_ok hmarshall, hcopy], ?_, ?_⟩
  · rw [octets_put, ha.octets_eq]
    rfl
  · rw [put_cdrPosition, ha.position_eq ⟨rfl, rfl⟩, List.length_append, length_fixedOctets]
    show 0 + headerSize header.uniqueId + _ = _
    rw [Nat.zero_add]

theorem emitPacket_bind (header : MiopHeader) (len : Nat) : emitPacket host header len = ((do
    onMiopBuff (marshallMiopHeader host header)
    copy host len) >>= fun _ => do
      let s ← get
      let position ← evaluate (toUnsignedShort s.miopBuff.cdrPosition)
      raiseIf (position ≠ header.packetSize) .assertionError
      set { s with sent := s.sent ++ [s.miopBuff.octets] }
      onMiopBuff (releaseContents host)) := by
  rw [emitPacket, bind_assoc]

theorem emitPacket_ok (p : Packet) (hsize : p.size < unsignedShortModulus) {ys : List UInt8}
    {s : MiopOut} (hb : s.miopBuff = Buffer.new host) (hr : s.outBuf.Readable)
    (hrest : s.outBuf.rest = p.payload ++ ys) :
    emitPacket host (p.header host) p.payload.length s = .ok () { s with
      outBuf := s.outBuf.advance p.payload.length
      sent := s.sent ++ [p.encode host] } := by
  obtain ⟨b, hm, hoctets, hposition⟩ := marshallPacket_ok host (p.header host) rfl
    (lt_of_le_of_lt (Nat.le_add_right _ _) hsize) p.payload hb hr hrest
  have hposition' : b.cdrPosition = p.size := hposition
  have hoctets' : b.octets = p.encode host := hoctets
  rw [emitPacket_bind, Program.bind_ok hm, Program.bind_get]
  rw [hposition', Program.bind_evaluate (toUnsignedShort_ok hsize),
    Program.bind_raiseIf (fun hne : p.size ≠ (p.header host).packetSize => hne rfl), hoctets', Program.bind_ok (Program.set_apply ..)]
  show EStateM.Result.ok () _ = _
  rw [← hb]

/-- The fields that the packets of a collection have in common. -/
def collectionHeader (uniqueId : List UInt8) (packetTotal : Nat) : MiopHeader :=
  { MiopHeader.new host with
    uniqueId, packetSize := headerSize uniqueId, collectMode := true, packetTotal }

theorem emitPackets_ok (uniqueId message : List UInt8) (room last : Nat)
    (hsize : headerSize uniqueId + room < unsignedShortModulus) (hroom : 0 < room)
    (hlast : last + 1 = packetTotal room message) (left : Nat) :
    ∀ {j : Nat} {s : MiopOut}, j + left = last + 1 → s.maxSize = headerSize uniqueId + room →
      s.miopBuff = Buffer.new host → s.outBuf.Readable → s.outBuf.rest = message.drop (j * room) →
      emitPackets host (collectionHeader host uniqueId (packetTotal room message)) last left j s =
        .ok () { s with
          outBuf := s.outBuf.advance (message.drop (j * room)).length
          sent := s.sent ++ (List.range' j left).map fun j => Packet.encode host
            ⟨true, j, packetTotal room message, uniqueId, part room message j⟩ } := by
  induction left with
  | zero =>
    intro j s hj _ _ _ _
    have hle := le_packetTotal_mul hroom message
    rw [← hlast, ← hj, Nat.add_zero] at hle
    rw [emitPackets, List.drop_eq_nil_of_le hle]
    show EStateM.Result.ok () s = _
    simp
    rfl
  | succ left ih =>
    intro j s hj hmax hb hr hrest
    have hle := le_packetTotal_mul hroom message
    have hlength : (part room message j).length = min room (message.length - j * room) := by
      rw [part, List.length_take, List.length_drop]
    have hremaining : s.outBuf.remaining = message.length - j * room := by
      rw [← length_rest hr, hrest, List.length_drop]
    obtain ⟨p, hp⟩ : ∃ p : Packet,
      p = ⟨true, j, packetTotal room message, uniqueId, part room message j⟩ := ⟨_, rfl⟩
    have hpsize : p.size = headerSize uniqueId + (part room message j).length := by rw [hp]; rfl
    have hplt : p.size < unsignedShortModulus := by omega
    have hpacket : packetSizeOf (collectionHeader host uniqueId (packetTotal room message)) last j s =
        .ok p.size s := by
      rw [packetSizeOf, Program.bind_get]
      by_cases hj' : j = last
      · have hmul : j * room + room = packetTotal room message * room := by
          rw [← hlast, hj', Nat.add_mul, Nat.one_mul]
        rw [if_neg (not_not.mpr hj'), toUnsignedShort_ok (by omega),
          Program.bind_ok (Program.evaluate_ok ..)]
        show EStateM.Result.ok (addUnsignedShort s.outBuf.remaining (headerSize uniqueId)) s = _
        rw [addUnsignedShort_eq (by omega)]
        congr 1
        omega
      · have hnext : (j + 1) * room < message.length := lt_of_lt_packetTotal hroom (by omega)
        rw [Nat.add_mul, Nat.one_mul] at hnext
        rw [if_pos hj', hmax]
        show EStateM.Result.ok _ s = _
        congr 1
        omega
    have hlen : subUnsignedShort p.size (headerSize uniqueId) = p.payload.length := by
      rw [subUnsignedShort_eq (by omega) hplt, hpsize, hp]
      exact Nat.add_sub_cancel_left ..
    have hsplit : s.outBuf.rest = p.payload ++ message.drop ((j + 1) * room) := by
      rw [hrest, hp, Nat.add_mul, Nat.one_mul, ← List.drop_drop]
      exact (List.take_append_drop room _).symm
    have hemit := emitPacket_ok host p hplt hb hr hsplit
    have hheader : ({ collectionHeader host uniqueId (packetTotal room message) with
        packetNumber := j, packetSize := p.size } : MiopHeader) = p.header host := by
      rw [hp]
      rfl
    have hlen' : subUnsignedShort p.size
        (collectionHeader host uniqueId (packetTotal room message)).packetSize = p.payload.length :=
      hlen
    have hrest' := ih (j := j + 1) (s := { s with
      outBuf := s.outBuf.advance p.payload.length
      sent := s.sent ++ [p.encode host] }) (by omega) hmax hb (hr.advance _) (by
        rw [rest_advance hr, hsplit, List.drop_left])
    rw [emitPackets, Program.bind_ok hpacket, hlen', hheader, Program.bind_ok hemit, hrest']
    have hall : p.payload.length + (message.drop ((j + 1) * room)).length =
        (message.drop (j * room)).length := by
      rw [← List.length_append, ← hsplit, hrest]
    rw [List.range'_succ, List.map_cons, ← hp, advance_advance, hall, List.append_assoc]
    rfl

/-- A filter that is given a message to send. -/
structure Given (message : List UInt8) (s : MiopOut) : Prop where
  miopBuff : s.miopBuff = Buffer.new host
  length : s.outBuf.length = s.outBuf.octets.length
  octets : s.outBuf.octets = message
  maxSize : s.maxSize < unsignedShortModulus
  messageLength : message.length < unsignedShortModulus

def MiopOut.nextId (s : MiopOut) : List UInt8 := uniqueIdOf (s.indexUniqueId + 1)

variable {host} {message : List UInt8} {s : MiopOut}

theorem Given.handleMessage_eq (h : Given host message s) (hindex : s.indexUniqueId < naturalLast)
    (hid : headerSize s.nextId < s.maxSize) :
    handleMessage host s =
      (if addUnsignedShort (headerSize s.nextId) message.length ≤ s.maxSize then
        emitPacket host
          { MiopHeader.new host with
            uniqueId := s.nextId
            packetSize := addUnsignedShort (headerSize s.nextId) message.length
            packetTotal := 1 } message.length
      else
        emitPackets host
          (collectionHeader host s.nextId (packetTotal (s.maxSize - headerSize s.nextId) message))
          (packetTotal (s.maxSize - headerSize s.nextId) message - 1)
          (packetTotal (s.maxSize - headerSize s.nextId) message) 0 : OutProg Unit)
        { s with
          indexUniqueId := s.indexUniqueId + 1
          outBuf := { s.outBuf with cdrPosition := s.outBuf.initialCdrPosition } } := by
  have hlength : s.outBuf.length = message.length := by rw [h.length, h.octets]
  have hmax := h.maxSize
  have hbound := (headerSize_bounds s.nextId).1
  have hgenerate : generateUniqueId s = .ok s.nextId
      { s with indexUniqueId := s.indexUniqueId + 1 } := by
    rw [generateUniqueId, Program.bind_get, Program.bind_raiseIf (by omega)]
    rfl
  have hrewind : onOutBuf rewind { s with indexUniqueId := s.indexUniqueId + 1 } = .ok () { s with
      indexUniqueId := s.indexUniqueId + 1
      outBuf := { s.outBuf with cdrPosition := s.outBuf.initialCdrPosition } } := rfl
  rw [handleMessage, Program.bind_get, hlength,
    Program.bind_evaluate (toUnsignedShort_ok h.messageLength), Program.bind_ok hgenerate,
    Program.bind_evaluate (toUnsignedShort_ok (by omega)),
    Program.bind_evaluate (alignPacketSize_headerSize (by omega)), Program.bind_ok hrewind]
  split_ifs with hfits
  · rfl
  · have hroom : 0 < s.maxSize - headerSize s.nextId := Nat.sub_pos_of_lt hid
    have hpos : 0 < message.length := by
      by_contra hzero
      rw [Nat.eq_zero_of_not_pos hzero, addUnsignedShort_eq (by omega)] at hfits
      omega
    have htotal := packetTotal_bounds hroom hpos
    have hcount : (if message.length % (s.maxSize - headerSize s.nextId) ≠ 0 then
          addUnsignedShort (message.length / (s.maxSize - headerSize s.nextId)) 1
        else message.length / (s.maxSize - headerSize s.nextId)) =
        packetTotal (s.maxSize - headerSize s.nextId) message := by
      have hlt := h.messageLength
      unfold packetTotal at htotal ⊢
      split_ifs at htotal ⊢ with hmod
      · rw [addUnsignedShort_eq (by omega)]
      · rfl
    have hlt := h.messageLength
    rw [subUnsignedShort_eq (le_of_lt hid) hmax, Program.bind_raiseIf (Nat.ne_of_gt hroom), hcount,
      subUnsignedShort_eq htotal.1 (by omega), Nat.sub_add_cancel htotal.1]
    rfl

theorem Given.rewound (h : Given host message s) :
    Readable { s.outBuf with cdrPosition := s.outBuf.initialCdrPosition } ∧
      Buffer.rest { s.outBuf with cdrPosition := s.outBuf.initialCdrPosition } = message := by
  refine ⟨⟨h.length, le_refl _⟩, ?_⟩
  show s.outBuf.octets.drop (s.outBuf.initialCdrPosition - s.outBuf.initialCdrPosition) = message
  rw [Nat.sub_self, List.drop_zero, h.octets]

/-- The packets of the message are sent, unless the size of the message and of a header wraps. -/
theorem Given.handleMessage_ok (h : Given host message s) (hindex : s.indexUniqueId < naturalLast)
    (hid : headerSize s.nextId < s.maxSize)
    (hsum : headerSize s.nextId + message.length < unsignedShortModulus) :
    ∃ s', handleMessage host s = .ok () s' ∧
      s'.sent = s.sent ++ (packetsOf s.maxSize s.nextId message).map (Packet.encode host) := by
  obtain ⟨hr, hrest⟩ := h.rewound
  rw [h.handleMessage_eq hindex hid, addUnsignedShort_eq hsum, packetsOf]
  split_ifs with hfits
  · obtain ⟨p, hp⟩ : ∃ p : Packet, p = ⟨false, 0, 1, s.nextId, message⟩ := ⟨_, rfl⟩
    have hsize : p.size < unsignedShortModulus := by rw [hp]; exact hsum
    rw [← List.append_nil message, show message = p.payload by rw [hp]] at hrest
    have hemit := emitPacket_ok host p hsize (s := { s with
      indexUniqueId := s.indexUniqueId + 1
      outBuf := { s.outBuf with cdrPosition := s.outBuf.initialCdrPosition } })
      h.miopBuff hr hrest
    rw [hp] at hemit
    exact ⟨_, hemit, rfl⟩
  · have hroom : 0 < s.maxSize - headerSize s.nextId := Nat.sub_pos_of_lt hid
    have htotal := packetTotal_bounds hroom (by omega : 0 < message.length)
    have hemit := emitPackets_ok host s.nextId message (s.maxSize - headerSize s.nextId)
      (packetTotal (s.maxSize - headerSize s.nextId) message - 1)
      (by omega) hroom (Nat.sub_add_cancel htotal.1)
      (packetTotal (s.maxSize - headerSize s.nextId) message) (j := 0) (s := { s with
        indexUniqueId := s.indexUniqueId + 1
        outBuf := { s.outBuf with cdrPosition := s.outBuf.initialCdrPosition } })
      (by omega) (by dsimp only; omega) h.miopBuff hr (by
        rw [hrest, Nat.zero_mul, List.drop_zero])
    refine ⟨_, hemit, ?_⟩
    rw [List.map_map, List.range_eq_range']
    rfl

/-- The conversion of the position of the buffer raises. -/
theorem Given.handleMessage_raises (h : Given host message s)
    (hindex : s.indexUniqueId < naturalLast) (hid : headerSize s.nextId < s.maxSize)
    (hsum : unsignedShortModulus ≤ headerSize s.nextId + message.length) :
    ∃ s', handleMessage host s = .error .constraintError s' := by
  obtain ⟨hr, hrest⟩ := h.rewound
  have hmax := h.maxSize
  have hlt := h.messageLength
  have hwraps : addUnsignedShort (headerSize s.nextId) message.length =
      headerSize s.nextId + message.length - unsignedShortModulus := by
    unfold addUnsignedShort
    rw [Nat.mod_eq_sub_mod hsum, Nat.mod_eq_of_lt (by omega)]
  rw [h.handleMessage_eq hindex hid, if_pos (by omega)]
  generalize hheader : ({ MiopHeader.new host with
    uniqueId := s.nextId
    packetSize := addUnsignedShort (headerSize s.nextId) message.length
    packetTotal := 1 } : MiopHeader) = header
  have he : header.endianness = host := by rw [← hheader]; rfl
  have hu : header.uniqueId = s.nextId := by rw [← hheader]
  rw [← List.append_nil message] at hrest
  obtain ⟨b, hm, -, hposition⟩ := marshallPacket_ok host header he (by rw [hu]; omega) message
    (s := { s with
      indexUniqueId := s.indexUniqueId + 1
      outBuf := { s.outBuf with cdrPosition := s.outBuf.initialCdrPosition } })
    h.miopBuff hr hrest
  have hraise : toUnsignedShort b.cdrPosition = .error .constraintError := by
    rw [hposition, hu]
    exact if_neg (Nat.not_lt.mpr hsum)
  rw [emitPacket_bind, Program.bind_ok hm, Program.bind_get]
  rw [hraise, Program.bind_error (Program.evaluate_error ..)]
  exact ⟨_, rfl⟩

theorem Given.handleMessage_noId (h : Given host message s) (hindex : naturalLast ≤ s.indexUniqueId) :
    ∃ s', handleMessage host s = .error .constraintError s' := by
  have hlength : s.outBuf.length = message.length := by rw [h.length, h.octets]
  have hgenerate : generateUniqueId s = .error .constraintError s := by
    rw [generateUniqueId, Program.bind_get, Program.bind_error (Program.raiseIf_true hindex _ _)]
  rw [handleMessage, Program.bind_get, hlength,
    Program.bind_evaluate (toUnsignedShort_ok h.messageLength), Program.bind_error hgenerate]
  exact ⟨_, rfl⟩

end Send

end Miop

end PolyORB
