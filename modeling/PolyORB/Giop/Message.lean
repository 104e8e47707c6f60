import PolyORB.Cdr.Common

/-!
# GIOP messages and their headers

The header of a GIOP 1.2 message: magic, version, flags, type, and the size of the body.  `Message`
is a message of the types that can be fragmented, whose body starts with a request id; `encode` is
its form on the wire.
-/

namespace PolyORB

open Buffer
open Program (raiseIf)

inductive MsgType where
  | request | reply | cancelRequest | locateRequest | locateReply | closeConnection | messageError
  | fragment
  deriving DecidableEq

namespace MsgType

def pos : MsgType → Nat
  | request => 0
  | reply => 1
  | cancelRequest => 2
  | locateRequest => 3
  | locateReply => 4
  | closeConnection => 5
  | messageError => 6
  | fragment => 7

def val : Nat → Except Exn MsgType
  | 0 => .ok request
  | 1 => .ok reply
  | 2 => .ok cancelRequest
  | 3 => .ok locateRequest
  | 4 => .ok locateReply
  | 5 => .ok closeConnection
  | 6 => .ok messageError
  | 7 => .ok fragment
  | _ => .error .constraintError

theorem val_pos (t : MsgType) : val t.pos = .ok t := by
  cases t <;> rfl

theorem pos_lt (t : MsgType) : t.pos < 8 := by
  cases t <;> decide

/-- Types of the messages that can be fragmented. -/
def carriesRequestId : MsgType → Bool
  | request | reply | locateRequest | locateReply => true
  | _ => false

end MsgType

inductive Role where
  | client | server
  deriving DecidableEq

inductive GiopState where
  | notInitialized | expectHeader | expectBody | waitingUnmarshalling
  deriving DecidableEq

inductive FragmentState where
  | first | req | fragment
  deriving DecidableEq

/-- `GIOP_Message_Context_1_2`, less the reassembly buffer. -/
structure MessageContext where
  messageEndianness : Endianness
  messageType : MsgType
  messageSize : Nat
  requestId : Nat
  fragmented : Bool
  fragState : FragmentState
  fragSize : Nat
  fragType : MsgType
  deriving DecidableEq

def MessageContext.new (host : Endianness) : MessageContext :=
  { messageEndianness := host, messageType := .request, messageSize := 0, requestId := 0,
    fragmented := false, fragState := .first, fragSize := 0, fragType := .request }

def magic : List UInt8 := [71, 73, 79, 80]

def giopHeaderSize : Nat := 12

/-- `Frag_Header_Size`, the size of the request id. -/
def fragHeaderSize : Nat := 4

/-- The flags of a GIOP 1.2 header: bit 0 is the byte order, bit 1 says that fragments follow. -/
def flagsOctet (order : Endianness) (fragmented : Bool) : Nat :=
  (if order = .littleEndian then 1 else 0) + (if fragmented then 2 else 0)

/-! ## Marshalling -/

def marshallOctets (host : Endianness) : List UInt8 → BufferProg Unit
  | [] => return ()
  | o :: os => do
    marshallElementary host 1 o.toNat
    marshallOctets host os

def marshallGiopHeader (host : Endianness) (mctx : MessageContext) : BufferProg Unit := do
  let b ← get
  marshallElementary host 1 (flagsOctet b.endianness mctx.fragmented)
  marshallElementary host 1 mctx.messageType.pos
  marshallElementary host 4 mctx.messageSize

def marshallGlobalGiopHeader (host : Endianness) (minor : Nat) (mctx : MessageContext) :
    BufferProg Unit := do
  marshallOctets host magic
  marshallElementary host 1 1
  marshallElementary host 1 minor
  marshallGiopHeader host mctx

/-! ## Unmarshalling -/

/-- `Unmarshall_Global_GIOP_Header` of a session that runs version 1.`minor`. -/
def unmarshallGlobalGiopHeader (host : Endianness) (minor : Nat) : BufferProg Unit := do
  let flags ← peek 6
  setEndianness (if flags.toNat % 2 = 1 then .littleEndian else .bigEndian)
  let messageMagic ← unmarshallOctets host 4
  raiseIf (messageMagic ≠ magic) .giopError
  let major ← unmarshallElementary host 1
  raiseIf (major ≠ 1) .assertionError
  let versionData ← unmarshallElementary host 1
  raiseIf (2 < versionData) .constraintError
  raiseIf (versionData ≠ minor) .giopError

/-- What `Unmarshall_GIOP_Header` makes of the fields of a GIOP 1.2 header: a fragment, or a message
to be continued, is processed in two parts, the request id and the payload. -/
def MessageContext.ofHeader (mctx : MessageContext) (order : Endianness) (fragmented : Bool)
    (messageType : MsgType) (messageSize : Nat) : MessageContext :=
  let m := { mctx with messageEndianness := order, fragmented, messageType, messageSize }
  if messageType = .fragment then
    { m with
      fragState := .req
      fragSize := subUnsignedLong messageSize fragHeaderSize
      messageSize := fragHeaderSize }
  else if fragmented then
    { m with
      fragState := .first
      fragSize := subUnsignedLong messageSize fragHeaderSize
      fragType := messageType
      messageSize := fragHeaderSize
      messageType := .fragment }
  else m

def unmarshallGiopHeader (host : Endianness) (mctx : MessageContext) :
    BufferProg MessageContext := do
  let flags ← unmarshallElementary host 1
  let order : Endianness := if flags % 2 = 1 then .littleEndian else .bigEndian
  let b ← get
  raiseIf (order ≠ b.endianness) .assertionError
  let messageType ← Program.evaluate (MsgType.val (← unmarshallElementary host 1))
  let messageSize ← unmarshallElementary host 4
  return mctx.ofHeader order (flags / 2 % 2 = 1) messageType messageSize

/-! ## The octets of a header -/

/-- The twelve octets of a header. -/
def giopHeader (order : Endianness) (minor : Nat) (fragmented : Bool) (messageType : MsgType)
    (messageSize : Nat) : List UInt8 :=
  magic ++ [1, UInt8.ofNat minor, UInt8.ofNat (flagsOctet order fragmented),
    UInt8.ofNat messageType.pos] ++ orderedOctets order 4 messageSize

@[simp] theorem length_giopHeader (order : Endianness) (minor : Nat) (fragmented : Bool)
    (t : MsgType) (size : Nat) : (giopHeader order minor fragmented t size).length = 12 := by
  simp [giopHeader, magic]

/-- A message whose body starts with a request id. -/
structure Message where
  order : Endianness
  messageType : MsgType
  fragmented : Bool
  requestId : Nat
  payload : List UInt8
  deriving DecidableEq

namespace Message

def body (m : Message) : List UInt8 := orderedOctets m.order 4 m.requestId ++ m.payload

def header (m : Message) : List UInt8 :=
  giopHeader m.order 2 m.fragmented m.messageType (m.payload.length + fragHeaderSize)

/-- The octets of a GIOP 1.2 message; its size field is the size of its body. -/
def encode (m : Message) : List UInt8 := m.header ++ m.body

@[simp] theorem length_header (m : Message) : m.header.length = 12 := length_giopHeader ..

@[simp] theorem length_encode (m : Message) : m.encode.length = m.payload.length + 16 := by
  simp only [encode, body, List.length_append, length_header, length_orderedOctets]
  omega

end Message

/-! ## Marshalling appends -/

variable {b r : Buffer}

theorem marshallElementary_appended (host : Endianness) (hb : b.AtEnd) {size : Nat}
    (hs : 0 < size) (ha : b.cdrPosition % size = 0) (v : Nat) :
    ∃ b', marshallElementary host size v b = .ok () b' ∧
      Appended b (orderedOctets b.endianness size v) b' := by
  obtain ⟨b', hm, happ⟩ :=
    allocateAndInsertCookedData_appended hb (orderedOctets b.endianness size v)
  refine ⟨b', ?_, happ⟩
  have hpad : Program.onlyIf (size ≠ 1) (padAlign size) b = .ok () b := by
    by_cases h1 : size = 1
    · rw [Program.onlyIf_false (by simpa using h1)]
      rfl
    · rw [Program.onlyIf_true h1, padAlign, Program.bind_get]
      simp only [Octets.padding_eq_zero ha, if_true]
      rfl
  rw [marshallElementary, Program.bind_ok hpad, Program.bind_get]
  simp only [orderedOctets_swap size v hs]
  exact hm

theorem orderedOctets_one (order : Endianness) (o : UInt8) : orderedOctets order 1 o.toNat = [o] := by
  cases order <;> simp [orderedOctets, Octets.toOctets]

theorem marshallOctet_appended (host : Endianness) (hb : b.AtEnd) (o : UInt8) :
    ∃ b', marshallElementary host 1 o.toNat b = .ok () b' ∧ Appended b [o] b' := by
  obtain ⟨b', hm, ha⟩ :=
    marshallElementary_appended host hb one_pos (Nat.mod_one _) o.toNat
  rw [orderedOctets_one] at ha
  exact ⟨b', hm, ha⟩

theorem marshallOctets_appended (host : Endianness) (os : List UInt8) (hb : b.AtEnd) :
    ∃ b', marshallOctets host os b = .ok () b' ∧ Appended b os b' := by
  induction os generalizing b with
  | nil => exact ⟨b, rfl, .refl hb⟩
  | cons o os ih =>
    obtain ⟨b₁, h₁, a₁⟩ := marshallOctet_appended host hb o
    obtain ⟨b₂, h₂, a₂⟩ := ih a₁.written.atEnd
    refine ⟨b₂, ?_, a₁.trans a₂⟩
    rw [marshallOctets, Program.bind_ok h₁]
    exact h₂

theorem flagsOctet_lt (order : Endianness) (fragmented : Bool) :
    flagsOctet order fragmented < 256 := by
  cases order <;> cases fragmented <;> decide

theorem toNat_ofNat {n : Nat} (h : n < 256) : (UInt8.ofNat n).toNat = n := by
  simp [Nat.mod_eq_of_lt h]

theorem marshallGlobalGiopHeader_appended (host : Endianness) (minor : Nat) (hm : minor < 256)
    (mctx : MessageContext) (hb : b.AtEnd) (hp : b.cdrPosition = 0) :
    ∃ b', marshallGlobalGiopHeader host minor mctx b = .ok () b' ∧
      Appended b (giopHeader b.endianness minor mctx.fragmented mctx.messageType mctx.messageSize)
        b' := by
  obtain ⟨b₁, h₁, a₁⟩ := marshallOctets_appended host magic hb
  obtain ⟨b₂, h₂, a₂⟩ := marshallOctet_appended host a₁.written.atEnd 1
  obtain ⟨b₃, h₃, a₃⟩ := marshallOctet_appended host a₂.written.atEnd (UInt8.ofNat minor)
  obtain ⟨b₄, h₄, a₄⟩ := marshallOctet_appended host a₃.written.atEnd
    (UInt8.ofNat (flagsOctet b.endianness mctx.fragmented))
  obtain ⟨b₅, h₅, a₅⟩ := marshallOctet_appended host a₄.written.atEnd
    (UInt8.ofNat mctx.messageType.pos)
  have a := (((a₁.trans a₂).trans a₃).trans a₄).trans a₅
  have hpos : b₅.cdrPosition % 4 = 0 := by
    rw [a.position_eq hb, hp]
    simp [magic]
  obtain ⟨b₆, h₆, a₆⟩ := marshallElementary_appended host a₅.written.atEnd (by omega) hpos
    mctx.messageSize
  rw [toNat_ofNat hm] at h₃
  rw [toNat_ofNat (flagsOctet_lt ..)] at h₄
  have ht := mctx.messageType.pos_lt
  rw [toNat_ofNat (by omega)] at h₅
  have h₂' : marshallElementary host 1 1 b₁ = .ok () b₂ := h₂
  refine ⟨b₆, ?_, ?_⟩
  · have horder : b₃.endianness = b.endianness :=
      ((a₁.trans a₂).trans a₃).written.endianness_eq
    rw [marshallGlobalGiopHeader, Program.bind_ok h₁, Program.bind_ok h₂', Program.bind_ok h₃,
      marshallGiopHeader, Program.bind_get, horder, Program.bind_ok h₄, Program.bind_ok h₅, h₆]
  · have h := a.trans a₆
    rw [a.written.endianness_eq] at h
    exact h

/-! ## Unmarshalling advances -/

theorem unmarshallOctet_ok (host : Endianness) (hr : r.Readable) {o : UInt8}
    {xs : List UInt8} (h : r.rest = o :: xs) :
    unmarshallElementary host 1 r = .ok o.toNat (r.advance 1) := by
  have hz := pieceAt_rest hr h
  have hle : r.cdrPosition + 1 ≤ r.initialCdrPosition + r.length := by
    have hlen : r.rest.length = xs.length + 1 := by rw [h]; rfl
    rw [rest, List.length_drop] at hlen
    have := hr.length_eq
    omega
  have hu : unmarshallElementary host 1 r = _ :=
    unmarshallElementary_ok host one_pos (by simp; omega) (by simpa using hz)
  have hv : fromOrderedOctets r.endianness [o] = o.toNat := by
    cases r.endianness <;> simp [fromOrderedOctets, Octets.ofOctets]
  rw [hu, hv, Octets.padding_one]
  rfl

theorem unmarshallOctets_ok (host : Endianness) (os : List UInt8) (hr : r.Readable)
    {xs : List UInt8} (h : r.rest = os ++ xs) :
    unmarshallOctets host os.length r = .ok os (r.advance os.length) := by
  induction os generalizing r with
  | nil => rfl
  | cons o os ih =>
    have h₁ := unmarshallOctet_ok host hr h
    have h₂ := ih (hr.advance 1) (by rw [rest_advance hr, h]; rfl)
    rw [List.length_cons, unmarshallOctets, Program.bind_ok h₁, Program.bind_ok h₂]
    simp [Nat.add_comm 1]

theorem unmarshallUnsignedLong_ok (host : Endianness) (hr : r.Readable)
    (ha : r.cdrPosition % 4 = 0) {v : Nat} (hv : v < 2 ^ 32)
    (hz : r.pieceAt r.cdrPosition 4 = some (orderedOctets r.endianness 4 v)) :
    unmarshallElementary host 4 r = .ok v (r.advance 4) := by
  have hpad := Octets.padding_eq_zero ha
  have hle : r.cdrPosition + 4 ≤ r.initialCdrPosition + r.length := by
    have hl := hr.length_eq
    unfold pieceAt at hz
    split_ifs at hz
    obtain ⟨hp, -⟩ := Chunks.piece_eq hz
    rw [octets] at hl
    omega
  rw [unmarshallElementary_ok host (by omega) (by omega) (by rw [hpad]; exact hz),
    fromOrderedOctets_orderedOctets (by omega), hpad, Nat.add_zero]
  rfl

theorem unmarshallHeader_ok (host : Endianness) (hr : r.Readable)
    (hi : r.initialCdrPosition = 0) (hp : r.cdrPosition = 0) {order : Endianness} {minor : Nat}
    {fragmented : Bool} {t : MsgType} {size : Nat} (hm : minor ≤ 2) (hs : size < 2 ^ 32)
    (h : r.pieceAt 0 12 = some (giopHeader order minor fragmented t size)) (mctx : MessageContext) :
    (unmarshallGlobalGiopHeader host minor >>= fun _ => unmarshallGiopHeader host mctx) r =
      .ok (mctx.ofHeader order fragmented t size)
        { r with endianness := order, cdrPosition := 12 } := by
  obtain ⟨r₀, hr₀def⟩ : ∃ r₀ : Buffer, r₀ = { r with endianness := order } := ⟨_, rfl⟩
  have hp₀ : r₀.cdrPosition = 0 := by rw [hr₀def]; exact hp
  have hr₀ : r₀.Readable := by rw [hr₀def]; exact ⟨hr.length_eq, hr.initial_le⟩
  have ho₀ : r₀.endianness = order := by rw [hr₀def]
  have h₀ : r₀.pieceAt r₀.cdrPosition 12 = some (giopHeader order minor fragmented t size) := by
    rw [hp₀, ← h, hr₀def]
    rfl
  obtain ⟨ys, hrest⟩ := rest_of_pieceAt h₀
  -- the flags are looked at before anything is read
  have hpeek : peek 6 r = .ok (UInt8.ofNat (flagsOctet order fragmented)) r := by
    have hoct : r.octets = r₀.rest := by
      rw [hr₀def]
      show r.octets = r.octets.drop (r.cdrPosition - r.initialCdrPosition)
      rw [hp, hi]
      rfl
    rw [peek, Program.bind_get, hi, Nat.sub_zero, hoct, hrest]
    rfl
  have horder : (if (UInt8.ofNat (flagsOctet order fragmented)).toNat % 2 = 1 then
      Endianness.littleEndian else .bigEndian) = order := by
    cases order <;> cases fragmented <;> rfl
  have hset : setEndianness order r = .ok () r₀ := by
    rw [setEndianness, Program.bind_get, if_pos (by rw [hp, hi]), hr₀def]
    rfl
  -- the octets are read one by one
  have hmagic : unmarshallOctets host 4 r₀ = .ok magic (r₀.advance 4) :=
    unmarshallOctets_ok host magic hr₀ hrest
  have hnext : ∀ n, (r₀.advance n).rest = r₀.rest.drop n := rest_advance hr₀
  have hmajor := unmarshallOctet_ok host (hr₀.advance 4) ((hnext 4).trans (by rw [hrest]; rfl))
  have hminor := unmarshallOctet_ok host (hr₀.advance 5) ((hnext 5).trans (by rw [hrest]; rfl))
  have hflags := unmarshallOctet_ok host (hr₀.advance 6) ((hnext 6).trans (by rw [hrest]; rfl))
  have htype := unmarshallOctet_ok host (hr₀.advance 7) ((hnext 7).trans (by rw [hrest]; rfl))
  rw [advance_advance] at hmajor hminor hflags htype
  have hsize : unmarshallElementary host 4 (r₀.advance 8) = .ok size (r₀.advance 12) := by
    have h4 := pieceAt_sub (a := 8) (k := 4) h₀ (by omega) (by omega)
    have hd : ((giopHeader order minor fragmented t size).drop 8).take 4 =
        orderedOctets order 4 size := by
      show (orderedOctets order 4 size).take 4 = _
      rw [List.take_of_length_le (by simp)]
    rw [hd, ← ho₀] at h4
    rw [unmarshallUnsignedLong_ok host (hr₀.advance 8) (by simp [hp₀]) hs h4, advance_advance]
  rw [toNat_ofNat (by omega)] at hminor
  rw [toNat_ofNat (flagsOctet_lt ..)] at hflags
  have ht := t.pos_lt
  rw [toNat_ofNat (by omega)] at htype
  have hglobal : unmarshallGlobalGiopHeader host minor r = .ok () (r₀.advance 6) := by
    rw [unmarshallGlobalGiopHeader, Program.bind_ok hpeek, horder, Program.bind_ok hset,
      Program.bind_ok hmagic, Program.bind_raiseIf (by simp), Program.bind_ok hmajor,
      Program.bind_raiseIf (by decide), Program.bind_ok hminor, Program.bind_raiseIf (by omega),
      Program.raiseIf_false (by simp)]
  have horder' : (if flagsOctet order fragmented % 2 = 1 then Endianness.littleEndian else
      .bigEndian) = order := by
    cases order <;> cases fragmented <;> rfl
  have hfrag : decide (flagsOctet order fragmented / 2 % 2 = 1) = fragmented := by
    cases order <;> cases fragmented <;> rfl
  rw [Program.bind_ok hglobal, unmarshallGiopHeader, Program.bind_ok hflags]
  simp only [horder', hfrag]
  rw [Program.bind_get, Program.bind_raiseIf (by simpa [ho₀] using horder'), Program.bind_ok htype,
    Program.bind_evaluate t.val_pos, Program.bind_ok hsize, Program.pure_apply]
  congr 1
  rw [hr₀def]
  simp [advance, hp]

end PolyORB
