import PolyORB.Buffers.Copying

/-!
# Headers of MIOP packets

A packet carries a part of a collection: its number among the packets of the collection, their
total, and the unique id of the collection.  The header is followed by padding, up to a multiple of
eight.
-/

namespace PolyORB

namespace Miop

open Buffer
open Program (raiseIf)

def magic : List UInt8 := [77, 73, 79, 80]

def miopHeaderSize : Nat := 20

def flagsIndex : Nat := 5

def bitLittleEndian : UInt8 := 0
def bitCollectMode : UInt8 := 1

def unsignedShortModulus : Nat := 2 ^ 16

structure MiopHeader where
  endianness : Endianness
  collectMode : Bool
  packetSize : Nat
  packetNumber : Nat
  packetTotal : Nat
  uniqueId : List UInt8
  uniqueIdSize : Nat
  deriving DecidableEq

def MiopHeader.new (host : Endianness) : MiopHeader :=
  { endianness := host, collectMode := false, packetSize := 0, packetNumber := 0, packetTotal := 0
    uniqueId := [], uniqueIdSize := 0 }

/-! ## Flags -/

def mask (n : UInt8) : UInt8 := 1 <<< n

def isSet (n flags : UInt8) : Bool := mask n &&& flags == mask n

def setFlag (flags n : UInt8) (value : Bool) : UInt8 :=
  if value = true then (flags &&& ~~~mask n) ||| mask n else flags &&& ~~~mask n

def version : UInt8 := (0 &&& 15) ||| ((1 &&& 15) * 16)

/-- The flags are set in the octet of the version. -/
def flagsOctet (endianness : Endianness) (collectMode : Bool) : UInt8 :=
  setFlag (setFlag version bitLittleEndian (endianness == .littleEndian)) bitCollectMode collectMode

def orderOf (flags : UInt8) : Endianness :=
  if isSet bitLittleEndian flags = true then .littleEndian else .bigEndian

@[simp] theorem orderOf_flagsOctet (e : Endianness) (c : Bool) : orderOf (flagsOctet e c) = e := by
  cases e <;> cases c <;> rfl

@[simp] theorem isSet_flagsOctet (e : Endianness) (c : Bool) :
    isSet bitCollectMode (flagsOctet e c) = c := by
  cases e <;> cases c <;> rfl

/-! ## Marshalling -/

def marshallMiopHeader (host : Endianness) (header : MiopHeader) : BufferProg Unit := do
  marshallOctets host magic
  marshallElementary host 1 version.toNat
  marshallElementary host 1 (flagsOctet header.endianness header.collectMode).toNat
  let b ← get
  raiseIf (b.endianness ≠ header.endianness) .assertionError
  marshallElementary host 2 header.packetSize
  marshallElementary host 4 header.packetNumber
  marshallElementary host 4 header.packetTotal
  marshallLatin1String host header.uniqueId
  padAlign 8

def unmarshallMiopHeader (host : Endianness) (header : MiopHeader) : BufferProg MiopHeader := do
  let flags ← peek flagsIndex
  setEndianness (orderOf flags)
  let messageMagic ← unmarshallOctets host 4
  raiseIf (messageMagic ≠ magic) .miopPacketError
  let messageVersion ← unmarshallElementary host 1
  raiseIf (messageVersion ≠ version.toNat) .miopPacketError
  let flags ← unmarshallElementary host 1
  let endianness := orderOf (UInt8.ofNat flags)
  let b ← get
  raiseIf (endianness ≠ b.endianness) .assertionError
  let collectMode := isSet bitCollectMode (UInt8.ofNat flags)
  let packetSize ← unmarshallElementary host 2
  let packetNumber ← unmarshallElementary host 4
  let packetTotal ← unmarshallElementary host 4
  let uniqueIdSize ← unmarshallElementary host 4
  return { header with endianness, collectMode, packetSize, packetNumber, packetTotal, uniqueIdSize }

/-- The bounds of `Equiv` are checked before the length is. -/
def unmarshallUniqueId (host : Endianness) (length : Nat) : BufferProg (List UInt8) := do
  raiseIf (2 ^ 31 ≤ subUnsignedLong length 1) .constraintError
  if length = 0 then return []
  else
    let equiv ← unmarshallOctets host (length - 1)
    let nul ← unmarshallElementary host 1
    raiseIf (nul ≠ 0) .constraintError
    return equiv

/-! ## Unique ids -/

/-- `Natural'Image`, which starts with a blank. -/
def image (n : Nat) : List UInt8 := 32 :: (Nat.toDigits 10 n).map fun c => UInt8.ofNat c.toNat

/-- "PolyORB", and the value of the counter. -/
def uniqueIdOf (index : Nat) : List UInt8 := [80, 111, 108, 121, 79, 82, 66] ++ image index

/-! ## The octets of a header -/

/-- The part that has the same length in all headers. -/
def fixedOctets (header : MiopHeader) : List UInt8 :=
  magic ++ [version, flagsOctet header.endianness header.collectMode] ++
    orderedOctets header.endianness 2 header.packetSize ++
    orderedOctets header.endianness 4 header.packetNumber ++
    orderedOctets header.endianness 4 header.packetTotal ++
    orderedOctets header.endianness 4 (header.uniqueId.length + 1)

def idOctets (uniqueId : List UInt8) : List UInt8 :=
  uniqueId ++ [0] ++
    List.replicate (Octets.padding (miopHeaderSize + (uniqueId.length + 1)) 8) 0

/-- Length of the header of a packet, padding included. -/
def headerSize (uniqueId : List UInt8) : Nat := miopHeaderSize + (idOctets uniqueId).length

@[simp] theorem length_fixedOctets (header : MiopHeader) :
    (fixedOctets header).length = miopHeaderSize := by
  simp [fixedOctets, magic, miopHeaderSize]

theorem length_idOctets (uniqueId : List UInt8) : (idOctets uniqueId).length =
    uniqueId.length + 1 + Octets.padding (miopHeaderSize + (uniqueId.length + 1)) 8 := by
  simp only [idOctets, List.length_append, List.length_replicate, List.length_singleton]

theorem headerSize_mod (uniqueId : List UInt8) : headerSize uniqueId % 8 = 0 := by
  rw [headerSize, length_idOctets, ← Nat.add_assoc]
  exact Octets.add_padding_mod (by decide) _

theorem headerSize_bounds (uniqueId : List UInt8) :
    miopHeaderSize + (uniqueId.length + 1) ≤ headerSize uniqueId ∧
      headerSize uniqueId < miopHeaderSize + (uniqueId.length + 1) + 8 := by
  have hlt := Octets.padding_lt (show 0 < 8 by decide) (miopHeaderSize + (uniqueId.length + 1))
  rw [headerSize, length_idOctets]
  omega

/-! ## What is marshalled -/

theorem marshallLatin1String_appended (host : Endianness) {b : Buffer} (hb : b.AtEnd)
    (ha : b.cdrPosition % 4 = 0) (data : List UInt8) :
    ∃ b', marshallLatin1String host data b = .ok () b' ∧
      Appended b (orderedOctets b.endianness 4 ((data.length + 1) % unsignedLongModulus) ++ data ++ [0])
        b' := by
  obtain ⟨b₁, h₁, a₁⟩ := marshallElementary_appended host hb (by decide : 0 < 4) ha
    ((data.length + 1) % unsignedLongModulus)
  obtain ⟨b₂, h₂, a₂⟩ := allocateAndInsertCookedData_appended a₁.written.atEnd data
  obtain ⟨b₃, h₃, a₃⟩ := marshallOctet_appended host a₂.written.atEnd 0
  have hpad : padAlign 1 b₁ = .ok () b₁ := by
    rw [padAlign, Program.bind_get, Octets.padding_one]
    rfl
  have hcopy : alignMarshallCopy data 1 b₁ = .ok () b₂ := by
    rw [alignMarshallCopy, Program.bind_ok hpad, h₂]
  refine ⟨b₃, ?_, (a₁.trans a₂).trans a₃⟩
  rw [marshallLatin1String, Program.bind_ok h₁, Program.bind_ok hcopy]
  exact h₃

theorem padAlign_appended {b : Buffer} (hb : b.AtEnd) (alignment : Nat) :
    ∃ b', padAlign alignment b = .ok () b' ∧
      Appended b (List.replicate (Octets.padding b.cdrPosition alignment) 0) b' := by
  generalize hp : Octets.padding b.cdrPosition alignment = p
  by_cases hz : p = 0
  · refine ⟨b, ?_, ?_⟩
    · rw [padAlign, Program.bind_get, hp, hz]
      rfl
    · rw [hz]
      exact .refl hb
  · have hf := flatten_growOrAppend b.contents (List.replicate p 0) 0
    have hw := written_insert hb hf (covers_growOrAppend ..)
    rw [List.length_replicate] at hw
    refine ⟨_, ?_, ⟨hw, hf⟩⟩
    rw [padAlign, Program.bind_get, hp]
    rw [if_neg hz, Program.bind_ok (Program.set_apply ..), alignPosition, Program.bind_get]
    dsimp only
    rw [hp, if_pos (by rw [hb.position_eq]; omega)]
    rfl

theorem marshallMiopHeader_appended (host : Endianness) (header : MiopHeader)
    (he : header.endianness = host) (hid : header.uniqueId.length + 1 < unsignedLongModulus) :
    ∃ b, marshallMiopHeader host header (Buffer.new host) = .ok () b ∧
      Appended (Buffer.new host) (fixedOctets header ++ idOctets header.uniqueId) b := by
  have hb : (Buffer.new host).AtEnd := ⟨rfl, rfl⟩
  obtain ⟨b₁, h₁, a₁⟩ := marshallOctets_appended host magic hb
  obtain ⟨b₂, h₂, a₂⟩ := marshallOctet_appended host a₁.written.atEnd version
  obtain ⟨b₃, h₃, a₃⟩ := marshallOctet_appended host a₂.written.atEnd
    (flagsOctet header.endianness header.collectMode)
  have a := (a₁.trans a₂).trans a₃
  have hpos : b₃.cdrPosition = 6 := a.position_eq hb
  have horder : b₃.endianness = header.endianness := by rw [a.written.endianness_eq, he]; rfl
  obtain ⟨b₄, h₄, a₄⟩ := marshallElementary_appended host a₃.written.atEnd (by decide : 0 < 2)
    (by rw [hpos]) header.packetSize
  have hpos₄ : b₄.cdrPosition = 8 := by
    rw [a₄.position_eq a₃.written.atEnd, hpos, length_orderedOctets]
  obtain ⟨b₅, h₅, a₅⟩ := marshallElementary_appended host a₄.written.atEnd (by decide : 0 < 4)
    (by rw [hpos₄]) header.packetNumber
  have hpos₅ : b₅.cdrPosition = 12 := by
    rw [a₅.position_eq a₄.written.atEnd, hpos₄, length_orderedOctets]
  obtain ⟨b₆, h₆, a₆⟩ := marshallElementary_appended host a₅.written.atEnd (by decide : 0 < 4)
    (by rw [hpos₅]) header.packetTotal
  have hpos₆ : b₆.cdrPosition = 16 := by
    rw [a₆.position_eq a₅.written.atEnd, hpos₅, length_orderedOctets]
  obtain ⟨b₇, h₇, a₇⟩ := marshallLatin1String_appended host a₆.written.atEnd (by rw [hpos₆])
    header.uniqueId
  have hpos₇ : b₇.cdrPosition = miopHeaderSize + (header.uniqueId.length + 1) := by
    rw [a₇.position_eq a₆.written.atEnd, hpos₆, List.length_append, List.length_append,
      length_orderedOctets, List.length_singleton]
    unfold miopHeaderSize
    omega
  obtain ⟨b₈, h₈, a₈⟩ := padAlign_appended a₇.written.atEnd 8
  refine ⟨b₈, ?_, ?_⟩
  · rw [marshallMiopHeader, Program.bind_ok h₁, Program.bind_ok h₂, Program.bind_ok h₃,
      Program.bind_get, Program.bind_raiseIf (not_not.mpr horder), Program.bind_ok h₄,
      Program.bind_ok h₅, Program.bind_ok h₆, Program.bind_ok h₇, h₈]
  · have ha := a.trans ((((a₄.trans a₅).trans a₆).trans a₇).trans a₈)
    rw [hpos₇, a₆.written.endianness_eq, a₅.written.endianness_eq, a₄.written.endianness_eq, horder,
      Nat.mod_eq_of_lt hid] at ha
    simp only [fixedOctets, idOctets, List.append_assoc, List.cons_append, List.nil_append] at ha ⊢
    exact ha

/-! ## What is unmarshalled -/

theorem unmarshallAligned_ok (host : Endianness) {r : Buffer} (hr : r.Readable) {size v : Nat}
    (hsize : 0 < size) (ha : r.cdrPosition % size = 0) (hv : v < 256 ^ size)
    (hz : r.pieceAt r.cdrPosition size = some (orderedOctets r.endianness size v)) :
    unmarshallElementary host size r = .ok v (r.advance size) := by
  have hpad := Octets.padding_eq_zero ha
  have hle : r.cdrPosition + size ≤ r.initialCdrPosition + r.length := by
    have hl := hr.length_eq
    unfold pieceAt at hz
    split_ifs at hz
    obtain ⟨hp, -⟩ := Chunks.piece_eq hz
    rw [octets] at hl
    omega
  rw [unmarshallElementary_ok host hsize (by omega) (by rw [hpad]; exact hz),
    fromOrderedOctets_orderedOctets hv, hpad, Nat.add_zero]
  rfl

/-- What the fields of a header may hold. -/
structure MiopHeader.InRange (header : MiopHeader) : Prop where
  packetSize : header.packetSize < unsignedShortModulus
  packetNumber : header.packetNumber < unsignedLongModulus
  packetTotal : header.packetTotal < unsignedLongModulus
  uniqueId : header.uniqueId.length + 1 < unsignedLongModulus

theorem unmarshallMiopHeader_ok (host : Endianness) {header : MiopHeader} (hrange : header.InRange)
    (old : MiopHeader) {r : Buffer} (hr : r.Readable) (hi : r.initialCdrPosition = 0)
    (hp : r.cdrPosition = 0) (h : r.pieceAt 0 miopHeaderSize = some (fixedOctets header)) :
    unmarshallMiopHeader host old r =
      .ok { header with uniqueId := old.uniqueId, uniqueIdSize := header.uniqueId.length + 1 }
        { r with endianness := header.endianness, cdrPosition := miopHeaderSize } := by
  obtain ⟨r₀, hr₀def⟩ : ∃ r₀ : Buffer, r₀ = { r with endianness := header.endianness } := ⟨_, rfl⟩
  have hp₀ : r₀.cdrPosition = 0 := by rw [hr₀def]; exact hp
  have hr₀ : r₀.Readable := by rw [hr₀def]; exact ⟨hr.length_eq, hr.initial_le⟩
  have ho₀ : r₀.endianness = header.endianness := by rw [hr₀def]
  have h₀ : r₀.pieceAt r₀.cdrPosition miopHeaderSize = some (fixedOctets header) := by
    rw [hp₀, ← h, hr₀def]
    rfl
  obtain ⟨ys, hrest⟩ := rest_of_pieceAt h₀
  -- the flags are looked at before anything is read
  have hpeek : peek flagsIndex r = .ok (flagsOctet header.endianness header.collectMode) r := by
    have hoct : r.octets = r₀.rest := by
      rw [hr₀def]
      show r.octets = r.octets.drop (r.cdrPosition - r.initialCdrPosition)
      rw [hp, hi]
      rfl
    rw [peek, Program.bind_get, hi, Nat.sub_zero, hoct, hrest]
    rfl
  have hset : setEndianness header.endianness r = .ok () r₀ := by
    rw [setEndianness, Program.bind_get, if_pos (by rw [hp, hi]), hr₀def]
    rfl
  -- the octets are read one by one
  have hmagic : unmarshallOctets host 4 r₀ = .ok magic (r₀.advance 4) :=
    unmarshallOctets_ok host magic hr₀ hrest
  have hnext : ∀ n, (r₀.advance n).rest = r₀.rest.drop n := rest_advance hr₀
  have hversion := unmarshallOctet_ok host (hr₀.advance 4) ((hnext 4).trans (by rw [hrest]; rfl))
  have hflags := unmarshallOctet_ok host (hr₀.advance 5) ((hnext 5).trans (by rw [hrest]; rfl))
  rw [advance_advance] at hversion hflags
  -- each of the other fields lies in one piece
  have hfield : ∀ (start size : Nat) {v : Nat}, 0 < size → start % size = 0 → start + size ≤ miopHeaderSize →
      v < 256 ^ size →
      ((fixedOctets header).drop start).take size = orderedOctets header.endianness size v →
      unmarshallElementary host size (r₀.advance start) = .ok v (r₀.advance (start + size)) := by
    intro start size v hsize ha hle hv hd
    have hpiece := pieceAt_sub (a := start) (k := size) h₀ hsize hle
    rw [hd, ← ho₀] at hpiece
    have ha' : (r₀.advance start).cdrPosition % size = 0 := by
      rw [advance_position, hp₀, Nat.zero_add, ha]
    rw [unmarshallAligned_ok host (hr₀.advance start) hsize ha' hv hpiece, advance_advance]
  have htake : ∀ (n v : Nat) (zs : List UInt8), (orderedOctets header.endianness n v ++ zs).take n =
      orderedOctets header.endianness n v := by
    intro n v zs
    rw [List.take_append_of_le_length (by simp), List.take_of_length_le (by simp)]
  have h6 : (fixedOctets header).drop 6 = orderedOctets header.endianness 2 header.packetSize ++
      (orderedOctets header.endianness 4 header.packetNumber ++
        (orderedOctets header.endianness 4 header.packetTotal ++
          orderedOctets header.endianness 4 (header.uniqueId.length + 1))) := by
    simp only [fixedOctets, List.append_assoc]
    rfl
  have h8 : (fixedOctets header).drop 8 = orderedOctets header.endianness 4 header.packetNumber ++
      (orderedOctets header.endianness 4 header.packetTotal ++
        orderedOctets header.endianness 4 (header.uniqueId.length + 1)) := by
    rw [show (8 : Nat) = 6 + 2 from rfl, ← List.drop_drop, h6, List.drop_left' (by simp)]
  have h12 : (fixedOctets header).drop 12 = orderedOctets header.endianness 4 header.packetTotal ++
      orderedOctets header.endianness 4 (header.uniqueId.length + 1) := by
    rw [show (12 : Nat) = 8 + 4 from rfl, ← List.drop_drop, h8, List.drop_left' (by simp)]
  have h16 : (fixedOctets header).drop 16 =
      orderedOctets header.endianness 4 (header.uniqueId.length + 1) ++ [] := by
    rw [show (16 : Nat) = 12 + 4 from rfl, ← List.drop_drop, h12, List.drop_left' (by simp),
      List.append_nil]
  have hsize := hfield 6 2 (by decide) (by decide) (by decide) hrange.packetSize
    (by rw [h6, htake])
  have hnumber := hfield 8 4 (by decide) (by decide) (by decide)
    hrange.packetNumber (by rw [h8, htake])
  have htotal := hfield 12 4 (by decide) (by decide) (by decide)
    hrange.packetTotal (by rw [h12, htake])
  have hidSize := hfield 16 4 (by decide) (by decide) (by decide)
    hrange.uniqueId (by rw [h16, htake])
  rw [unmarshallMiopHeader, Program.bind_ok hpeek, orderOf_flagsOctet, Program.bind_ok hset,
    Program.bind_ok hmagic, Program.bind_raiseIf (not_not.mpr rfl), Program.bind_ok hversion,
    Program.bind_raiseIf (not_not.mpr rfl), Program.bind_ok hflags, UInt8.ofNat_toNat,
    orderOf_flagsOctet, Program.bind_get, Program.bind_raiseIf (by simp [ho₀]), isSet_flagsOctet,
    Program.bind_ok hsize, Program.bind_ok hnumber, Program.bind_ok htotal, Program.bind_ok hidSize,
    Program.pure_apply]
  congr 1
  rw [hr₀def]
  simp only [advance, hp, Nat.zero_add]
  rfl

theorem unmarshallUniqueId_ok (host : Endianness) {uniqueId ys : List UInt8} {r : Buffer}
    (hid : uniqueId.length < 2 ^ 31) (hr : r.Readable) (h : r.rest = uniqueId ++ 0 :: ys) :
    unmarshallUniqueId host (uniqueId.length + 1) r =
      .ok uniqueId (r.advance (uniqueId.length + 1)) := by
  have hsub : subUnsignedLong (uniqueId.length + 1) 1 = uniqueId.length := by
    have hlt : uniqueId.length + 1 < unsignedLongModulus := by unfold unsignedLongModulus; omega
    rw [subUnsignedLong_of_le (by omega) hlt, Nat.add_sub_cancel]
  have hequiv := unmarshallOctets_ok host uniqueId hr h
  have hnul := unmarshallOctet_ok host (hr.advance uniqueId.length)
    ((rest_advance hr _).trans (by rw [h, List.drop_left]))
  rw [unmarshallUniqueId, hsub, Program.bind_raiseIf (by omega), if_neg (by omega),
    Nat.add_sub_cancel, Program.bind_ok hequiv, Program.bind_ok hnul,
    Program.bind_raiseIf (by decide)]
  rfl

end Miop

end PolyORB
