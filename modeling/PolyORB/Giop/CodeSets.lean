import PolyORB.Cdr.Transfer

/-!
# Character data converters

PolyORB.GIOP_P.Code_Sets.Converters: each converter marshalls text of a native code set in a
transmission code set, ISO 8859-1 or UTF-8 for characters, UCS-2 or UTF-16 for wide characters.
-/

namespace PolyORB

open Buffer
open Program (onlyIf raiseIf)

inductive CharConverter where
  | iso88591Native
  | iso88591Utf8
  deriving DecidableEq

inductive WideCodeSet where
  | ucs2Native
  | ucs2Utf16
  deriving DecidableEq

/-- A wide character converter, with the mode that `Set_GIOP_1_2_Mode` sets. -/
structure WideConverter where
  codeSet : WideCodeSet
  giop12Mode : Bool
  deriving DecidableEq

def bom : UInt16 := 0xFEFF
def reverseBom : UInt16 := 0xFFFE

/-- The subtypes `Surrogate_Character` and `Invalid_Character`. -/
def unconvertible (c : UInt16) : Bool := (0xD800 ≤ c && c ≤ 0xDFFF) || 0xFFFE ≤ c

def dataConversionError : SysError := ⟨.dataConversionE, 1, .completedNo⟩

/-- No Ada string is longer than `Integer'Last`. -/
def checkIndex (n : Nat) : BufferProg Unit := raiseIf (2 ^ 31 ≤ n) .constraintError

/-- `Unaligned_Unsigned_Short`, for items of any size. -/
def marshallUnaligned (host : Endianness) (size v : Nat) : BufferProg Unit := do
  let b ← get
  let item := orderedOctets host size v
  allocateAndInsertCookedData (if 1 < size ∧ b.endianness ≠ host then item.reverse else item)

def unmarshallUnaligned (host : Endianness) (size : Nat) : BufferProg Nat := do
  let z ← extractData size
  let b ← get
  return fromOrderedOctets host (if 1 < size ∧ b.endianness ≠ host then z.reverse else z)

/-! ## ISO 8859-1 to UTF-8 -/

def marshallUtf8Char (host : Endianness) (c : UInt8) : CdrProg Unit :=
  if c < 0x80 then onBuffer (marshallElementary host 1 c.toNat) else throwSysError dataConversionError

/-- The octets of a character of a string, as the loop marshalls them. -/
def utf8Octets (c : UInt8) : List UInt8 :=
  if c < 0x80 then [c] else [(c &&& 0x3F) ||| 0x80, (c / 64) ||| 0xC0]

def marshallUtf8Characters (host : Endianness) : List UInt8 → BufferProg Nat
  | [] => return 0
  | c :: cs => do
    if c < 0x80 then
      marshallElementary host 1 c.toNat
      return 1 + (← marshallUtf8Characters host cs)
    else
      marshallElementary host 1 ((c &&& 0x3F) ||| 0x80).toNat
      marshallElementary host 1 ((c / 64) ||| 0xC0).toNat
      return 2 + (← marshallUtf8Characters host cs)

def marshallUtf8String (host : Endianness) (assertions : Bool) (data : List UInt8) :
    BufferProg Unit := do
  padAlign 4
  let reserv ← reserve 4
  checkIndex (data.length + 1)
  let length ← marshallUtf8Characters host (data ++ [0])
  match marshallElementary host 4 (length % unsignedLongModulus) (Buffer.new host) with
  | .ok _ buf => copyData assertions buf reserv
  | .error e _ => throw e

def unmarshallUtf8Char (host : Endianness) : CdrProg UInt8 := do
  let c := UInt8.ofNat (← onBuffer (unmarshallElementary host 1))
  onlyIf (0x80 ≤ c) (throwSysError dataConversionError)
  return c

/-- The loop of `Unmarshall`, while `Length` octets are left. -/
def unmarshallUtf8Characters (host : Endianness) : Nat → BufferProg (List UInt8)
  | 0 => return []
  | length + 1 => do
    let c := UInt8.ofNat (← unmarshallElementary host 1)
    if c < 0x80 then return c :: (← unmarshallUtf8Characters host length)
    else
      match length with
      | 0 => throw .programError
      | length' + 1 => do
        let aux := UInt8.ofNat (← unmarshallElementary host 1)
        return ((c &&& 0x1F) * 64 + (aux &&& 0x3F)) :: (← unmarshallUtf8Characters host length')

def unmarshallUtf8String (host : Endianness) : BufferProg (List UInt8) := do
  let length ← unmarshallElementary host 4
  checkIndex length
  return (← unmarshallUtf8Characters host length).dropLast

/-! ## UCS-2 -/

def marshallUcs2Wchar (host : Endianness) (giop12Mode : Bool) (c : UInt16) : BufferProg Unit := do
  if giop12Mode = true then
    marshallElementary host 1 2
    marshallUnaligned host 2 c.toNat
  else marshallElementary host 2 c.toNat

def marshallWideCharacters (host : Endianness) : List UInt16 → BufferProg Unit
  | [] => return ()
  | c :: cs => do
    marshallElementary host 2 c.toNat
    marshallWideCharacters host cs

def marshallUcs2WideString (host : Endianness) (giop12Mode : Bool) (data : List UInt16) :
    BufferProg Unit := do
  checkIndex data.length
  marshallElementary host 4 (if giop12Mode = true then data.length * 2 else data.length + 1)
  marshallWideCharacters host data
  onlyIf (giop12Mode = false) (marshallElementary host 2 0)

def unmarshallUcs2Wchar (host : Endianness) (giop12Mode : Bool) : BufferProg UInt16 := do
  if giop12Mode = true then
    let length ← unmarshallElementary host 1
    raiseIf (length ≠ 2) .programError
    return UInt16.ofNat (← unmarshallUnaligned host 2)
  else return UInt16.ofNat (← unmarshallElementary host 2)

def unmarshallWideCharacters (host : Endianness) : Nat → BufferProg (List UInt16)
  | 0 => return []
  | n + 1 => do
    let c ← unmarshallElementary host 2
    return UInt16.ofNat c :: (← unmarshallWideCharacters host n)

/-- The characters of `Result` up to `Last`, less the terminating one in GIOP 1.1 mode. -/
def resultUpTo (giop12Mode : Bool) (result : List UInt16) (last : Nat) : BufferProg (List UInt16) := do
  if giop12Mode = true then return result.take last
  else
    raiseIf (last = 0) .constraintError
    return result.take (last - 1)

def unmarshallUcs2WideString (host : Endianness) (giop12Mode : Bool) : BufferProg (List UInt16) := do
  let length ← unmarshallElementary host 4
  checkIndex length
  raiseIf (giop12Mode = true ∧ length % 2 ≠ 0) .programError
  let last := if giop12Mode = true then length / 2 else length
  let result ← unmarshallWideCharacters host last
  resultUpTo giop12Mode result last

/-! ## UCS-2 to UTF-16 -/

def marshallUtf16Wchar (host : Endianness) (giop12Mode : Bool) (c : UInt16) : CdrProg Unit := do
  if unconvertible c = true then throwSysError dataConversionError
  else if giop12Mode = true then
    onBuffer (marshallElementary host 1 4)
    onBuffer (marshallUnaligned host 2 bom.toNat)
    onBuffer (marshallUnaligned host 2 c.toNat)
  else onBuffer (marshallElementary host 2 c.toNat)

/-- The loop of `Marshall`, which stops at a character that cannot be converted. -/
def marshallUtf16Characters (host : Endianness) : List UInt16 → CdrProg Bool
  | [] => return true
  | c :: cs => do
    if unconvertible c = true then
      throwSysError dataConversionError
      return false
    else
      onBuffer (marshallElementary host 2 c.toNat)
      marshallUtf16Characters host cs

def marshallUtf16WideString (host : Endianness) (giop12Mode : Bool) (data : List UInt16) :
    CdrProg Unit := do
  onBuffer (checkIndex data.length)
  onBuffer (marshallElementary host 4
    (if giop12Mode = true then (data.length + 1) * 2 else data.length + 2))
  onBuffer (marshallElementary host 2 bom.toNat)
  let converted ← marshallUtf16Characters host data
  onlyIf (converted = true ∧ giop12Mode = false) (onBuffer (marshallElementary host 2 0))

def unmarshallUtf16Wchar (host : Endianness) (giop12Mode : Bool) : CdrProg UInt16 := do
  let c ← onBuffer (do
    if giop12Mode = true then
      let length ← unmarshallElementary host 1
      let code := UInt16.ofNat (← unmarshallUnaligned host 2)
      if length = 2 then return code
      else if length = 4 ∧ code = bom then return UInt16.ofNat (← unmarshallUnaligned host 2)
      else throw .programError
    else
      let code := UInt16.ofNat (← unmarshallElementary host 2)
      if code = reverseBom then throw .programError
      else if code = bom then return UInt16.ofNat (← unmarshallElementary host 2)
      else return code)
  onlyIf (unconvertible c = true) (throwSysError dataConversionError)
  return c

def unmarshallUtf16Characters (host : Endianness) : Nat → CdrProg (List UInt16)
  | 0 => return []
  | n + 1 => do
    let c := UInt16.ofNat (← onBuffer (unmarshallElementary host 2))
    onlyIf (unconvertible c = true) (throwSysError dataConversionError)
    return c :: (← unmarshallUtf16Characters host n)

def unmarshallUtf16WideString (host : Endianness) (giop12Mode : Bool) : CdrProg (List UInt16) := do
  let length ← onBuffer (unmarshallElementary host 4)
  onBuffer (checkIndex length)
  if giop12Mode = true ∧ length % 2 = 1 then throw .programError
  else if giop12Mode = true ∧ length = 0 then return []
  else
    let last := if giop12Mode = true then length / 2 else length
    let code := UInt16.ofNat (← onBuffer (unmarshallElementary host 2))
    if code = reverseBom then throw .programError
    else if code = bom then
      raiseIf (last = 0) .constraintError
      let result ← unmarshallUtf16Characters host (last - 1)
      onBuffer (resultUpTo giop12Mode result (last - 1))
    else
      raiseIf (length = 0) .constraintError
      let result ← unmarshallUtf16Characters host (last - 1)
      onBuffer (resultUpTo giop12Mode (code :: result) last)

/-! ## Any text with its converter -/

inductive Datum where
  | char (c : UInt8)
  | string (s : List UInt8)
  | wchar (c : UInt16)
  | wideString (s : List UInt16)
  deriving DecidableEq

/-- A datum and the converter that both ends use for it. -/
inductive CodedDatum where
  | char (k : CharConverter) (c : UInt8)
  | string (k : CharConverter) (s : List UInt8)
  | wchar (k : WideConverter) (c : UInt16)
  | wideString (k : WideConverter) (s : List UInt16)
  deriving DecidableEq

namespace CodedDatum

def datum : CodedDatum → Datum
  | char _ c => .char c
  | string _ s => .string s
  | wchar _ c => .wchar c
  | wideString _ s => .wideString s

variable (host : Endianness)

def marshall (assertions : Bool) : CodedDatum → CdrProg Unit
  | char .iso88591Native c => onBuffer (marshallElementary host 1 c.toNat)
  | char .iso88591Utf8 c => marshallUtf8Char host c
  | string .iso88591Native s =>
    onBuffer (do
      checkIndex s.length
      marshallLatin1String host s)
  | string .iso88591Utf8 s => onBuffer (marshallUtf8String host assertions s)
  | wchar ⟨.ucs2Native, m⟩ c => onBuffer (marshallUcs2Wchar host m c)
  | wchar ⟨.ucs2Utf16, m⟩ c => marshallUtf16Wchar host m c
  | wideString ⟨.ucs2Native, m⟩ s => onBuffer (marshallUcs2WideString host m s)
  | wideString ⟨.ucs2Utf16, m⟩ s => marshallUtf16WideString host m s

def unmarshall : CodedDatum → CdrProg Datum
  | char .iso88591Native _ =>
    return .char (UInt8.ofNat (← onBuffer (unmarshallElementary host 1)))
  | char .iso88591Utf8 _ => return .char (← unmarshallUtf8Char host)
  | string .iso88591Native _ => return .string (← onBuffer (unmarshallLatin1String host))
  | string .iso88591Utf8 _ => return .string (← onBuffer (unmarshallUtf8String host))
  | wchar ⟨.ucs2Native, m⟩ _ => return .wchar (← onBuffer (unmarshallUcs2Wchar host m))
  | wchar ⟨.ucs2Utf16, m⟩ _ => return .wchar (← unmarshallUtf16Wchar host m)
  | wideString ⟨.ucs2Native, m⟩ _ => return .wideString (← onBuffer (unmarshallUcs2WideString host m))
  | wideString ⟨.ucs2Utf16, m⟩ _ => return .wideString (← unmarshallUtf16WideString host m)

end CodedDatum

end PolyORB
