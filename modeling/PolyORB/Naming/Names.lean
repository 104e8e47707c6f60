import PolyORB.Types
import PolyORB.Lib.Escapes

/-!
# Stringified names

CosNaming.NamingContextExt.To_String writes a name; Parse_Name, in PolyORB.CORBA_P.Naming_Tools and
in PolyORB.Services.Naming.Tools, reads one.
-/

namespace PolyORB

/-- A string of 8-bit characters. -/
abbrev Text := List UInt8

structure NameComponent where
  id : Text
  kind : Text
  deriving DecidableEq

abbrev Name := List NameComponent

namespace Character

def slash : UInt8 := 47
def period : UInt8 := 46
def backslash : UInt8 := 92
def percent : UInt8 := 37
def semicolon : UInt8 := 59

end Character

open Character

/-! ## URI_Encode -/

def hex (n : UInt8) : UInt8 := if n < 10 then 48 + n else 87 + n

-- The control characters and ; ? : @ & = + $ , < > # % " { } | \ ^ [ ] `
def defaultEscapeMap (c : UInt8) : Bool :=
  c ≤ 31 || [59, 63, 58, 64, 38, 61, 43, 36, 44, 60, 62, 35, 37, 34, 123, 125, 124, 92, 94, 91, 93,
    96].contains c

def needEscape (alsoEscape : Text) (c : UInt8) : Bool := defaultEscapeMap c || alsoEscape.contains c

def uriEncode (alsoEscape s : Text) : Text :=
  s.flatMap fun c => if needEscape alsoEscape c = true then [percent, hex (c / 16), hex (c % 16)] else [c]

/-! ## To_String -/

def NameComponent.toText (c : NameComponent) : Text :=
  if c.kind = [] then
    if c.id = [] then [period] else c.id
  else uriEncode [slash] c.id ++ [period] ++ c.kind

def Name.toText : Name → Text
  | [] => []
  | [c] => c.toText
  | c :: cs => c.toText ++ [slash] ++ Name.toText cs

/-! ## Parse_Name -/

/-- The variables of the loop.  `unescaped` is the part of the array up to `Last`, and positions in
it start at 1. -/
structure ParseState where
  result : Name
  unescaped : Text
  first : Nat
  lastUnescapedPeriod : Nat
  seenBackslash : Bool

namespace ParseState

def start : ParseState :=
  { result := [], unescaped := [], first := 1, lastUnescapedPeriod := 0, seenBackslash := false }

def last (s : ParseState) : Nat := s.unescaped.length

/-- `Unescaped (lo .. hi)`. -/
def slice (s : ParseState) (lo hi : Nat) : Text := (s.unescaped.take hi).drop (lo - 1)

/-- The end of a name component. -/
def endOfNc (s : ParseState) : ParseState :=
  let p := if s.lastUnescapedPeriod < s.first then s.last + 1 else s.lastUnescapedPeriod
  { s with
    result := s.result ++ [⟨s.slice s.first (p - 1), s.slice (p + 1) s.last⟩]
    lastUnescapedPeriod := s.last
    first := s.last + 1 }

/-- A character that is part of the name. -/
def addCharacter (s : ParseState) (c : UInt8) : ParseState :=
  { s with unescaped := s.unescaped ++ [c] }

def notePeriod (s : ParseState) (c : UInt8) : ParseState :=
  if s.seenBackslash = false ∧ c = period then { s with lastUnescapedPeriod := s.last } else s

/-- The end of the round, which may be that of a name component. -/
def endRound (s : ParseState) (endOfNc : Bool) (c : UInt8) : ParseState :=
  let s' := if endOfNc = true then s.endOfNc else s
  { s' with seenBackslash := c == backslash && !s.seenBackslash }

/-- One round of the loop; `atEnd` tells the last character of the string. -/
def step (sep : UInt8) (s : ParseState) (c : UInt8) (atEnd : Bool) : ParseState :=
  if s.seenBackslash = false ∧ c = backslash then { s with seenBackslash := true }
  else if s.seenBackslash = false ∧ c = sep then (s.notePeriod c).endRound true c
  else ((s.addCharacter c).notePeriod c).endRound atEnd c

def loop (sep : UInt8) : Text → ParseState → ParseState
  | [], s => s
  | c :: cs, s => loop sep cs (s.step sep c cs.isEmpty)

end ParseState

/-- `Parse_Name` of PolyORB.Services.Naming.Tools. -/
def parseServiceName (sep : UInt8) (name : Text) : Name := (ParseState.loop sep name .start).result

/-- `Parse_Name` of PolyORB.CORBA_P.Naming_Tools, which ignores leading separators. -/
def parseName (sep : UInt8) (name : Text) : Name :=
  (ParseState.loop sep (name.dropWhile (· == sep)) .start).result

def toName (sn : Text) : Name := parseName slash sn

end PolyORB
