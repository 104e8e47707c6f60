import PolyORB.Poa.ObjectIds

/-!
# Relative URIs of objects

`Oid_To_Rel_URI` and `Rel_URI_To_Oid` of PolyORB.POA, with the conversions of PolyORB.Utils that
they use.  Positions in a `String` start at 1.  A character or a slice that is read where the string
has none is the failure `outside`, apart from the exceptions that the code raises itself.
-/

namespace PolyORB

open Character

inductive Fault where
  | outside
  | raised (e : Exn)
  deriving DecidableEq

/-! ## PolyORB.Utils -/

def charAt (s : Text) : Nat → Except Fault UInt8
  | 0 => .error .outside
  | i + 1 =>
    match s[i]? with
    | some c => .ok c
    | none => .error .outside

def slice (s : Text) (lo hi : Nat) : Except Fault Text :=
  if hi < lo then .ok []
  else if lo = 0 ∨ s.length < hi then .error .outside
  else .ok ((s.take hi).drop (lo - 1))

/-- `A + B` for the positions of a string. -/
def addInteger (a b : Nat) : Except Fault Nat :=
  if integerLast < a + b then .error (.raised .constraintError) else .ok (a + b)

/-- `Find (S, Start, What)`: the position after the string when there is none. -/
def findForward (s : Text) (what : UInt8) (i : Nat) : Nat :=
  if 0 < i ∧ i ≤ s.length then
    if s[i - 1]? = some what then i else findForward s what (i + 1)
  else i
termination_by s.length + 1 - i

def hexValue (c : UInt8) : Except Fault Nat :=
  if 48 ≤ c.toNat ∧ c.toNat ≤ 57 then .ok (c.toNat - 48)
  else if 65 ≤ c.toNat ∧ c.toNat ≤ 70 then .ok (c.toNat - 55)
  else if 97 ≤ c.toNat ∧ c.toNat ≤ 102 then .ok (c.toNat - 87)
  else .error (.raised .constraintError)

def seaToHexString (a : List UInt8) : Text := a.flatMap fun b => [hex (b / 16), hex (b % 16)]

/-- Two digits of `S`, from the given position. -/
def hexPairAt (s : Text) (i : Nat) : Except Fault UInt8 := do
  let c ← charAt s i
  let hi ← hexValue c
  let d ← charAt s (i + 1)
  let lo ← hexValue d
  return UInt8.ofNat (hi * 16 + lo)

/-- The loop of `Hex_String_To_SEA`, for the last `n` octets. -/
def hexLoop (s : Text) : Nat → Nat → Except Fault (List UInt8)
  | 0, _ => .ok []
  | n + 1, i => do
    let a ← hexPairAt s i
    let rest ← hexLoop s n (i + 2)
    return a :: rest

def hexStringToSea (s : Text) : Except Fault (List UInt8) := hexLoop s (s.length / 2) 1

/-- `URI_Encode`, whose result is built in a `String (1 .. 3 * S'Length)`. -/
def uriEncodeString (s : Text) : Except Fault Text :=
  if integerLast < 3 * s.length then .error (.raised .constraintError)
  else .ok (uriEncode [slash] s)

def uriDecodeFrom (s : Text) (si : Nat) : Except Fault Text :=
  if si ≤ s.length then do
    let c ← charAt s si
    if c = percent then
      if s.length < si + 2 then .error (.raised .constraintError)
      else
        let d ← hexPairAt s (si + 1)
        let rest ← uriDecodeFrom s (si + 3)
        return d :: rest
    else
      let rest ← uriDecodeFrom s (si + 1)
      return c :: rest
  else .ok []
termination_by s.length + 1 - si

def uriDecode (s : Text) : Except Fault Text := uriDecodeFrom s 1

/-! ## PolyORB.POA -/

/-- The checks that `Initialize_POA` makes on `Adapter_Name`. -/
def ValidAdapterName (name : Text) : Prop := name ≠ [] ∧ slash ∉ name ∧ 0 ∉ name

instance (name : Text) : Decidable (ValidAdapterName name) := inferInstanceAs (Decidable (_ ∧ _))

def absoluteAddress (parent name : Text) : Text :=
  if 0 < parent.length then parent ++ slash :: name else parent ++ name

section Adapter

variable (host : Endianness)

/-- `To_Hex`: the octets of the cookie as they are stored. -/
def toHex (c : TimeStamp) : Text := seaToHexString (orderedOctets host 8 c.toNat)

/-- `To_Lifespan_Cookie`, which assigns the octets to a variable of eight. -/
def toLifespanCookie (h : Text) : Except Fault TimeStamp := do
  let cSea ← hexStringToSea h
  if cSea.length ≠ 8 then .error (.raised .constraintError)
  else return BitVec.ofNat 64 (fromOrderedOctets host cSea)

/-- What `Oid_To_Rel_URI` writes before and after the id. -/
def relUri (u : UnmarshalledOid) (encoded : Text) : Text :=
  slash :: ((if u.creator.length ≠ 0 then u.creator ++ [slash] else []) ++ encoded ++
    (if u.systemGenerated = true then [semicolon, 115, 121, 115] else []) ++
    if u.persistencyFlag ≠ nullTimeStamp then
      [semicolon, 112, 102, 61] ++ toHex host u.persistencyFlag else [])

/-- An exception of `Oid_To_U_Oid` goes through. -/
def raisedBy {α : Type} : Except Exn α → Except Fault α
  | .ok a => .ok a
  | .error e => .error (.raised e)

/-- The URI, when no error is found. -/
def oidToRelUri (id : ObjectId) : Except Fault (Text × Option ErrorId) := do
  let (uOid, error) ← raisedBy (oidToUOid host none id .fresh)
  if error.isSome = true then return ([], error)
  let encoded ← uriEncodeString uOid.id
  if integerLast < (relUri host uOid encoded).length then .error (.raised .constraintError)
  else return (relUri host uOid encoded, none)

def lastSlashFrom (uri : Text) : Nat → Except Fault Nat
  | 0 => .error .outside
  | i + 1 => do
    let c ← charAt uri (i + 1)
    if c = slash then return i + 1 else lastSlashFrom uri i

/-- `Colon + 3 <= URI'Last and then URI (Colon + 1 .. Colon + 3) = Word`. -/
def followedBy (uri : Text) (colon : Nat) (word : Text) : Except Fault Bool := do
  let last ← addInteger colon 3
  if last ≤ uri.length then
    let s ← slice uri (colon + 1) last
    return s == word
  else return false

/-- `System_Generated` and `Persistency_Flag`, read after the first semicolon. -/
def readAttributes (uri : Text) (colon : Nat) : Except Fault (Bool × TimeStamp) := do
  let sys ← followedBy uri colon [115, 121, 115]
  let colon := if sys = true then findForward uri semicolon (colon + 1) else colon
  let pf ← followedBy uri colon [112, 102, 61]
  if pf = true then
    let h ← slice uri (colon + 4) uri.length
    let cookie ← toLifespanCookie host h
    return (sys, cookie)
  else return (sys, nullTimeStamp)

def relUriToOid (uri : Text) : Except Fault ObjectId := do
  let colon := findForward uri semicolon 1
  let lastSlash ← lastSlashFrom uri (colon - 1)
  let first ← charAt uri 1
  if first ≠ slash then .error (.raised .assertionError)
  else
    let (sys, cookie) ← readAttributes host uri colon
    let idSlice ← slice uri (lastSlash + 1) (colon - 1)
    let name ← uriDecode idSlice
    let creatorSlice ← slice uri 2 (lastSlash - 1)
    let creator ← uriDecode creatorSlice
    return uOidToOid host ⟨name, creator, sys, cookie⟩

end Adapter

end PolyORB
