import PolyORB.Naming.Names
import PolyORB.Lib.Checked
import PolyORB.Lib.Numerals

/-!
# Object ids of the POA

PolyORB.POA_Types: an object id names the POA that created it, `/`, the length of the id within the
POA on eight hexadecimal digits, the id, one letter for `System_Generated` and the lifespan cookie on
sixteen digits.  Positions in an octet string start at 0.
-/

namespace PolyORB

open Character Numerals

abbrev ObjectId := List UInt8

/-- `Time_Stamp`, a 64-bit fixed point type, by its bits. -/
abbrev TimeStamp := BitVec 64

def nullTimeStamp : TimeStamp := BitVec.ofNat 64 (2 ^ 63)

@[ext]
structure UnmarshalledOid where
  id : Text
  creator : Text
  systemGenerated : Bool
  persistencyFlag : TimeStamp
  deriving DecidableEq

/-- What a variable of this type holds when it is declared, for the fields that are initialized. -/
def UnmarshalledOid.fresh : UnmarshalledOid := ⟨[], [], false, nullTimeStamp⟩

/-- The bound of the positions of a `String`. -/
def integerLast : Nat := 2 ^ 31 - 1

/-! ## Hexadecimal digits -/

def hexOf (d : Nat) : UInt8 := UInt8.ofNat (if d < 10 then 48 + d else 87 + d)

/-- `Hex_Val`, which is 0 for what is no digit. -/
def hexVal (c : UInt8) : Nat :=
  if 48 ≤ c.toNat ∧ c.toNat ≤ 57 then c.toNat - 48
  else if 65 ≤ c.toNat ∧ c.toNat ≤ 70 then c.toNat - 55
  else if 97 ≤ c.toNat ∧ c.toNat ≤ 102 then c.toNat - 87
  else 0

/-- A digit as `Hex` writes it. -/
def IsLowerHex (c : UInt8) : Prop :=
  (48 ≤ c.toNat ∧ c.toNat ≤ 57) ∨ (97 ≤ c.toNat ∧ c.toNat ≤ 102)

instance (c : UInt8) : Decidable (IsLowerHex c) := inferInstanceAs (Decidable (_ ∨ _))

theorem hexVal_lt (c : UInt8) : hexVal c < 16 := by
  unfold hexVal
  split_ifs <;> omega

theorem hexVal_hexOf {d : Nat} (h : d < 16) : hexVal (hexOf d) = d := by
  interval_cases d <;> rfl

theorem isLowerHex_hexOf {d : Nat} (h : d < 16) : IsLowerHex (hexOf d) := by
  interval_cases d <;> simp [IsLowerHex, hexOf]

theorem hexOf_hexVal {c : UInt8} (h : IsLowerHex c) : hexOf (hexVal c) = c := by
  have hval : (if hexVal c < 10 then 48 + hexVal c else 87 + hexVal c) = c.toNat := by
    unfold IsLowerHex at h
    unfold hexVal
    split_ifs <;> omega
  rw [hexOf, hval, UInt8.ofNat_toNat]

/-! ## Writing -/

def putULong (ulo : Nat) : ObjectId := (toDigits 16 8 ulo).map hexOf

def putBoolean (boo : Bool) : ObjectId := [if boo then 84 else 70]

def putString (str : Text) (withLength : Bool) : ObjectId :=
  if withLength = true then putULong (str.length % unsignedLongModulus) ++ str else str

/-- `To_ULongs`, on a host of the given byte order. -/
def toULongs (host : Endianness) (ts : TimeStamp) : Nat × Nat :=
  match host with
  | .littleEndian => (ts.toNat % 2 ^ 32, ts.toNat / 2 ^ 32)
  | .bigEndian => (ts.toNat / 2 ^ 32, ts.toNat % 2 ^ 32)

def fromULongs (host : Endianness) (u v : Nat) : TimeStamp :=
  match host with
  | .littleEndian => BitVec.ofNat 64 (u + 2 ^ 32 * v)
  | .bigEndian => BitVec.ofNat 64 (v + 2 ^ 32 * u)

def putTimeStamp (host : Endianness) (ts : TimeStamp) : ObjectId :=
  putULong (toULongs host ts).1 ++ putULong (toULongs host ts).2

def uOidToOid (host : Endianness) (uOid : UnmarshalledOid) : ObjectId :=
  putString uOid.creator false ++ slash :: (putString uOid.id true ++
    putBoolean uOid.systemGenerated ++ putTimeStamp host uOid.persistencyFlag)

/-! ## Reading -/

section Reading

variable (host : Endianness) (sea : ObjectId) (sei : Nat) (error : Option ErrorId)

/-- `SEA (SEI)`. -/
def octetAt : Except Exn UInt8 :=
  match sea[sei]? with
  | some c => .ok c
  | none => .error .constraintError

/-- The loop of `Get_ULong`, for the next `n` digits. -/
def getDigits : Nat → Nat → Nat → Except Exn Nat
  | 0, _, r => .ok r
  | n + 1, sei, r => do
    let c ← octetAt sea sei
    getDigits n (sei + 1) ((r * 16 + hexVal c) % unsignedLongModulus)

/-- The value read, the position after it, and the error. -/
def getULong : Except Exn (Nat × Nat × Option ErrorId) :=
  if sea.length < sei + 8 then .ok (0, sei, some .invalidObjectIdE)
  else do
    let r ← getDigits sea 8 sei 0
    return (r, sei + 8, error)

def getBoolean : Except Exn (Bool × Nat × Option ErrorId) := do
  let c ← octetAt sea sei
  if c = 70 then return (false, sei + 1, error)
  else if c = 84 then return (true, sei + 1, error)
  else return (false, sei + 1, some .invalidObjectIdE)

/-- An empty string leaves the parameter `str` as it is. -/
def getStringWithLength (str : Text) : Except Exn (Text × Nat × Option ErrorId) := do
  let (len, sei, error) ← getULong sea sei error
  if sea.length < sei + len ∨ error.isSome = true then
    return ([], sei, some .invalidObjectIdE)
  else if 0 < len then return ((sea.drop sei).take len, sei + len, error)
  else return (str, sei + len, error)

def getTimeStamp (ts : TimeStamp) : Except Exn (TimeStamp × Nat × Option ErrorId) := do
  let (u, sei, error) ← getULong sea sei error
  if error.isSome = true then return (ts, sei, error)
  let (v, sei, error) ← getULong sea sei error
  if error.isSome = true then return (ts, sei, error)
  return (fromULongs host u v, sei, error)

/-- `Find (S, Start, What, Skip => False, Direction => Backward)`, with positions from 1: 0 when
there is none. -/
def findBackward (s : Text) (what : UInt8) : Nat → Nat
  | 0 => 0
  | i + 1 => if s[i]? = some what then i + 1 else findBackward s what i

def getCreator (oid : ObjectId) : Except Exn Text :=
  -- Oid_Str is a String (1 .. Oid'Length), at the address of Oid (Oid'First)
  if integerLast < oid.length ∨ oid = [] then .error .constraintError
  else if findBackward oid slash oid.length = 0 then
    if oid.length = integerLast then .error .constraintError else .ok oid
  else .ok (oid.take (findBackward oid slash oid.length - 1))

/-- `uOid` is what the out parameter holds before the call. -/
def oidToUOid (oid : ObjectId) (uOid : UnmarshalledOid) :
    Except Exn (UnmarshalledOid × Option ErrorId) := do
  let creator ← getCreator oid
  let uOid :=
    { uOid with systemGenerated := false, persistencyFlag := nullTimeStamp, creator := creator }
  if creator.length + 1 < oid.length then
    let (id, index, error) ← getStringWithLength oid (creator.length + 1) error uOid.id
    let uOid := { uOid with id := id }
    if error.isSome = true then return (uOid, error)
    let (sys, index, error) ← getBoolean oid index error
    let uOid := { uOid with systemGenerated := sys }
    if error.isSome = true then return (uOid, error)
    let (ts, index, error) ← getTimeStamp host oid index error uOid.persistencyFlag
    let uOid := { uOid with persistencyFlag := ts }
    if error.isSome = true then return (uOid, error)
    if index < oid.length then throw .assertionError
    return (uOid, error)
  return (uOid, error)

end Reading

end PolyORB
