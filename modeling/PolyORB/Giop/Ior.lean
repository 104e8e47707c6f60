import PolyORB.Giop.Message

/-!
# Interoperable references

`Marshall_IOR` and `Unmarshall_IOR`.  How the body of a profile is marshalled depends on its tag: the
callbacks registered for the tags, and the profiles themselves, are parameters.
-/

namespace PolyORB

open Buffer
open Program (raiseIf)

/-- `Reference_Info`: a reference that is not nil has a profile at least. -/
structure ReferenceInfo (P : Type) where
  typeId : List UInt8
  profiles : List P
  nonempty : profiles ≠ []
  deriving DecidableEq

abbrev Ref (P : Type) := Option (ReferenceInfo P)

def createReference {P : Type} (profiles : List P) (typeId : List UInt8) : Ref P :=
  if h : profiles = [] then none else some ⟨typeId, profiles, h⟩

structure ProfileRecord (P : Type) where
  tag : Nat
  marshallProfileBody : P → BufferProg Unit
  unmarshallProfileBody : BufferProg (Option P)

structure Profiles (P : Type) where
  getProfileTag : P → Nat
  callbacks : List (ProfileRecord P)

section Ior

variable {P : Type} (env : Profiles P) (host : Endianness)

/-- `Marshall_Profile`, whose value is `Success`. -/
def marshallProfile (p : P) : BufferProg Bool :=
  match env.callbacks.find? fun info => info.tag == env.getProfileTag p with
  | some info => do
    marshallElementary host 4 (env.getProfileTag p)
    info.marshallProfileBody p
    return true
  | none => return false

/-- The loop of `Marshall_IOR`, whose value is `Counter`. -/
def marshallProfiles : List P → BufferProg Nat
  | [] => return 0
  | p :: ps => do
    let success ← marshallProfile env host p
    let counter ← marshallProfiles ps
    return if success then counter + 1 else counter

def marshallIor (assertions : Bool) : Ref P → BufferProg Unit
  | none => do
    marshallLatin1String host []
    marshallElementary host 4 0
  | some value => do
    marshallLatin1String host value.typeId
    padAlign 4
    let position := (← get).cdrPosition
    let reserv ← reserve 4
    let counter ← marshallProfiles env host value.profiles
    match marshallElementary host 4 (counter % unsignedLongModulus)
        { Buffer.new host with initialCdrPosition := position, cdrPosition := position } with
    | .ok _ countBuf => copyData assertions countBuf reserv
    | .error e _ => throw e

/-- `Unmarshall_Profile`: the last callback for the tag counts, and the body of a profile whose tag
has none is skipped. -/
def unmarshallProfile : BufferProg (Option P) := do
  let tag ← unmarshallElementary host 4
  match env.callbacks.filter fun info => info.tag == tag with
  | [] => do
    let _ ← unmarshallOctetArray host
    return none
  | infos => infos.foldlM (fun _ info => info.unmarshallProfileBody) none

def unmarshallProfiles : Nat → BufferProg (List P)
  | 0 => return []
  | n + 1 => do
    let pro ← unmarshallProfile env host
    let profs ← unmarshallProfiles n
    return pro.toList ++ profs

def unmarshallIor : BufferProg (Ref P) := do
  let typeId ← unmarshallLatin1String host
  let nProfiles ← unmarshallElementary host 4
  raiseIf (2 ^ 31 ≤ nProfiles) .constraintError
  let profs ← unmarshallProfiles env host nProfiles
  return createReference profs typeId

end Ior

/-! ## Round trips between hosts -/

theorem RoundTrips.between (sender receiver : Endianness) {b : Buffer} (hb : b.AtEnd) {size v : Nat}
    (hs : 0 < size) (hv : v < 256 ^ size) :
    ∃ b', RoundTrips (marshallElementary sender size v) (unmarshallElementary receiver size) v b b' ∧
      b'.cdrPosition = b.cdrPosition + Octets.padding b.cdrPosition size + size := by
  obtain ⟨b', hm, hw, hpos, hpiece⟩ := marshallElementary_ok sender hb hs v
  refine ⟨b', ⟨hm, hw, fun r hr hp => ?_⟩, hpos⟩
  have hz := hr.piece_eq _ _ _ (Nat.le_add_right _ _) hs hpiece
  have hlim : r.cdrPosition + Octets.padding r.cdrPosition size ≤
      r.initialCdrPosition + r.length := by
    have hle := hr.limit_le
    have hend := hw.atEnd.position_eq
    rw [hp]
    omega
  rw [← hp] at hz
  rw [unmarshallElementary_ok receiver hs hlim hz, hr.endianness_eq, hw.endianness_eq,
    fromOrderedOctets_orderedOctets hv, hp, hpos]

/-- The reference is read back, wherever it is marshalled. -/
def IorRoundTrips {P : Type} (env : Profiles P) (assertions : Bool) (sender receiver : Endianness)
    (ref : Ref P) : Prop :=
  ∀ b : Buffer, b.AtEnd → b.endianness = sender → b.cdrPosition % 4 = 0 →
    ∃ b', RoundTrips (marshallIor env sender assertions ref) (unmarshallIor env receiver) ref b b'

end PolyORB
