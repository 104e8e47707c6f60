import PolyORB.Buffers

/-!
# CDR transfer of elementary data, strings and encapsulations

The subprograms of PolyORB.Utils.Buffers and PolyORB.Representations.CDR.Common: aligned transfer of
elementary items, ISO 8859-1 characters and strings, octet sequences, and the two ends of an
encapsulation.  `RoundTrips m u a b b'` says that `m` marshals into `b`, giving `b'`, what `u` reads
back as `a` from any buffer that presents `b'`; it composes with the sequencing of both sides.
-/

namespace PolyORB

open Buffer
open Program (onlyIf raiseIf)

/-! ## Transfer of elementary data -/

/-- `Marshall` of an item of `size` octets, aligned on its size. -/
def marshallElementary (host : Endianness) (size v : Nat) : BufferProg Unit := do
  onlyIf (size ≠ 1) (padAlign size)
  let b ← get
  let item := orderedOctets host size v
  allocateAndInsertCookedData (if 1 < size ∧ b.endianness ≠ host then item.reverse else item)

def unmarshallElementary (host : Endianness) (size : Nat) : BufferProg Nat := do
  onlyIf (size ≠ 1) (alignPosition size)
  let z ← extractData size
  let b ← get
  return fromOrderedOctets host (if 1 < size ∧ b.endianness ≠ host then z.reverse else z)

def marshallBoolean (host : Endianness) (data : Bool) : BufferProg Unit :=
  marshallElementary host 1 data.toNat

/-- `Boolean'Val` of the octet read. -/
def unmarshallBoolean (host : Endianness) : BufferProg Bool := do
  match ← unmarshallElementary host 1 with
  | 0 => return false
  | 1 => return true
  | _ => throw .constraintError

/-! ## Strings -/

def alignMarshallCopy (data : List UInt8) (alignment : Nat) : BufferProg Unit := do
  padAlign alignment
  allocateAndInsertCookedData data

/-- `Align_Unmarshall_Copy` of `size` octets: at least one more octet must come at each turn. -/
def alignUnmarshallCopy (alignment size : Nat) : BufferProg (List UInt8) := do
  alignPosition alignment
  go size size
where
  go : Nat → Nat → BufferProg (List UInt8)
    | _, 0 => return []
    | 0, _ + 1 => throw .unfinished
    | fuel + 1, left + 1 => do
      let xs ← partialExtractData (left + 1)
      raiseIf (xs.length = 0) .assertionError
      return xs ++ (← go fuel (left + 1 - xs.length))

def marshallLatin1String (host : Endianness) (data : List UInt8) : BufferProg Unit := do
  marshallElementary host 4 ((data.length + 1) % unsignedLongModulus)
  alignMarshallCopy data 1
  marshallElementary host 1 0

def unmarshallOctets (host : Endianness) : Nat → BufferProg (List UInt8)
  | 0 => return []
  | n + 1 => do
    let o ← unmarshallElementary host 1
    return UInt8.ofNat o :: (← unmarshallOctets host n)

/-- The declaration of `Equiv` converts the length read to `Natural`. -/
def unmarshallLatin1String (host : Endianness) : BufferProg (List UInt8) := do
  let length ← unmarshallElementary host 4
  raiseIf (2 ^ 31 ≤ length) .constraintError
  if length = 0 then return []
  else
    let equiv ← unmarshallOctets host (length - 1)
    let nul ← unmarshallElementary host 1
    raiseIf (nul ≠ 0) .constraintError
    return equiv

/-! ## Encapsulations -/

def marshallOctetArray (host : Endianness) (data : List UInt8) : BufferProg Unit := do
  marshallElementary host 4 (data.length % unsignedLongModulus)
  alignMarshallCopy data 1

def unmarshallOctetArray (host : Endianness) : BufferProg (List UInt8) := do
  let length ← unmarshallElementary host 4
  unmarshallOctets host length

/-- `Start_Encapsulation` on a buffer that was just created. -/
def startEncapsulation (host : Endianness) : BufferProg Unit := do
  let b ← get
  marshallBoolean host (b.endianness == .littleEndian)

/-- `Decapsulate`: a buffer over all octets but the first, which gives the byte order. -/
def decapsulate (octets : List UInt8) : Except Exn Buffer :=
  match octets with
  | [] => .error .constraintError
  | flag :: data =>
    if 1 < flag.toNat ∨ data = [] then .error .constraintError
    else .ok (initializeBuffer data (if flag = 1 then .littleEndian else .bigEndian) 1)

/-! ## Round trips -/

/-- `m` turns `b` into `b'`, and `u` reads `a` back from there. -/
structure RoundTrips {α : Type} (m : BufferProg Unit) (u : BufferProg α) (a : α) (b b' : Buffer) :
    Prop where
  marshall : m b = .ok () b'
  written : Written b b'
  unmarshall : ∀ r, Presents b' r b.cdrPosition → r.cdrPosition = b.cdrPosition →
    u r = .ok a { r with cdrPosition := b'.cdrPosition }

namespace RoundTrips

variable {α β : Type} {b b' b'' : Buffer}

theorem pure (hb : b.AtEnd) (a : α) : RoundTrips (pure ()) (pure a) a b b :=
  ⟨rfl, .refl hb, fun r _ hr => by rw [← hr]; rfl⟩

theorem bind {m m' : BufferProg Unit} {u : BufferProg α} {f : α → BufferProg β} {a : α} {c : β}
    (hb : b.AtEnd) (h : RoundTrips m u a b b') (h' : RoundTrips m' (f a) c b' b'') :
    RoundTrips (m >>= fun _ => m') (u >>= f) c b b'' := by
  refine ⟨?_, h.written.trans h'.written, fun r hr hp => ?_⟩
  · rw [Program.bind_ok h.marshall]
    exact h'.marshall
  · rw [Program.bind_ok (h.unmarshall r (hr.of_written h'.written h.written.atEnd) hp)]
    have hle := h.written.position_le hb
    exact h'.unmarshall _ ((hr.mono hle).setPosition _) rfl

theorem map {m : BufferProg Unit} {u : BufferProg α} {a : α} {f : α → BufferProg β} {c : β}
    (h : RoundTrips m u a b b') (hf : ∀ r, f a r = .ok c r) : RoundTrips m (u >>= f) c b b' :=
  ⟨h.marshall, h.written, fun r hr hp => by rw [Program.bind_ok (h.unmarshall r hr hp), hf]⟩

end RoundTrips

theorem orderedOctets_swap {host order : Endianness} (size v : Nat) (hs : 0 < size) :
    (if 1 < size ∧ order ≠ host then (orderedOctets host size v).reverse
      else orderedOctets host size v) = orderedOctets order size v := by
  by_cases ho : order = host
  · rw [if_neg (by simp [ho]), ho]
  by_cases h1 : 1 < size
  · rw [if_pos ⟨h1, ho⟩]
    exact orderedOctets_reverse (Ne.symm ho) size v
  · have : size = 1 := by omega
    subst this
    cases host <;> cases order <;> rfl

theorem fromOrderedOctets_swap (host order : Endianness) (z : List UInt8) (hs : 0 < z.length) :
    fromOrderedOctets host (if 1 < z.length ∧ order ≠ host then z.reverse else z) =
      fromOrderedOctets order z := by
  by_cases ho : order = host
  · rw [if_neg (by simp [ho]), ho]
  by_cases h1 : 1 < z.length
  · cases host <;> cases order <;> simp_all [fromOrderedOctets]
  · obtain ⟨x, rfl⟩ := List.length_eq_one_iff.mp (show z.length = 1 by omega)
    cases host <;> cases order <;> rfl

theorem marshallElementary_ok (host : Endianness) {b : Buffer} (hb : b.AtEnd) {size : Nat}
    (hs : 0 < size) (v : Nat) :
    ∃ b', marshallElementary host size v b = .ok () b' ∧ Written b b' ∧
      b'.cdrPosition = b.cdrPosition + Octets.padding b.cdrPosition size + size ∧
      b'.pieceAt (b.cdrPosition + Octets.padding b.cdrPosition size) size =
        some (orderedOctets b.endianness size v) := by
  obtain ⟨b₁, e₁, w₁, p₁⟩ : ∃ b₁, onlyIf (size ≠ 1) (padAlign size) b = .ok () b₁ ∧
      Written b b₁ ∧ b₁.cdrPosition = b.cdrPosition + Octets.padding b.cdrPosition size := by
    by_cases h1 : size = 1
    · subst h1
      exact ⟨b, rfl, .refl hb, by simp⟩
    · obtain ⟨b₁, e₁, w₁, p₁⟩ := padAlign_ok hb size
      exact ⟨b₁, by rw [Program.onlyIf_true h1]; exact e₁, w₁, p₁⟩
  have hl : 0 < (orderedOctets b.endianness size v).length := by simpa using hs
  obtain ⟨b₂, e₂, w₂, p₂, c₂⟩ := allocateAndInsertCookedData_ok w₁.atEnd hl
  rw [length_orderedOctets] at p₂ c₂
  refine ⟨b₂, ?_, w₁.trans w₂, by rw [p₂, p₁], by rw [← p₁]; exact c₂⟩
  rw [marshallElementary]
  rw [Program.bind_ok e₁]
  rw [Program.bind_ok (Program.get_apply b₁)]
  simp only [orderedOctets_swap size v hs, w₁.endianness_eq]
  exact e₂

theorem unmarshallElementary_ok (host : Endianness) {r : Buffer} {size : Nat} (hs : 0 < size)
    {z : List UInt8}
    (hl : r.cdrPosition + Octets.padding r.cdrPosition size ≤ r.initialCdrPosition + r.length)
    (hz : r.pieceAt (r.cdrPosition + Octets.padding r.cdrPosition size) size = some z) :
    unmarshallElementary host size r = .ok (fromOrderedOctets r.endianness z)
      { r with cdrPosition := r.cdrPosition + Octets.padding r.cdrPosition size + size } := by
  have e₁ : onlyIf (size ≠ 1) (alignPosition size) r = .ok () { r with
      cdrPosition := r.cdrPosition + Octets.padding r.cdrPosition size } := by
    by_cases h1 : size = 1
    · subst h1
      simp
    · rw [Program.onlyIf_true h1]
      exact alignPosition_ok hl
  have hlen : z.length = size := (pieceAt_lt hz).2
  rw [unmarshallElementary]
  rw [Program.bind_ok e₁]
  rw [Program.bind_ok (extractData_of_pieceAt hs hz), Program.bind_ok (Program.get_apply _)]
  have hf := fromOrderedOctets_swap host r.endianness z (by omega)
  rw [hlen] at hf
  simp [hf]

theorem RoundTrips.elementary (host : Endianness) {b : Buffer} (hb : b.AtEnd) {size v : Nat}
    (hs : 0 < size) (hv : v < 256 ^ size) :
    ∃ b', RoundTrips (marshallElementary host size v) (unmarshallElementary host size) v b b' ∧
      b'.cdrPosition = b.cdrPosition + Octets.padding b.cdrPosition size + size := by
  obtain ⟨b', e, w, p, c⟩ := marshallElementary_ok host hb hs v
  refine ⟨b', ⟨e, w, fun r hr hp => ?_⟩, p⟩
  have hz := hr.piece_eq _ _ _ (by omega) hs c
  have hlim : r.cdrPosition + Octets.padding r.cdrPosition size ≤
      r.initialCdrPosition + r.length := by
    have h1 := hr.limit_le
    have h2 := w.atEnd.position_eq
    rw [hp]
    omega
  rw [← hp] at hz
  rw [unmarshallElementary_ok host hs hlim hz, hr.endianness_eq, w.endianness_eq,
    fromOrderedOctets_orderedOctets hv, hp, p]

theorem RoundTrips.boolean (host : Endianness) {b : Buffer} (hb : b.AtEnd) (v : Bool) :
    ∃ b', RoundTrips (marshallBoolean host v) (unmarshallBoolean host) v b b' := by
  have hv : v.toNat < 256 ^ 1 := by cases v <;> decide
  obtain ⟨b', h, -⟩ := RoundTrips.elementary host hb one_pos hv
  refine ⟨b', h.map fun r => ?_⟩
  cases v <;> rfl

end PolyORB
