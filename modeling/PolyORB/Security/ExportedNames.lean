import PolyORB.Poa.ObjectIds

/-!
# Exported names

`Encode` and `Decode` of PolyORB.Security.Exported_Names, with the GSSUP names, whose factory is
registered for some mechanisms, and the names of unknown mechanisms.  Octet strings start at 1.
-/

namespace PolyORB.ExportedNames

open Octets

/-- Most significant octet first. -/
def toBig (n v : Nat) : List UInt8 := (toOctets n v).reverse

def ofBig (bs : List UInt8) : Nat := ofOctets bs.reverse

theorem length_toBig (n v : Nat) : (toBig n v).length = n := by simp [toBig]

theorem ofBig_toBig {n v : Nat} (h : v < 256 ^ n) : ofBig (toBig n v) = v := by
  rw [ofBig, toBig, List.reverse_reverse, ofOctets_toOctets h]

theorem toBig_ofBig {n : Nat} {bs : List UInt8} (h : bs.length = n) : toBig n (ofBig bs) = bs := by
  have hrev := toOctets_ofOctets bs.reverse
  rw [List.length_reverse, h] at hrev
  rw [toBig, ofBig, hrev, List.reverse_reverse]

/-- PolyORB.ASN1, where `Decode` fails for what is no object identifier, and the mechanisms whose
names are GSSUP names. -/
structure Mechanisms (Oid : Type) where
  asn1Encode : Oid → List UInt8
  asn1Decode : List UInt8 → Option Oid
  decode_encode : ∀ oid, asn1Decode (asn1Encode oid) = some oid
  registry : List Oid

/-- `Scoped_Name` of a GSSUP name, `Name_BLOB` of one of an unknown mechanism. -/
structure ExportedName (Oid : Type) where
  gssup : Bool
  mechanismOid : Oid
  name : List UInt8
  deriving DecidableEq

structure RegisteredName {Oid : Type} (m : Mechanisms Oid) where
  mechanismOid : Oid
  registered : mechanismOid ∈ m.registry
  name : List UInt8

variable {Oid : Type}

def RegisteredName.toName {m : Mechanisms Oid} (n : RegisteredName m) : ExportedName Oid :=
  ⟨true, n.mechanismOid, n.name⟩

def gssupEquivalent (left right : ExportedName Oid) : Prop :=
  right.gssup = true ∧ left.name = right.name

namespace Mechanisms
variable (m : Mechanisms Oid)

/-- Token identifier, length and octets of the mechanism, length and octets of the name. -/
def token (oid blob : List UInt8) : List UInt8 :=
  [0x04, 0x01] ++ toBig 2 oid.length ++ oid ++ toBig 4 blob.length ++ blob

def encode (n : ExportedName Oid) : List UInt8 := token (m.asn1Encode n.mechanismOid) n.name

/-- `Decode_Name_BLOB`, with the last index of the string; nothing is a marshalling error.  The
indices of a scoped name are of type `Integer`. -/
def decodeNameBlob (gssup : Bool) (oid : Oid) (blob : List UInt8) (last : Nat) :
    Except Exn (Option (ExportedName Oid)) :=
  if gssup then
    if blob = [] then .ok none
    else if integerLast < last then .error .constraintError
    else .ok (some ⟨gssup, oid, blob⟩)
  else .ok (some ⟨gssup, oid, blob⟩)

def isRegistered (oid : Oid) : Bool := m.registry.any (m.asn1Encode · = m.asn1Encode oid)

def oidLength (item : List UInt8) : Nat := ofBig ((item.drop 2).take 2)

def hasHeader (item : List UInt8) : Prop :=
  2 + 2 + 4 ≤ item.length ∧ item.take 2 = [0x04, 0x01]

instance (item : List UInt8) : Decidable (hasHeader item) := inferInstanceAs (Decidable (_ ∧ _))

def decode (item : List UInt8) : Except Exn (Option (ExportedName Oid)) :=
  let oidLength := oidLength item
  if ¬hasHeader item then .ok none
  else if 2 + 2 + oidLength + 4 - 1 > item.length then .ok none
  -- the last of the four octets of the length is read past the end
  else if item.length < 2 + 2 + oidLength + 4 then .error .constraintError
  else
    let blobLength := ofBig ((item.drop (oidLength + 4)).take 4)
    if 2 + 2 + oidLength + 4 + blobLength ≠ item.length then .ok none
    else
      match m.asn1Decode ((item.drop 4).take oidLength) with
      | none => .ok none
      | some oid =>
        decodeNameBlob (m.isRegistered oid) oid (item.drop (oidLength + 8)) item.length

/-- The string ends within the length of the name, one octet before its end. -/
def Truncated (item : List UInt8) : Prop :=
  hasHeader item ∧ item.length = 2 + 2 + oidLength item + 4 - 1

variable {m} {item : List UInt8}

theorem length_token (oid blob : List UInt8) :
    (token oid blob).length = 2 + 2 + oid.length + 4 + blob.length := by
  simp [token, length_toBig]
  omega

theorem token_drop (oid blob : List UInt8) :
    (token oid blob).drop 4 = oid ++ (toBig 4 blob.length ++ blob) := by
  simp only [token, List.append_assoc]
  rw [← List.append_assoc]
  exact List.drop_left' (by rfl)

theorem token_left_inj {oid oid' blob : List UInt8} (h : token oid blob = token oid' blob) :
    oid = oid' := by
  have hlen := congrArg List.length h
  have hdrop := congrArg (List.drop 4) h
  rw [length_token, length_token] at hlen
  rw [token_drop, token_drop] at hdrop
  exact List.append_inj_left hdrop (by omega)

theorem ofBig_lt {bs : List UInt8} {n : Nat} (h : bs.length = n) : ofBig bs < 256 ^ n := by
  have hlt := ofOctets_lt bs.reverse
  rwa [List.length_reverse, h] at hlt

theorem oidLength_token {oid : List UInt8} (hoid : oid.length < 2 ^ 16) (blob : List UInt8) :
    oidLength (token oid blob) = oid.length := by
  have htake : ((token oid blob).drop 2).take 2 = toBig 2 oid.length :=
    List.take_left' (length_toBig ..)
  rw [oidLength, htake, ofBig_toBig hoid]

theorem decode_token {oid blob : List UInt8} (hoid : oid.length < 2 ^ 16)
    (hblob : blob.length < 2 ^ 32) : m.decode (token oid blob) =
      match m.asn1Decode oid with
      | none => .ok none
      | some o => decodeNameBlob (m.isRegistered o) o blob (token oid blob).length := by
  have hlen := length_token oid blob
  have hn := oidLength_token hoid blob
  have hrest : (token oid blob).drop (oid.length + 4) = toBig 4 blob.length ++ blob := by
    rw [Nat.add_comm, ← List.drop_drop, token_drop, List.drop_left]
  have hend : (token oid blob).drop (oid.length + 8) = blob := by
    rw [show oid.length + 8 = oid.length + 4 + 4 from rfl, ← List.drop_drop, hrest]
    exact List.drop_left' (length_toBig ..)
  unfold decode
  simp only [hn]
  rw [if_neg (not_not.2 ⟨by omega, rfl⟩), if_neg (by omega), if_neg (by omega), hrest,
    List.take_left' (length_toBig ..), ofBig_toBig hblob, if_neg (by omega), token_drop,
    List.take_left, hend]

theorem decode_truncated (h : Truncated item) : m.decode item = .error .constraintError := by
  obtain ⟨hhead, hlen⟩ := h
  unfold decode
  rw [if_neg (not_not.2 hhead), if_neg (by omega), if_pos (by omega)]

theorem decode_cases (m : Mechanisms Oid) (item : List UInt8) :
    m.decode item = .ok none ∨ Truncated item ∨
    ∃ oid blob, oid.length < 2 ^ 16 ∧ blob.length < 2 ^ 32 ∧ item = token oid blob := by
  by_cases hhead : hasHeader item
  swap
  · exact .inl (if_pos hhead)
  rcases Nat.lt_or_ge item.length (2 + 2 + oidLength item + 4 - 1) with hlt | hge
  · exact .inl (by unfold decode; rw [if_neg (not_not.2 hhead), if_pos hlt])
  rcases Nat.lt_or_ge item.length (2 + 2 + oidLength item + 4) with hlt' | hge'
  · exact .inr (.inl ⟨hhead, by omega⟩)
  by_cases htotal : 2 + 2 + oidLength item + 4 +
      ofBig ((item.drop (oidLength item + 4)).take 4) = item.length
  swap
  · refine .inl ?_
    unfold decode
    rw [if_neg (not_not.2 hhead), if_neg (by omega), if_neg (by omega), if_pos htotal]
  have hpart (i k : Nat) : item.drop i = (item.drop i).take k ++ item.drop (i + k) := by
    rw [← List.drop_drop, List.take_append_drop]
  have hlength {i k : Nat} (h : i + k ≤ item.length) : ((item.drop i).take k).length = k := by
    rw [List.length_take, List.length_drop, min_eq_left (by omega)]
  have h2 := hlength (show 2 + 2 ≤ item.length by omega)
  have hoid := hlength (show 4 + oidLength item ≤ item.length by omega)
  have h4 := hlength (show oidLength item + 4 + 4 ≤ item.length by omega)
  refine .inr (.inr ⟨(item.drop 4).take (oidLength item), item.drop (oidLength item + 8),
    ?_, ?_, ?_⟩)
  · rw [hoid]
    exact ofBig_lt h2
  · rw [List.length_drop]
    have := ofBig_lt h4
    omega
  · have hblob : (item.drop (oidLength item + 8)).length =
        ofBig ((item.drop (oidLength item + 4)).take 4) := by
      rw [List.length_drop]
      omega
    rw [token, hoid, hblob, toBig_ofBig h4, oidLength, toBig_ofBig h2, ← oidLength, ← hhead.2]
    calc item = item.take 2 ++ ((item.drop 2).take 2 ++ ((item.drop 4).take (oidLength item) ++
        ((item.drop (oidLength item + 4)).take 4 ++ item.drop (oidLength item + 8)))) := by
          rw [← hpart, Nat.add_comm (oidLength item), ← hpart, ← hpart 2 2, List.take_append_drop]
      _ = _ := by simp

theorem decodeNameBlob_ok {g : Bool} {o : Oid} {blob : List UInt8} {last : Nat}
    {n : ExportedName Oid} : decodeNameBlob g o blob last = .ok (some n) ↔
      n = ⟨g, o, blob⟩ ∧ (g = true → blob ≠ []) ∧ (g = true → last ≤ integerLast) := by
  cases g with
  | false => simp [decodeNameBlob, eq_comm]
  | true =>
    by_cases hb : blob = []
    · simp [decodeNameBlob, hb]
    · by_cases hl : integerLast < last
      · simp [decodeNameBlob, hb, hl]
      · simp only [decodeNameBlob, if_true, hb, hl, if_false, Except.ok.injEq, Option.some.injEq,
          Nat.le_of_not_lt hl, ne_eq, not_false_eq_true, implies_true, and_true]
        exact eq_comm

theorem decodeNameBlob_none {g : Bool} {o : Oid} {blob : List UInt8} {last : Nat} :
    decodeNameBlob g o blob last = .ok none ↔ g = true ∧ blob = [] := by
  unfold decodeNameBlob
  split_ifs with hg hb hl <;> simp [*]

/-! ## Both directions -/

/-- Short enough, and not empty. -/
def Encodable (n : RegisteredName m) : Prop :=
  (m.asn1Encode n.mechanismOid).length < 2 ^ 16 ∧ n.name ≠ [] ∧
    (m.encode n.toName).length ≤ integerLast

/-- Not truncated before the last octet of a length, and if it is accepted, short enough for a
GSSUP name and with the encoding of its mechanism. -/
def Decodable (m : Mechanisms Oid) (item : List UInt8) : Prop :=
  ¬Truncated item ∧ ∀ oid blob o, oid.length < 2 ^ 16 → blob.length < 2 ^ 32 →
    item = token oid blob → m.asn1Decode oid = some o → (m.isRegistered o = true → blob ≠ []) →
      (m.isRegistered o = true → item.length ≤ integerLast) ∧ m.asn1Encode o = oid

def RoundTrips (n : RegisteredName m) : Prop :=
  ∃ n', m.decode (m.encode n.toName) = .ok (some n') ∧ gssupEquivalent n.toName n'

def DecodesRightly (m : Mechanisms Oid) (item : List UInt8) : Prop :=
  m.decode item = .ok none ∨ ∃ n, m.decode item = .ok (some n) ∧ m.encode n = item

theorem roundTrips_iff (n : RegisteredName m) : RoundTrips n ↔ Encodable n := by
  constructor
  · rintro ⟨n', hdec, hgssup, hname⟩
    rcases decode_cases m (m.encode n.toName) with hnone | htrunc | ⟨oid, blob, hoid, hblob, heq⟩
    · nomatch hnone.symm.trans hdec
    · nomatch (decode_truncated htrunc).symm.trans hdec
    · rw [heq, decode_token hoid hblob] at hdec
      cases ho : m.asn1Decode oid with
      | none => simp [ho] at hdec
      | some o =>
        simp only [ho] at hdec
        obtain ⟨rfl, hne, hle⟩ := decodeNameBlob_ok.1 hdec
        rw [← heq] at hle
        unfold encode at heq
        rw [show n.toName.name = blob from hname] at heq
        refine ⟨?_, ?_, hle hgssup⟩
        · rwa [← token_left_inj heq] at hoid
        · exact fun hnil => hne hgssup (hname.symm.trans hnil)
  · rintro ⟨hoid, hne, hlen⟩
    have hreg : m.isRegistered n.mechanismOid = true :=
      List.any_eq_true.2 ⟨_, n.registered, decide_eq_true rfl⟩
    have hblob : n.name.length < 2 ^ 32 := by
      rw [encode, length_token] at hlen
      exact Nat.lt_of_le_of_lt (Nat.le_trans (Nat.le_add_left ..) hlen) (by decide)
    refine ⟨⟨true, n.mechanismOid, n.name⟩, ?_, rfl, rfl⟩
    refine (decode_token hoid hblob).trans ?_
    rw [m.decode_encode]
    exact decodeNameBlob_ok.2 ⟨by rw [hreg], fun _ => hne, fun _ => hlen⟩

theorem decodesRightly_iff : DecodesRightly m item ↔ Decodable m item := by
  constructor
  · intro h
    refine ⟨fun htrunc => ?_, fun oid blob o hoid hblob heq ho hne => ?_⟩
    · rcases h with h | ⟨n, h, -⟩ <;> nomatch (decode_truncated htrunc).symm.trans h
    · have hdec := decode_token (m := m) hoid hblob
      simp only [← heq, ho] at hdec
      rcases h with h | ⟨n, h, hback⟩
      · obtain ⟨hreg, hnil⟩ := decodeNameBlob_none.1 (hdec.symm.trans h)
        exact absurd hnil (hne hreg)
      · obtain ⟨rfl, -, hle⟩ := decodeNameBlob_ok.1 (hdec.symm.trans h)
        exact ⟨hle, token_left_inj (hback.trans heq)⟩
  · rintro ⟨htrunc, haccepted⟩
    rcases decode_cases m item with hnone | h | ⟨oid, blob, hoid, hblob, heq⟩
    · exact .inl hnone
    · exact absurd h htrunc
    · have hdec := decode_token (m := m) hoid hblob
      rw [← heq] at hdec
      cases ho : m.asn1Decode oid with
      | none => exact .inl (by rw [hdec, ho])
      | some o =>
        simp only [ho] at hdec
        by_cases hnil : m.isRegistered o = true ∧ blob = []
        · exact .inl (hdec.trans (decodeNameBlob_none.2 hnil))
        · have hne : m.isRegistered o = true → blob ≠ [] := fun hreg hb => hnil ⟨hreg, hb⟩
          obtain ⟨hle, henc⟩ := haccepted oid blob o hoid hblob heq ho hne
          refine .inr ⟨_, hdec.trans (decodeNameBlob_ok.2 ⟨rfl, hne, hle⟩), ?_⟩
          rw [encode, henc, heq]

/-- A registered name is decoded from its encoding, and a string is decoded to a name with this
encoding or rejected, exactly under these conditions. -/
theorem exportedNames_iff (n : RegisteredName m) (item : List UInt8) :
    RoundTrips n ∧ DecodesRightly m item ↔ Encodable n ∧ Decodable m item :=
  and_congr (roundTrips_iff n) decodesRightly_iff

/-- A name of the only mechanism, and its encoding. -/
theorem exportedNames_iff_named :
    let m : Mechanisms (List UInt8) := ⟨id, some, fun _ => rfl, [[6]]⟩
    let n : RegisteredName m := ⟨[6], .head _, [65]⟩
    m.encode n.toName = [0x04, 0x01, 0, 1, 6, 0, 0, 0, 1, 65] ∧
      RoundTrips n ∧ DecodesRightly m [0x04, 0x01, 0, 1, 6, 0, 0, 0, 1, 65] := by
  intro m n
  refine ⟨by decide, (exportedNames_iff n _).2 ⟨⟨by decide, by decide, by decide⟩, ?_, ?_⟩⟩
  · rintro ⟨-, hlen⟩
    exact absurd hlen (by decide)
  · intro oid blob o hoid _ htoken hdec _
    have hlen : oid.length = 1 := (oidLength_token hoid blob).symm.trans (htoken ▸ rfl)
    have hdrop := (token_drop oid blob).symm.trans (congrArg (List.drop 4) htoken.symm)
    have hsix : oid = [6] := List.append_inj_left hdrop hlen
    obtain rfl := Option.some.inj hdec
    exact ⟨fun _ => by decide, rfl⟩

/-- Eight octets, whose mechanism has one octet, are read past their end. -/
theorem not_decodesRightly_truncated :
    let m : Mechanisms (List UInt8) := ⟨id, some, fun _ => rfl, [[6]]⟩
    ¬DecodesRightly m [0x04, 0x01, 0, 1, 6, 0, 0, 0] ∧
      m.decode [0x04, 0x01, 0, 1, 6, 0, 0, 0] = .error .constraintError := by
  have herror : Mechanisms.decode ⟨id, some, fun _ => rfl, [[6]]⟩ [0x04, 0x01, 0, 1, 6, 0, 0, 0] =
      .error .constraintError := by decide
  refine ⟨?_, herror⟩
  rintro (h | ⟨n, h, -⟩) <;> nomatch herror.symm.trans h

end Mechanisms
end PolyORB.ExportedNames
