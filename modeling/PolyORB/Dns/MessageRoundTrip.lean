import PolyORB.Dns.Messages
import Mathlib.Data.List.TakeWhile

/-!
# Round trips of DNS messages

What a session marshalls is read back by another one: names, the data of the records, the records
and the messages.  `Encodes m p a` says that what `m` marshalls is all that `p` reads, as `a`.
-/

namespace PolyORB

open Program Reading DnsHeader

def Encodes {α : Type} (m : Except Exn (List UInt8)) (p : DnsReader α) (a : α) : Prop :=
  ∃ xs, m = .ok xs ∧ Decodes p xs a

theorem encodes_all {α β : Type} {m : α → Except Exn (List UInt8)} {p : DnsReader β} {f : α → β}
    {as : List α} (h : ∀ a ∈ as, Encodes (m a) p (f a)) :
    ∃ xss, as.mapM m = .ok xss ∧ Decodes (times p as.length) xss.flatten (as.map f) := by
  induction as with
  | nil => exact ⟨[], rfl, .times_zero p⟩
  | cons a as ih =>
    obtain ⟨xs, hm, hr⟩ := h a List.mem_cons_self
    obtain ⟨xss, hms, hrs⟩ := ih fun b hb => h b (List.mem_cons_of_mem a hb)
    refine ⟨xs :: xss, ?_, hr.times_succ hrs⟩
    rw [List.mapM_cons, hm, hms]
    rfl

/-! ## Items -/

theorem reads_short {v : Nat} (h : v < 2 ^ 16) : Decodes unmarshallShort (marshallShort v) v := by
  have hlen : (marshallShort v).length = 2 := length_orderedOctets _ _ _
  have hread : Decodes (many Exn.constraintError 2) (marshallShort v) (marshallShort v) :=
    hlen ▸ Decodes.many Exn.constraintError (marshallShort v)
  refine hread.map fun rest => ?_
  rw [marshallShort, fromOrderedOctets_orderedOctets h]
  rfl

theorem reads_uint16 (v : UInt16) : Decodes unmarshallShort (marshallShort v.toNat) v.toNat :=
  reads_short v.toNat_lt

theorem reads_long (v : UInt32) : Decodes unmarshallLong (marshallLong v.toNat) v.toNat := by
  have hlen : (marshallLong v.toNat).length = 4 := length_orderedOctets _ _ _
  have hread : Decodes (many Exn.constraintError 4) (marshallLong v.toNat) (marshallLong v.toNat) :=
    hlen ▸ Decodes.many Exn.constraintError (marshallLong v.toNat)
  refine hread.map fun rest => ?_
  rw [marshallLong, fromOrderedOctets_orderedOctets v.toNat_lt]
  rfl

/-- A character string as it is written, after an octet with its length. -/
def wire (s : Text) : List UInt8 := UInt8.ofNat s.length :: s

variable {s l : Text}

theorem marshallCharacterString_eq (hne : s ≠ []) (hlen : s.length < 2 ^ 8) :
    marshallCharacterString s = .ok (wire s) := by
  rw [marshallCharacterString, if_neg hne, if_pos hlen, wire]

theorem toNat_length (hlen : s.length < 2 ^ 8) :
    (UInt8.ofNat s.length).toNat = s.length := by
  exact Nat.mod_eq_of_lt hlen

theorem length_ne_zero (hne : s ≠ []) (hlen : s.length < 2 ^ 8) :
    UInt8.ofNat s.length ≠ 0 := by
  intro h
  have hz := congrArg UInt8.toNat h
  rw [toNat_length hlen] at hz
  exact hne (List.length_eq_zero_iff.1 hz)

theorem takeWhile_split {c : UInt8} (rest : Text) (hc : c ∉ s) :
    (s ++ c :: rest).takeWhile (· ≠ c) = s ∧ (s ++ c :: rest).dropWhile (· ≠ c) = c :: rest := by
  have hall : ∀ x ∈ s, decide (x ≠ c) = true := by
    intro x hx
    exact decide_eq_true fun h => hc (h ▸ hx)
  rw [List.takeWhile_append_of_pos hall, List.dropWhile_append_of_pos hall]
  simp

theorem takeWhile_whole {c : UInt8} (hc : c ∉ s) :
    s.takeWhile (· ≠ c) = s ∧ s.dropWhile (· ≠ c) = [] := by
  have hall : ∀ x ∈ s, decide (x ≠ c) = true := by
    intro x hx
    exact decide_eq_true fun h => hc (h ▸ hx)
  exact ⟨List.takeWhile_eq_self_iff.2 hall, List.dropWhile_eq_nil_iff.2 hall⟩

/-! ## Domain names -/

/-- Labels of 1 to 63 octets, with full stops between them. -/
def IsDomainName (t : Text) : Prop :=
  ∃ labels : List Text, (∀ l ∈ labels, l ≠ [] ∧ l.length ≤ 63 ∧ fullStop ∉ l) ∧
    t = [fullStop].intercalate labels

theorem marshallLabels_nil : marshallLabels [] = .ok [0] := by
  rw [marshallLabels]
  rfl

theorem marshallLabels_last (hne : l ≠ []) (hlen : l.length < 2 ^ 8)
    (hl : fullStop ∉ l) : marshallLabels l = .ok (wire l ++ [0]) := by
  obtain ⟨htake, hdrop⟩ := takeWhile_whole hl
  rw [marshallLabels, htake]
  simp only [if_neg hne, marshallCharacterString_eq hne hlen, bind, Except.bind]
  split
  · rfl
  · rename_i heq
    rw [hdrop] at heq
    cases heq

theorem marshallLabels_cons {rest : Text} {xs : List UInt8} (hne : l ≠ [])
    (hlen : l.length < 2 ^ 8) (hl : fullStop ∉ l) (h : marshallLabels rest = .ok xs) :
    marshallLabels (l ++ fullStop :: rest) = .ok (wire l ++ xs) := by
  obtain ⟨htake, hdrop⟩ := takeWhile_split rest hl
  rw [marshallLabels, htake]
  simp only [if_neg hne, marshallCharacterString_eq hne hlen, bind, Except.bind]
  split
  · rename_i heq
    rw [hdrop] at heq
    cases heq
  · rename_i heq
    rw [hdrop] at heq
    injection heq with _ heq
    rw [← heq, h]
    rfl

theorem marshallLabels_eq {labels : List Text}
    (h : ∀ l ∈ labels, l ≠ [] ∧ l.length ≤ 63 ∧ fullStop ∉ l) :
    marshallLabels ([fullStop].intercalate labels) = .ok (labels.flatMap wire ++ [0]) := by
  induction labels with
  | nil => exact marshallLabels_nil
  | cons l labels ih =>
    obtain ⟨hne, hlen, hl⟩ := h l List.mem_cons_self
    have hlt : l.length < 2 ^ 8 := lt_of_le_of_lt hlen (by decide)
    cases labels with
    | nil =>
      rw [List.intercalate_singleton, marshallLabels_last hne hlt hl]
      simp
    | cons l' labels =>
      have hrest := ih fun x hx => h x (List.mem_cons_of_mem l hx)
      have happend := marshallLabels_cons hne hlt hl hrest
      rw [List.intercalate_cons_cons, List.append_assoc, List.singleton_append, happend]
      simp

theorem unmarshallLabels_eq {labels : List Text}
    (h : ∀ x ∈ l :: labels, x ≠ [] ∧ x.length ≤ 63 ∧ fullStop ∉ x) (label : Text)
    (rest : List UInt8) : unmarshallLabels (UInt8.ofNat l.length) label
      (l ++ (labels.flatMap wire ++ 0 :: rest)) =
      .ok (label ++ [fullStop].intercalate (l :: labels)) rest := by
  induction labels generalizing l label with
  | nil =>
    obtain ⟨hne, hlen, -⟩ := h l List.mem_cons_self
    have hlt : l.length < 2 ^ 8 := lt_of_le_of_lt hlen (by decide)
    rw [unmarshallLabels, if_neg (length_ne_zero hne hlt), toNat_length hlt, if_pos (by simp)]
    split
    · rename_i heq
      simp at heq
    · rename_i heq
      simp only [List.flatMap_nil, List.nil_append, List.drop_left] at heq
      injection heq with h₁ h₂
      rw [← h₁, ← h₂, unmarshallLabels, List.intercalate_singleton]
      simp
  | cons l' labels ih =>
    obtain ⟨hne, hlen, -⟩ := h l List.mem_cons_self
    have hlt : l.length < 2 ^ 8 := lt_of_le_of_lt hlen (by decide)
    have htail : ∀ x ∈ l' :: labels, x ≠ [] ∧ x.length ≤ 63 ∧ fullStop ∉ x :=
      fun x hx => h x (List.mem_cons_of_mem l hx)
    obtain ⟨hne', hlen', -⟩ := htail l' List.mem_cons_self
    have hlt' : l'.length < 2 ^ 8 := lt_of_le_of_lt hlen' (by decide)
    rw [unmarshallLabels, if_neg (length_ne_zero hne hlt), toNat_length hlt, if_pos (by simp)]
    simp only
    split
    · rename_i heq
      simp [wire] at heq
    · rename_i heq
      simp only [List.drop_left, List.flatMap_cons, wire, List.cons_append,
        List.append_assoc] at heq
      injection heq with h₁ h₂
      rw [← h₁, ← h₂, if_neg (length_ne_zero hne' hlt'), ih htail, List.intercalate_cons_cons]
      simp

theorem encodes_name {t : Text} (h : IsDomainName t) :
    Encodes (marshallLabels t) unmarshallDnsString t := by
  obtain ⟨labels, hlabels, rfl⟩ := h
  refine ⟨_, marshallLabels_eq hlabels, fun rest => ?_⟩
  cases labels with
  | nil =>
    show unmarshallLabels 0 [] rest = _
    rw [unmarshallLabels]
    rfl
  | cons l labels =>
    have hread := unmarshallLabels_eq hlabels [] rest
    rw [List.nil_append] at hread
    rw [← hread, List.flatMap_cons, List.append_assoc, List.append_assoc, List.singleton_append]
    rfl

/-! ## TXT data -/

/-- The count that is kept while strings are read comes to the declared length with the last of
them, and not before. -/
def txtCounts (dataLength : Nat) : Nat → Nat → List Text → Bool
  | _, _, [] => false
  | currentLength, labelLength, [s] =>
    decide (labelLength + s.length < 2 ^ 16) &&
      decide (dataLength ≤ (currentLength + (labelLength + s.length)) % 2 ^ 16)
  | currentLength, labelLength, s :: s' :: rest =>
    let currentLength' := (currentLength + (labelLength + s.length)) % 2 ^ 16
    decide (labelLength + s.length < 2 ^ 16) && decide (currentLength' < dataLength) &&
      decide ((currentLength' + 2) % 2 ^ 16 < dataLength) &&
      txtCounts dataLength ((currentLength' + 2) % 2 ^ 16) (labelLength + s.length + 2) (s' :: rest)

/-- Character strings of 1 to 255 octets, that the count of the reader fits. -/
structure IsTxtData (dataLength : Nat) (strings : List Text) : Prop where
  ne_nil : ∀ s ∈ strings, s ≠ []
  length_lt : ∀ s ∈ strings, s.length < 2 ^ 8
  plain : ∀ s ∈ strings, reverseSolidus ∉ s
  counts : txtCounts dataLength 0 0 strings = true

/-- The separator of the strings in the text of TXT data. -/
def txtSeparator : Text := [reverseSolidus, fullStop]

theorem marshallTxtString_last (hne : s ≠ []) (hlen : s.length < 2 ^ 8)
    (hs : reverseSolidus ∉ s) : marshallTxtString s = .ok (wire s) := by
  obtain ⟨htake, hdrop⟩ := takeWhile_whole hs
  rw [marshallTxtString, htake, marshallCharacterString_eq hne hlen]
  split
  · rfl
  · rename_i heq
    rw [hdrop] at heq
    cases heq
  · rename_i heq
    rw [hdrop] at heq
    cases heq

theorem marshallTxtString_cons {rest : Text} {xs : List UInt8} (hne : s ≠ [])
    (hlen : s.length < 2 ^ 8) (hs : reverseSolidus ∉ s) (h : marshallTxtString rest = .ok xs) :
    marshallTxtString (s ++ txtSeparator ++ rest) = .ok (wire s ++ xs) := by
  obtain ⟨htake, hdrop⟩ := takeWhile_split (fullStop :: rest) hs
  have happend : s ++ txtSeparator ++ rest = s ++ reverseSolidus :: fullStop :: rest := by
    simp [txtSeparator]
  rw [happend, marshallTxtString, htake, marshallCharacterString_eq hne hlen]
  split
  · rename_i heq
    rw [hdrop] at heq
    cases heq
  · rename_i heq
    rw [hdrop] at heq
    injection heq with _ heq
    cases heq
  · rename_i heq
    rw [hdrop] at heq
    injection heq with _ heq
    injection heq with _ heq
    rw [← heq, h]
    rfl

theorem marshallTxtString_eq {strings : List Text} (hnil : strings ≠ [])
    (h : ∀ s ∈ strings, s ≠ [] ∧ s.length < 2 ^ 8 ∧ reverseSolidus ∉ s) :
    marshallTxtString (txtSeparator.intercalate strings) = .ok (strings.flatMap wire) := by
  induction strings with
  | nil => exact absurd rfl hnil
  | cons s strings ih =>
    obtain ⟨hne, hlen, hs⟩ := h s List.mem_cons_self
    cases strings with
    | nil =>
      rw [List.intercalate_singleton, marshallTxtString_last hne hlen hs]
      simp
    | cons s' strings =>
      have hrest := ih (List.cons_ne_nil _ _) fun x hx => h x (List.mem_cons_of_mem s hx)
      rw [List.intercalate_cons_cons, marshallTxtString_cons hne hlen hs hrest]
      simp

variable {dataLength : Nat}

theorem unmarshallTxtLoop_eq {strings : List Text}
    (hlen : ∀ x ∈ s :: strings, x.length < 2 ^ 8) (current : Nat) (label : Text)
    (hcurrent : current < dataLength)
    (hcounts : txtCounts dataLength current label.length (s :: strings) = true)
    (rest : List UInt8) : unmarshallTxtLoop dataLength (UInt8.ofNat s.length) current label
      (s ++ (strings.flatMap wire ++ rest)) =
      .ok (label ++ txtSeparator.intercalate (s :: strings)) rest := by
  induction strings generalizing s current label with
  | nil =>
    simp only [txtCounts, Bool.and_eq_true, decide_eq_true_eq] at hcounts
    obtain ⟨hroom, hend⟩ := hcounts
    rw [unmarshallTxtLoop, if_pos hcurrent, toNat_length (hlen s List.mem_cons_self),
      if_pos (by simp)]
    simp only [List.take_left, List.drop_left, List.length_append, List.flatMap_nil,
      List.nil_append, if_pos hroom, if_neg (not_lt.2 hend), List.intercalate_singleton]
  | cons s' strings ih =>
    simp only [txtCounts, Bool.and_eq_true, decide_eq_true_eq] at hcounts
    obtain ⟨⟨⟨hroom, hmore⟩, hagain⟩, hcounts⟩ := hcounts
    have htail : ∀ x ∈ s' :: strings, x.length < 2 ^ 8 :=
      fun x hx => hlen x (List.mem_cons_of_mem s hx)
    rw [unmarshallTxtLoop, if_pos hcurrent, toNat_length (hlen s List.mem_cons_self),
      if_pos (by simp)]
    simp only [List.take_left, List.length_append, if_pos hroom, if_pos hmore]
    split
    · rename_i heq
      simp [wire] at heq
    · rename_i heq
      simp only [List.drop_left, List.flatMap_cons, wire, List.cons_append,
        List.append_assoc] at heq
      injection heq with h₁ h₂
      have hlabel : (label ++ s ++ txtSeparator).length = label.length + s.length + 2 := by
        simp [txtSeparator, Nat.add_assoc]
      have hih := ih htail _ (label ++ s ++ txtSeparator) hagain (hlabel ▸ hcounts)
      rw [txtSeparator] at hih
      rw [← h₁, ← h₂, hih, List.intercalate_cons_cons, txtSeparator]
      simp

theorem encodes_txt {strings : List Text} (h : IsTxtData dataLength strings)
    (hpos : 0 < dataLength) : Encodes (marshallTxtString (txtSeparator.intercalate strings))
      (unmarshallTxtString dataLength) (txtSeparator.intercalate strings) := by
  cases strings with
  | nil =>
    have hcounts := h.counts
    cases hcounts
  | cons s strings =>
    have hne := length_ne_zero (h.ne_nil s List.mem_cons_self) (h.length_lt s List.mem_cons_self)
    have hfrom : Decodes (unmarshallTxtFrom dataLength (UInt8.ofNat s.length))
        (s ++ strings.flatMap wire) (txtSeparator.intercalate (s :: strings)) := by
      intro rest
      rw [List.append_assoc, unmarshallTxtFrom,
        unmarshallTxtLoop_eq h.length_lt 0 [] hpos h.counts rest, List.nil_append]
    refine ⟨_, marshallTxtString_eq (List.cons_ne_nil _ _) fun x hx =>
      ⟨h.ne_nil x hx, h.length_lt x hx, h.plain x hx⟩, ?_⟩
    refine (Decodes.next _ (UInt8.ofNat s.length)).bind ?_
    rw [if_neg hne]
    exact hfrom

theorem txtCounts_pair {s' : Text} (hs : s.length < 2 ^ 8) (hs' : s'.length < 2 ^ 8)
    (hne : s' ≠ []) : txtCounts (s.length + 1 + (s'.length + 1)) 0 0 [s, s'] = true := by
  have hpos := List.length_pos_of_ne_nil hne
  simp only [txtCounts, Bool.and_eq_true, decide_eq_true_eq]
  omega

/-! ## Records -/

theorem encodes_rrType {t : RRType} (h : t.supported = true) :
    Decodes unmarshallRRType (marshallShort t.code) t := by
  have hcode : t.code < 2 ^ 16 := by cases t <;> decide
  refine (reads_short hcode).map fun rest => ?_
  cases t <;> first | rfl | cases h

/-- The name of a question, and one of the supported types. -/
structure Question.Encodable (q : Question) : Prop where
  rrName : IsDomainName q.rrName
  supported : q.rrType.supported = true

theorem Question.Encodable.encodes {q : Question} (h : q.Encodable) :
    Encodes (marshallQuestion q) unmarshallQuestion q := by
  obtain ⟨name, hm, hr⟩ := encodes_name h.rrName
  refine ⟨name ++ (marshallShort q.rrType.code ++ marshallShort defaultClassCode), ?_, ?_⟩
  · rw [marshallQuestion, hm]
    simp only [bind, Except.bind, if_pos h.supported, List.append_assoc]
    rfl
  · have hcode : q.rrType.code < 2 ^ 16 := by cases q.rrType <;> decide
    refine hr.bind ((reads_short hcode).bind ((reads_short (by decide)).map fun rest => ?_))
    obtain ⟨rrName, rrType⟩ := q
    have hs := h.supported
    cases rrType <;> first | rfl | cases hs

/-- An address of four octets, domain names, and TXT data that the count of the reader fits. -/
def RRData.Encodable (dataLength : Nat) : RRData → Prop
  | .a aAddress => aAddress.length = 4
  | .ptr rrAnswer => IsDomainName rrAnswer
  | .srv d => IsDomainName d.target
  | .txt rrAnswer => ∃ strings, IsTxtData dataLength strings ∧
      rrAnswer = txtSeparator.intercalate strings
  | _ => False

/-- The declared length is the number of octets that the data occupies. -/
def RR.DeclaresLength (r : RR) : Prop :=
  ∃ data, marshallRRData r.rrData = .ok data ∧ data.length = r.dataLength.toNat

structure RR.Encodable (r : RR) : Prop where
  rrName : IsDomainName r.rrName
  rrData : r.rrData.Encodable r.dataLength.toNat
  declaresLength : r.DeclaresLength

theorem supported_of_encodable {d : RRData} (h : d.Encodable dataLength) :
    d.rrType.supported = true := by
  cases d <;> first | rfl | cases h

theorem encodes_rrData {d : RRData} (h : d.Encodable dataLength)
    (hlen : ∃ data, marshallRRData d = .ok data ∧ data.length = dataLength) :
    Encodes (marshallRRData d) (unmarshallRRData d.rrType dataLength) d := by
  cases d with
  | a aAddress =>
    match aAddress, h with
    | [o₁, o₂, o₃, o₄], _ =>
      exact ⟨[o₁, o₂, o₃, o₄], rfl, fun rest => rfl⟩
  | ptr rrAnswer =>
    obtain ⟨xs, hm, hr⟩ := encodes_name h
    exact ⟨xs, hm, hr.map fun rest => rfl⟩
  | srv d =>
    obtain ⟨xs, hm, hr⟩ := encodes_name h
    refine ⟨marshallShort d.priority.toNat ++ (marshallShort d.weight.toNat ++
      (marshallShort d.port.toNat ++ xs)), ?_, ?_⟩
    · simp only [marshallRRData, hm, bind, Except.bind, List.append_assoc]
      rfl
    · refine (reads_uint16 d.priority).bind <| (reads_uint16 d.weight).bind <|
        (reads_uint16 d.port).bind <| hr.map fun rest => ?_
      simp only [UInt16.ofNat_toNat]
      rfl
  | txt rrAnswer =>
    obtain ⟨strings, hs, rfl⟩ := h
    obtain ⟨data, hdata, hlen⟩ := hlen
    have hpos : 0 < dataLength := by
      rw [← hlen]
      refine List.length_pos_of_ne_nil fun hnil => ?_
      cases strings with
      | nil =>
        have hcounts := hs.counts
        cases hcounts
      | cons s strings =>
        have heq := marshallTxtString_eq (List.cons_ne_nil s strings) fun x hx =>
          ⟨hs.ne_nil x hx, hs.length_lt x hx, hs.plain x hx⟩
        rw [marshallRRData, heq, hnil] at hdata
        cases hdata
    obtain ⟨xs, hm, hr⟩ := encodes_txt hs hpos
    exact ⟨xs, hm, hr.map fun rest => rfl⟩
  | ns rrAnswer => cases h
  | soa rrAnswer => cases h
  | cname rrAnswer => cases h

theorem RR.Encodable.encodes {r : RR} (h : r.Encodable) :
    Encodes (marshallRR r) unmarshallRR r := by
  obtain ⟨name, hname, hrname⟩ := encodes_name h.rrName
  obtain ⟨data, hdata, hrdata⟩ := encodes_rrData h.rrData h.declaresLength
  have hsupported := supported_of_encodable h.rrData
  refine ⟨name ++ (marshallShort r.rrData.rrType.code ++ (marshallShort defaultClassCode ++
    (marshallLong r.ttl.toNat ++ (marshallShort r.dataLength.toNat ++ data)))), ?_, ?_⟩
  · simp only [marshallRR, hname, hdata, bind, Except.bind, if_pos hsupported, List.append_assoc]
    rfl
  · refine hrname.bind <| (encodes_rrType hsupported).bind <|
      (reads_short (v := 1) (by decide)).bind <| (reads_long r.ttl).bind <|
      (reads_uint16 r.dataLength).bind <| hrdata.map fun rest => ?_
    simp only [UInt16.ofNat_toNat, UInt32.ofNat_toNat]
    rfl

theorem encodes_rrs {rs : List RR} (h : ∀ r ∈ rs, r.Encodable) :
    Encodes (marshallRRs rs) (times unmarshallRR rs.length) rs := by
  obtain ⟨xss, hm, hr⟩ := encodes_all (f := id) fun r hr => (h r hr).encodes
  refine ⟨xss.flatten, ?_, by simpa using hr⟩
  rw [marshallRRs, hm]
  rfl

/-! ## Headers -/

/-- What is told by the bits of the flags of a message. -/
structure HasFlags (flags : UInt16) (isReply : Bool) (opcode : Opcode) (authoritative : Bool)
    (rcode : Rcode) : Prop where
  isReply : isSet qrFlagPos flags = isReply
  iquery : isSet (opcodeFlagPos + 3) flags = decide (opcode = .iquery)
  status : isSet (opcodeFlagPos + 2) flags = decide (opcode = .status)
  authoritative : isSet aaFlagPos flags = authoritative
  tcFlag : isSet tcFlagPos flags = false
  recFlag : isSet recFlagPos flags = false
  rcode : ∀ bit ∈ [0, 1, 2, 3], isSet (rcodeFlagPos + bit) flags = decide (bit ∈ rcode.bits)

theorem exists_requestFlags (opcode : Opcode) (authoritative : Bool) :
    ∃ flags, requestFlags opcode authoritative = .ok flags ∧
      HasFlags flags false opcode authoritative .noError := by
  cases opcode <;> cases authoritative <;>
    exact ⟨_, rfl, by decide, by decide, by decide, by decide, by decide, by decide, by decide⟩

theorem exists_replyFlags {opcode : Opcode} (h : opcode ≠ .status) (authoritative : Bool)
    (rcode : Rcode) : ∃ flags, replyFlags opcode authoritative rcode = .ok flags ∧
      HasFlags flags true opcode authoritative rcode := by
  cases opcode with
  | query =>
    cases authoritative <;> cases rcode <;>
      exact ⟨_, rfl, by decide, by decide, by decide, by decide, by decide, by decide, by decide⟩
  | iquery =>
    cases authoritative <;> cases rcode <;>
      exact ⟨_, rfl, by decide, by decide, by decide, by decide, by decide, by decide, by decide⟩
  | status => exact absurd rfl h

/-- The context that a header with no truncation and no recursion makes. -/
def messageCtx (isReply : Bool) (requestId : Nat) (opcode : Opcode) (authoritative : Bool)
    (rcode : Rcode) (nbQuestions nbAnswers nbAuthServers nbAddInfos : Nat) : DnsMessageCtx where
  isReply := isReply
  requestId := requestId
  opcode := opcode
  aaFlag := authoritative
  tcFlag := false
  recFlag := false
  recDispFlag := false
  rcode := rcode
  nbQuestions := nbQuestions
  nbAnswers := nbAnswers
  nbAuthServers := nbAuthServers
  nbAddInfos := nbAddInfos

theorem reads_header {flags : UInt16} {isReply authoritative : Bool} {opcode : Opcode}
    {rcode : Rcode} (hf : HasFlags flags isReply opcode authoritative rcode)
    (hrcode : rcode = .noError ∨ rcode = .nameError) {id q a u i : Nat} (hid : id < 2 ^ 16)
    (hq : q < 2 ^ 16) (ha : a < 2 ^ 16) (hu : u < 2 ^ 16) (hi : i < 2 ^ 16) (old : Rcode) :
    Decodes (unmarshallHeader old) (marshallHeader id flags q a u i)
      (messageCtx isReply id opcode authoritative rcode q a u i) := by
  have hbit := hf.rcode
  have hopcode : (if isSet (opcodeFlagPos + 3) flags = true then Opcode.iquery
      else if isSet (opcodeFlagPos + 2) flags = true then .status else .query) = opcode := by
    rw [hf.iquery, hf.status]
    cases opcode <;> rfl
  have hcode : ∀ k n, DnsHeader.rcode ⟨k, flags, n⟩ old = rcode := by
    intro k n
    have h0 : isSet rcodeFlagPos flags = decide (0 ∈ rcode.bits) := hbit 0 (by simp)
    have h1 := hbit 1 (by simp)
    have h2 := hbit 2 (by simp)
    have h3 := hbit 3 (by simp)
    rw [DnsHeader.rcode]
    simp only [h0, h1, h2, h3]
    rcases hrcode with rfl | rfl <;> rfl
  have hdisp : isSet (rcodeFlagPos + 3) flags = false := by
    rw [hbit 3 (by simp)]
    rcases hrcode with rfl | rfl <;> rfl
  have hmarshall : marshallHeader id flags q a u i = marshallShort id ++
      (marshallShort flags.toNat ++ (marshallShort q ++ (marshallShort a ++ (marshallShort u ++
        marshallShort i)))) := by
    simp [marshallHeader]
  refine (reads_short hid).bind <| (reads_uint16 flags).bind <| (reads_short hq).bind <|
    (reads_short ha).bind <| (reads_short hu).bind <| (reads_short hi).map fun rest => ?_
  simp only [UInt16.ofNat_toNat, hopcode, hcode, hdisp, hf.isReply, hf.authoritative, hf.tcFlag,
    hf.recFlag]
  rfl

theorem toUnsignedShort_eq {n : Nat} (h : n < 2 ^ 16) : toUnsignedShort n = .ok n := if_pos h

/-! ## Messages -/

/-- The identifier and the number of questions can be encoded. -/
structure DnsRequest.Encodable (r : DnsRequest) : Prop where
  requestId : r.requestId < 2 ^ 16
  length : r.questions.length < 2 ^ 16
  questions : ∀ q ∈ r.questions, q.Encodable

/-- What a server has to find in a request. -/
def DnsRequest.contents (r : DnsRequest) : DnsContents where
  header := messageCtx false r.requestId r.opcode r.authoritative .noError r.questions.length 0 0 0
  questions := r.questions
  answers := []
  authority := []
  additional := []

/-- The reply is not one to a status query and has one of the codes that are told apart; when a name
is not found, there are no records. -/
structure DnsReply.Encodable (r : DnsReply) : Prop where
  requestId : r.requestId < 2 ^ 16
  opcode : r.opcode ≠ .status
  rcode : r.rcode = .noError ∨
    r.rcode = .nameError ∧ r.answers = [] ∧ r.authority = [] ∧ r.additional = []
  answers : r.answers.length < 2 ^ 16 ∧ ∀ x ∈ r.answers, x.Encodable
  authority : r.authority.length < 2 ^ 16 ∧ ∀ x ∈ r.authority, x.Encodable
  additional : r.additional.length < 2 ^ 16 ∧ ∀ x ∈ r.additional, x.Encodable

/-- What a client has to find in a reply. -/
def DnsReply.contents (r : DnsReply) : DnsContents where
  header := messageCtx true r.requestId r.opcode r.authoritative r.rcode 0 r.answers.length
    r.authority.length r.additional.length
  questions := []
  answers := r.answers
  authority := r.authority
  additional := r.additional

theorem reads_raiseIf {c : Prop} [Decidable c] (hc : ¬c) (e : Exn) :
    Decodes (raiseIf c e : DnsReader Unit) [] () :=
  fun rest => by rw [raiseIf_false hc]; rfl

theorem DnsRequest.Encodable.encodes {r : DnsRequest} (h : r.Encodable) {s : DnsReceiver}
    (hs : s.role = .server) : Encodes r.marshall s.unmarshall r.contents := by
  obtain ⟨flags, hflags, hf⟩ := exists_requestFlags r.opcode r.authoritative
  obtain ⟨body, hbody, hread⟩ := encodes_all (f := id) fun q hq => (h.questions q hq).encodes
  rw [List.map_id] at hread
  refine ⟨marshallHeader r.requestId flags r.questions.length 0 0 0 ++ body.flatten, ?_, ?_⟩
  · simp only [marshall, toUnsignedShort_eq h.length, toUnsignedShort_eq h.requestId, hflags, hbody,
      bind, Except.bind]
    rfl
  · have hprocess : Decodes (s.processMessage r.contents.header) body.flatten r.contents := by
      refine (reads_raiseIf (not_not.2 hs) _).skip ?_
      exact hread.map fun rest => rfl
    exact (reads_header hf (.inl rfl) h.requestId h.length (by decide) (by decide) (by decide)
      s.rcode).bind hprocess

structure DnsReply.AwaitedBy (r : DnsReply) (s : DnsReceiver) : Prop where
  role : s.role = .client
  requestId : r.requestId ∈ s.pendingReqs

theorem DnsReply.Encodable.encodes {r : DnsReply} (h : r.Encodable) {s : DnsReceiver}
    (hs : r.AwaitedBy s) : Encodes r.marshall s.unmarshall r.contents := by
  obtain ⟨flags, hflags, hf⟩ := exists_replyFlags h.opcode r.authoritative r.rcode
  obtain ⟨answers, hanswers, hreadAnswers⟩ := encodes_rrs h.answers.2
  obtain ⟨authority, hauthority, hreadAuthority⟩ := encodes_rrs h.authority.2
  obtain ⟨additional, hadditional, hreadAdditional⟩ := encodes_rrs h.additional.2
  have hrcode : r.rcode = .noError ∨ r.rcode = .nameError := h.rcode.imp id And.left
  refine ⟨marshallHeader r.requestId flags 0 r.answers.length r.authority.length
    r.additional.length ++ (answers ++ (authority ++ additional)), ?_, ?_⟩
  · simp only [marshall, toUnsignedShort_eq h.requestId, toUnsignedShort_eq h.answers.1,
      toUnsignedShort_eq h.authority.1, toUnsignedShort_eq h.additional.1, hflags, hanswers,
      hauthority, hadditional, bind, Except.bind, List.append_assoc]
    rfl
  · have hprocess : Decodes (s.processMessage r.contents.header)
        (answers ++ (authority ++ additional)) r.contents := by
      refine (reads_raiseIf (not_not.2 hs.role) _).skip ?_
      refine (reads_raiseIf (not_not.2 hs.requestId) _).skip ?_
      rcases h.rcode with hcode | ⟨hcode, ha, hu, hi⟩
      · rw [if_pos (show r.contents.header.rcode = .noError from hcode)]
        exact hreadAnswers.bind <| hreadAuthority.bind <| hreadAdditional.map fun rest => rfl
      · have hne : r.contents.header.rcode ≠ .noError := by
          rw [show r.contents.header.rcode = r.rcode from rfl, hcode]
          decide
        have hnil : answers ++ (authority ++ additional) = [] := by
          rw [ha] at hanswers
          rw [hu] at hauthority
          rw [hi] at hadditional
          cases hanswers
          cases hauthority
          cases hadditional
          rfl
        rw [if_neg hne]
        show Decodes _ (answers ++ (authority ++ additional)) _
        rw [hnil]
        intro rest
        rw [DnsReply.contents, ha, hu, hi]
        rfl
    exact (reads_header hf hrcode h.requestId (by decide) h.answers.1 h.authority.1 h.additional.1
      s.rcode).bind hprocess

/-! ## The codec -/

/-- What is marshalled is what the session reads, as the contents, and it is all that it reads. -/
def RoundTrip (m : Except Exn (List UInt8)) (s : DnsReceiver) (c : DnsContents) : Prop :=
  ∃ octets, m = .ok octets ∧ s.unmarshall octets = .ok c []

theorem Encodes.roundTrip {m : Except Exn (List UInt8)} {s : DnsReceiver} {c : DnsContents}
    (h : Encodes m s.unmarshall c) : RoundTrip m s c := by
  obtain ⟨octets, hm, hr⟩ := h
  exact ⟨octets, hm, hr.exact⟩

def commFailure : SysError := ⟨.commFailureE, 0, .completedMaybe⟩

theorem handleDataIndication_cases (s : DnsReceiver) (data : List UInt8) :
    (∃ c, s.handleDataIndication data = .ok c) ∨
      s.handleDataIndication data = .error commFailure := by
  rw [DnsReceiver.handleDataIndication]
  cases s.unmarshall data with
  | ok c rest => exact .inl ⟨c, rfl⟩
  | error e rest => exact .inr rfl

theorem messages_round_trip :
    (∀ (r : DnsRequest) (s : DnsReceiver), r.Encodable → s.role = .server →
      RoundTrip r.marshall s r.contents) ∧
    (∀ (r : DnsReply) (s : DnsReceiver), r.Encodable → r.AwaitedBy s →
      RoundTrip r.marshall s r.contents ∧
        ∀ x ∈ r.answers ++ r.authority ++ r.additional, x.DeclaresLength) ∧
    ∀ (s : DnsReceiver) (data : List UInt8), (∃ c, s.handleDataIndication data = .ok c) ∨
      s.handleDataIndication data = .error commFailure := by
  refine ⟨fun r s h hs => (h.encodes hs).roundTrip, fun r s h hs => ⟨(h.encodes hs).roundTrip, ?_⟩,
    handleDataIndication_cases⟩
  intro x hx
  rcases List.mem_append.1 hx with hx | hx
  · rcases List.mem_append.1 hx with hx | hx
    · exact (h.answers.2 x hx).declaresLength
    · exact (h.authority.2 x hx).declaresLength
  · exact (h.additional.2 x hx).declaresLength

/-! ## The answers of the mDNS servant -/

/-- "reference=" -/
def referenceKey : Text := [114, 101, 102, 101, 114, 101, 110, 99, 101, 61]

/-- "version=" -/
def versionKey : Text := [118, 101, 114, 115, 105, 111, 110, 61]

/-- The record that `Find_Answer_RR` answers with: the declared length is that of the text. -/
def txtAnswer (name reference version : Text) : RR :=
  let rrAnswer := referenceKey ++ reference ++ txtSeparator ++ (versionKey ++ version)
  { rrName := name
    ttl := 240
    dataLength := UInt16.ofNat rrAnswer.length
    rrData := .txt rrAnswer }

/-- The length of the text is that of the data, because the two strings have one separator, of two
characters. -/
theorem txtAnswer_encodable {name reference version : Text} (hname : IsDomainName name)
    (hr : referenceKey.length + reference.length < 2 ^ 8)
    (hv : versionKey.length + version.length < 2 ^ 8) (hrp : reverseSolidus ∉ reference)
    (hvp : reverseSolidus ∉ version) : (txtAnswer name reference version).Encodable := by
  obtain ⟨s, hs⟩ : ∃ s, s = referenceKey ++ reference := ⟨_, rfl⟩
  obtain ⟨s', hs'⟩ : ∃ s', s' = versionKey ++ version := ⟨_, rfl⟩
  have hne : s ≠ [] := by simp [hs, referenceKey]
  have hne' : s' ≠ [] := by simp [hs', versionKey]
  have hlen : s.length < 2 ^ 8 := by rwa [hs, List.length_append]
  have hlen' : s'.length < 2 ^ 8 := by rwa [hs', List.length_append]
  have hplain : reverseSolidus ∉ s := by
    rw [hs, List.mem_append, not_or]
    exact ⟨by decide, hrp⟩
  have hplain' : reverseSolidus ∉ s' := by
    rw [hs', List.mem_append, not_or]
    exact ⟨by decide, hvp⟩
  have htext : referenceKey ++ reference ++ txtSeparator ++ (versionKey ++ version) =
      txtSeparator.intercalate [s, s'] := by
    rw [List.intercalate_cons_cons, List.intercalate_singleton, hs, hs']
  have hdl : (txtAnswer name reference version).dataLength.toNat =
      s.length + 1 + (s'.length + 1) := by
    have htotal : (txtSeparator.intercalate [s, s']).length = s.length + 1 + (s'.length + 1) := by
      simp [txtSeparator]
      omega
    simp only [txtAnswer]
    rw [htext, htotal, UInt16.toNat_ofNat']
    exact Nat.mod_eq_of_lt (by omega)
  have hall : ∀ x ∈ [s, s'], x ≠ [] ∧ x.length < 2 ^ 8 ∧ reverseSolidus ∉ x := by
    intro x hx
    rcases List.mem_pair.1 hx with rfl | rfl
    · exact ⟨hne, hlen, hplain⟩
    · exact ⟨hne', hlen', hplain'⟩
  refine ⟨hname, ⟨[s, s'], ⟨fun x hx => (hall x hx).1, fun x hx => (hall x hx).2.1,
    fun x hx => (hall x hx).2.2, ?_⟩, htext⟩, [s, s'].flatMap wire, ?_, ?_⟩
  · rw [hdl]
    exact txtCounts_pair hlen hlen' hne'
  · show marshallTxtString _ = _
    rw [htext, marshallTxtString_eq (List.cons_ne_nil _ _) hall]
  · simp [wire]
    omega

/-! ## A request and two replies -/

/-- The server of a question for "a" is found. -/
theorem messages_round_trip_answered :
    RoundTrip (DnsRequest.marshall ⟨7, .query, false, [⟨[97], .srv⟩]⟩) ⟨.server, [], .noError⟩
      (DnsRequest.contents ⟨7, .query, false, [⟨[97], .srv⟩]⟩) ∧
    RoundTrip (DnsReply.marshall ⟨7, .query, true, .noError, [txtAnswer [97] [98] [49]], [], []⟩)
      ⟨.client, [7], .noError⟩
      (DnsReply.contents ⟨7, .query, true, .noError, [txtAnswer [97] [98] [49]], [], []⟩) := by
  have hname : IsDomainName [97] := ⟨[[97]], by simp [fullStop], rfl⟩
  have hanswer : (txtAnswer [97] [98] [49]).Encodable :=
    txtAnswer_encodable hname (by decide) (by decide) (by decide) (by decide)
  refine ⟨messages_round_trip.1 _ _ ⟨by decide, by simp, ?_⟩ rfl,
    (messages_round_trip.2.1 _ _ ⟨by decide, by decide, .inl rfl, ⟨by simp, ?_⟩, ⟨by simp, by simp⟩,
      ⟨by simp, by simp⟩⟩ ⟨rfl, by simp⟩).1⟩
  · intro q hq
    rw [List.mem_singleton.1 hq]
    exact ⟨hname, rfl⟩
  · intro x hx
    rw [List.mem_singleton.1 hx]
    exact hanswer

/-- A reply that the query is refused is read as one with no error. -/
theorem not_roundTrip_refused :
    ¬RoundTrip (DnsReply.marshall ⟨7, .query, false, .refused, [], [], []⟩)
      ⟨.client, [7], .noError⟩ (DnsReply.contents ⟨7, .query, false, .refused, [], [], []⟩) := by
  rintro ⟨octets, hm, hr⟩
  have hread : (DnsReceiver.unmarshall ⟨.client, [7], .noError⟩
      [0, 7, 128, 5, 0, 0, 0, 0, 0, 0, 0, 0]) =
      .ok (DnsReply.contents ⟨7, .query, false, .noError, [], [], []⟩) [] := rfl
  have hoctets : octets = [0, 7, 128, 5, 0, 0, 0, 0, 0, 0, 0, 0] := by
    injection hm with hm
    exact hm.symm
  rw [hoctets, hread] at hr
  injection hr with hr
  exact absurd hr (by decide)

end PolyORB
