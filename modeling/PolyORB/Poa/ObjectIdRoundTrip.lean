import PolyORB.Poa.ObjectIdCodec

/-!
# Which object ids come back

An unmarshalled id comes back from its octets when its id has no `/`.  Octets that are no encoding
are answered as they should be only if the parts that are tested show it.
-/

namespace PolyORB

open Character Numerals

/-! ## Octets received as a key -/

/-- What follows the last `/`. -/
def keyTail (oid : ObjectId) : ObjectId := (oid.reverse.takeWhile (· != slash)).reverse

/-- The length that the first eight digits announce. -/
def idLength (rest : ObjectId) : Nat := ulongOf (rest.take 8)

/-- The id is not complete, or what follows it is neither `F` nor `T`, or the stamp is not
complete; but the letter is there. -/
def RefusedBody (rest : ObjectId) : Prop :=
  rest ≠ [] ∧ (rest.length < 8 + idLength rest ∨
    ∃ c, rest[8 + idLength rest]? = some c ∧
      ((c ≠ 70 ∧ c ≠ 84) ∨ rest.length < 25 + idLength rest))

/-- Nothing is missing and nothing is left, and the digits are those that `Hex` writes. -/
def Canonical (rest : ObjectId) : Prop :=
  rest.length = 25 + idLength rest ∧ (∀ c ∈ rest.take 8, IsLowerHex c) ∧
    (∃ c, rest[8 + idLength rest]? = some c ∧ (c = 70 ∨ c = 84)) ∧
    ∀ c ∈ rest.drop (9 + idLength rest), IsLowerHex c

/-- Keys that are refused, or read as what they are, into a variable with the given id. -/
def ReadsWell (oldId : Text) (oid : ObjectId) : Prop :=
  oid.length ≤ integerLast ∧ slash ∈ oid ∧ (RefusedBody (keyTail oid) ∨
    (Canonical (keyTail oid) ∧ (idLength (keyTail oid) = 0 → oldId = [])))

/-- The answer is a value whose encoding is the key, or the error. -/
def Answers (host : Endianness) (oid : ObjectId) :
    Except Exn (UnmarshalledOid × Option ErrorId) → Prop
  | .ok (uOid, none) => uOidToOid host uOid = oid
  | .ok (_, some e) => e = .invalidObjectIdE
  | .error _ => False

theorem keyTail_eq {creator rest : Text} (h : slash ∉ rest) :
    keyTail (creator ++ slash :: rest) = rest := by
  have hall : ∀ c ∈ rest.reverse, (c != slash) = true := by
    intro c hc
    rw [bne_iff_ne]
    rintro rfl
    exact h (List.mem_reverse.1 hc)
  rw [keyTail, List.reverse_append, List.reverse_cons, List.append_assoc,
    List.takeWhile_append_of_pos hall]
  simp

theorem exists_creator {oid : ObjectId} (h : slash ∈ oid) :
    ∃ creator rest, oid = creator ++ slash :: rest ∧ slash ∉ rest := by
  obtain ⟨l, r, heq, hl⟩ := List.eq_append_cons_of_mem (List.mem_reverse.2 h)
  refine ⟨r.reverse, l.reverse, ?_, by simpa using hl⟩
  rw [← List.reverse_reverse oid, heq]
  simp

theorem idLength_eq {w rest : ObjectId} (hw : w.length = 8) : idLength (w ++ rest) = ulongOf w := by
  rw [idLength, ← hw, List.take_left]

/-! ## The parts of what follows the creator -/

/-- How far what follows the creator can be read. -/
inductive KeyParts : ObjectId → Prop where
  | short {rest} : rest.length < 8 → KeyParts rest
  | past {w rest} : w.length = 8 → rest.length < ulongOf w → KeyParts (w ++ rest)
  | noFlag {w id} : w.length = 8 → ulongOf w = id.length → KeyParts (w ++ id)
  | badFlag {w id rest} {c : UInt8} : w.length = 8 → ulongOf w = id.length → c ≠ 70 → c ≠ 84 →
      KeyParts (w ++ (id ++ c :: rest))
  | shortStamp {w id rest} {b : Bool} : w.length = 8 → ulongOf w = id.length → rest.length < 16 →
      KeyParts (w ++ (id ++ (putBoolean b ++ rest)))
  | complete {w id u v rest} {b : Bool} : w.length = 8 → ulongOf w = id.length → u.length = 8 →
      v.length = 8 → KeyParts (w ++ (id ++ (putBoolean b ++ (u ++ (v ++ rest)))))

theorem exists_prefix {n : Nat} {l : ObjectId} (h : n ≤ l.length) :
    ∃ w rest, w.length = n ∧ l = w ++ rest :=
  ⟨l.take n, l.drop n, by rw [List.length_take]; omega, (List.take_append_drop n l).symm⟩

theorem keyParts (rest : ObjectId) : KeyParts rest := by
  by_cases h8 : rest.length < 8
  · exact .short h8
  · obtain ⟨w, rest, hw, rfl⟩ := exists_prefix (not_lt.1 h8)
    by_cases hid : rest.length < ulongOf w
    · exact .past hw hid
    · obtain ⟨id, rest, hlen, rfl⟩ := exists_prefix (not_lt.1 hid)
      cases rest with
      | nil =>
        rw [List.append_nil]
        exact .noFlag hw hlen.symm
      | cons c rest =>
        by_cases hc : c ≠ 70 ∧ c ≠ 84
        · exact .badFlag hw hlen.symm hc.1 hc.2
        · obtain ⟨b, hb⟩ : ∃ b, c :: rest = putBoolean b ++ rest := by
            rcases not_and_or.1 hc with hc | hc
            · exact ⟨false, by rw [not_not.1 hc]; rfl⟩
            · exact ⟨true, by rw [not_not.1 hc]; rfl⟩
          rw [hb]
          by_cases h16 : rest.length < 16
          · exact .shortStamp hw hlen.symm h16
          · obtain ⟨u, rest, hu, rfl⟩ := exists_prefix (show 8 ≤ rest.length by omega)
            rw [List.length_append, hu] at h16
            obtain ⟨v, rest, hv, rfl⟩ := exists_prefix (show 8 ≤ rest.length by omega)
            exact .complete hw hlen.symm hu hv

section Parts

variable {w id rest : ObjectId}

theorem getElem?_flag {c : UInt8} (hw : w.length = 8) (h : ulongOf w = id.length) :
    (w ++ (id ++ c :: rest))[8 + idLength (w ++ (id ++ c :: rest))]? = some c := by
  rw [idLength_eq hw, h, ← hw, List.getElem?_append_right (by omega)]
  simp

theorem refused_short (hne : rest ≠ []) (h : rest.length < 8) : RefusedBody rest :=
  ⟨hne, .inl (by omega)⟩

theorem refused_past (hw : w.length = 8) (h : rest.length < ulongOf w) : RefusedBody (w ++ rest) := by
  refine ⟨by rintro hnil; simp_all, .inl ?_⟩
  rw [idLength_eq hw, List.length_append]
  omega

theorem refused_badFlag {c : UInt8} (hw : w.length = 8) (h : ulongOf w = id.length) (hf : c ≠ 70)
    (ht : c ≠ 84) : RefusedBody (w ++ (id ++ c :: rest)) :=
  ⟨by simp, .inr ⟨c, getElem?_flag hw h, .inl ⟨hf, ht⟩⟩⟩

theorem refused_shortStamp {b : Bool} (hw : w.length = 8) (h : ulongOf w = id.length)
    (hrest : rest.length < 16) : RefusedBody (w ++ (id ++ (putBoolean b ++ rest))) := by
  refine ⟨by simp [putBoolean], .inr ⟨_, getElem?_flag hw h, .inr ?_⟩⟩
  rw [idLength_eq hw]
  simp [hw, h, putBoolean]
  omega

theorem not_refused_noFlag (hw : w.length = 8) (h : ulongOf w = id.length) :
    ¬RefusedBody (w ++ id) := by
  rintro ⟨-, hlt | ⟨c, hc, -⟩⟩
  · rw [idLength_eq hw, List.length_append] at hlt
    omega
  · have hlt := (List.getElem?_eq_some_iff.1 hc).1
    rw [idLength_eq hw, List.length_append] at hlt
    omega

theorem not_canonical_noFlag (hw : w.length = 8) (h : ulongOf w = id.length) :
    ¬Canonical (w ++ id) := by
  rintro ⟨hlen, -⟩
  rw [idLength_eq hw, List.length_append] at hlen
  omega

theorem not_refused_complete {u v : ObjectId} {b : Bool} (hw : w.length = 8)
    (h : ulongOf w = id.length) (hu : u.length = 8) (hv : v.length = 8) :
    ¬RefusedBody (w ++ (id ++ (putBoolean b ++ (u ++ (v ++ rest))))) := by
  have hlen : (w ++ (id ++ (putBoolean b ++ (u ++ (v ++ rest))))).length =
      25 + ulongOf w + rest.length := by
    simp [hw, hu, hv, h, putBoolean]
    omega
  rintro ⟨-, hlt | ⟨c, hc, hbad | hlt⟩⟩
  · rw [hlen, idLength_eq hw] at hlt
    omega
  · have hflag : some c = some (if b = true then 84 else 70) := by
      rw [← hc]
      exact getElem?_flag hw h
    cases b <;> simp_all
  · rw [hlen, idLength_eq hw] at hlt
    omega

theorem canonical_complete {u v : ObjectId} {b : Bool} (hw : w.length = 8)
    (h : ulongOf w = id.length) (hu : u.length = 8) (hv : v.length = 8) :
    Canonical (w ++ (id ++ (putBoolean b ++ (u ++ (v ++ rest))))) ↔
      rest = [] ∧ (∀ c ∈ w, IsLowerHex c) ∧ (∀ c ∈ u, IsLowerHex c) ∧ ∀ c ∈ v, IsLowerHex c := by
  have hlen : (w ++ (id ++ (putBoolean b ++ (u ++ (v ++ rest))))).length =
      25 + ulongOf w + rest.length := by
    simp [hw, hu, hv, h, putBoolean]
    omega
  have hdrop : (w ++ (id ++ (putBoolean b ++ (u ++ (v ++ rest))))).drop (9 + ulongOf w) =
      u ++ (v ++ rest) := by
    have hpos : 9 + ulongOf w = (w ++ (id ++ putBoolean b)).length := by
      simp [hw, h, putBoolean]
      omega
    rw [hpos, ← List.append_assoc id, ← List.append_assoc w (id ++ putBoolean b), List.drop_left]
  have htake : (w ++ (id ++ (putBoolean b ++ (u ++ (v ++ rest))))).take 8 = w := by
    rw [← hw, List.take_left]
  rw [Canonical, hlen, idLength_eq hw, hdrop, htake]
  constructor
  · rintro ⟨hall, hdigits, -, hstamp⟩
    refine ⟨List.length_eq_zero_iff.1 (by omega), hdigits, ?_, ?_⟩
    · exact fun c hc => hstamp c (List.mem_append_left _ hc)
    · exact fun c hc => hstamp c (List.mem_append_right _ (List.mem_append_left _ hc))
  · rintro ⟨rfl, hdigits, hfirst, hsecond⟩
    refine ⟨rfl, hdigits, ⟨if b = true then 84 else 70, ?_, by cases b <;> simp⟩, ?_⟩
    · have hid : idLength (w ++ (id ++ (putBoolean b ++ (u ++ (v ++ []))))) = ulongOf w :=
        idLength_eq hw
      rw [← hid]
      exact getElem?_flag hw h
    · intro c hc
      rw [List.append_nil] at hc
      exact (List.mem_append.1 hc).elim (hfirst c) (hsecond c)

end Parts

/-! ## The two halves -/

section Halves

variable {host : Endianness} {before : UnmarshalledOid}

theorem length_uOidToOid (u : UnmarshalledOid) :
    (uOidToOid host u).length = u.creator.length + 26 + u.id.length := by
  simp [uOidToOid, putString, putBoolean, putTimeStamp]
  omega

theorem answers_refuses {oid : ObjectId} {r : Except Exn (UnmarshalledOid × Option ErrorId)}
    (h : Refuses r) : Answers host oid r := by
  obtain ⟨u, rfl⟩ := h
  rfl

theorem putULong_eq_iff {w : ObjectId} (hw : w.length = 8) :
    putULong (ulongOf w) = w ↔ ∀ c ∈ w, IsLowerHex c := by
  constructor
  · intro h c hc
    rw [← h] at hc
    exact isLowerHex_of_mem_putULong hc
  · exact putULong_ulongOf hw

/-- The value read from complete parts is encoded as these parts, if the digits are those of
`Hex`. -/
theorem uOidToOid_complete {creator w id u v : Text} {b : Bool} (hw : w.length = 8)
    (h : ulongOf w = id.length) (hu : u.length = 8) (hv : v.length = 8) :
    uOidToOid host ⟨if id = [] then before.id else id, creator, b,
        fromULongs host (ulongOf u) (ulongOf v)⟩ =
      creator ++ slash :: (w ++ (id ++ (putBoolean b ++ (u ++ v)))) ↔
    ((∀ c ∈ w, IsLowerHex c) ∧ (∀ c ∈ u, IsLowerHex c) ∧ ∀ c ∈ v, IsLowerHex c) ∧
      (id = [] → before.id = []) := by
  have hmod : id.length % unsignedLongModulus = ulongOf w := by
    rw [← h, Nat.mod_eq_of_lt (ulongOf_lt hw)]
  have hsame : uOidToOid host ⟨id, creator, b, fromULongs host (ulongOf u) (ulongOf v)⟩ =
      creator ++ slash :: (w ++ (id ++ (putBoolean b ++ (u ++ v)))) ↔
      (∀ c ∈ w, IsLowerHex c) ∧ (∀ c ∈ u, IsLowerHex c) ∧ ∀ c ∈ v, IsLowerHex c := by
    rw [← putULong_eq_iff hw, ← putULong_eq_iff hu, ← putULong_eq_iff hv, uOidToOid, putTimeStamp,
      toULongs_fromULongs host (ulongOf_lt hu) (ulongOf_lt hv)]
    simp only [putString, hmod, List.append_assoc, if_pos, Bool.false_eq_true, if_false]
    rw [List.append_cancel_left_eq, List.cons.injEq, eq_self, true_and]
    constructor
    · intro heq
      obtain ⟨hw', heq⟩ := List.append_inj heq (by simp [hw])
      rw [List.append_cancel_left_eq, List.append_cancel_left_eq] at heq
      obtain ⟨hu', hv'⟩ := List.append_inj heq (by simp [hu])
      exact ⟨hw', hu', hv'⟩
    · rintro ⟨hw', hu', hv'⟩
      rw [hw', hu', hv']
  by_cases hid : id = []
  · rw [if_pos hid]
    by_cases hold : before.id = []
    · rw [hold, ← hid, hsame]
      simp
    · constructor
      · intro heq
        have hlen := congrArg List.length heq
        have hpos := List.length_pos_iff.2 hold
        rw [length_uOidToOid] at hlen
        simp only [List.length_append, List.length_cons, List.length_nil, hw, hu, hv, hid,
          putBoolean] at hlen
        omega
      · rintro ⟨-, hempty⟩
        exact absurd (hempty hid) hold
  · rw [if_neg hid, hsame]
    simp [hid]

theorem answers_iff_of_parts {creator rest : Text} (hr : slash ∉ rest)
    (hlen : (creator ++ slash :: rest).length ≤ integerLast) :
    Answers host (creator ++ slash :: rest)
        (oidToUOid host none (creator ++ slash :: rest) before) ↔
      RefusedBody rest ∨ (Canonical rest ∧ (idLength rest = 0 → before.id = [])) := by
  by_cases hne : rest = []
  · subst hne
    rw [oidToUOid_nothing hlen]
    constructor
    · intro heq
      have := congrArg List.length (show uOidToOid host _ = _ from heq)
      rw [length_uOidToOid] at this
      simp [UnmarshalledOid.withCreator] at this
      omega
    · rintro (hbad | ⟨⟨hlen, -⟩, -⟩)
      · exact absurd rfl hbad.1
      · rw [List.length_nil] at hlen
        omega
  · cases keyParts rest with
    | short h =>
      exact iff_of_true (answers_refuses (oidToUOid_short hr hlen hne h))
        (.inl (refused_short hne h))
    | past hw h =>
      exact iff_of_true (answers_refuses (oidToUOid_past hr hlen hw h)) (.inl (refused_past hw h))
    | noFlag hw h =>
      rw [oidToUOid_noFlag hr hlen hw h]
      refine iff_of_false (fun h => h) ?_
      rintro (hbad | ⟨hcan, -⟩)
      · exact not_refused_noFlag hw h hbad
      · exact not_canonical_noFlag hw h hcan
    | badFlag hw h hf ht =>
      exact iff_of_true (answers_refuses (oidToUOid_badFlag hr hlen hw h hf ht))
        (.inl (refused_badFlag hw h hf ht))
    | shortStamp hw h hs =>
      exact iff_of_true (answers_refuses (oidToUOid_shortStamp hr hlen hw h hs))
        (.inl (refused_shortStamp hw h hs))
    | @complete w id u v left b hw h hu hv =>
      rw [oidToUOid_complete hr hlen hw h hu hv, canonical_complete hw h hu hv, idLength_eq hw, h,
        List.length_eq_zero_iff, or_iff_right (not_refused_complete hw h hu hv)]
      by_cases hleft : left = []
      · subst hleft
        rw [if_pos rfl, List.append_nil, eq_self, true_and]
        exact uOidToOid_complete hw h hu hv
      · rw [if_neg hleft]
        exact iff_of_false (fun h => h) fun hcan => hleft hcan.1.1

/-- A key is answered as it should be exactly if it `ReadsWell`. -/
theorem answers_iff (oid : ObjectId) :
    Answers host oid (oidToUOid host none oid before) ↔ ReadsWell before.id oid := by
  by_cases hlen : oid.length ≤ integerLast
  · by_cases hs : slash ∈ oid
    · obtain ⟨creator, rest, rfl, hr⟩ := exists_creator hs
      rw [answers_iff_of_parts hr hlen, ReadsWell, keyTail_eq hr]
      simp only [hlen, hs, true_and]
    · refine iff_of_false ?_ fun h => hs h.2.1
      rw [oidToUOid]
      rcases getCreator_whole hs with h | h
      · rw [h, Checked.bind_error]
        exact fun h => h
      · rw [h, Checked.bind_ok]
        rw [if_neg (by omega)]
        intro heq
        have := congrArg List.length (show uOidToOid host _ = _ from heq)
        rw [length_uOidToOid] at this
        dsimp only at this
        omega
  · refine iff_of_false ?_ fun h => hlen h.1
    rw [oidToUOid, getCreator_long (not_le.1 hlen), Checked.bind_error]
    exact fun h => h

theorem slash_not_mem_putULong (u : Nat) : slash ∉ putULong u := by
  intro h
  have := isLowerHex_of_mem_putULong h
  simp [IsLowerHex, slash] at this

/-- An unmarshalled id without `/` comes back when its octets are not too many for a `String`, and
an empty id when the variable that receives it is empty. -/
theorem roundTrip_iff {u : UnmarshalledOid} (h : slash ∉ u.id) :
    oidToUOid host none (uOidToOid host u) before = .ok (u, none) ↔
      (uOidToOid host u).length ≤ integerLast ∧ (u.id = [] → before.id = []) := by
  have hoid : uOidToOid host u = u.creator ++ slash :: (putULong (u.id.length % unsignedLongModulus) ++
      (u.id ++ (putBoolean u.systemGenerated ++
        (putULong (toULongs host u.persistencyFlag).1 ++
          (putULong (toULongs host u.persistencyFlag).2 ++ []))))) := by
    simp [uOidToOid, putString, putTimeStamp]
  by_cases hlen : (uOidToOid host u).length ≤ integerLast
  · have hshort : u.id.length < unsignedLongModulus := by
      rw [length_uOidToOid, integerLast] at hlen
      rw [unsignedLongModulus]
      omega
    have hr : slash ∉ putULong (u.id.length % unsignedLongModulus) ++
        (u.id ++ (putBoolean u.systemGenerated ++
          (putULong (toULongs host u.persistencyFlag).1 ++
            (putULong (toULongs host u.persistencyFlag).2 ++ [])))) := by
      have hflag : slash ∉ putBoolean u.systemGenerated := by
        cases u.systemGenerated <;> decide
      simp only [List.mem_append, not_or]
      exact ⟨slash_not_mem_putULong _, h, hflag, slash_not_mem_putULong _,
        slash_not_mem_putULong _, List.not_mem_nil⟩
    have hts := toULongs_lt host u.persistencyFlag
    rw [hoid] at hlen ⊢
    rw [oidToUOid_complete hr hlen (length_putULong _)
      (by rw [ulongOf_putULong (Nat.mod_lt _ (by decide)), Nat.mod_eq_of_lt hshort])
      (length_putULong _) (length_putULong _), if_pos rfl, ulongOf_putULong hts.1,
      ulongOf_putULong hts.2, fromULongs_toULongs]
    simp only [hlen, true_and]
    by_cases hid : u.id = []
    · simp [hid, UnmarshalledOid.ext_iff]
    · simp [hid]
  · refine iff_of_false ?_ fun h => hlen h.1
    rw [oidToUOid, getCreator_long (not_le.1 hlen), Checked.bind_error]
    rintro ⟨⟩

end Halves

/-- The codec: an id without `/` comes back, and a key received is answered, exactly under these
conditions. -/
theorem oidToUOid_iff (host : Endianness) (before u : UnmarshalledOid) (oid : ObjectId) :
    (slash ∉ u.id → (oidToUOid host none (uOidToOid host u) before = .ok (u, none) ↔
      (uOidToOid host u).length ≤ integerLast ∧ (u.id = [] → before.id = []))) ∧
    (Answers host oid (oidToUOid host none oid before) ↔ ReadsWell before.id oid) :=
  ⟨roundTrip_iff, answers_iff oid⟩

/-- The length of an empty id, and nothing after it: `Get_Boolean` reads past the end. -/
theorem not_answers_truncated :
    ¬∀ oid, Answers .littleEndian oid (oidToUOid .littleEndian none oid .fresh) := by
  intro h
  have := h (slash :: List.replicate 8 48)
  have hw : ulongOf (List.replicate 8 48) = ([] : Text).length := rfl
  have hrun : oidToUOid .littleEndian none (slash :: List.replicate 8 48) .fresh =
      .error .constraintError := by
    have := @oidToUOid_noFlag .littleEndian .fresh [] (List.replicate 8 48) [] (by decide)
      (by decide) rfl hw
    rwa [List.append_nil, List.nil_append] at this
  rwa [hrun] at this

end PolyORB
