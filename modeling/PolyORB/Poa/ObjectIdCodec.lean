import PolyORB.Poa.ObjectIds

/-!
# Object ids and their octets

The octets after the last `/` are read one part after the other.  They are refused when a part is
missing or wrong, except for the letter of `System_Generated`, which is read without a test; digits
that `Hex` does not write, and octets after the last part, are not refused.
-/

namespace PolyORB

open Character Numerals

/-- The value of eight digits. -/
def ulongOf (w : ObjectId) : Nat := ofDigits 16 (w.map hexVal)

/-! ## Digits -/

theorem ulongOf_lt {w : ObjectId} (h : w.length = 8) : ulongOf w < unsignedLongModulus := by
  have hlt : ulongOf w < 16 ^ (w.map hexVal).length := ofDigits_lt fun d hd => by
    obtain ⟨c, -, rfl⟩ := List.mem_map.1 hd
    exact hexVal_lt c
  rw [List.length_map, h] at hlt
  simpa [unsignedLongModulus] using hlt

@[simp] theorem length_putULong (u : Nat) : (putULong u).length = 8 := by simp [putULong]

theorem ulongOf_putULong {u : Nat} (h : u < unsignedLongModulus) : ulongOf (putULong u) = u := by
  have hmap : (putULong u).map hexVal = toDigits 16 8 u := by
    rw [putULong, List.map_map]
    refine (List.map_congr_left fun d hd => ?_).trans (List.map_id _)
    exact hexVal_hexOf (lt_of_mem_toDigits (by decide) hd)
  rw [ulongOf, hmap, ofDigits_toDigits (by simpa [unsignedLongModulus] using h)]

theorem isLowerHex_of_mem_putULong {u : Nat} {c : UInt8} (h : c ∈ putULong u) : IsLowerHex c := by
  obtain ⟨d, hd, rfl⟩ := List.mem_map.1 h
  exact isLowerHex_hexOf (lt_of_mem_toDigits (by decide) hd)

theorem putULong_ulongOf {w : ObjectId} (hlen : w.length = 8) (h : ∀ c ∈ w, IsLowerHex c) :
    putULong (ulongOf w) = w := by
  have hdigits : toDigits 16 8 (ulongOf w) = w.map hexVal := by
    have hbound : ∀ d ∈ w.map hexVal, d < 16 := by
      intro d hd
      obtain ⟨c, -, rfl⟩ := List.mem_map.1 hd
      exact hexVal_lt c
    have := toDigits_ofDigits hbound
    rwa [List.length_map, hlen] at this
  rw [putULong, hdigits, List.map_map]
  exact (List.map_congr_left fun c hc => hexOf_hexVal (h c hc)).trans (List.map_id _)

/-! ## Time stamps -/

theorem toULongs_lt (host : Endianness) (ts : TimeStamp) :
    (toULongs host ts).1 < unsignedLongModulus ∧ (toULongs host ts).2 < unsignedLongModulus := by
  cases host <;> simp only [toULongs, unsignedLongModulus] <;> omega

theorem fromULongs_toULongs (host : Endianness) (ts : TimeStamp) :
    fromULongs host (toULongs host ts).1 (toULongs host ts).2 = ts := by
  cases host
  all_goals
    simp only [toULongs, fromULongs]
    apply BitVec.eq_of_toNat_eq
    rw [BitVec.toNat_ofNat]
    omega

theorem toULongs_fromULongs (host : Endianness) {u v : Nat} (hu : u < unsignedLongModulus)
    (hv : v < unsignedLongModulus) : toULongs host (fromULongs host u v) = (u, v) := by
  simp only [unsignedLongModulus] at hu hv
  cases host
  all_goals
    simp only [toULongs, fromULongs, BitVec.toNat_ofNat]
    ext <;> dsimp only <;> omega

/-! ## Reading one part -/

section Parts

variable {p w t : ObjectId} {e : Option ErrorId}

theorem octetAt_cons (c : UInt8) : octetAt (p ++ c :: t) p.length = .ok c := by
  simp [octetAt]

theorem octetAt_end : octetAt (p ++ []) p.length = .error .constraintError := by
  simp [octetAt]

theorem getDigits_eq {r : Nat} (hr : (r + 1) * 16 ^ w.length ≤ unsignedLongModulus) :
    getDigits (p ++ (w ++ t)) w.length p.length r =
      .ok (w.foldl (fun r c => r * 16 + hexVal c) r) := by
  induction w generalizing p r with
  | nil => rfl
  | cons c w ih =>
    have hc := hexVal_lt c
    have hpow : 0 < 16 ^ w.length := Nat.pow_pos (by decide)
    have hstep : (r * 16 + hexVal c + 1) * 16 ^ w.length ≤ unsignedLongModulus :=
      calc (r * 16 + hexVal c + 1) * 16 ^ w.length ≤ ((r + 1) * 16) * 16 ^ w.length :=
            Nat.mul_le_mul_right _ (by omega)
        _ = (r + 1) * 16 ^ (c :: w).length := by rw [List.length_cons, pow_succ]; ring
        _ ≤ unsignedLongModulus := hr
    have hlt : r * 16 + hexVal c < unsignedLongModulus := by
      have := Nat.le_mul_of_pos_right (r * 16 + hexVal c + 1) hpow
      omega
    have hassoc : p ++ ((c :: w) ++ t) = (p ++ [c]) ++ (w ++ t) := by simp
    rw [List.length_cons, getDigits, List.cons_append, octetAt_cons, Checked.bind_ok,
      Nat.mod_eq_of_lt hlt, List.foldl_cons, ← List.cons_append, hassoc]
    have := ih (p := p ++ [c]) hstep
    rwa [List.length_append, List.length_singleton] at this

theorem getULong_short (h : t.length < 8) :
    getULong (p ++ t) p.length e = .ok (0, p.length, some .invalidObjectIdE) := by
  rw [getULong, if_pos (by rw [List.length_append]; omega)]

theorem getULong_digits (hw : w.length = 8) :
    getULong (p ++ (w ++ t)) p.length e = .ok (ulongOf w, p.length + 8, e) := by
  have hread := getDigits_eq (p := p) (w := w) (t := t) (r := 0)
    (by rw [hw]; simp [unsignedLongModulus])
  rw [hw] at hread
  rw [getULong, if_neg (by simp only [List.length_append]; omega), hread, Checked.bind_ok]
  simp [ulongOf, ofDigits, List.foldl_map]

theorem getBoolean_end : getBoolean (p ++ []) p.length e = .error .constraintError := by
  rw [getBoolean, octetAt_end, Checked.bind_error]

theorem getBoolean_putBoolean (b : Bool) :
    getBoolean (p ++ (putBoolean b ++ t)) p.length e =
      .ok (b, p.length + 1, e) := by
  cases b <;> simp [getBoolean, putBoolean, octetAt]

theorem getBoolean_other {c : UInt8} (hf : c ≠ 70) (ht : c ≠ 84) :
    getBoolean (p ++ c :: t) p.length e =
      .ok (false, p.length + 1, some .invalidObjectIdE) := by
  simp [getBoolean, octetAt, hf, ht]

theorem getStringWithLength_short (str : Text) (h : t.length < 8) :
    getStringWithLength (p ++ t) p.length e str =
      .ok ([], p.length, some .invalidObjectIdE) := by
  rw [getStringWithLength, getULong_short h, Checked.bind_ok]
  simp

theorem getStringWithLength_past (str : Text) (hw : w.length = 8)
    (h : t.length < ulongOf w) :
    getStringWithLength (p ++ (w ++ t)) p.length e str =
      .ok ([], p.length + 8, some .invalidObjectIdE) := by
  rw [getStringWithLength, getULong_digits hw, Checked.bind_ok]
  dsimp only
  rw [if_pos (.inl (by simp only [List.length_append]; omega))]
  rfl

theorem getStringWithLength_eq {id : Text} (str : Text) (hw : w.length = 8)
    (h : ulongOf w = id.length) :
    getStringWithLength (p ++ (w ++ (id ++ t))) p.length none str =
      .ok (if id = [] then str else id, p.length + 8 + id.length, none) := by
  have hdrop : (p ++ (w ++ (id ++ t))).drop (p.length + 8) = id ++ t := by
    rw [← List.append_assoc, ← hw, ← List.length_append, List.drop_left]
  rw [getStringWithLength, getULong_digits hw, Checked.bind_ok]
  dsimp only
  rw [if_neg (by simp; omega), h, hdrop, List.take_left]
  by_cases hid : id = []
  · subst hid
    rfl
  · rw [if_pos (List.length_pos_iff.2 hid), if_neg hid]
    rfl

theorem getTimeStamp_short (host : Endianness) (ts : TimeStamp) (h : t.length < 16) :
    ∃ sei, getTimeStamp host (p ++ t) p.length none ts =
      .ok (ts, sei, some .invalidObjectIdE) := by
  by_cases h8 : t.length < 8
  · refine ⟨p.length, ?_⟩
    rw [getTimeStamp, getULong_short h8, Checked.bind_ok]
    rfl
  · have hw : (t.take 8).length = 8 := by rw [List.length_take]; omega
    have hsplit : p ++ t = p ++ (t.take 8 ++ t.drop 8) := by
      rw [List.take_append_drop]
    have hassoc : p ++ t = (p ++ t.take 8) ++ t.drop 8 := by
      rw [List.append_assoc, List.take_append_drop]
    refine ⟨p.length + 8, ?_⟩
    have hfirst : getULong (p ++ t) p.length none =
        .ok (ulongOf (t.take 8), p.length + 8, none) := by
      rw [hsplit, getULong_digits hw]
    have hsecond : getULong (p ++ t) (p.length + 8) none =
        .ok (0, p.length + 8, some .invalidObjectIdE) := by
      have := getULong_short (p := p ++ t.take 8) (t := t.drop 8) (e := none)
        (by rw [List.length_drop]; omega)
      rwa [← hassoc, List.length_append, hw] at this
    rw [getTimeStamp, hfirst, Checked.bind_ok]
    dsimp only
    rw [if_neg (by simp), hsecond, Checked.bind_ok]
    rfl

theorem getTimeStamp_eq {u v : ObjectId} (host : Endianness) (ts : TimeStamp) (hu : u.length = 8)
    (hv : v.length = 8) :
    getTimeStamp host (p ++ (u ++ (v ++ t))) p.length none ts =
      .ok (fromULongs host (ulongOf u) (ulongOf v), p.length + 16, none) := by
  have hsecond : getULong (p ++ (u ++ (v ++ t))) (p.length + 8) none =
      .ok (ulongOf v, p.length + 16, none) := by
    have := getULong_digits (p := p ++ u) (t := t) (e := none) hv
    rwa [List.append_assoc, List.length_append, hu] at this
  rw [getTimeStamp, getULong_digits hu, Checked.bind_ok]
  dsimp only
  rw [if_neg (by simp), hsecond, Checked.bind_ok]
  rfl

end Parts

/-! ## The creator -/

theorem findBackward_eq {creator rest : Text} {what : UInt8} (h : what ∉ rest) :
    findBackward (creator ++ what :: rest) what (creator ++ what :: rest).length =
      creator.length + 1 := by
  suffices hn : ∀ n ≤ rest.length, findBackward (creator ++ what :: rest) what
      (creator.length + 1 + n) = creator.length + 1 by
    have := hn rest.length le_rfl
    rwa [show (creator ++ what :: rest).length = creator.length + 1 + rest.length by
      simp; omega]
  intro n hn
  induction n with
  | zero => simp [findBackward]
  | succ n ih =>
    have hget : (creator ++ what :: rest)[creator.length + 1 + n]? ≠ some what := by
      rw [List.getElem?_append_right (by omega),
        show creator.length + 1 + n - creator.length = n + 1 by omega, List.getElem?_cons_succ]
      exact fun hmem => h (List.mem_of_getElem? hmem)
    rw [← Nat.add_assoc, findBackward, if_neg hget, ih (by omega)]

theorem findBackward_eq_zero {s : Text} {what : UInt8} (h : what ∉ s) (n : Nat) :
    findBackward s what n = 0 := by
  induction n with
  | zero => rfl
  | succ n ih =>
    rw [findBackward, if_neg (fun hmem => h (List.mem_of_getElem? hmem)), ih]

theorem getCreator_eq {creator rest : Text} (h : slash ∉ rest)
    (hlen : (creator ++ slash :: rest).length ≤ integerLast) :
    getCreator (creator ++ slash :: rest) = .ok creator := by
  rw [getCreator, if_neg (by simpa using hlen), findBackward_eq h, if_neg (by omega),
    Nat.add_sub_cancel, List.take_left]

theorem getCreator_long {oid : ObjectId} (h : integerLast < oid.length) :
    getCreator oid = .error .constraintError := if_pos (.inl h)

theorem getCreator_whole {oid : ObjectId} (h : slash ∉ oid) :
    getCreator oid = .error .constraintError ∨ getCreator oid = .ok oid := by
  rw [getCreator, findBackward_eq_zero h, if_pos rfl]
  split_ifs <;> simp

/-! ## Reading an object id -/

section Reading

variable {host : Endianness} {before : UnmarshalledOid} {creator w id t : Text}

/-- The out parameter once the creator is known. -/
def UnmarshalledOid.withCreator (before : UnmarshalledOid) (creator : Text) : UnmarshalledOid :=
  { before with systemGenerated := false, persistencyFlag := nullTimeStamp, creator := creator }

theorem oidToUOid_parts (hr : slash ∉ t)
    (hlen : (creator ++ slash :: t).length ≤ integerLast) (hne : t ≠ []) :
    oidToUOid host none (creator ++ slash :: t) before = (do
      let (id, index, error) ←
        getStringWithLength (creator ++ slash :: t) (creator.length + 1) none before.id
      let uOid := { before.withCreator creator with id := id }
      if error.isSome = true then return (uOid, error)
      let (sys, index, error) ← getBoolean (creator ++ slash :: t) index error
      let uOid := { uOid with systemGenerated := sys }
      if error.isSome = true then return (uOid, error)
      let (ts, index, error) ←
        getTimeStamp host (creator ++ slash :: t) index error uOid.persistencyFlag
      let uOid := { uOid with persistencyFlag := ts }
      if error.isSome = true then return (uOid, error)
      if index < (creator ++ slash :: t).length then throw .assertionError
      return (uOid, error)) := by
  have hpos := List.length_pos_iff.2 hne
  rw [oidToUOid, getCreator_eq hr hlen, Checked.bind_ok]
  rw [if_pos (by simp; omega)]
  rfl

theorem oidToUOid_nothing (hlen : (creator ++ [slash]).length ≤ integerLast) :
    oidToUOid host none (creator ++ [slash]) before = .ok (before.withCreator creator, none) := by
  rw [oidToUOid, getCreator_eq (by simp) hlen, Checked.bind_ok]
  rw [if_neg (by simp)]
  rfl

def Refuses (r : Except Exn (UnmarshalledOid × Option ErrorId)) : Prop :=
  ∃ u, r = .ok (u, some .invalidObjectIdE)

theorem oidToUOid_short (hr : slash ∉ t)
    (hlen : (creator ++ slash :: t).length ≤ integerLast) (hne : t ≠ [])
    (h : t.length < 8) : Refuses (oidToUOid host none (creator ++ slash :: t) before) := by
  have hid := getStringWithLength_short (p := creator ++ [slash]) (e := none) before.id h
  rw [List.append_assoc, List.length_append, List.length_singleton] at hid
  rw [oidToUOid_parts hr hlen hne, ← List.singleton_append, hid, Checked.bind_ok]
  exact ⟨_, rfl⟩

theorem oidToUOid_past (hr : slash ∉ w ++ t)
    (hlen : (creator ++ slash :: (w ++ t)).length ≤ integerLast) (hw : w.length = 8)
    (h : t.length < ulongOf w) :
    Refuses (oidToUOid host none (creator ++ slash :: (w ++ t)) before) := by
  have hid := getStringWithLength_past (p := creator ++ [slash]) (e := none) before.id hw h
  rw [List.append_assoc, List.length_append, List.length_singleton] at hid
  rw [oidToUOid_parts hr hlen (by rintro hnil; simp_all), ← List.singleton_append, hid,
    Checked.bind_ok]
  exact ⟨_, rfl⟩

theorem oidToUOid_id (hr : slash ∉ w ++ (id ++ t))
    (hlen : (creator ++ slash :: (w ++ (id ++ t))).length ≤ integerLast) (hw : w.length = 8)
    (h : ulongOf w = id.length) {oid : ObjectId}
    (hoid : oid = creator ++ slash :: (w ++ (id ++ t))) :
    oidToUOid host none oid before = (do
      let (sys, index, error) ← getBoolean oid (creator.length + 9 + id.length) none
      let uOid := { before.withCreator creator with
        id := if id = [] then before.id else id
        systemGenerated := sys }
      if error.isSome = true then return (uOid, error)
      let (ts, index, error) ← getTimeStamp host oid index error uOid.persistencyFlag
      let uOid := { uOid with persistencyFlag := ts }
      if error.isSome = true then return (uOid, error)
      if index < oid.length then throw .assertionError
      return (uOid, error)) := by
  have hid := getStringWithLength_eq (p := creator ++ [slash]) (t := t) before.id hw h
  rw [List.append_assoc, List.length_append, List.length_singleton, List.singleton_append] at hid
  rw [hoid, oidToUOid_parts hr hlen (by rintro hnil; simp_all), hid, Checked.bind_ok]
  rfl

theorem length_before_flag (hw : w.length = 8) :
    (creator ++ slash :: (w ++ id)).length = creator.length + 9 + id.length := by
  simp [hw]
  omega

theorem oidToUOid_noFlag (hr : slash ∉ w ++ id)
    (hlen : (creator ++ slash :: (w ++ id)).length ≤ integerLast) (hw : w.length = 8)
    (h : ulongOf w = id.length) :
    oidToUOid host none (creator ++ slash :: (w ++ id)) before = .error .constraintError := by
  have hflag := getBoolean_end (p := creator ++ slash :: (w ++ id)) (e := none)
  rw [List.append_nil, length_before_flag hw] at hflag
  rw [oidToUOid_id (t := []) (by simpa using hr) (by simpa using hlen) hw h (by simp), hflag,
    Checked.bind_error]

theorem oidToUOid_badFlag {c : UInt8} (hr : slash ∉ w ++ (id ++ c :: t))
    (hlen : (creator ++ slash :: (w ++ (id ++ c :: t))).length ≤ integerLast)
    (hw : w.length = 8) (h : ulongOf w = id.length) (hf : c ≠ 70) (ht : c ≠ 84) :
    Refuses (oidToUOid host none (creator ++ slash :: (w ++ (id ++ c :: t))) before) := by
  have hflag := getBoolean_other (p := creator ++ slash :: (w ++ id)) (t := t)
    (e := none) hf ht
  rw [length_before_flag hw] at hflag
  rw [oidToUOid_id hr hlen hw h rfl]
  simp only [List.append_assoc, List.cons_append] at hflag
  rw [hflag, Checked.bind_ok]
  exact ⟨_, rfl⟩

theorem oidToUOid_flag {b : Bool} (hr : slash ∉ w ++ (id ++ (putBoolean b ++ t)))
    (hlen : (creator ++ slash :: (w ++ (id ++ (putBoolean b ++ t)))).length ≤ integerLast)
    (hw : w.length = 8) (h : ulongOf w = id.length) {oid : ObjectId}
    (hoid : oid = creator ++ slash :: (w ++ (id ++ (putBoolean b ++ t)))) :
    oidToUOid host none oid before = (do
      let uOid := { before.withCreator creator with
        id := if id = [] then before.id else id
        systemGenerated := b }
      let (ts, index, error) ←
        getTimeStamp host oid (creator.length + 10 + id.length) none uOid.persistencyFlag
      let uOid := { uOid with persistencyFlag := ts }
      if error.isSome = true then return (uOid, error)
      if index < oid.length then throw .assertionError
      return (uOid, error)) := by
  have hflag := getBoolean_putBoolean (p := creator ++ slash :: (w ++ id)) (t := t)
    (e := none) b
  rw [length_before_flag hw] at hflag
  simp only [List.append_assoc, List.cons_append] at hflag
  rw [oidToUOid_id hr hlen hw h hoid, hoid, hflag, Checked.bind_ok]
  rw [show creator.length + 9 + id.length + 1 = creator.length + 10 + id.length by omega]
  rfl

theorem length_before_stamp (b : Bool) (hw : w.length = 8) :
    (creator ++ slash :: (w ++ (id ++ putBoolean b))).length = creator.length + 10 + id.length := by
  simp [hw, putBoolean]
  omega

theorem oidToUOid_shortStamp {b : Bool} (hr : slash ∉ w ++ (id ++ (putBoolean b ++ t)))
    (hlen : (creator ++ slash :: (w ++ (id ++ (putBoolean b ++ t)))).length ≤ integerLast)
    (hw : w.length = 8) (h : ulongOf w = id.length) (hrest : t.length < 16) :
    Refuses (oidToUOid host none (creator ++ slash :: (w ++ (id ++ (putBoolean b ++ t))))
      before) := by
  obtain ⟨sei, hts⟩ := getTimeStamp_short (p := creator ++ slash :: (w ++ (id ++ putBoolean b)))
    host nullTimeStamp hrest
  rw [length_before_stamp b hw] at hts
  simp only [List.append_assoc, List.cons_append] at hts
  rw [oidToUOid_flag hr hlen hw h rfl]
  simp only [UnmarshalledOid.withCreator]
  rw [hts, Checked.bind_ok]
  exact ⟨_, rfl⟩

theorem oidToUOid_complete {b : Bool} {u v : ObjectId}
    (hr : slash ∉ w ++ (id ++ (putBoolean b ++ (u ++ (v ++ t)))))
    (hlen : (creator ++ slash :: (w ++ (id ++ (putBoolean b ++ (u ++ (v ++ t)))))).length ≤
      integerLast)
    (hw : w.length = 8) (h : ulongOf w = id.length) (hu : u.length = 8) (hv : v.length = 8) :
    oidToUOid host none (creator ++ slash :: (w ++ (id ++ (putBoolean b ++ (u ++ (v ++ t))))))
        before =
      if t = [] then
        .ok (⟨if id = [] then before.id else id, creator, b,
          fromULongs host (ulongOf u) (ulongOf v)⟩, none)
      else .error .assertionError := by
  have hts := getTimeStamp_eq (p := creator ++ slash :: (w ++ (id ++ putBoolean b)))
    (t := t) host nullTimeStamp hu hv
  rw [length_before_stamp b hw] at hts
  simp only [List.append_assoc, List.cons_append] at hts
  have hlast : (creator ++ slash :: (w ++ (id ++ (putBoolean b ++ (u ++ (v ++ t)))))).length =
      creator.length + 10 + id.length + 16 + t.length := by
    simp [hw, hu, hv, putBoolean]
    omega
  rw [oidToUOid_flag hr hlen hw h rfl]
  simp only [UnmarshalledOid.withCreator]
  rw [hts, Checked.bind_ok, hlast]
  dsimp only
  rw [if_neg (by simp)]
  by_cases hrest : t = []
  · subst hrest
    simp
  · have := List.length_pos_iff.2 hrest
    rw [if_pos (by omega), if_neg hrest]
    rfl

end Reading

end PolyORB
