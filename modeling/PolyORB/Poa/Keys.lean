import PolyORB.Poa.ObjectIdRoundTrip

/-!
# Octets received as an object key

Which keys `Get_Creator` and `Oid_To_U_Oid` read without an exception, and what they read.
-/

namespace PolyORB

open Character

/-- Keys whose creator `Get_Creator` finds: a key without `/` is its own creator. -/
def ReadableKey (key : ObjectId) : Prop :=
  key ≠ [] ∧ key.length ≤ integerLast ∧ (slash ∈ key ∨ key.length < integerLast)

instance (key : ObjectId) : Decidable (ReadableKey key) := inferInstanceAs (Decidable (_ ∧ _ ∧ _))

def keyCreator (key : ObjectId) : Text :=
  if slash ∈ key then key.take (key.length - 1 - (keyTail key).length) else key

/-- What follows the creator and `/`. -/
def keyBody (key : ObjectId) : ObjectId := if slash ∈ key then keyTail key else []

/-- Nothing follows the creator, or all the parts of an id do, and nothing after them. -/
def CompleteBody (body : ObjectId) : Prop := body = [] ∨ body.length = 25 + idLength body

/-- The id that complete parts are; without any, the values that are set before reading. -/
def keyOid (host : Endianness) (key : ObjectId) : UnmarshalledOid :=
  let body := keyBody key
  if body = [] then ⟨[], keyCreator key, false, nullTimeStamp⟩
  else
    { id := (body.drop 8).take (idLength body)
      creator := keyCreator key
      systemGenerated := body[8 + idLength body]? == some 84
      persistencyFlag := fromULongs host (ulongOf ((body.drop (9 + idLength body)).take 8))
        (ulongOf ((body.drop (17 + idLength body)).take 8)) }

/-- What `Oid_To_U_Oid` makes of a key. -/
inductive ReadsKey (host : Endianness) (key : ObjectId) :
    Except Exn (UnmarshalledOid × Option ErrorId) → Prop where
  | refused {u} : RefusedBody (keyBody key) → ReadsKey host key (.ok (u, some .invalidObjectIdE))
  | complete : ¬RefusedBody (keyBody key) → CompleteBody (keyBody key) →
      ReadsKey host key (.ok (keyOid host key, none))
  | raised {e} : ¬RefusedBody (keyBody key) → ¬CompleteBody (keyBody key) →
      ReadsKey host key (.error e)

section Creator

variable {creator rest : Text}

theorem keyBody_eq (hr : slash ∉ rest) : keyBody (creator ++ slash :: rest) = rest := by
  rw [keyBody, if_pos (by simp), keyTail_eq hr]

theorem keyCreator_eq (hr : slash ∉ rest) : keyCreator (creator ++ slash :: rest) = creator := by
  rw [keyCreator, if_pos (by simp), keyTail_eq hr]
  simp

end Creator

theorem getCreator_eq_ok {key : ObjectId} {creator : Text} :
    getCreator key = .ok creator ↔ ReadableKey key ∧ creator = keyCreator key := by
  by_cases hlen : integerLast < key.length ∨ key = []
  · rw [getCreator, if_pos hlen]
    refine iff_of_false (by rintro ⟨⟩) ?_
    rintro ⟨⟨hne, hle, -⟩, -⟩
    rcases hlen with hlt | hnil
    · omega
    · exact hne hnil
  · obtain ⟨hle, hne⟩ := not_or.1 hlen
    by_cases hs : slash ∈ key
    · obtain ⟨creator', rest, rfl, hr⟩ := exists_creator hs
      rw [getCreator_eq hr (not_lt.1 hle), keyCreator_eq hr, Except.ok.injEq]
      constructor
      · rintro rfl
        exact ⟨⟨hne, not_lt.1 hle, .inl hs⟩, rfl⟩
      · rintro ⟨-, rfl⟩
        rfl
    · rw [getCreator, if_neg hlen, findBackward_eq_zero hs, if_pos rfl, keyCreator, if_neg hs,
        ReadableKey]
      split_ifs with hlast
      · refine iff_of_false (by rintro ⟨⟩) ?_
        rintro ⟨⟨-, -, hs' | hlt⟩, -⟩
        · exact hs hs'
        · omega
      · rw [Except.ok.injEq]
        constructor
        · rintro rfl
          exact ⟨⟨hne, not_lt.1 hle, .inr (by omega)⟩, rfl⟩
        · rintro ⟨-, rfl⟩
          rfl

section Parts

variable {w id rest : ObjectId} {b : Bool}

theorem completeBody_iff {u v : ObjectId} (hw : w.length = 8) (h : ulongOf w = id.length)
    (hu : u.length = 8) (hv : v.length = 8) :
    CompleteBody (w ++ (id ++ (putBoolean b ++ (u ++ (v ++ rest))))) ↔ rest = [] := by
  rw [CompleteBody, idLength_eq hw, h]
  simp only [List.length_append, hw, hu, hv, putBoolean, List.length_cons, List.length_nil]
  rw [or_iff_right (by intro hnil; simp_all), ← List.length_eq_zero_iff]
  omega

theorem not_completeBody_noFlag (hw : w.length = 8) (h : ulongOf w = id.length) :
    ¬CompleteBody (w ++ id) := by
  rintro (hnil | hlen)
  · simp_all
  · rw [idLength_eq hw, List.length_append] at hlen
    omega

theorem keyOid_parts {creator : Text} {u v : ObjectId} {host : Endianness}
    (hr : slash ∉ w ++ (id ++ (putBoolean b ++ (u ++ (v ++ []))))) (hw : w.length = 8)
    (h : ulongOf w = id.length) (hu : u.length = 8) (hv : v.length = 8) :
    keyOid host (creator ++ slash :: (w ++ (id ++ (putBoolean b ++ (u ++ (v ++ [])))))) =
      ⟨id, creator, b, fromULongs host (ulongOf u) (ulongOf v)⟩ := by
  have hne : w ++ (id ++ (putBoolean b ++ (u ++ (v ++ [])))) ≠ [] := by
    intro hnil
    simp_all
  have hflag : (w ++ (id ++ (putBoolean b ++ (u ++ (v ++ [])))))[8 + ulongOf w]? =
      some (if b = true then 84 else 70) := by
    rw [← @idLength_eq w (id ++ (putBoolean b ++ (u ++ (v ++ [])))) hw]
    exact getElem?_flag hw h
  have hdrop8 : (w ++ (id ++ (putBoolean b ++ (u ++ (v ++ []))))).drop 8 =
      id ++ (putBoolean b ++ (u ++ (v ++ []))) := by
    rw [← hw, List.drop_left]
  have hdrop9 : (w ++ (id ++ (putBoolean b ++ (u ++ (v ++ []))))).drop (9 + ulongOf w) =
      u ++ (v ++ []) := by
    have hpos : 9 + ulongOf w = (w ++ (id ++ putBoolean b)).length := by
      simp [hw, h, putBoolean]
      omega
    rw [hpos, ← List.append_assoc id, ← List.append_assoc w (id ++ putBoolean b), List.drop_left]
  have hdrop17 : (w ++ (id ++ (putBoolean b ++ (u ++ (v ++ []))))).drop (17 + ulongOf w) =
      v ++ [] := by
    rw [show 17 + ulongOf w = 9 + ulongOf w + 8 by omega, ← List.drop_drop, hdrop9, ← hu,
      List.drop_left]
  rw [keyOid, keyBody_eq hr, keyCreator_eq hr, if_neg hne, idLength_eq hw, hflag, hdrop8, hdrop9,
    hdrop17, h, List.take_left, ← hu, List.take_left, hu, ← hv, List.take_left]
  cases b <;> rfl

end Parts

theorem oidToUOid_readsKey (host : Endianness) {key : ObjectId} (h : ReadableKey key) :
    ReadsKey host key (oidToUOid host none key .fresh) := by
  by_cases hs : slash ∈ key
  · obtain ⟨creator, rest, rfl, hr⟩ := exists_creator hs
    have hlen := h.2.1
    by_cases hne : rest = []
    · subst hne
      have hread : (UnmarshalledOid.fresh.withCreator creator) = keyOid host (creator ++ [slash]) := by
        rw [keyOid, keyBody_eq hr, keyCreator_eq hr]
        rfl
      rw [oidToUOid_nothing hlen, hread]
      exact .complete (by rw [keyBody_eq hr]; exact fun hbad => hbad.1 rfl)
        (by rw [keyBody_eq hr]; exact .inl rfl)
    · have hbody : keyBody (creator ++ slash :: rest) = rest := keyBody_eq hr
      have hrefuses {u : UnmarshalledOid} (hbad : RefusedBody rest) : ReadsKey host
          (creator ++ slash :: rest) (.ok (u, some .invalidObjectIdE)) :=
        .refused (by rwa [hbody])
      cases keyParts rest with
      | short hshort =>
        obtain ⟨u, hu⟩ := @oidToUOid_short host .fresh creator rest hr hlen hne hshort
        rw [hu]
        exact hrefuses (refused_short hne hshort)
      | past hw hpast =>
        obtain ⟨u, hu⟩ := @oidToUOid_past host .fresh creator _ _ hr hlen hw hpast
        rw [hu]
        exact hrefuses (refused_past hw hpast)
      | noFlag hw hid =>
        rw [oidToUOid_noFlag hr hlen hw hid]
        exact .raised (by rw [hbody]; exact not_refused_noFlag hw hid)
          (by rw [hbody]; exact not_completeBody_noFlag hw hid)
      | badFlag hw hid hf ht =>
        obtain ⟨u, hu⟩ := @oidToUOid_badFlag host .fresh creator _ _ _ _ hr hlen hw hid hf ht
        rw [hu]
        exact hrefuses (refused_badFlag hw hid hf ht)
      | shortStamp hw hid hstamp =>
        obtain ⟨u, hu⟩ := @oidToUOid_shortStamp host .fresh creator _ _ _ _ hr hlen hw hid hstamp
        rw [hu]
        exact hrefuses (refused_shortStamp hw hid hstamp)
      | @complete w id u v left b hw hid hu hv =>
        have hnot : ¬RefusedBody (w ++ (id ++ (putBoolean b ++ (u ++ (v ++ left))))) :=
          not_refused_complete hw hid hu hv
        rw [oidToUOid_complete hr hlen hw hid hu hv]
        by_cases hleft : left = []
        · subst hleft
          have hread : keyOid host (creator ++
              slash :: (w ++ (id ++ (putBoolean b ++ (u ++ (v ++ [])))))) = _ :=
            keyOid_parts hr hw hid hu hv
          have hfresh : (if id = [] then UnmarshalledOid.fresh.id else id) = id := by
            split_ifs with hnil
            · exact hnil.symm
            · rfl
          rw [if_pos rfl, hfresh, ← hread]
          exact .complete (by rwa [hbody]) (by rw [hbody, completeBody_iff hw hid hu hv])
        · rw [if_neg hleft]
          exact .raised (by rwa [hbody]) (by rwa [hbody, completeBody_iff hw hid hu hv])
  · have hbody : keyBody key = [] := if_neg hs
    have hcreator : keyCreator key = key := if_neg hs
    have hread : oidToUOid host none key .fresh = .ok (keyOid host key, none) := by
      rw [oidToUOid, getCreator_eq_ok.2 ⟨h, rfl⟩, Checked.bind_ok, keyOid, hbody, hcreator]
      rw [if_neg (by omega), if_pos rfl]
      rfl
    rw [hread]
    exact .complete (by rw [hbody]; exact fun hbad => hbad.1 rfl) (by rw [hbody]; exact .inl rfl)

end PolyORB
