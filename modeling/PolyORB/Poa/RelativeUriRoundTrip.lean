import PolyORB.Poa.RelativeUriReading

/-!
# Which object ids come back from their relative URI

The id and the attributes always do.  The creator is written as it is and unescaped when it is read,
so it must have neither a semicolon nor a percent sign.
-/

namespace PolyORB

open Character

/-! ## The attributes -/

theorem length_seaToHexString (a : List UInt8) : (seaToHexString a).length = 2 * a.length := by
  induction a with
  | nil => rfl
  | cons b a ih =>
    rw [seaToHexString, List.flatMap_cons, List.length_append, ← seaToHexString, ih]
    simp
    omega

theorem hexLoop_seaToHexString (a : List UInt8) (pre : Text) :
    hexLoop (pre ++ seaToHexString a) a.length (pre.length + 1) = .ok a := by
  induction a generalizing pre with
  | nil => rfl
  | cons b a ih =>
    have hnext := ih (pre ++ [hex (b / 16), hex (b % 16)])
    rw [List.append_assoc, List.length_append] at hnext
    have hcons : seaToHexString (b :: a) = hex (b / 16) :: hex (b % 16) :: seaToHexString a := rfl
    rw [List.length_cons, hexLoop, hcons, hexPairAt_append, hexPair_hex, Checked.bind_ok]
    erw [hnext]
    rfl

theorem toLifespanCookie_toHex (host : Endianness) (c : TimeStamp) :
    toLifespanCookie host (toHex host c) = .ok c := by
  have hlen : (orderedOctets host 8 c.toNat).length = 8 := length_orderedOctets _ _ _
  have hloop := hexLoop_seaToHexString (orderedOctets host 8 c.toNat) []
  rw [List.nil_append, hlen] at hloop
  rw [toLifespanCookie, hexStringToSea, toHex, length_seaToHexString, hlen,
    show 2 * 8 / 2 = 8 from rfl]
  erw [hloop]
  rw [Checked.bind_ok, if_neg (by simp [hlen]), fromOrderedOctets_orderedOctets (by
    omega), BitVec.ofNat_toNat, BitVec.setWidth_eq]
  rfl

section Attributes

variable (p word q : Text)

theorem followedBy_word (word' : Text) (hw : word.length = 3)
    (h : (p ++ semicolon :: (word ++ q)).length ≤ integerLast) :
    followedBy (p ++ semicolon :: (word ++ q)) (p.length + 1) word' = .ok (word == word') := by
  have hslice := slice_eq (p ++ [semicolon]) word q
  simp only [List.append_assoc, List.length_append, List.length_singleton,
    List.singleton_append, hw] at hslice
  simp only [List.length_append, List.length_cons, hw] at h
  rw [followedBy, addInteger, if_neg (by omega), Checked.bind_ok, if_pos (by simp [hw]; omega),
    hslice]
  rfl

theorem followedBy_end :
    followedBy p (p.length + 1) word =
      if p.length + 4 ≤ integerLast then .ok false else .error (.raised .constraintError) := by
  rw [followedBy, addInteger]
  split_ifs with h1 h2 h2
  · omega
  · rfl
  · rw [Checked.bind_ok, if_neg (by omega)]
    rfl
  · omega

variable (host : Endianness) (sys : Bool) (cookie : TimeStamp)

/-- The attributes as `Oid_To_Rel_URI` writes them. -/
def attributes : Text :=
  (if sys = true then [semicolon, 115, 121, 115] else []) ++
    if cookie ≠ nullTimeStamp then [semicolon, 112, 102, 61] ++ toHex host cookie else []

theorem attributes_head :
    attributes host sys cookie = [] ∨ ∃ t, attributes host sys cookie = semicolon :: t := by
  cases sys with
  | true => exact .inr ⟨_, rfl⟩
  | false =>
    by_cases h : cookie = nullTimeStamp
    · exact .inl (by simp [attributes, h])
    · exact .inr ⟨[112, 102, 61] ++ toHex host cookie, by simp [attributes, h]⟩

theorem readCookie_eq (s : Text) (h : (s ++ attributes host false cookie).length ≤ integerLast) :
    (do
      let pf ← followedBy (s ++ attributes host false cookie) (s.length + 1) [112, 102, 61]
      if pf = true then
        let h ← slice (s ++ attributes host false cookie) (s.length + 1 + 4)
          (s ++ attributes host false cookie).length
        let cookie ← toLifespanCookie host h
        return (sys, cookie)
      else return (sys, nullTimeStamp)) =
    if cookie = nullTimeStamp ∧ integerLast < s.length + 4 then .error (.raised .constraintError)
    else .ok (sys, cookie) := by
  by_cases hc : cookie = nullTimeStamp
  · have hnone : attributes host false cookie = [] := by simp [attributes, hc]
    rw [hnone, List.append_nil, followedBy_end]
    by_cases hlen : s.length + 4 ≤ integerLast
    · rw [if_pos hlen, if_neg (by omega), hc]
      rfl
    · rw [if_neg hlen, if_pos ⟨hc, by omega⟩]
      rfl
  · have hsome : attributes host false cookie =
        semicolon :: ([112, 102, 61] ++ toHex host cookie) := by simp [attributes, hc]
    have hslice := slice_eq (s ++ semicolon :: [112, 102, 61]) (toHex host cookie) []
    rw [hsome] at h ⊢
    rw [followedBy_word s [112, 102, 61] (toHex host cookie) _ rfl h, Checked.bind_ok,
      if_pos (by decide), if_neg (fun hnull => hc hnull.1)]
    simp only [List.append_assoc, List.length_append, List.length_cons, List.append_nil,
      List.cons_append, List.nil_append, List.length_nil] at hslice ⊢
    have hlast : s.length + ((toHex host cookie).length + 1 + 1 + 1 + 1) =
        s.length + (0 + 1 + 1 + 1 + 1) + (toHex host cookie).length := by omega
    rw [hlast]
    erw [hslice]
    rw [Checked.bind_ok, toLifespanCookie_toHex]
    rfl

theorem followedBy_sys (s : Text) (h : (s ++ attributes host false cookie).length ≤ integerLast) :
    followedBy (s ++ attributes host false cookie) (s.length + 1) [115, 121, 115] =
      if cookie = nullTimeStamp ∧ integerLast < s.length + 4 then .error (.raised .constraintError)
      else .ok false := by
  by_cases hc : cookie = nullTimeStamp
  · have hnone : attributes host false cookie = [] := by simp [attributes, hc]
    rw [hnone, List.append_nil, followedBy_end]
    by_cases hlen : s.length + 4 ≤ integerLast
    · rw [if_pos hlen, if_neg (by omega)]
    · rw [if_neg hlen, if_pos ⟨hc, by omega⟩]
  · have hsome : attributes host false cookie =
        semicolon :: ([112, 102, 61] ++ toHex host cookie) := by simp [attributes, hc]
    rw [hsome] at h ⊢
    rw [followedBy_word s [112, 102, 61] (toHex host cookie) _ rfl h, if_neg fun hnull => hc hnull.1]
    rfl

theorem length_append_attributes (s : Text) (h : cookie = nullTimeStamp) :
    (s ++ attributes host false cookie).length = s.length := by
  simp [attributes, h]

theorem readAttributes_eq (s : Text)
    (h : (s ++ attributes host sys cookie).length ≤ integerLast) :
    readAttributes host (s ++ attributes host sys cookie) (s.length + 1) =
      if cookie = nullTimeStamp ∧ integerLast < (s ++ attributes host sys cookie).length + 4 then
        .error (.raised .constraintError)
      else .ok (sys, cookie) := by
  cases sys with
  | false =>
    have hcookie := readCookie_eq host false cookie s h
    rw [readAttributes, followedBy_sys host cookie s h]
    by_cases hbad : cookie = nullTimeStamp ∧ integerLast < s.length + 4
    · rw [if_pos hbad, Checked.bind_error, if_pos]
      rwa [length_append_attributes host cookie s hbad.1]
    · rw [if_neg hbad] at hcookie ⊢
      rw [Checked.bind_ok]
      rw [if_neg Bool.false_ne_true, hcookie, if_neg]
      rintro ⟨hc, hlen⟩
      rw [length_append_attributes host cookie s hc] at hlen
      exact hbad ⟨hc, hlen⟩
  | true =>
    have hsys : s ++ attributes host true cookie =
        (s ++ semicolon :: [115, 121, 115]) ++ attributes host false cookie := by
      simp [attributes]
    have hword : s ++ attributes host true cookie =
        s ++ semicolon :: ([115, 121, 115] ++ attributes host false cookie) := by
      simp [attributes]
    have hfind : findForward (s ++ attributes host true cookie) semicolon (s.length + 1 + 1) =
        (s ++ semicolon :: [115, 121, 115]).length + 1 := by
      have hsys : semicolon ∉ [115, 121, 115] := by decide
      have := findForward_eq hsys (attributes_head host false cookie) (s ++ [semicolon])
      simp only [List.append_assoc, List.length_append, List.length_singleton,
        List.singleton_append] at this
      rw [hword, this]
      simp
    have hfirst : followedBy (s ++ attributes host true cookie) (s.length + 1) [115, 121, 115] =
        .ok true := by
      rw [hword] at h ⊢
      rw [followedBy_word s [115, 121, 115] _ _ rfl h]
      rfl
    have hcookie := readCookie_eq host true cookie (s ++ semicolon :: [115, 121, 115])
      (by rwa [← hsys])
    rw [← hsys] at hcookie
    have hlen : cookie = nullTimeStamp → (s ++ attributes host true cookie).length =
        (s ++ semicolon :: [115, 121, 115]).length := fun hc => by
      rw [hsys, length_append_attributes host cookie _ hc]
    rw [readAttributes, hfirst, Checked.bind_ok]
    rw [if_pos rfl, hfind, hcookie]
    by_cases hbad : cookie = nullTimeStamp ∧
        integerLast < (s ++ semicolon :: [115, 121, 115]).length + 4
    · rw [if_pos hbad, if_pos ⟨hbad.1, by rw [hlen hbad.1]; exact hbad.2⟩]
    · rw [if_neg hbad, if_neg]
      rintro ⟨hc, hlt⟩
      rw [hlen hc] at hlt
      exact hbad ⟨hc, hlt⟩

end Attributes

/-! ## The creator -/

theorem unescape_behind {rest xs : Text} (h : unescape rest = .ok xs) {p : Text} (hne : p ≠ [])
    (hp : slash ∉ p) (X Z : Text) : xs ++ slash :: X ≠ p ++ (rest ++ slash :: Z) := by
  induction rest using escape_induction generalizing xs p with
  | nil =>
    obtain rfl := Except.ok.inj h
    cases p with
    | nil => exact absurd rfl hne
    | cons c p =>
      intro heq
      exact hp ((List.cons.inj heq).1 ▸ List.mem_cons_self ..)
  | plain c cs hc ih =>
    rw [unescape_of_ne hc] at h
    obtain ⟨ys, hys, h⟩ := Checked.bind_eq_ok.1 h
    obtain rfl := Except.ok.inj h
    cases p with
    | nil => exact absurd rfl hne
    | cons d p =>
      intro heq
      obtain ⟨rfl, heq⟩ := List.cons.inj heq
      rw [List.mem_cons, not_or] at hp
      refine ih hys (p := p ++ [c]) (by simp) (by simp [hp]) ?_
      simpa using heq
  | pair d e rest ih =>
    obtain ⟨x, hx, h⟩ := Checked.bind_eq_ok.1 h
    obtain ⟨ys, hys, h⟩ := Checked.bind_eq_ok.1 h
    obtain rfl := Except.ok.inj h
    have hdigits : d ≠ slash ∧ e ≠ slash := by
      constructor <;> rintro rfl
      · cases hx
      · obtain ⟨_, _, hx⟩ := Checked.bind_eq_ok.1 hx
        cases hx
    cases p with
    | nil => exact absurd rfl hne
    | cons c p =>
      intro heq
      obtain ⟨-, heq⟩ := List.cons.inj heq
      rw [List.mem_cons, not_or] at hp
      refine ih hys (p := p ++ [percent, d, e]) (by simp) ?_ (by simpa using heq)
      simp only [List.mem_append, List.mem_cons, List.not_mem_nil, or_false, not_or]
      exact ⟨hp.2, by decide, Ne.symm hdigits.1, Ne.symm hdigits.2⟩
  | cut cs hcs => rw [unescape_cut hcs] at h; cases h

theorem unescape_in_place {s t : Text} (h : unescape s = .ok t) {X Z : Text}
    (heq : t ++ slash :: X = s ++ slash :: Z) : t = s := by
  induction s using escape_induction generalizing t with
  | nil => exact (Except.ok.inj h).symm
  | plain c cs hc ih =>
    rw [unescape_of_ne hc] at h
    obtain ⟨ys, hys, h⟩ := Checked.bind_eq_ok.1 h
    obtain rfl := Except.ok.inj h
    rw [ih hys (List.cons.inj heq).2]
  | pair d e rest ih =>
    obtain ⟨x, hx, h⟩ := Checked.bind_eq_ok.1 h
    obtain ⟨ys, hys, h⟩ := Checked.bind_eq_ok.1 h
    obtain rfl := Except.ok.inj h
    have hdigits : d ≠ slash ∧ e ≠ slash := by
      constructor <;> rintro rfl
      · cases hx
      · obtain ⟨_, _, hx⟩ := Checked.bind_eq_ok.1 hx
        cases hx
    refine absurd (List.cons.inj heq).2 (unescape_behind hys (p := [d, e]) (by simp) ?_ X Z)
    simp only [List.mem_cons, List.not_mem_nil, or_false, not_or]
    exact ⟨Ne.symm hdigits.1, Ne.symm hdigits.2⟩
  | cut cs hcs => rw [unescape_cut hcs] at h; cases h

theorem append_ne_of_not_mem {w p : Text} {c : UInt8} (hne : w ≠ []) (hw : c ∉ w) (hp : c ∉ p)
    (W Y : Text) : w ++ (p ++ W) ≠ p ++ c :: Y := by
  intro heq
  have hpos := List.length_pos_iff.2 hne
  have hlt : p.length < (w ++ p).length := by rw [List.length_append]; omega
  have hget := congrArg (fun l => l[p.length]?) heq
  rw [← List.append_assoc] at hget
  simp only [List.getElem?_append_left hlt, List.getElem?_append_right le_rfl, Nat.sub_self,
    List.getElem?_cons_zero] at hget
  rcases List.mem_append.1 (List.mem_of_getElem? hget) with h | h
  · exact hw h
  · exact hp h

theorem digits_ne_in_place {s t w : Text} (h : unescape s = .ok t) (hs : semicolon ∉ s)
    (hne : w ≠ []) (hw : ∀ c ∈ w, IsLowerHex c) (W Y : Text) :
    w ++ (t ++ W) ≠ s ++ semicolon :: Y := by
  have hdigit : ∀ c : UInt8, c = semicolon ∨ c = percent → c ∉ w := by
    intro c hc hmem
    have := hw c hmem
    rcases hc with rfl | rfl <;> revert this <;> decide
  obtain ⟨p, q, rfl, hp, hq⟩ : ∃ p q, s = p ++ q ∧ percent ∉ p ∧
      (q = [] ∨ ∃ rest, q = percent :: rest) := by
    refine ⟨s.takeWhile (· != percent), s.dropWhile (· != percent),
      List.takeWhile_append_dropWhile.symm, fun hmem => ?_, ?_⟩
    · simpa using List.mem_takeWhile_imp hmem
    · cases hdrop : s.dropWhile (· != percent) with
      | nil => exact .inl rfl
      | cons c rest =>
        have := List.head?_dropWhile_not (· != percent) s
        rw [hdrop] at this
        exact .inr ⟨rest, by simpa using this⟩
  rw [List.mem_append, not_or] at hs
  rw [unescape_plain hp] at h
  obtain ⟨xs, -, h⟩ := Checked.bind_eq_ok.1 h
  obtain rfl := Except.ok.inj h
  rw [List.append_assoc, List.append_assoc]
  rcases hq with rfl | ⟨rest, rfl⟩
  · exact append_ne_of_not_mem hne (hdigit _ (.inl rfl)) hs.1 _ _
  · exact append_ne_of_not_mem hne (hdigit _ (.inr rfl)) hp _ _

/-! ## The round trip -/

section RoundTrip

variable {host : Endianness} {u : UnmarshalledOid}

/-- The URI of the object gives the octets of its id back. -/
def ComesBack (host : Endianness) (u : UnmarshalledOid) : Prop :=
  ∃ uri, oidToRelUri host (uOidToOid host u) = .ok (uri, none) ∧
    relUriToOid host uri = .ok (uOidToOid host u)

/-- The strings that are made are not too long, nor the positions after the last one. -/
def Fits (host : Endianness) (u : UnmarshalledOid) : Prop :=
  (uOidToOid host u).length ≤ integerLast ∧ 3 * u.id.length ≤ integerLast ∧
    (relUri host u (uriEncode [slash] u.id)).length ≤ integerLast ∧
    (u.persistencyFlag = nullTimeStamp →
      (relUri host u (uriEncode [slash] u.id)).length + 4 ≤ integerLast)

theorem relUri_eq (encoded : Text) :
    relUri host u encoded = slash :: ((if u.creator = [] then [] else u.creator ++ [slash]) ++
      (encoded ++ attributes host u.systemGenerated u.persistencyFlag)) := by
  by_cases h : u.creator = [] <;> simp [relUri, attributes, h]

theorem oidToRelUri_eq (h : slash ∉ u.id) (hlen : (uOidToOid host u).length ≤ integerLast) :
    oidToRelUri host (uOidToOid host u) =
      if integerLast < 3 * u.id.length ∨
          integerLast < (relUri host u (uriEncode [slash] u.id)).length then
        .error (.raised .constraintError)
      else .ok (relUri host u (uriEncode [slash] u.id), none) := by
  have hread : oidToUOid host none (uOidToOid host u) .fresh = .ok (u, none) :=
    (roundTrip_iff h).2 ⟨hlen, fun _ => rfl⟩
  rw [oidToRelUri, hread]
  simp only [raisedBy, Checked.bind_ok, Option.isSome_none, Bool.false_eq_true, if_false,
    uriEncodeString]
  by_cases h3 : integerLast < 3 * u.id.length
  · rw [if_pos h3, if_pos (.inl h3), Checked.bind_error]
  · rw [if_neg h3, Checked.bind_ok]
    by_cases hr : integerLast < (relUri host u (uriEncode [slash] u.id)).length
    · rw [if_pos hr, if_pos (.inr hr)]
    · rw [if_neg hr, if_neg (not_or.2 ⟨h3, hr⟩)]
      rfl

/-- Without a semicolon in the creator, the URI is cut where it was put together. -/
theorem relUriToOid_relUri (hs : semicolon ∉ u.creator)
    (hlen : (relUri host u (uriEncode [slash] u.id)).length ≤ integerLast) :
    relUriToOid host (relUri host u (uriEncode [slash] u.id)) =
      if u.persistencyFlag = nullTimeStamp ∧
          integerLast < (relUri host u (uriEncode [slash] u.id)).length + 4 then
        .error (.raised .constraintError)
      else do
        let creator ← unescape u.creator
        return uOidToOid host { u with creator := creator } := by
  obtain ⟨pre, hpre, htail, hfirst, hsemi⟩ : ∃ pre, relUri host u (uriEncode [slash] u.id) =
      pre ++ slash :: (uriEncode [slash] u.id ++
        attributes host u.systemGenerated u.persistencyFlag) ∧ pre.tail = u.creator ∧
      (pre ++ [slash]).head? = some slash ∧ semicolon ∉ pre := by
    rw [relUri_eq]
    by_cases hc : u.creator = []
    · exact ⟨[], by simp [hc], by simp [hc], rfl, List.not_mem_nil⟩
    · refine ⟨slash :: u.creator, by simp [hc], rfl, rfl, ?_⟩
      rw [List.mem_cons, not_or]
      exact ⟨by decide, hs⟩
  have hattr := readAttributes_eq host u.systemGenerated u.persistencyFlag
    (pre ++ slash :: uriEncode [slash] u.id) (by simpa [hpre] using hlen)
  have hpos : (pre ++ slash :: uriEncode [slash] u.id).length + 1 =
      pre.length + (uriEncode [slash] u.id).length + 2 := by
    rw [List.length_append, List.length_cons]
    omega
  rw [hpos, List.append_assoc, List.cons_append] at hattr
  rw [hpre, relUriToOid_parts host hfirst hsemi (not_mem_uriEncode (.inl rfl))
    (not_mem_uriEncode (.inr rfl)) (attributes_head ..), hattr, htail]
  split_ifs
  · rfl
  · simp [unescape_uriEncode]

theorem uOidToOid_eq (u : UnmarshalledOid) :
    uOidToOid host u = u.creator ++ slash :: (putULong (u.id.length % unsignedLongModulus) ++
      (u.id ++ (putBoolean u.systemGenerated ++ putTimeStamp host u.persistencyFlag))) := by
  simp [uOidToOid, putString]

/-- With a semicolon in the creator, the URI is cut there, and gives other octets. -/
theorem relUriToOid_ne_of_semicolon (hs : semicolon ∈ u.creator) (encoded : Text) :
    relUriToOid host (relUri host u encoded) ≠ .ok (uOidToOid host u) := by
  obtain ⟨a, b, hab, ha⟩ := List.eq_append_cons_of_mem hs
  have hne : u.creator ≠ [] := List.ne_nil_of_mem hs
  have hslash : slash ∈ slash :: a := List.mem_cons_self ..
  obtain ⟨pre, mid, hcut, hmid⟩ := exists_creator hslash
  have hsemi : ∀ c ∈ pre ++ slash :: mid, c ≠ semicolon := by
    rw [← hcut]
    intro c hc
    rcases List.mem_cons.1 hc with rfl | hc
    · decide
    · rintro rfl
      exact ha hc
  have huri : relUri host u encoded = pre ++ slash :: (mid ++ semicolon :: (b ++ slash ::
      (encoded ++ attributes host u.systemGenerated u.persistencyFlag))) := by
    rw [relUri_eq, if_neg hne, hab]
    calc _ = (slash :: a) ++ semicolon :: (b ++ slash :: (encoded ++
          attributes host u.systemGenerated u.persistencyFlag)) := by simp
      _ = _ := by rw [hcut]; simp
  have hfirst : (pre ++ [slash]).head? = some slash := by
    cases pre with
    | nil => rfl
    | cons c pre => rw [(List.cons.inj hcut).1]; rfl
  intro h
  rw [huri, relUriToOid_parts host hfirst
    (fun hm => hsemi _ (List.mem_append_left _ hm) rfl)
    (fun hm => hsemi _ (List.mem_append_right _ (List.mem_cons_of_mem _ hm)) rfl) hmid
    (.inr ⟨_, rfl⟩)] at h
  obtain ⟨⟨sys, cookie⟩, -, h⟩ := Checked.bind_eq_ok.1 h
  obtain ⟨name, hname, h⟩ := Checked.bind_eq_ok.1 h
  obtain ⟨creator, hcreator, h⟩ := Checked.bind_eq_ok.1 h
  have hoid := Except.ok.inj h
  rw [uOidToOid_eq, uOidToOid_eq, hab, List.append_assoc, List.cons_append] at hoid
  cases pre with
  | nil =>
    -- the creator is read as empty, but the creator starts with no slash
    obtain ⟨-, rfl⟩ := List.cons.inj hcut
    obtain rfl := Except.ok.inj hcreator
    cases a with
    | nil => exact absurd (List.cons.inj hoid).1 (by decide)
    | cons c a => exact hmid ((List.cons.inj hoid).1 ▸ List.mem_cons_self ..)
  | cons c pre =>
    have ha' : a = pre ++ slash :: mid := (List.cons.inj hcut).2
    rw [ha', List.append_assoc, List.cons_append] at hoid
    have hsame := unescape_in_place hcreator hoid
    rw [hsame, List.tail_cons, List.append_cancel_left_eq, List.cons.injEq] at hoid
    have hmids : semicolon ∉ mid := fun hm =>
      hsemi _ (List.mem_append_right _ (List.mem_cons_of_mem _ hm)) rfl
    have hdigits : putULong (name.length % unsignedLongModulus) ≠ [] := fun hnil => by
      simpa [hnil] using length_putULong (name.length % unsignedLongModulus)
    exact digits_ne_in_place hname hmids hdigits (fun _ => isLowerHex_of_mem_putULong) _ _ hoid.2

theorem comesBack_iff (h : slash ∉ u.id) :
    ComesBack host u ↔ semicolon ∉ u.creator ∧ percent ∉ u.creator ∧ Fits host u := by
  by_cases hlen : (uOidToOid host u).length ≤ integerLast
  · rw [ComesBack, oidToRelUri_eq h hlen]
    by_cases hlong : integerLast < 3 * u.id.length ∨
        integerLast < (relUri host u (uriEncode [slash] u.id)).length
    · rw [if_pos hlong]
      refine iff_of_false (by rintro ⟨_, ⟨⟩, _⟩) ?_
      rintro ⟨-, -, -, h3, hr, -⟩
      omega
    · rw [not_or, not_lt, not_lt] at hlong
      rw [if_neg (by omega)]
      by_cases hs : semicolon ∈ u.creator
      · refine iff_of_false ?_ fun hall => hall.1 hs
        rintro ⟨uri, huri, hback⟩
        cases huri
        exact relUriToOid_ne_of_semicolon hs _ hback
      · have hback := @relUriToOid_relUri host _ hs hlong.2
        constructor
        · rintro ⟨uri, huri, hok⟩
          cases huri
          rw [hback] at hok
          split_ifs at hok with hover
          obtain ⟨creator, hcreator, hok⟩ := Checked.bind_eq_ok.1 hok
          have hsame : creator = u.creator := by
            have := Except.ok.inj hok
            simpa [uOidToOid, putString] using this
          rw [hsame] at hcreator
          refine ⟨hs, unescape_eq_self hcreator, hlen, hlong.1, hlong.2, fun hc => ?_⟩
          exact not_lt.1 fun hlt => hover ⟨hc, hlt⟩
        · rintro ⟨-, hp, -, -, -, hnull⟩
          refine ⟨_, rfl, ?_⟩
          rw [hback, if_neg fun hover => absurd (hnull hover.1) (not_le.2 hover.2),
            unescape_self hp]
          rfl
  · refine iff_of_false ?_ fun hall => hlen hall.2.2.1
    rintro ⟨uri, huri, -⟩
    rw [oidToRelUri, oidToUOid, getCreator_long (not_le.1 hlen), Checked.bind_error] at huri
    cases huri

end RoundTrip

/-- The relative URI of an object gives its octets back exactly if the creator has neither a
semicolon nor a percent sign, and reading a relative URI stays inside. -/
theorem relUri_iff (host : Endianness) (u : UnmarshalledOid) (rest : Text) :
    (slash ∉ u.id → (ComesBack host u ↔
      semicolon ∉ u.creator ∧ percent ∉ u.creator ∧ Fits host u)) ∧
    Inside (relUriToOid host (slash :: rest)) :=
  ⟨comesBack_iff, inside_relUriToOid host rest⟩

/-- A POA may be named `a;b`. -/
theorem not_comesBack_semicolon :
    ¬∀ name id : Text, ValidAdapterName name → slash ∉ id →
      ComesBack .littleEndian ⟨id, absoluteAddress [] name, false, nullTimeStamp⟩ := by
  intro h
  have := (comesBack_iff List.not_mem_nil).1 (h [97, semicolon, 98] [] (by decide) (by decide))
  exact this.1 (by decide)

end PolyORB
