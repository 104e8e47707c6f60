import PolyORB.Giop.Encapsulations

/-!
# References are read back

`Marshall_IOR` counts the profiles while it marshals them, and puts their number into the place that
it reserved before: what is read there is the number, and all else is as if it had been there first.
-/

namespace PolyORB

open Buffer Chunks

/-! ## Data that is filled in later -/

section Overwritten

variable {c d : List Iovec} {n m : Nat} {xs ws zs : List UInt8}

/-- What is read as `w` at offset `p`, once `xs` has been put at offset `n`. -/
def overlaidAt (n : Nat) (xs : List UInt8) (p : Nat) (w : UInt8) : UInt8 :=
  if n ≤ p then xs[p - n]?.getD w else w

def overlaid (n : Nat) (xs : List UInt8) (m : Nat) (ws : List UInt8) : List UInt8 :=
  ws.mapIdx fun i => overlaidAt n xs (m + i)

theorem overlaidAt_before {p : Nat} (h : p < n) : overlaidAt n xs p = id :=
  funext fun _ => if_neg h.not_ge

theorem overlaidAt_past {p : Nat} (h : n + xs.length ≤ p) : overlaidAt n xs p = id := by
  funext w
  rw [overlaidAt, if_pos (by omega), List.getElem?_eq_none (by omega)]
  rfl

theorem overlaid_past (h : n + xs.length ≤ m) : overlaid n xs m ws = ws := by
  refine List.ext_getElem? fun i => ?_
  rw [overlaid, List.getElem?_mapIdx, overlaidAt_past (by omega), Option.map_id, id]

theorem overlaid_before (h : m + ws.length ≤ n) : overlaid n xs m ws = ws := by
  refine List.ext_getElem? fun i => ?_
  rw [overlaid, List.getElem?_mapIdx]
  rcases Nat.lt_or_ge i ws.length with hi | hi
  · rw [overlaidAt_before (by omega), Option.map_id, id]
  · rw [List.getElem?_eq_none hi]
    rfl

theorem overlaid_take {data : List UInt8} (h : n + xs.length ≤ data.length) (k : Nat) :
    ((data.take n ++ xs ++ data.drop (n + xs.length)).drop m).take k =
      overlaid n xs m ((data.drop m).take k) := by
  refine List.ext_getElem? fun i => ?_
  have htake : (data.take n).length = n := List.length_take_of_le (by omega)
  rw [overlaid, List.getElem?_mapIdx, List.getElem?_take, List.getElem?_take, List.getElem?_drop,
    List.getElem?_drop]
  split_ifs with hi
  swap
  · rfl
  rcases Nat.lt_or_ge (m + i) n with hn | hn
  · rw [overlaidAt_before hn, Option.map_id, id, List.append_assoc,
      List.getElem?_append_left (by omega), List.getElem?_take_of_lt hn]
  · rw [List.append_assoc, List.getElem?_append_right (by omega), htake]
    rcases Nat.lt_or_ge (m + i - n) xs.length with hx | hx
    · rw [List.getElem?_append_left hx, List.getElem?_eq_getElem hx,
        List.getElem?_eq_getElem (by omega : m + i < data.length), Option.map_some, overlaidAt,
        if_pos hn, List.getElem?_eq_getElem hx, Option.getD_some]
    · rw [List.getElem?_append_right hx, List.getElem?_drop, overlaidAt_past (by omega),
        Option.map_id, id, show n + xs.length + (m + i - n - xs.length) = m + i by omega]

theorem piece_overwriteAt (hp : piece (d.map Iovec.data) n xs.length = some zs) (k : Nat) :
    piece ((overwriteAt d n xs).map Iovec.data) m k =
      (piece (d.map Iovec.data) m k).map (overlaid n xs m) := by
  induction d generalizing n m with
  | nil => cases hp
  | cons v d ih =>
    rw [List.map_cons, piece_cons] at hp
    rw [overwriteAt, List.map_cons, piece_cons v.data]
    by_cases h : n < v.data.length
    · rw [if_pos h] at hp
      split_ifs at hp with hfit
      have hlen : (v.data.take n ++ xs ++ v.data.drop (n + xs.length)).length = v.data.length := by
        rw [List.length_append, List.length_append, List.length_take, List.length_drop]
        omega
      rw [if_pos h, List.map_cons, piece_cons, hlen]
      split_ifs with hm hk
      · exact congrArg some (overlaid_take hfit k)
      · rfl
      · cases piece (d.map Iovec.data) (m - v.data.length) k with
        | none => rfl
        | some ws => exact congrArg some (overlaid_past (by omega)).symm
    · rw [if_neg h] at hp
      rw [if_neg h, List.map_cons, piece_cons]
      split_ifs with hm hk
      · refine congrArg some (overlaid_before ?_).symm
        rw [List.length_take, List.length_drop]
        omega
      · rfl
      · rw [ih hp]
        congr 1
        funext ws
        refine congrArg (ws.mapIdx ·) (funext fun i => funext fun w => ?_)
        rw [overlaidAt, overlaidAt,
          show m - v.data.length + i - (n - v.data.length) = m + i - n by omega]
        exact if_congr (by omega) rfl rfl

theorem piece_overwriteAt_past (hp : piece (d.map Iovec.data) n xs.length = some zs)
    (hm : n + xs.length ≤ m) (k : Nat) :
    piece ((overwriteAt d n xs).map Iovec.data) m k = piece (d.map Iovec.data) m k := by
  rw [piece_overwriteAt hp]
  cases piece (d.map Iovec.data) m k with
  | none => rfl
  | some ws => exact congrArg some (overlaid_past hm)

theorem flatten_overwriteAt_length (hp : piece (d.map Iovec.data) n xs.length = some zs) :
    ((overwriteAt d n xs).map Iovec.data).flatten.length = (d.map Iovec.data).flatten.length := by
  induction d generalizing n with
  | nil => cases hp
  | cons v d ih =>
    rw [List.map_cons, piece_cons] at hp
    rw [overwriteAt]
    by_cases h : n < v.data.length
    · rw [if_pos h] at hp
      split_ifs at hp with hfit
      rw [if_pos h]
      simp only [List.map_cons, List.flatten_cons, List.length_append, List.length_take,
        List.length_drop]
      omega
    · rw [if_neg h] at hp
      rw [if_neg h]
      simp only [List.map_cons, List.flatten_cons, List.length_append, ih hp]

/-- What was put behind reserved storage is not moved when the storage is filled. -/
theorem Covers.overwriteAt (h : Covers (c.map Iovec.data) (d.map Iovec.data)) (hx : 0 < xs.length)
    (hp : piece (c.map Iovec.data) n xs.length = some zs) :
    Covers ((overwriteAt c n xs).map Iovec.data) ((overwriteAt d n xs).map Iovec.data) := by
  have hp' := h.2 _ _ _ hx hp
  refine ⟨by rw [flatten_overwriteAt_length hp, flatten_overwriteAt_length hp']; exact h.1,
    fun off k ys hk hpiece => ?_⟩
  rw [piece_overwriteAt hp] at hpiece
  obtain ⟨ws, hws, rfl⟩ := Option.map_eq_some_iff.1 hpiece
  rw [piece_overwriteAt hp', h.2 _ _ _ hk hws]
  rfl

end Overwritten

namespace Buffer

variable {b b' : Buffer} {xs ys : List UInt8}

/-- After `Allocate_And_Insert_Cooked_Data`. -/
def inserted (b : Buffer) (xs : List UInt8) : Buffer :=
  { b with
    contents := growOrAppend b.contents xs (max defaultChunkSize xs.length - xs.length)
    cdrPosition := b.cdrPosition + xs.length
    length := b.length + xs.length }

theorem Written.inserted (hb : b.AtEnd) (xs : List UInt8) : Written b (b.inserted xs) :=
  written_insert hb (flatten_growOrAppend ..) (covers_growOrAppend ..)

/-- With `xs`, which was put at the end of `b`, replaced by `ys`. -/
def filledIn (b : Buffer) (ys : List UInt8) (b' : Buffer) : Buffer :=
  { b' with contents := overwriteAt b'.contents (b.cdrPosition - b.initialCdrPosition) ys }

theorem AtEnd.offset (hb : b.AtEnd) :
    b.cdrPosition - b.initialCdrPosition = (b.contents.map Iovec.data).flatten.length := by
  have hlength : b.length = (b.contents.map Iovec.data).flatten.length := hb.length_eq
  rw [hb.position_eq, ← hlength, Nat.add_sub_cancel_left]

theorem Written.piece_inserted (hb : b.AtEnd) (hx : 0 < xs.length) (hlen : ys.length = xs.length)
    (hw : Written (b.inserted xs) b') : piece (b'.contents.map Iovec.data)
      (b.cdrPosition - b.initialCdrPosition) ys.length = some xs := by
  rw [hlen, hb.offset]
  exact hw.covers.2 _ _ _ hx (piece_growOrAppend b.contents _ hx)

theorem Written.filledIn (hb : b.AtEnd) (hx : 0 < xs.length) (hlen : ys.length = xs.length)
    (hw : Written (b.inserted xs) b') : Written (b.inserted ys) (b.filledIn ys b') := by
  have hp := (Written.refl (Written.inserted hb xs).atEnd).piece_inserted hb hx hlen
  have hfirst : overwriteAt (b.inserted xs).contents (b.cdrPosition - b.initialCdrPosition) ys =
      (b.inserted ys).contents := by
    rw [hb.offset]
    show overwriteAt (growOrAppend _ _ (max defaultChunkSize xs.length - xs.length)) _ _ = _
    rw [overwriteAt_growOrAppend_new _ _ hlen hx, ← hlen]
    rfl
  have hcovers := Covers.overwriteAt hw.covers (hlen ▸ hx) hp
  rw [hfirst] at hcovers
  refine ⟨⟨?_, hw.atEnd.position_eq⟩, hw.endianness_eq, hw.initial_eq, hcovers⟩
  exact hw.atEnd.length_eq.trans
    (flatten_overwriteAt_length (hw.piece_inserted hb hx hlen)).symm

theorem Presents.of_filledIn {r : Buffer} {start : Nat} (hb : b.AtEnd) (hx : 0 < xs.length)
    (hlen : ys.length = xs.length) (hw : Written (b.inserted xs) b')
    (hstart : (b.inserted xs).cdrPosition ≤ start) (h : Presents (b.filledIn ys b') r start) :
    Presents b' r start := by
  refine ⟨h.endianness_eq, h.limit_le, fun pos n zs hpos hn hz => h.piece_eq pos n zs hpos hn ?_⟩
  have hend : b.cdrPosition + xs.length ≤ pos := hstart.trans hpos
  have hinitial : b'.initialCdrPosition = b.initialCdrPosition := hw.initial_eq
  have hle := hb.position_eq
  have hoffset : (b.filledIn ys b').initialCdrPosition = b.initialCdrPosition := hinitial
  unfold pieceAt at hz ⊢
  split_ifs at hz with hlow
  refine (if_neg hlow).trans ((piece_overwriteAt_past (hw.piece_inserted hb hx hlen) ?_ n).trans hz)
  rw [hlen]
  omega

end Buffer

/-! ## Profiles -/

section Profiles

variable {P : Type} (env : Profiles P) (sender : Endianness)

/-- The tag of the profile has one callback, which reads back the body that it marshals. -/
def ProfileConveyed (p : P) : Prop :=
  ∃ info advance, env.callbacks.filter (fun info => info.tag == env.getProfileTag p) = [info] ∧
    env.getProfileTag p < unsignedLongModulus ∧
    Conveys sender (info.marshallProfileBody p) info.unmarshallProfileBody (some p) advance

variable {env sender} (receiver : Endianness)

theorem profile_conveyed {p : P} (h : ProfileConveyed env sender p) :
    ∃ m advance, marshallProfile env sender p = (do m; return true) ∧
      Conveys sender m (unmarshallProfile env receiver) (some p) advance := by
  obtain ⟨info, advance, honly, htag, hbody⟩ := h
  have hfind : env.callbacks.find? (fun info => info.tag == env.getProfileTag p) = some info := by
    rw [← List.head?_filter, honly]
    rfl
  refine ⟨marshallElementary sender 4 (env.getProfileTag p) >>= fun _ =>
    info.marshallProfileBody p, _, ?_,
      (Conveys.elementary sender receiver four_pos htag).bind (g := advance) ?_⟩
  · rw [marshallProfile, hfind]
    simp only [bind_assoc]
  · simp only [honly, List.foldlM_cons, List.foldlM_nil, bind_pure]
    exact hbody

theorem profiles_conveyed {ps : List P} (h : ∀ p ∈ ps, ProfileConveyed env sender p) :
    ∃ m advance, marshallProfiles env sender ps = (do m; return ps.length) ∧
      Conveys sender m (unmarshallProfiles env receiver ps.length) ps advance := by
  induction ps with
  | nil => exact ⟨pure (), id, rfl, .pure []⟩
  | cons p ps ih =>
    obtain ⟨m, advance, hm, hconveys⟩ := profile_conveyed receiver (h p List.mem_cons_self)
    obtain ⟨m', advance', hm', hconveys'⟩ := ih fun q hq => h q (List.mem_cons_of_mem p hq)
    refine ⟨m >>= fun _ => m', _, ?_, hconveys.bind (hconveys'.map fun r => rfl)⟩
    rw [marshallProfiles, hm, hm']
    simp

/-! ## References -/

theorem iorRoundTrips_nil (assertions : Bool) :
    IorRoundTrips env assertions sender receiver none := by
  intro b hb he _
  obtain ⟨b', h, -⟩ := (Conveys.latin1String sender receiver (s := []) (by decide)).bind
    (c := none) (k := fun typeId => do
      let nProfiles ← unmarshallElementary receiver 4
      Program.raiseIf (2 ^ 31 ≤ nProfiles) .constraintError
      let profs ← unmarshallProfiles env receiver nProfiles
      return createReference profs typeId)
    ((Conveys.elementary sender receiver four_pos (v := 0) (by decide)).map fun r => rfl) b hb he
  exact ⟨b', h⟩

/-- The number of the profiles is marshalled at an aligned position. -/
theorem countBuf_ok (sender : Endianness) {position n : Nat} (hp : position % 4 = 0) :
    ∃ countBuf, marshallElementary sender 4 n
        { Buffer.new sender with initialCdrPosition := position, cdrPosition := position } =
          .ok () countBuf ∧
      countBuf.octets = orderedOctets sender 4 n ∧ countBuf.endianness = sender ∧
      countBuf.initialCdrPosition = position ∧ countBuf.length = 4 := by
  obtain ⟨countBuf, hm, ha⟩ := marshallElementary_octets sender
    (b := { Buffer.new sender with initialCdrPosition := position, cdrPosition := position })
    ⟨rfl, rfl⟩ four_pos n
  have hoctets : countBuf.octets = orderedOctets sender 4 n := by
    rw [ha.octets_eq, zeros_nil hp]
    rfl
  refine ⟨countBuf, hm, hoctets, ha.written.endianness_eq, ha.written.initial_eq, ?_⟩
  rw [ha.written.atEnd.length_eq, hoctets, length_orderedOctets]

theorem iorRoundTrips_profiles (assertions : Bool) {value : ReferenceInfo P}
    (hid : value.typeId.length + 1 < 2 ^ 31) (hcount : value.profiles.length < 2 ^ 31)
    (hprofiles : ∀ p ∈ value.profiles, ProfileConveyed env sender p) :
    IorRoundTrips env assertions sender receiver (some value) := by
  intro b hb he _
  obtain ⟨b₀, h₀, -⟩ := Conveys.latin1String sender receiver hid b hb he
  obtain ⟨b₁, hpad, hw₁, hp₁⟩ := padAlign_ok h₀.written.atEnd 4
  have he₁ : b₁.endianness = sender :=
    (hw₁.endianness_eq.trans h₀.written.endianness_eq).trans he
  have haligned : b₁.cdrPosition % 4 = 0 := hp₁ ▸ Octets.add_padding_mod four_pos _
  have hlt : value.profiles.length < unsignedLongModulus := lt_trans hcount (by decide)
  obtain ⟨countBuf, hbuf, hoctets, hendian, hinitial, hlength⟩ :=
    countBuf_ok sender (n := value.profiles.length) haligned
  obtain ⟨bc, hc, -⟩ := RoundTrips.between sender receiver h₀.written.atEnd four_pos hlt
  have hbc : bc = b₁.inserted countBuf.octets := by
    have hm := hc.marshall
    rw [marshallElementary, Program.onlyIf_true (by decide), Program.bind_ok hpad,
      Program.bind_get, if_neg (fun h => h.2 he₁)] at hm
    injection hm with _ hm
    rw [← hm, hoctets]
    rfl
  have hlen : countBuf.octets.length = (List.replicate 4 (0 : UInt8)).length := by
    rw [hoctets, length_orderedOctets]
    rfl
  have hb₁ := hw₁.atEnd
  have hreserved := Written.inserted hb₁ (List.replicate 4 0)
  obtain ⟨m, advance, hm, hconveys⟩ := profiles_conveyed receiver hprofiles
  obtain ⟨b₂, h₂, -⟩ := hconveys (b₁.inserted (List.replicate 4 0)) hreserved.atEnd
    (hreserved.endianness_eq.trans he₁)
  have hfilled := h₂.written.filledIn hb₁ (by decide) hlen
  refine ⟨b₁.filledIn countBuf.octets b₂, ?_, h₀.written.trans (hc.written.trans (hbc ▸ hfilled)),
    fun r hr hp => ?_⟩
  · have hassert : ¬(assertions = true ∧ ¬(countBuf.endianness = b₁.endianness ∧
        countBuf.initialCdrPosition = b₁.cdrPosition ∧ countBuf.length = 4)) :=
      fun h => h.2 ⟨hendian.trans he₁.symm, hinitial, hlength⟩
    have hreserve : reserve 4 b₁ = .ok
        ⟨b₁.cdrPosition - b₁.initialCdrPosition, b₁.endianness, b₁.cdrPosition, 4⟩
        (b₁.inserted (List.replicate 4 0)) := rfl
    have hcounted : marshallProfiles env sender value.profiles
        (b₁.inserted (List.replicate 4 0)) = .ok value.profiles.length b₂ := by
      rw [hm, Program.bind_ok h₂.marshall]
      rfl
    rw [marshallIor, Program.bind_ok h₀.marshall, Program.bind_ok hpad, Program.bind_get,
      Program.bind_ok hreserve, Program.bind_ok hcounted, Nat.mod_eq_of_lt hlt, hbuf]
    exact Program.bind_raiseIf hassert b₂
  · have hle₀ := h₀.written.position_le hb
    have hlec := hc.written.position_le h₀.written.atEnd
    have hname := h₀.unmarshall r (hr.of_written (hc.written.trans (hbc ▸ hfilled))
      h₀.written.atEnd) hp
    have hnumber := hc.unmarshall { r with cdrPosition := b₀.cdrPosition }
      (((hr.of_written (hbc ▸ hfilled) hc.written.atEnd).mono hle₀).setPosition _) rfl
    have hend : bc.cdrPosition = (b₁.inserted (List.replicate 4 0)).cdrPosition := by
      rw [hbc]
      exact congrArg (b₁.cdrPosition + ·) hlen
    have hpresents := (hr.mono (hle₀.trans (hlec.trans hend.le))).of_filledIn hb₁ (by decide) hlen
      h₂.written le_rfl
    have hprofs := h₂.unmarshall { r with cdrPosition := bc.cdrPosition }
      (hpresents.setPosition _) hend
    rw [unmarshallIor, Program.bind_ok hname, Program.bind_ok hnumber,
      Program.bind_raiseIf (by omega), Program.bind_ok hprofs]
    rw [createReference, dif_neg value.nonempty]
    rfl

end Profiles

end PolyORB
