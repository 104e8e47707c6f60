import PolyORB.Giop.CodeSetRoundTrip

/-!
# Conversion of characters and strings

The UTF-8 converter reserves the place of the length, and fills it in at the end: what it leaves is
what is left when the length is marshalled first.
-/

namespace PolyORB

open Buffer
open Program (onlyIf raiseIf)

variable (host : Endianness) {b b' : Buffer}

/-! ## ISO 8859-1 -/

theorem padAlign_one (b : Buffer) : padAlign 1 b = .ok () b := by
  rw [padAlign, Program.bind_get, if_pos (Octets.padding_one _)]
  rfl

theorem unmarshallOctets_of_pieces (xs : List UInt8) {r : Buffer}
    (hlim : r.cdrPosition + xs.length ≤ r.initialCdrPosition + r.length)
    (h : ∀ i x, xs[i]? = some x → r.pieceAt (r.cdrPosition + i) 1 = some [x]) :
    unmarshallOctets host xs.length r =
      .ok xs { r with cdrPosition := r.cdrPosition + xs.length } := by
  induction xs generalizing r with
  | nil => rfl
  | cons x xs ih =>
    rw [List.length_cons] at hlim
    have h₁ := unmarshallElementary_ok host one_pos (r := r) (z := [x])
      (by rw [Octets.padding_one]; omega) (by rw [Octets.padding_one]; exact h 0 x rfl)
    rw [Octets.padding_one, Nat.add_zero] at h₁
    have h₂ := ih (r := { r with cdrPosition := r.cdrPosition + 1 }) (by dsimp only; omega) (by
      intro i y hy
      show r.pieceAt (r.cdrPosition + 1 + i) 1 = _
      rw [Nat.add_assoc, Nat.add_comm 1 i]
      exact h (i + 1) y hy)
    have hx : fromOrderedOctets r.endianness [x] = x.toNat := by
      have := fromOrderedOctets_orderedOctets (e := r.endianness) (n := 1) x.toNat_lt
      rwa [orderedOctets_one] at this
    rw [List.length_cons, unmarshallOctets, Program.bind_ok h₁, Program.bind_ok h₂, hx,
      UInt8.ofNat_toNat, Program.pure_apply]
    rw [Nat.add_assoc, Nat.add_comm 1]

theorem Buffer.Appended.pieceAt {xs : List UInt8} (hb : b.AtEnd) (h : Appended b xs b') {i : Nat}
    {x : UInt8} (hx : xs[i]? = some x) : b'.pieceAt (b.cdrPosition + i) 1 = some [x] := by
  obtain ⟨hi, hx⟩ := List.getElem?_eq_some_iff.mp hx
  have hpos : b.cdrPosition + i - b.initialCdrPosition = b.octets.length + i := by
    rw [hb.position_eq, hb.length_eq]
    omega
  have hlt : b.octets.length + i < b'.chunks.flatten.length := by
    rw [← Buffer.octets, h.octets_eq, List.length_append]
    omega
  rw [Buffer.pieceAt, h.written.initial_eq, if_neg (by rw [hb.position_eq]; omega), hpos,
    Chunks.piece_one hlt]
  have hget : b'.octets[b.octets.length + i]? = some x := by
    rw [h.octets_eq, List.getElem?_append_right (Nat.le_add_right _ _), Nat.add_sub_cancel_left,
      List.getElem?_eq_getElem hi, hx]
  rw [Option.some.inj ((List.getElem?_eq_getElem hlt).symm.trans hget)]

theorem octetArray_coded (hb : b.AtEnd) (xs : List UInt8) :
    ∃ b', Codes (onBuffer (alignMarshallCopy xs 1)) (onBuffer (unmarshallOctets host xs.length)) xs b b'
      xs := by
  obtain ⟨b', h, ha⟩ := allocateAndInsertCookedData_appended hb xs
  refine ⟨b', onBuffer_ok ?_, ha, fun r hr hp => onBuffer_ok ?_⟩
  · rw [alignMarshallCopy, Program.bind_ok (padAlign_one b)]
    exact h
  · have hpos := ha.position_eq hb
    have hlim := hr.limit_le
    rw [← ha.written.atEnd.position_eq, hpos] at hlim
    rw [unmarshallOctets_of_pieces host xs (by rw [hp]; exact hlim), hp, hpos]
    intro i x hx
    rw [hp]
    exact hr.piece_eq _ _ _ (Nat.le_add_right _ _) one_pos (ha.pieceAt hb hx)

variable {s : List UInt8}

theorem latin1String_written (hb : b.AtEnd) (hs : s.length < 2 ^ 31) :
    ∃ b₁ b₂ b₃,
      Codes (onBuffer (marshallElementary host 4 (s.length + 1)))
        (onBuffer (unmarshallElementary host 4)) (s.length + 1) b b₁
        (zeros b.cdrPosition 4 ++ orderedOctets b.endianness 4 (s.length + 1)) ∧
      Codes (onBuffer (alignMarshallCopy s 1)) (onBuffer (unmarshallOctets host s.length)) s b₁ b₂ s ∧
      Codes (onBuffer (marshallElementary host 1 0)) (onBuffer (unmarshallElementary host 1)) 0 b₂ b₃
        [0] ∧
      onBuffer (do
        checkIndex s.length
        marshallLatin1String host s) ⟨b, none⟩ = .ok () ⟨b₃, none⟩ := by
  obtain ⟨b₁, h₁⟩ := Codes.elementary host hb 4 (v := s.length + 1) (by decide)
    (lt_of_le_of_lt hs (by decide))
  obtain ⟨b₂, h₂⟩ := octetArray_coded host h₁.atEnd s
  obtain ⟨b₃, h₃⟩ := Codes.octet host h₂.atEnd 0
  refine ⟨b₁, b₂, b₃, h₁, h₂, h₃, ?_⟩
  rw [marshallLatin1String, Nat.mod_eq_of_lt (lt_of_le_of_lt hs (by decide))]
  simp only [onBuffer_bind]
  rw [Program.bind_ok (onBuffer_checkIndex hs _), Program.bind_ok h₁.marshall,
    Program.bind_ok h₂.marshall]
  exact h₃.marshall

theorem latin1String_coded (hb : b.AtEnd) (hs : s.length + 1 < 2 ^ 31) :
    ∃ b' xs, Codes (onBuffer (do
      checkIndex s.length
      marshallLatin1String host s)) (onBuffer (unmarshallLatin1String host)) s b b' xs := by
  obtain ⟨b₁, b₂, b₃, h₁, h₂, h₃, hm⟩ := latin1String_written host hb (Nat.lt_of_succ_lt hs)
  refine ⟨b₃, (zeros b.cdrPosition 4 ++ orderedOctets b.endianness 4 (s.length + 1)) ++ (s ++ [0]),
    Codes.encode (m := onBuffer (marshallElementary host 4 (s.length + 1)) >>= fun _ =>
      onBuffer (alignMarshallCopy s 1) >>= fun _ => onBuffer (marshallElementary host 1 0)) ?_ hm⟩
  rw [unmarshallLatin1String]
  simp only [onBuffer_bind]
  refine h₁.bind hb (Codes.skip (onBuffer_raiseIf (Nat.not_le.mpr hs) _) ?_)
  rw [if_neg (Nat.succ_ne_zero _), Nat.add_sub_cancel]
  simp only [onBuffer_bind]
  refine h₂.bind h₁.atEnd (h₃.map ?_)
  funext t
  rfl

/-! ## UTF-8 -/

theorem utf8Char_coded (hb : b.AtEnd) {c : UInt8} (hc : c < 0x80) :
    ∃ b', Codes (marshallUtf8Char host c) (unmarshallUtf8Char host) c b b' [c] := by
  obtain ⟨b', h⟩ := Codes.octet host hb c
  refine ⟨b', ?_⟩
  rw [marshallUtf8Char, if_pos hc, unmarshallUtf8Char]
  refine h.map ?_
  dsimp only
  rw [UInt8.ofNat_toNat, Program.onlyIf_false (UInt8.not_le.mpr hc), pure_bind]

theorem marshallOctets_eq (ys : List UInt8) : ∀ b : Buffer,
    marshallOctets host ys b = .ok ()
      { b with
        contents := ys.foldl (fun c y => growOrAppend c [y] 511) b.contents
        cdrPosition := b.cdrPosition + ys.length
        length := b.length + ys.length } := by
  induction ys with
  | nil => intro b; rfl
  | cons y ys ih =>
    intro b
    have h : marshallElementary host 1 y.toNat b = .ok ()
        { b with
          contents := growOrAppend b.contents [y] 511
          cdrPosition := b.cdrPosition + 1
          length := b.length + 1 } := by
      rw [marshallElementary, Program.onlyIf_false (by simp), pure_bind, Program.bind_get,
        if_neg (by simp), orderedOctets_one]
      rfl
    rw [marshallOctets, Program.bind_ok h, ih, List.length_cons]
    rw [Nat.add_assoc, Nat.add_assoc, Nat.add_comm 1]
    rfl

theorem marshallUtf8Characters_eq (s : List UInt8) (b : Buffer) :
    ∃ b', marshallOctets host (s.flatMap utf8Octets) b = .ok () b' ∧
      marshallUtf8Characters host s b = .ok (s.flatMap utf8Octets).length b' := by
  induction s generalizing b with
  | nil => exact ⟨b, rfl, rfl⟩
  | cons c s ih =>
    rw [List.flatMap_cons, marshallUtf8Characters, utf8Octets]
    have hone : ∀ (o : UInt8) (b : Buffer), ∃ b₁, marshallElementary host 1 o.toNat b = .ok () b₁ := by
      intro o b
      have h := marshallOctets_eq host [o] b
      obtain ⟨_, b₁, h₁, -⟩ := Program.bind_eq_ok.mp h
      exact ⟨b₁, h₁⟩
    split_ifs with hc
    · obtain ⟨b₁, h₁⟩ := hone c b
      obtain ⟨b₂, h₂, h₂'⟩ := ih b₁
      refine ⟨b₂, (Program.bind_ok h₁).trans h₂, ?_⟩
      rw [Program.bind_ok h₁, Program.bind_ok h₂', List.length_append]
      rfl
    · obtain ⟨b₁, h₁⟩ := hone ((c &&& 0x3F) ||| 0x80) b
      obtain ⟨b₂, h₂⟩ := hone ((c / 64) ||| 0xC0) b₁
      obtain ⟨b₃, h₃, h₃'⟩ := ih b₂
      refine ⟨b₃, (Program.bind_ok h₁).trans ((Program.bind_ok h₂).trans h₃), ?_⟩
      rw [Program.bind_ok h₁, Program.bind_ok h₂, Program.bind_ok h₃', List.length_append]
      rfl

/-- The octets of a string and of its terminator. -/
def utf8Text (s : List UInt8) : List UInt8 := (s ++ [0]).flatMap utf8Octets

theorem length_utf8Text_le (s : List UInt8) : (utf8Text s).length ≤ 2 * (s.length + 1) := by
  have hle : ∀ t : List UInt8, (t.flatMap utf8Octets).length ≤ 2 * t.length := by
    intro t
    induction t with
    | nil => exact le_rfl
    | cons c t ih =>
      rw [List.flatMap_cons, List.length_append, List.length_cons, utf8Octets]
      split_ifs
      · simp only [List.length_cons, List.length_nil]
        omega
      · simp only [List.length_cons, List.length_nil]
        omega
  have h := hle (s ++ [0])
  rwa [List.length_append] at h

theorem foldl_overwriteAt {n : Nat} {xs : List UInt8} (ys : List UInt8) :
    ∀ {c : List Iovec} {zs : List UInt8}, 0 < xs.length →
      Chunks.piece (c.map Iovec.data) n xs.length = some zs →
      overwriteAt (ys.foldl (fun c y => growOrAppend c [y] 511) c) n xs =
        ys.foldl (fun c y => growOrAppend c [y] 511) (overwriteAt c n xs) := by
  induction ys with
  | nil => intro _ _ _ _; rfl
  | cons y ys ih =>
    intro c zs hx hp
    rw [List.foldl_cons, List.foldl_cons, ← overwriteAt_growOrAppend hp]
    exact ih hx ((covers_growOrAppend c [y] 511).2 n _ zs hx hp)

theorem marshallUtf8String_written (assertions : Bool) (hb : b.AtEnd)
    (hm : marshallUtf8String host assertions s b = .ok () b') :
    s.length + 1 < 2 ^ 31 ∧
      ∃ b₁ b₂, padAlign 4 b = .ok () b₁ ∧
        allocateAndInsertCookedData (orderedOctets host 4 (utf8Text s).length) b₁ = .ok () b₂ ∧
        marshallOctets host (utf8Text s) b₂ = .ok () b' := by
  obtain ⟨b₁, h₁, a₁⟩ := padAlign_appended hb 4
  rw [marshallUtf8String, Program.bind_ok h₁] at hm
  obtain ⟨reserv, br, hr, hm⟩ := Program.bind_eq_ok.mp hm
  have hreserv : reserv.offset = (b₁.contents.map Iovec.data).flatten.length ∧
      br = { b₁ with
        contents := growOrAppend b₁.contents (List.replicate 4 0) 508
        cdrPosition := b₁.cdrPosition + 4
        length := b₁.length + 4 } := by
    cases hr
    refine ⟨?_, rfl⟩
    show b₁.cdrPosition - b₁.initialCdrPosition = b₁.octets.length
    rw [a₁.written.atEnd.position_eq, a₁.written.atEnd.length_eq]
    omega
  obtain ⟨hoff, hbr⟩ := hreserv
  by_cases hs : 2 ^ 31 ≤ s.length + 1
  · have hcheck : checkIndex (s.length + 1) br = .error .constraintError br :=
      Program.raiseIf_true hs _ _
    rw [Program.bind_error hcheck] at hm
    cases hm
  · have hcheck : checkIndex (s.length + 1) br = .ok () br := Program.raiseIf_false hs _ _
    rw [Program.bind_ok hcheck] at hm
    refine ⟨Nat.not_le.mp hs, b₁, _, h₁, rfl, ?_⟩
    obtain ⟨b₂, h₂, h₂'⟩ : ∃ b₂, marshallOctets host (utf8Text s) br = .ok () b₂ ∧
        marshallUtf8Characters host (s ++ [0]) br = .ok (utf8Text s).length b₂ :=
      marshallUtf8Characters_eq host (s ++ [0]) br
    rw [Program.bind_ok h₂'] at hm
    have hlen := length_utf8Text_le s
    have hmod : (utf8Text s).length % unsignedLongModulus = (utf8Text s).length :=
      Nat.mod_eq_of_lt (lt_of_le_of_lt hlen (by unfold unsignedLongModulus; omega))
    obtain ⟨buf, hbuf, abuf⟩ := marshallElementary_octets host
      (b := Buffer.new host) ⟨rfl, rfl⟩ (show 0 < 4 by decide) (utf8Text s).length
    have hoct : buf.octets = orderedOctets host 4 (utf8Text s).length := by
      rw [abuf.octets_eq, zeros_nil (by rfl)]
      rfl
    rw [hmod, hbuf] at hm
    dsimp only at hm
    obtain ⟨_, bc, hc, hm⟩ := Program.bind_eq_ok.mp hm
    have hbc : bc = b₂ := by
      rw [raiseIf] at hc
      by_cases ha : assertions = true ∧ ¬(buf.endianness = reserv.endianness ∧
        buf.initialCdrPosition = reserv.cdrPosition ∧ buf.length = reserv.length)
      · rw [Program.onlyIf_true ha] at hc
        cases hc
      · rw [Program.onlyIf_false ha] at hc
        cases hc
        rfl
    rw [Program.modify_apply, hbc] at hm
    rw [marshallOctets_eq] at h₂ ⊢
    cases h₂
    cases hm
    have hfour : buf.octets.length = (List.replicate 4 (0 : UInt8)).length := by
      rw [hoct, length_orderedOctets]
      rfl
    have hpiece : Chunks.piece ((growOrAppend b₁.contents (List.replicate 4 0) 508).map Iovec.data)
        (b₁.contents.map Iovec.data).flatten.length buf.octets.length =
          some (List.replicate 4 0) := by
      rw [hfour]
      exact piece_growOrAppend b₁.contents 508 (by decide)
    have hover := foldl_overwriteAt (utf8Text s) (by rw [hfour]; decide) hpiece
    rw [overwriteAt_growOrAppend_new _ _ hfour (by decide), hoct] at hover
    rw [hbr, hoff, hoct]
    congr 1
    have hroom : max defaultChunkSize (orderedOctets host 4 (utf8Text s).length).length -
        (orderedOctets host 4 (utf8Text s).length).length = 508 := by
      rw [length_orderedOctets]
      rfl
    rw [hroom, length_orderedOctets]
    exact congrArg (fun c => ({
      endianness := b₁.endianness, initialCdrPosition := b₁.initialCdrPosition,
      cdrPosition := b₁.cdrPosition + 4 + (utf8Text s).length,
      length := b₁.length + 4 + (utf8Text s).length, contents := c } : Buffer)) hover.symm

theorem utf8String_appended (assertions : Bool) (hb : b.AtEnd)
    (hm : marshallUtf8String host assertions s b = .ok () b') :
    Appended b (zeros b.cdrPosition 4 ++ (orderedOctets host 4 (utf8Text s).length ++ utf8Text s)) b' := by
  obtain ⟨-, b₁, b₂, h₁, h₂, h₃⟩ := marshallUtf8String_written host assertions hb hm
  obtain ⟨b₁', h₁', a₁⟩ := padAlign_appended hb 4
  rw [h₁] at h₁'
  cases h₁'
  obtain ⟨b₂', h₂', a₂⟩ := allocateAndInsertCookedData_appended a₁.written.atEnd
    (orderedOctets host 4 (utf8Text s).length)
  rw [h₂] at h₂'
  cases h₂'
  obtain ⟨b₃', h₃', a₃⟩ := marshallOctets_appended host (utf8Text s) a₂.written.atEnd
  rw [h₃] at h₃'
  cases h₃'
  exact a₁.trans (a₂.trans a₃)

theorem utf8Characters_coded (hb : b.AtEnd) {t : List UInt8} (ht : ∀ c ∈ t, c < 0x80) :
    ∃ b', Codes (onBuffer (marshallOctets host t)) (onBuffer (unmarshallUtf8Characters host t.length)) t
      b b' t := by
  induction t generalizing b with
  | nil => exact ⟨b, .pure hb []⟩
  | cons c t ih =>
    obtain ⟨b₁, h₁⟩ := Codes.octet host hb c
    obtain ⟨b₂, h₂⟩ := ih h₁.atEnd fun d hd => ht d (List.mem_cons_of_mem _ hd)
    refine ⟨b₂, ?_⟩
    rw [marshallOctets, List.length_cons, unmarshallUtf8Characters]
    simp only [onBuffer_bind]
    refine h₁.bind hb ?_
    rw [UInt8.ofNat_toNat, if_pos (ht c List.mem_cons_self), onBuffer_bind]
    exact h₂.map rfl

theorem flatMap_utf8Octets {t : List UInt8} (ht : ∀ c ∈ t, c < 0x80) : t.flatMap utf8Octets = t := by
  induction t with
  | nil => rfl
  | cons c t ih =>
    rw [List.flatMap_cons, utf8Octets, if_pos (ht c List.mem_cons_self),
      ih fun d hd => ht d (List.mem_cons_of_mem _ hd)]
    rfl

theorem ascii_terminated (hs : ∀ c ∈ s, c < 0x80) : ∀ c ∈ s ++ [0], c < 0x80 := by
  intro c hc
  rcases List.mem_append.mp hc with hc | hc
  · exact hs c hc
  · obtain rfl := List.mem_singleton.mp hc
    decide

theorem utf8String_coded (assertions : Bool) (hb : b.AtEnd)
    (hm : marshallUtf8String host assertions s b = .ok () b') (hs : ∀ c ∈ s, c < 0x80)
    (horder : orderedOctets host 4 (s.length + 1) = orderedOctets b.endianness 4 (s.length + 1)) :
    ∃ xs, Codes (onBuffer (marshallUtf8String host assertions s)) (onBuffer (unmarshallUtf8String host))
      s b b' xs := by
  obtain ⟨hlen, b₁, b₂, h₁, h₂, h₃⟩ := marshallUtf8String_written host assertions hb hm
  have htext : utf8Text s = s ++ [0] := flatMap_utf8Octets (ascii_terminated hs)
  have htlen : (utf8Text s).length = s.length + 1 := by
    rw [htext]
    exact List.length_append
  rw [htlen] at h₂
  obtain ⟨b₂', c₁⟩ := Codes.elementary host hb 4 (v := s.length + 1) (by decide)
    (lt_trans hlen (by decide))
  have hlength : marshallElementary host 4 (s.length + 1) b = .ok () b₂ := by
    obtain ⟨b₁', hp, a₁⟩ := padAlign_appended hb 4
    rw [h₁] at hp
    cases hp
    rw [marshallElementary, Program.onlyIf_true (by decide), Program.bind_ok h₁, Program.bind_get]
    simp only [orderedOctets_swap 4 (s.length + 1) (by decide)]
    rw [a₁.written.endianness_eq, ← horder]
    exact h₂
  have heq := c₁.marshall
  rw [onBuffer_ok hlength] at heq
  cases heq
  obtain ⟨b₃, c₂⟩ := utf8Characters_coded host c₁.atEnd (ascii_terminated hs)
  rw [htext] at h₃
  have heq := c₂.marshall
  rw [onBuffer_ok h₃] at heq
  cases heq
  refine ⟨(zeros b.cdrPosition 4 ++ orderedOctets b.endianness 4 (s.length + 1)) ++ (s ++ [0]),
    Codes.encode (m := onBuffer (marshallElementary host 4 (s.length + 1)) >>= fun _ =>
      onBuffer (marshallOctets host (s ++ [0]))) ?_ (onBuffer_ok hm)⟩
  rw [unmarshallUtf8String]
  simp only [onBuffer_bind]
  refine c₁.bind hb (Codes.skip (onBuffer_checkIndex hlen) ?_)
  have hterm : (s ++ [0]).length = s.length + 1 := List.length_append
  rw [hterm] at c₂
  refine c₂.map ?_
  rw [List.dropLast_concat, onBuffer_pure]

/-! ### The standard encoding -/

theorem utf8_of_lt {c : UInt8} (h : c < 0x80) : Unicode.utf8 c.toNat = [c] := by
  have hc : c.toNat < 0x80 := h
  rw [Unicode.utf8_ascii hc, UInt8.ofNat_toNat]

theorem utf8_of_ge {c : UInt8} (h : ¬c < 0x80) :
    Unicode.utf8 c.toNat = [UInt8.ofNat (0xC0 + c.toNat / 64), UInt8.ofNat (0x80 + c.toNat % 64)] := by
  have hc : ¬c.toNat < 0x80 := h
  have hlt := c.toNat_lt
  exact Unicode.utf8_two (Nat.not_lt.mp hc) (by omega)

theorem length_utf8Octets (c : UInt8) : (utf8Octets c).length = (Unicode.utf8 c.toNat).length := by
  by_cases h : c < 0x80
  · rw [utf8Octets, if_pos h, utf8_of_lt h]
  · rw [utf8Octets, if_neg h, utf8_of_ge h]
    rfl

theorem continuation_ne_lead : ∀ n < 128,
    ((UInt8.ofNat (128 + n) &&& 0x3F) ||| 0x80) ≠ UInt8.ofNat (0xC0 + (128 + n) / 64) := by decide

theorem utf8Octets_eq_iff (c : UInt8) : utf8Octets c = Unicode.utf8 c.toNat ↔ c < 0x80 := by
  constructor
  · intro h
    by_contra hc
    rw [utf8Octets, if_neg hc, utf8_of_ge hc] at h
    have hge : ¬c.toNat < 128 := hc
    have hlt := c.toNat_lt
    have hne := continuation_ne_lead (c.toNat - 128) (by omega)
    rw [Nat.add_sub_cancel' (Nat.not_lt.mp hge), UInt8.ofNat_toNat] at hne
    exact hne (List.cons.inj h).1
  · intro hc
    rw [utf8Octets, if_pos hc, utf8_of_lt hc]

/-- A text in UTF-8. -/
def utf8Standard (t : List UInt8) : List UInt8 := t.flatMap fun c => Unicode.utf8 c.toNat

theorem length_utf8Standard (t : List UInt8) :
    (t.flatMap utf8Octets).length = (utf8Standard t).length := by
  induction t with
  | nil => rfl
  | cons c t ih =>
    rw [utf8Standard, List.flatMap_cons, List.flatMap_cons, List.length_append, List.length_append, ih,
      length_utf8Octets]
    rfl

theorem utf8Standard_iff (t : List UInt8) :
    t.flatMap utf8Octets = utf8Standard t ↔ ∀ c ∈ t, c < 0x80 := by
  induction t with
  | nil => exact iff_of_true rfl fun c hc => nomatch hc
  | cons c t ih =>
    rw [utf8Standard, List.flatMap_cons, List.flatMap_cons, List.forall_mem_cons, ← ih,
      ← utf8Octets_eq_iff]
    constructor
    · intro h
      exact List.append_inj h (length_utf8Octets c)
    · rintro ⟨h₁, h₂⟩
      rw [h₁, h₂]
      rfl

end PolyORB
