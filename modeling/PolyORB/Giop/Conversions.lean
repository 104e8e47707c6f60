import PolyORB.Giop.CharConversion

/-!
# When a converted datum comes back

A datum that its converter accepts is read back, and encoded as the transmission code set says, but
for strings in UTF-8 with characters beyond ASCII, for the byte order mark as a wide character of
GIOP 1.1, and for strings whose length does not fit.
-/

namespace PolyORB

open Buffer
open Program (onlyIf raiseIf)

namespace CodedDatum

variable (host : Endianness) (assertions : Bool)

/-- The converter accepts the datum: nothing is raised, and no error is stored. -/
def Accepts (d : CodedDatum) (b b' : Buffer) : Prop :=
  d.marshall host assertions ⟨b, none⟩ = .ok () ⟨b', none⟩

/-- The code units of a text in UTF-16. -/
def utf16Standard (order : Endianness) (s : List UInt16) : List UInt8 :=
  (s.flatMap fun c => Unicode.utf16 c.toNat).flatMap fun u => orderedOctets order 2 u

/-- The octets of a datum in UTF-8 or UTF-16, from a position on. -/
def standard (order : Endianness) (position : Nat) : CodedDatum → Option (List UInt8)
  | char .iso88591Utf8 c => some (utf8Standard [c])
  | string .iso88591Utf8 s =>
    let text := utf8Standard (s ++ [0])
    some (zeros position 4 ++ (orderedOctets order 4 text.length ++ text))
  | wchar ⟨.ucs2Utf16, true⟩ c => some ([4] ++ utf16Standard order [bom, c])
  | wchar ⟨.ucs2Utf16, false⟩ c => some (zeros position 2 ++ utf16Standard order [c])
  | wideString ⟨.ucs2Utf16, m⟩ s =>
    some (zeros position 4 ++ orderedOctets order 4 (utf16Length m s) ++
      utf16Standard order (bom :: terminated m s))
  | char .iso88591Native _ | string .iso88591Native _ | wchar ⟨.ucs2Native, _⟩ _
  | wideString ⟨.ucs2Native, _⟩ _ => none

/-- From the position of `b` on, `Unmarshall` reads the datum back, up to the position of `b'`, and
the octets put there are the standard ones. -/
structure ConvertsFrom (d : CodedDatum) (b b' : Buffer) : Prop where
  unmarshall : ∀ r, Presents b' r b.cdrPosition → r.cdrPosition = b.cdrPosition →
    d.unmarshall host ⟨r, none⟩ = .ok d.datum ⟨{ r with cdrPosition := b'.cdrPosition }, none⟩
  octets : ∀ xs, d.standard b.endianness b.cdrPosition = some xs → b'.octets = b.octets ++ xs

/-- ASCII characters only, in a buffer whose byte order shows the length as the host does; no byte
order mark; a length that can be read back. -/
def Sound (order : Endianness) : CodedDatum → Prop
  | string .iso88591Native s => s.length + 1 < 2 ^ 31
  | string .iso88591Utf8 s =>
    (∀ c ∈ s, c < 0x80) ∧ orderedOctets host 4 (s.length + 1) = orderedOctets order 4 (s.length + 1)
  | wchar ⟨.ucs2Utf16, m⟩ c => m = false → c ≠ bom
  | wideString ⟨.ucs2Native, m⟩ s => ucs2Length m s < 2 ^ 31
  | wideString ⟨.ucs2Utf16, m⟩ s => utf16Length m s < 2 ^ 31
  | char _ _ | wchar ⟨.ucs2Native, _⟩ _ => True

theorem utf16Standard_eq (order : Endianness) (s : List UInt16) :
    utf16Standard order s = units order s := by
  rw [utf16Standard, Unicode.flatMap_utf16_bmp _ _ fun c _ => c.toNat_lt, List.flatMap_map]
  rfl

variable {host assertions} {b b' : Buffer}

/-! ## From round trips -/

theorem convertsFrom_of_codes {α : Type} {d : CodedDatum} {m : CdrProg Unit} {u : CdrProg α} {a : α}
    {xs : List UInt8} {f : α → Datum} (hacc : d.Accepts host assertions b b')
    (hm : d.marshall host assertions = m) (hu : d.unmarshall host = (u >>= fun x => pure (f x)))
    (hd : d.datum = f a) {b'' : Buffer} (h : Codes m u a b b'' xs)
    (hxs : ∀ ys, d.standard b.endianness b.cdrPosition = some ys → ys = xs) :
    d.ConvertsFrom host b b' := by
  have heq := h.marshall
  rw [← hm, hacc] at heq
  cases heq
  refine ⟨fun r hr hp => ?_, fun ys hys => ?_⟩
  · rw [hu, Program.bind_ok (h.unmarshall r hr hp), hd]
    rfl
  · rw [hxs ys hys]
    exact h.appended.octets_eq

theorem not_convertsFrom {d : CodedDatum}
    (h : ∀ p, d.unmarshall host ⟨{ b' with cdrPosition := b.cdrPosition }, none⟩ ≠
      .ok d.datum ⟨{ b' with cdrPosition := p }, none⟩) : ¬d.ConvertsFrom host b b' :=
  fun hc => h _ (hc.unmarshall _ ((Presents.self b' _).setPosition _) rfl)

/-! ## Characters -/

theorem char_convertsFrom {k : CharConverter} {c : UInt8} (hb : b.AtEnd)
    (hacc : (char k c).Accepts host assertions b b') : (char k c).ConvertsFrom host b b' := by
  cases k with
  | iso88591Native =>
    obtain ⟨b₁, h⟩ := Codes.octet host hb c
    refine convertsFrom_of_codes (f := fun v => .char (UInt8.ofNat v)) hacc rfl rfl ?_ h
      fun ys hys => nomatch hys
    rw [UInt8.ofNat_toNat]
    rfl
  | iso88591Utf8 =>
    by_cases hc : c < 0x80
    · obtain ⟨b₁, h⟩ := utf8Char_coded host hb hc
      refine convertsFrom_of_codes (f := .char) hacc rfl rfl rfl h fun ys hys => ?_
      obtain rfl := Option.some.inj hys
      rw [utf8Standard, List.flatMap_singleton, utf8_of_lt hc]
    · have hm : marshallUtf8Char host c ⟨b, none⟩ = .ok () ⟨b', none⟩ := hacc
      rw [marshallUtf8Char, if_neg hc] at hm
      cases hm

/-! ## Strings -/

theorem onBuffer_eq_ok {α : Type} {p : BufferProg α} {a : α} {t : Transfer}
    (h : onBuffer p ⟨b, none⟩ = .ok a t) : ∃ b', p b = .ok a b' ∧ t = ⟨b', none⟩ := by
  obtain ⟨b', hp, ht⟩ := Program.zoom_eq_ok.mp h
  exact ⟨b', hp, ht⟩

theorem checkIndex_of_ok {n : Nat} {t : Transfer} {f : Unit → CdrProg Unit}
    (h : (onBuffer (checkIndex n) >>= f) ⟨b, none⟩ = .ok () t) : n < 2 ^ 31 := by
  by_contra hn
  have hx : checkIndex n b = .error .constraintError b := Program.raiseIf_true (Nat.not_lt.mp hn) _ _
  rw [Program.bind_error (onBuffer_error hx)] at h
  cases h

theorem checkIndex_fails {n : Nat} (hn : ¬n < 2 ^ 31) (t : Transfer) :
    onBuffer (checkIndex n) t = .error .constraintError t :=
  onBuffer_error (Program.raiseIf_true (Nat.not_lt.mp hn) _ _)

theorem latin1String_convertsFrom_iff {s : List UInt8} (hb : b.AtEnd)
    (hacc : (string .iso88591Native s).Accepts host assertions b b') :
    (string .iso88591Native s).ConvertsFrom host b b' ↔ s.length + 1 < 2 ^ 31 := by
  have hlen : s.length < 2 ^ 31 := by
    have hm := hacc
    rw [Accepts, marshall, onBuffer_bind] at hm
    exact checkIndex_of_ok hm
  constructor
  · intro hc
    by_contra hlong
    obtain ⟨b₁, b₂, b₃, h₁, h₂, h₃, hm⟩ := latin1String_written host hb hlen
    rw [show onBuffer _ _ = EStateM.Result.ok () _ from hacc] at hm
    cases hm
    refine not_convertsFrom (fun p => ?_) hc
    have hread := h₁.rewound (h₂.appended.written.trans h₃.appended.written)
    rw [CodedDatum.unmarshall, unmarshallLatin1String, onBuffer_bind, bind_assoc,
      Program.bind_ok hread, onBuffer_bind, bind_assoc]
    have hfail : ∀ t, onBuffer (raiseIf (2 ^ 31 ≤ s.length + 1) Exn.constraintError) t =
        .error .constraintError t := checkIndex_fails hlong
    intro heq
    rw [Program.bind_error (hfail _)] at heq
    cases heq
  · intro hs
    obtain ⟨b₁, xs, h⟩ := latin1String_coded host hb hs
    exact convertsFrom_of_codes (f := .string) hacc rfl rfl rfl h (by rintro _ ⟨⟩)

theorem utf8String_convertsFrom_iff {s : List UInt8} (hb : b.AtEnd)
    (hacc : (string .iso88591Utf8 s).Accepts host assertions b b') :
    (string .iso88591Utf8 s).ConvertsFrom host b b' ↔ (∀ c ∈ s, c < 0x80) ∧
      orderedOctets host 4 (s.length + 1) = orderedOctets b.endianness 4 (s.length + 1) := by
  obtain ⟨b₁, hm, hb₁⟩ := onBuffer_eq_ok hacc
  cases hb₁
  have happ := utf8String_appended host assertions hb hm
  have hstd : ∀ xs, (string .iso88591Utf8 s).standard b.endianness b.cdrPosition = some xs →
      xs = zeros b.cdrPosition 4 ++ (orderedOctets b.endianness 4 (utf8Standard (s ++ [0])).length ++
        utf8Standard (s ++ [0])) := fun xs hxs => (Option.some.inj hxs).symm
  constructor
  · intro hc
    have hoct := hc.octets _ rfl
    rw [happ.octets_eq] at hoct
    have hbody := List.append_cancel_left (List.append_cancel_left hoct)
    obtain ⟨hlength, htext⟩ := List.append_inj hbody (by rw [length_orderedOctets, length_orderedOctets])
    have hascii := (utf8Standard_iff (s ++ [0])).mp htext
    have htlen : (utf8Text s).length = s.length + 1 := by
      rw [utf8Text, flatMap_utf8Octets hascii]
      exact List.length_append
    refine ⟨fun c hcs => hascii c (List.mem_append_left _ hcs), ?_⟩
    rw [← length_utf8Standard, ← utf8Text, htlen] at hlength
    exact hlength
  · rintro ⟨hs, horder⟩
    obtain ⟨xs, h⟩ := utf8String_coded host assertions hb hm hs horder
    have htext := (utf8Standard_iff (s ++ [0])).mpr (ascii_terminated hs)
    have htlen : (utf8Text s).length = s.length + 1 := by
      rw [utf8Text, flatMap_utf8Octets (ascii_terminated hs)]
      exact List.length_append
    have hxs : xs = zeros b.cdrPosition 4 ++ (orderedOctets host 4 (utf8Text s).length ++ utf8Text s) :=
      List.append_cancel_left (h.appended.octets_eq.symm.trans happ.octets_eq)
    refine convertsFrom_of_codes (f := .string) hacc rfl rfl rfl h fun ys hys => ?_
    rw [hstd ys hys, hxs, htlen, ← htext, horder]
    exact congrArg (zeros b.cdrPosition 4 ++ ·)
      (congrArg₂ (· ++ ·) (by rw [← htlen]; rfl) rfl)

/-! ## Wide characters -/

theorem unmarshallElementary_atEnd (hb : b.AtEnd) {size : Nat} (hs : 1 < size) (v : Nat) (t : Buffer) :
    unmarshallElementary host size b ≠ .ok v t := by
  intro h
  rw [unmarshallElementary, Program.onlyIf_true (by omega)] at h
  obtain ⟨_, b₁, hal, h⟩ := Program.bind_eq_ok.mp h
  rw [alignPosition, Program.bind_get] at hal
  split_ifs at hal with hlim
  · cases hal
    obtain ⟨xs, b₂, hex, -⟩ := Program.bind_eq_ok.mp h
    rw [extractData, Program.bind_get] at hex
    obtain ⟨_, b₃, hlen, -⟩ := Program.bind_eq_ok.mp hex
    have hoff : b.octets.length ≤ b.cdrPosition + Octets.padding b.cdrPosition size -
        b.initialCdrPosition := by
      rw [← hb.length_eq, hb.position_eq]
      omega
    have hnil : ∀ n, Chunks.run b.chunks (b.cdrPosition + Octets.padding b.cdrPosition size -
        b.initialCdrPosition) n = [] := fun n => Chunks.run_past hoff n
    rw [raiseIf, Program.onlyIf_true (by
      show (Chunks.run b.chunks _ size).length < size
      rw [hnil]
      exact Nat.lt_of_succ_lt hs)] at hlen
    cases hlen
  · cases hal

theorem wchar_convertsFrom_iff {k : WideConverter} {c : UInt16} (hb : b.AtEnd)
    (hacc : (wchar k c).Accepts host assertions b b') :
    (wchar k c).ConvertsFrom host b b' ↔ (wchar k c).Sound host b.endianness := by
  obtain ⟨codeSet, m⟩ := k
  cases codeSet with
  | ucs2Native =>
    obtain ⟨b₁, xs, h⟩ := ucs2Wchar_coded host hb m c
    exact iff_of_true (convertsFrom_of_codes (f := .wchar) hacc rfl rfl rfl h
      fun ys hys => nomatch hys) trivial
  | ucs2Utf16 =>
    have hc : unconvertible c = false := by
      rw [← Bool.not_eq_true]
      intro hc
      have hm : marshallUtf16Wchar host m c ⟨b, none⟩ = .ok () ⟨b', none⟩ := hacc
      rw [marshallUtf16Wchar, if_pos hc] at hm
      cases hm
    constructor
    · rintro hconv rfl rfl
      obtain ⟨b₁, h₁⟩ := Codes.elementary host hb 2 (v := bom.toNat) (by decide) bom.toNat_lt
      have hm : onBuffer (marshallElementary host 2 bom.toNat) ⟨b, none⟩ = .ok () ⟨b', none⟩ := hacc
      rw [h₁.marshall] at hm
      cases hm
      refine not_convertsFrom (fun p heq => ?_) hconv
      obtain ⟨c', t, hread, heq⟩ := Program.bind_eq_ok.mp heq
      rw [unmarshallUtf16Wchar, if_neg Bool.false_ne_true, onBuffer_bind, bind_assoc,
        Program.bind_ok (h₁.rewound (.refl h₁.atEnd))] at hread
      obtain ⟨v, t', hv, -⟩ := Program.bind_eq_ok.mp hread
      obtain ⟨b₂, hv, -⟩ := onBuffer_eq_ok hv
      obtain ⟨w, b₃, hw, -⟩ := Program.bind_eq_ok.mp hv
      exact unmarshallElementary_atEnd h₁.atEnd (by decide) w b₃ hw
    · intro hs
      obtain ⟨b₁, h⟩ := utf16Wchar_coded host hb hc hs
      refine convertsFrom_of_codes (f := .wchar) hacc rfl rfl rfl h fun ys hys => ?_
      cases m with
      | true =>
        obtain rfl := Option.some.inj hys
        rw [utf16Standard_eq]
        simp [units, utf16WcharOctets]
      | false =>
        obtain rfl := Option.some.inj hys
        rw [utf16Standard_eq]
        simp [units, utf16WcharOctets]

/-! ## Wide strings -/

theorem convertible_of_loop {s : List UInt16} : ∀ {b : Buffer} {r : Bool} {t : Transfer},
    marshallUtf16Characters host s ⟨b, none⟩ = .ok r t →
    (∀ c ∈ s, unconvertible c = false) ∨ r = false ∧ t.error ≠ none := by
  induction s with
  | nil => intro _ _ _ _; exact .inl (by simp)
  | cons c s ih =>
    intro b r t h
    rw [marshallUtf16Characters] at h
    by_cases hc : unconvertible c = true
    · rw [if_pos hc] at h
      cases h
      exact .inr ⟨rfl, by simp⟩
    · rw [if_neg hc] at h
      obtain ⟨_, t₁, h₁, h⟩ := Program.bind_eq_ok.mp h
      obtain ⟨b₁, -, rfl⟩ := onBuffer_eq_ok h₁
      rcases ih h with hs | hs
      · refine .inl fun d hd => ?_
        rcases List.mem_cons.mp hd with rfl | hd
        · exact Bool.not_eq_true _ ▸ hc
        · exact hs d hd
      · exact .inr hs

theorem convertible_of_accepts {m : Bool} {s : List UInt16}
    (hacc : (wideString ⟨.ucs2Utf16, m⟩ s).Accepts host assertions b b') :
    s.length < 2 ^ 31 ∧ ∀ c ∈ s, unconvertible c = false := by
  have hm : marshallUtf16WideString host m s ⟨b, none⟩ = .ok () ⟨b', none⟩ := hacc
  refine ⟨checkIndex_of_ok hm, ?_⟩
  obtain ⟨_, t₁, h₁, hm⟩ := Program.bind_eq_ok.mp hm
  obtain ⟨b₁, -, rfl⟩ := onBuffer_eq_ok h₁
  obtain ⟨_, t₂, h₂, hm⟩ := Program.bind_eq_ok.mp hm
  obtain ⟨b₂, -, rfl⟩ := onBuffer_eq_ok h₂
  obtain ⟨_, t₃, h₃, hm⟩ := Program.bind_eq_ok.mp hm
  obtain ⟨b₃, -, rfl⟩ := onBuffer_eq_ok h₃
  obtain ⟨r, t₄, h₄, hm⟩ := Program.bind_eq_ok.mp hm
  rcases convertible_of_loop h₄ with hs | ⟨rfl, he⟩
  · exact hs
  · cases hm
    exact absurd rfl he

/-- What `Unmarshall` does with a length that is too large, or that has come round to zero. -/
theorem not_convertsFrom_utf16 {m : Bool} {s : List UInt16} {b₁ : Buffer} {xs : List UInt8}
    (hlong : ¬utf16Length m s < 2 ^ 31) (hs : s.length < 2 ^ 31)
    (h₁ : Codes (onBuffer (marshallElementary host 4 (utf16Length m s)))
      (onBuffer (unmarshallElementary host 4)) (utf16Length m s % 256 ^ 4) b b₁ xs)
    (hw : Written b₁ b') : ¬(wideString ⟨.ucs2Utf16, m⟩ s).ConvertsFrom host b b' := by
  refine not_convertsFrom fun p heq => ?_
  rw [CodedDatum.unmarshall, unmarshallUtf16WideString, bind_assoc,
    Program.bind_ok (h₁.rewound hw), bind_assoc] at heq
  by_cases hmod : utf16Length m s % 256 ^ 4 < 2 ^ 31
  · have hzero : m = true ∧ utf16Length m s % 256 ^ 4 = 0 ∧ 0 < s.length := by
      rw [utf16Length] at hmod hlong ⊢
      cases m with
      | true =>
        rw [if_pos rfl] at hmod hlong ⊢
        exact ⟨rfl, by omega, by omega⟩
      | false =>
        rw [if_neg Bool.false_ne_true] at hmod hlong
        omega
    obtain ⟨rfl, hv, hpos⟩ := hzero
    rw [Program.bind_ok (onBuffer_checkIndex hmod _), hv, if_neg (by decide), if_pos (by decide)] at heq
    cases heq
    exact absurd hpos (lt_irrefl _)
  · rw [Program.bind_error (checkIndex_fails hmod _)] at heq
    cases heq

theorem wideString_convertsFrom_iff {k : WideConverter} {s : List UInt16} (hb : b.AtEnd)
    (hacc : (wideString k s).Accepts host assertions b b') :
    (wideString k s).ConvertsFrom host b b' ↔ (wideString k s).Sound host b.endianness := by
  obtain ⟨codeSet, m⟩ := k
  cases codeSet with
  | ucs2Native =>
    have hlen : s.length < 2 ^ 31 := by
      have hm := hacc
      rw [Accepts, marshall, marshallUcs2WideString, onBuffer_bind] at hm
      exact checkIndex_of_ok hm
    constructor
    · intro hc
      by_contra hlong
      obtain ⟨b₁, b₂, h₁, h₂, hm⟩ := ucs2WideString_written host hb m hlen
      rw [show onBuffer _ _ = EStateM.Result.ok () _ from hacc] at hm
      cases hm
      refine not_convertsFrom (fun p heq => ?_) hc
      rw [CodedDatum.unmarshall, unmarshallUcs2WideString, onBuffer_bind, bind_assoc,
        Program.bind_ok (h₁.rewound h₂.appended.written), onBuffer_bind, bind_assoc,
        Program.bind_error (checkIndex_fails hlong _)] at heq
      cases heq
    · intro hs
      obtain ⟨b₁, xs, h⟩ := ucs2WideString_coded host hb m hlen hs
      exact convertsFrom_of_codes (f := .wideString) hacc rfl rfl rfl h (by rintro _ ⟨⟩)
  | ucs2Utf16 =>
    obtain ⟨hlen, hconv⟩ := convertible_of_accepts hacc
    constructor
    · intro hc
      by_contra hlong
      obtain ⟨b₁, b₂, b₃, h₁, h₂, h₃, hm⟩ := utf16WideString_written host hb m hlen hconv
      rw [show marshallUtf16WideString host m s _ = EStateM.Result.ok () _ from hacc] at hm
      cases hm
      exact not_convertsFrom_utf16 hlong hlen h₁
        (h₂.appended.written.trans h₃.appended.written) hc
    · intro hs
      obtain ⟨b₁, h⟩ := utf16WideString_coded host hb m hlen hconv hs
      refine convertsFrom_of_codes (f := .wideString) hacc rfl rfl rfl h fun ys hys => ?_
      obtain rfl := Option.some.inj hys
      rw [utf16Standard_eq]
      rfl

/-! ## Any datum -/

/-- Whatever the converter accepts comes back as it was, in the standard encoding, just when the
condition holds. -/
theorem convertsFrom_iff {d : CodedDatum} (hb : b.AtEnd) (hacc : d.Accepts host assertions b b') :
    d.ConvertsFrom host b b' ↔ d.Sound host b.endianness := by
  cases d with
  | char k c =>
    exact iff_of_true (char_convertsFrom hb hacc) (by cases k <;> trivial)
  | string k s =>
    cases k with
    | iso88591Native => exact latin1String_convertsFrom_iff hb hacc
    | iso88591Utf8 => exact utf8String_convertsFrom_iff hb hacc
  | wchar k c => exact wchar_convertsFrom_iff hb hacc
  | wideString k s => exact wideString_convertsFrom_iff hb hacc

/-! ## A letter that is not ASCII -/

/-- The string of `é` in UTF-8, as it is left in a new buffer. -/
def acute : CodedDatum := .string .iso88591Utf8 [0xE9]

def acuteBuffer : Buffer :=
  { endianness := .littleEndian, initialCdrPosition := 0, cdrPosition := 7, length := 7,
    contents := [⟨[3, 0, 0, 0, 0xA9, 0xC3, 0], 505⟩] }

theorem convertsFrom_iff_acute :
    acute.ConvertsFrom .littleEndian (Buffer.new .littleEndian) acuteBuffer ↔
      acute.Sound .littleEndian .littleEndian :=
  @convertsFrom_iff _ true _ _ acute ⟨rfl, rfl⟩ rfl

/-- The continuation octet comes before the lead octet. -/
theorem not_convertsFrom_acute : ¬∀ (d : CodedDatum) (b b' : Buffer), b.AtEnd →
    d.Accepts .littleEndian true b b' → d.ConvertsFrom .littleEndian b b' := by
  intro h
  have hc := h acute (Buffer.new .littleEndian) acuteBuffer ⟨rfl, rfl⟩ rfl
  have hoct : acuteBuffer.octets = [] ++ [3, 0, 0, 0, 0xC3, 0xA9, 0] := hc.octets _ (by decide)
  exact absurd hoct (by decide)

end CodedDatum

end PolyORB
