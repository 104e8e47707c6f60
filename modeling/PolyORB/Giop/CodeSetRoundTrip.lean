import PolyORB.Giop.CodeSets
import PolyORB.Giop.Message
import PolyORB.Lib.Unicode

/-!
# Round trips of the character data converters

`Codes m u a b b' xs`: `m` puts the octets `xs` at the end of `b`, and `u` reads `a` back from them;
neither stores an error.
-/

namespace PolyORB

open Buffer
open Program (onlyIf raiseIf)

/-! ## Programs on a buffer -/

theorem onBuffer_ok {α : Type} {p : BufferProg α} {a : α} {b b' : Buffer} {e : Option SysError}
    (h : p b = .ok a b') : onBuffer p ⟨b, e⟩ = .ok a ⟨b', e⟩ := Program.zoom_ok h

theorem onBuffer_error {α : Type} {p : BufferProg α} {x : Exn} {b b' : Buffer} {e : Option SysError}
    (h : p b = .error x b') : onBuffer p ⟨b, e⟩ = .error x ⟨b', e⟩ := Program.zoom_error h

theorem onBuffer_bind {α β : Type} (p : BufferProg α) (f : α → BufferProg β) :
    onBuffer (p >>= f) = onBuffer p >>= fun a => onBuffer (f a) := by
  funext s
  cases h : p s.buffer with
  | ok a b =>
    rw [Program.bind_ok (onBuffer_ok h)]
    show Program.zoom _ _ _ _ = Program.zoom _ _ _ _
    rw [Program.zoom, Program.zoom, Program.bind_ok h]
  | error x b =>
    rw [Program.bind_error (onBuffer_error h)]
    exact onBuffer_error (Program.bind_error h)

theorem onBuffer_pure {α : Type} (a : α) : onBuffer (pure a) = pure a := rfl

/-! ## Octets that are appended -/

/-- The padding before an item of `size` octets. -/
def zeros (position size : Nat) : List UInt8 := List.replicate (Octets.padding position size) 0

theorem zeros_nil {position size : Nat} (h : position % size = 0) : zeros position size = [] := by
  rw [zeros, Octets.padding_eq_zero h]
  rfl

theorem padAlign_appended {b : Buffer} (hb : b.AtEnd) (alignment : Nat) :
    ∃ b', padAlign alignment b = .ok () b' ∧ Appended b (zeros b.cdrPosition alignment) b' := by
  obtain ⟨b', h, w, -⟩ := padAlign_ok hb alignment
  refine ⟨b', h, w, ?_⟩
  rw [padAlign, Program.bind_get] at h
  by_cases h0 : Octets.padding b.cdrPosition alignment = 0
  · rw [if_pos h0] at h
    cases h
    rw [zeros, h0]
    exact (List.append_nil _).symm
  · rw [if_neg h0, Program.bind_ok (Program.set_apply ..), alignPosition,
      Program.bind_get] at h
    split_ifs at h with hlim
    · cases h
      exact flatten_growOrAppend ..
    · cases h

theorem marshallElementary_octets (host : Endianness) {b : Buffer} (hb : b.AtEnd) {size : Nat}
    (hs : 0 < size) (v : Nat) :
    ∃ b', marshallElementary host size v b = .ok () b' ∧
      Appended b (zeros b.cdrPosition size ++ orderedOctets b.endianness size v) b' := by
  obtain ⟨b₁, h₁, a₁⟩ := padAlign_appended hb size
  obtain ⟨b₂, h₂, a₂⟩ :=
    allocateAndInsertCookedData_appended a₁.written.atEnd (orderedOctets b₁.endianness size v)
  have hpad : onlyIf (size ≠ 1) (padAlign size) b = .ok () b₁ := by
    by_cases h1 : size = 1
    · subst h1
      rw [padAlign, Program.bind_get, if_pos (Octets.padding_one _)] at h₁
      exact h₁
    · rw [Program.onlyIf_true h1]
      exact h₁
  refine ⟨b₂, ?_, a₁.written.endianness_eq ▸ a₁.trans a₂⟩
  rw [marshallElementary, Program.bind_ok hpad, Program.bind_get]
  simp only [orderedOctets_swap size v hs]
  exact h₂

/-! ## Conversions that round trip -/

structure Codes {α : Type} (m : CdrProg Unit) (u : CdrProg α) (a : α) (b b' : Buffer)
    (xs : List UInt8) : Prop where
  marshall : m ⟨b, none⟩ = .ok () ⟨b', none⟩
  appended : Appended b xs b'
  unmarshall : ∀ r, Presents b' r b.cdrPosition → r.cdrPosition = b.cdrPosition →
    u ⟨r, none⟩ = .ok a ⟨{ r with cdrPosition := b'.cdrPosition }, none⟩

namespace Codes

variable {α β : Type} {b b' b'' : Buffer} {xs ys : List UInt8}

theorem pure (hb : b.AtEnd) (a : α) : Codes (pure ()) (pure a) a b b [] :=
  ⟨rfl, .refl hb, fun r _ hr => by rw [← hr]; rfl⟩

variable {u : CdrProg α} {m : CdrProg Unit}

theorem bind {m' : CdrProg Unit} {f : α → CdrProg β} {a : α} {c : β}
    (hb : b.AtEnd) (h : Codes m u a b b' xs) (h' : Codes m' (f a) c b' b'' ys) :
    Codes (m >>= fun _ => m') (u >>= f) c b b'' (xs ++ ys) := by
  refine ⟨?_, h.appended.trans h'.appended, fun r hr hp => ?_⟩
  · rw [Program.bind_ok h.marshall]
    exact h'.marshall
  · have hw := h'.appended.written
    rw [Program.bind_ok (h.unmarshall r (hr.of_written hw h.appended.written.atEnd) hp)]
    exact h'.unmarshall _ ((hr.mono (h.appended.written.position_le hb)).setPosition _) rfl

theorem map {f : α → CdrProg β} {a : α} {c : β}
    (h : Codes m u a b b' xs) (hf : f a = Pure.pure c) : Codes m (u >>= f) c b b' xs :=
  ⟨h.marshall, h.appended, fun r hr hp => by
    rw [Program.bind_ok (h.unmarshall r hr hp), hf]
    rfl⟩

theorem ofRoundTrips {m : BufferProg Unit} {u : BufferProg α} {a : α} (h : RoundTrips m u a b b')
    (ha : Appended b xs b') : Codes (onBuffer m) (onBuffer u) a b b' xs :=
  ⟨onBuffer_ok h.marshall, ha, fun r hr hp => onBuffer_ok (h.unmarshall r hr hp)⟩

theorem elementary (host : Endianness) (hb : b.AtEnd) (size : Nat) {v : Nat} (hs : 0 < size)
    (hv : v < 256 ^ size) :
    ∃ b', Codes (onBuffer (marshallElementary host size v)) (onBuffer (unmarshallElementary host size))
      v b b' (zeros b.cdrPosition size ++ orderedOctets b.endianness size v) := by
  obtain ⟨b', h, -⟩ := RoundTrips.elementary host hb hs hv
  obtain ⟨b₁, h₁, a₁⟩ := marshallElementary_octets host hb hs v
  rw [h.marshall] at h₁
  cases h₁
  exact ⟨b', ofRoundTrips h a₁⟩

theorem octet (host : Endianness) (hb : b.AtEnd) (o : UInt8) :
    ∃ b', Codes (onBuffer (marshallElementary host 1 o.toNat)) (onBuffer (unmarshallElementary host 1))
      o.toNat b b' [o] := by
  obtain ⟨b', h⟩ := elementary host hb 1 one_pos (o.toNat_lt)
  rw [zeros_nil (Nat.mod_one _), orderedOctets_one] at h
  exact ⟨b', h⟩

theorem aligned (host : Endianness) (hb : b.AtEnd) (size : Nat) {v : Nat} (hs : 0 < size)
    (hv : v < 256 ^ size) (ha : b.cdrPosition % size = 0) :
    ∃ b', Codes (onBuffer (marshallElementary host size v)) (onBuffer (unmarshallElementary host size))
      v b b' (orderedOctets b.endianness size v) := by
  obtain ⟨b', h⟩ := elementary host hb size hs hv
  rw [zeros_nil ha] at h
  exact ⟨b', h⟩

theorem unaligned (host : Endianness) (hb : b.AtEnd) (size : Nat) {v : Nat} (hs : 0 < size)
    (hv : v < 256 ^ size) :
    ∃ b', Codes (onBuffer (marshallUnaligned host size v)) (onBuffer (unmarshallUnaligned host size))
      v b b' (orderedOctets b.endianness size v) := by
  have hl : 0 < (orderedOctets b.endianness size v).length := by
    rw [length_orderedOctets]
    exact hs
  obtain ⟨b', h, w, p, c⟩ := allocateAndInsertCookedData_ok hb hl
  obtain ⟨b₁, h₁, a₁⟩ := allocateAndInsertCookedData_appended hb (orderedOctets b.endianness size v)
  rw [h] at h₁
  cases h₁
  rw [length_orderedOctets] at p c
  refine ⟨b', onBuffer_ok ?_, a₁, fun r hr hp => onBuffer_ok ?_⟩
  · rw [marshallUnaligned, Program.bind_get]
    simp only [orderedOctets_swap size v hs]
    exact h
  · have hz := hr.piece_eq _ _ _ le_rfl hs c
    rw [← hp] at hz
    rw [unmarshallUnaligned, Program.bind_ok (extractData_of_pieceAt hs hz), Program.bind_get]
    have hf := fromOrderedOctets_swap host r.endianness (orderedOctets b.endianness size v) hl
    rw [length_orderedOctets] at hf
    simp only [Program.pure_apply, hf]
    rw [hr.endianness_eq, w.endianness_eq, fromOrderedOctets_orderedOctets hv, p, hp]

theorem position (hb : b.AtEnd) {a : α}
    (h : Codes m u a b b' xs) : b'.cdrPosition = b.cdrPosition + xs.length :=
  h.appended.position_eq hb

theorem atEnd {a : α} (h : Codes m u a b b' xs) : b'.AtEnd :=
  h.appended.written.atEnd

theorem order {a : α} (h : Codes m u a b b' xs) :
    b'.endianness = b.endianness := h.appended.written.endianness_eq

theorem even (hb : b.AtEnd) {a : α} {order : Endianness} {v : Nat}
    (h : Codes m u a b b' (zeros b.cdrPosition 4 ++ orderedOctets order 4 v)) :
    b'.cdrPosition % 2 = 0 := by
  have hp := h.position hb
  have hm := Octets.add_padding_mod (a := 4) (by decide) b.cdrPosition
  rw [List.length_append, zeros, List.length_replicate, length_orderedOctets] at hp
  omega

theorem rewound {a : α} (h : Codes m u a b b' xs) (hw : Written b' b'') :
    u ⟨{ b'' with cdrPosition := b.cdrPosition }, none⟩ =
      .ok a ⟨{ b'' with cdrPosition := b'.cdrPosition }, none⟩ :=
  h.unmarshall _ (((Presents.self b'' _).of_written hw h.atEnd).setPosition _) rfl

theorem encode {m' : CdrProg Unit} {a : α} (h : Codes m u a b b' xs)
    (hm : m' ⟨b, none⟩ = .ok () ⟨b', none⟩) : Codes m' u a b b' xs :=
  ⟨hm, h.appended, h.unmarshall⟩

theorem skip {γ : Type} {p : CdrProg γ} {f : γ → CdrProg α} {a : α} {d : γ}
    (hp : ∀ t, p t = .ok d t) (h : Codes m (f d) a b b' xs) : Codes m (p >>= f) a b b' xs :=
  ⟨h.marshall, h.appended, fun r hr hpos => by
    rw [Program.bind_ok (hp _)]
    exact h.unmarshall r hr hpos⟩

end Codes

theorem onBuffer_checkIndex {n : Nat} (h : n < 2 ^ 31) (t : Transfer) :
    onBuffer (checkIndex n) t = .ok () t :=
  onBuffer_ok (Program.raiseIf_false (Nat.not_le.mpr h) _ _)

theorem onBuffer_raiseIf {c : Prop} [Decidable c] (h : ¬c) (x : Exn) (t : Transfer) :
    onBuffer (raiseIf c x) t = .ok () t := onBuffer_ok (Program.raiseIf_false h _ _)

/-! ## Wide characters -/

variable (host : Endianness) {b b' : Buffer}

def units (order : Endianness) (s : List UInt16) : List UInt8 :=
  s.flatMap fun c => orderedOctets order 2 c.toNat

theorem wideCharacters_coded (hb : b.AtEnd) (ha : b.cdrPosition % 2 = 0) (s : List UInt16) :
    ∃ b', Codes (onBuffer (marshallWideCharacters host s))
      (onBuffer (unmarshallWideCharacters host s.length)) s b b' (units b.endianness s) := by
  induction s generalizing b with
  | nil => exact ⟨b, .pure hb []⟩
  | cons c s ih =>
    obtain ⟨b₁, h₁⟩ := Codes.aligned host hb 2 (by decide) c.toNat_lt ha
    have hpos := h₁.position hb
    rw [length_orderedOctets] at hpos
    obtain ⟨b₂, h₂⟩ := ih h₁.atEnd (by omega)
    rw [h₁.order] at h₂
    refine ⟨b₂, ?_⟩
    rw [marshallWideCharacters, List.length_cons, unmarshallWideCharacters, onBuffer_bind, onBuffer_bind]
    refine h₁.bind hb ?_
    rw [onBuffer_bind]
    refine h₂.map ?_
    rw [onBuffer_pure, UInt16.ofNat_toNat]

theorem marshallWideCharacters_append (s t : List UInt16) :
    marshallWideCharacters host (s ++ t) =
      marshallWideCharacters host s >>= fun _ => marshallWideCharacters host t := by
  induction s with
  | nil => rfl
  | cons c s ih =>
    rw [List.cons_append, marshallWideCharacters, ih, marshallWideCharacters, bind_assoc]

/-- A wide string as it is marshalled, with a terminating character in GIOP 1.1 mode. -/
def terminated (giop12Mode : Bool) (s : List UInt16) : List UInt16 :=
  if giop12Mode = true then s else s ++ [0]

theorem length_terminated (m : Bool) (s : List UInt16) :
    (terminated m s).length = if m = true then s.length else s.length + 1 := by
  cases m with
  | true => rfl
  | false => exact List.length_append

theorem marshall_terminated (m : Bool) (s : List UInt16) :
    (marshallWideCharacters host s >>= fun _ => onlyIf (m = false) (marshallElementary host 2 0)) =
      marshallWideCharacters host (terminated m s) := by
  cases m with
  | true =>
    show (marshallWideCharacters host s >>= fun _ => pure ()) = _
    exact bind_pure _
  | false =>
    rw [terminated, if_neg Bool.false_ne_true, marshallWideCharacters_append]
    congr 1
    funext _
    exact (bind_pure _).symm

theorem resultUpTo_terminated (m : Bool) (s : List UInt16) :
    resultUpTo m (terminated m s) (terminated m s).length = pure s := by
  cases m with
  | true =>
    exact congrArg pure List.take_length
  | false =>
    rw [resultUpTo, if_neg Bool.false_ne_true, terminated, if_neg Bool.false_ne_true,
      List.length_append]
    show (raiseIf (s.length + 1 = 0) _ >>= fun _ => pure ((s ++ [0]).take s.length)) = _
    rw [raiseIf, Program.onlyIf_false (Nat.succ_ne_zero _), pure_bind, List.take_left]

/-! ## UCS-2 -/

/-- The length that is marshalled before a string in UCS-2. -/
def ucs2Length (m : Bool) (s : List UInt16) : Nat :=
  if m = true then s.length * 2 else s.length + 1

theorem ucs2Wchar_coded (hb : b.AtEnd) (m : Bool) (c : UInt16) :
    ∃ b' xs, Codes (onBuffer (marshallUcs2Wchar host m c)) (onBuffer (unmarshallUcs2Wchar host m)) c b
      b' xs := by
  cases m with
  | true =>
    obtain ⟨b₁, h₁⟩ := Codes.octet host hb 2
    obtain ⟨b₂, h₂⟩ := Codes.unaligned host h₁.atEnd 2 (by decide) c.toNat_lt
    refine ⟨b₂, [2] ++ orderedOctets b₁.endianness 2 c.toNat, ?_⟩
    rw [marshallUcs2Wchar, if_pos rfl, unmarshallUcs2Wchar, if_pos rfl, onBuffer_bind, onBuffer_bind]
    refine h₁.bind hb ?_
    rw [onBuffer_bind]
    refine Codes.skip (onBuffer_raiseIf (by decide) _) ?_
    rw [onBuffer_bind]
    refine h₂.map ?_
    rw [onBuffer_pure, UInt16.ofNat_toNat]
  | false =>
    obtain ⟨b₁, h₁⟩ := Codes.elementary host hb 2 (by decide) c.toNat_lt
    refine ⟨b₁, zeros b.cdrPosition 2 ++ orderedOctets b.endianness 2 c.toNat, ?_⟩
    rw [marshallUcs2Wchar, if_neg Bool.false_ne_true, unmarshallUcs2Wchar,
      if_neg Bool.false_ne_true, onBuffer_bind]
    refine h₁.map ?_
    rw [onBuffer_pure, UInt16.ofNat_toNat]

theorem ucs2WideString_written (hb : b.AtEnd) (m : Bool) {s : List UInt16} (hs : s.length < 2 ^ 31) :
    ∃ b₁ b₂,
      Codes (onBuffer (marshallElementary host 4 (ucs2Length m s)))
        (onBuffer (unmarshallElementary host 4)) (ucs2Length m s) b b₁
        (zeros b.cdrPosition 4 ++ orderedOctets b.endianness 4 (ucs2Length m s)) ∧
      Codes (onBuffer (marshallWideCharacters host (terminated m s)))
        (onBuffer (unmarshallWideCharacters host (terminated m s).length)) (terminated m s) b₁ b₂
        (units b₁.endianness (terminated m s)) ∧
      onBuffer (marshallUcs2WideString host m s) ⟨b, none⟩ = .ok () ⟨b₂, none⟩ := by
  have hlt : ucs2Length m s < 256 ^ 4 := by
    rw [ucs2Length]
    split_ifs <;> omega
  obtain ⟨b₁, h₁⟩ := Codes.elementary host hb 4 (by decide) hlt
  obtain ⟨b₂, h₂⟩ := wideCharacters_coded host h₁.atEnd (h₁.even hb) (terminated m s)
  refine ⟨b₁, b₂, h₁, h₂, ?_⟩
  rw [marshallUcs2WideString, marshall_terminated]
  simp only [onBuffer_bind]
  rw [Program.bind_ok (onBuffer_checkIndex hs _)]
  refine (Program.bind_ok h₁.marshall).trans ?_
  exact h₂.marshall

theorem ucs2WideString_coded (hb : b.AtEnd) (m : Bool) {s : List UInt16} (hs : s.length < 2 ^ 31)
    (hv : ucs2Length m s < 2 ^ 31) :
    ∃ b' xs, Codes (onBuffer (marshallUcs2WideString host m s))
      (onBuffer (unmarshallUcs2WideString host m)) s b b' xs := by
  obtain ⟨b₁, b₂, h₁, h₂, hm⟩ := ucs2WideString_written host hb m hs
  have hlast : (if m = true then ucs2Length m s / 2 else ucs2Length m s) =
      (terminated m s).length := by
    rw [length_terminated, ucs2Length]
    split_ifs <;> omega
  have heven : ¬(m = true ∧ ucs2Length m s % 2 ≠ 0) := by
    rintro ⟨hm, ho⟩
    rw [ucs2Length, if_pos hm] at ho
    omega
  refine ⟨b₂, (zeros b.cdrPosition 4 ++ orderedOctets b.endianness 4 (ucs2Length m s)) ++
    units b₁.endianness (terminated m s),
    Codes.encode (m := onBuffer (marshallElementary host 4 (ucs2Length m s)) >>= fun _ =>
      onBuffer (marshallWideCharacters host (terminated m s))) ?_ hm⟩
  rw [unmarshallUcs2WideString]
  simp only [onBuffer_bind]
  refine h₁.bind hb (Codes.skip (onBuffer_checkIndex hv) ?_)
  refine Codes.skip (onBuffer_raiseIf heven _) ?_
  rw [hlast]
  refine h₂.map ?_
  rw [resultUpTo_terminated, onBuffer_pure]

/-! ## UTF-16 -/

theorem marshallUtf16Characters_eq {s : List UInt16} (h : ∀ c ∈ s, unconvertible c = false) :
    marshallUtf16Characters host s = onBuffer (marshallWideCharacters host s) >>= fun _ => pure true := by
  induction s with
  | nil => rfl
  | cons c s ih =>
    rw [marshallUtf16Characters, if_neg (by rw [h c List.mem_cons_self]; decide),
      ih fun d hd => h d (List.mem_cons_of_mem _ hd), marshallWideCharacters, onBuffer_bind, bind_assoc]

theorem unmarshallUtf16Characters_ok {n : Nat} : ∀ {r r' : Buffer} {s : List UInt16},
    onBuffer (unmarshallWideCharacters host n) ⟨r, none⟩ = .ok s ⟨r', none⟩ →
    (∀ c ∈ s, unconvertible c = false) →
    unmarshallUtf16Characters host n ⟨r, none⟩ = .ok s ⟨r', none⟩ := by
  induction n with
  | zero => intro r r' s h _; exact h
  | succ n ih =>
    intro r r' s h hs
    rw [unmarshallWideCharacters, onBuffer_bind] at h
    obtain ⟨v, t, hv, h⟩ := Program.bind_eq_ok.mp h
    obtain ⟨r₁, hv', rfl⟩ := Program.zoom_eq_ok.mp hv
    rw [onBuffer_bind] at h
    obtain ⟨cs, t, hcs, h⟩ := Program.bind_eq_ok.mp h
    obtain ⟨r₂, -, rfl⟩ := Program.zoom_eq_ok.mp hcs
    cases h
    rw [unmarshallUtf16Characters, Program.bind_ok hv]
    rw [Program.onlyIf_false (by rw [hs _ List.mem_cons_self]; decide),
      Program.bind_ok (Program.pure_apply ..),
      Program.bind_ok (ih hcs fun c hc => hs c (List.mem_cons_of_mem _ hc))]
    rfl

theorem utf16Characters_coded (hb : b.AtEnd) (ha : b.cdrPosition % 2 = 0) {s : List UInt16}
    (hs : ∀ c ∈ s, unconvertible c = false) :
    ∃ b', Codes (onBuffer (marshallWideCharacters host s))
      (unmarshallUtf16Characters host s.length) s b b' (units b.endianness s) := by
  obtain ⟨b', h⟩ := wideCharacters_coded host hb ha s
  exact ⟨b', h.marshall, h.appended, fun r hr hp =>
    unmarshallUtf16Characters_ok host (h.unmarshall r hr hp) hs⟩

/-- The octets of a wide character, in the two modes. -/
def utf16WcharOctets (order : Endianness) (position : Nat) (m : Bool) (c : UInt16) : List UInt8 :=
  if m = true then [4] ++ (orderedOctets order 2 bom.toNat ++ orderedOctets order 2 c.toNat)
  else zeros position 2 ++ orderedOctets order 2 c.toNat

theorem utf16Wchar_coded (hb : b.AtEnd) {m : Bool} {c : UInt16} (hc : unconvertible c = false)
    (hbom : m = false → c ≠ bom) :
    ∃ b', Codes (marshallUtf16Wchar host m c) (unmarshallUtf16Wchar host m) c b b'
      (utf16WcharOctets b.endianness b.cdrPosition m c) := by
  have hc' : ¬unconvertible c = true := by
    rw [hc]
    exact Bool.false_ne_true
  cases m with
  | true =>
    obtain ⟨b₁, h₁⟩ := Codes.octet host hb 4
    obtain ⟨b₂, h₂⟩ := Codes.unaligned host h₁.atEnd 2 (by decide) bom.toNat_lt
    obtain ⟨b₃, h₃⟩ := Codes.unaligned host h₂.atEnd 2 (by decide) c.toNat_lt
    rw [h₂.order, h₁.order] at h₃
    rw [h₁.order] at h₂
    refine ⟨b₃, ?_⟩
    rw [marshallUtf16Wchar, if_neg hc', if_pos rfl, unmarshallUtf16Wchar, if_pos rfl,
      onBuffer_bind, bind_assoc]
    refine h₁.bind hb ?_
    rw [onBuffer_bind, bind_assoc]
    refine h₂.bind h₁.atEnd ?_
    rw [UInt16.ofNat_toNat, if_neg (by decide), if_pos (by decide), onBuffer_bind, bind_assoc]
    refine h₃.map ?_
    rw [onBuffer_pure, UInt16.ofNat_toNat, pure_bind, Program.onlyIf_false hc', pure_bind]
  | false =>
    have hne := hbom rfl
    have hrev : c ≠ reverseBom := by
      rintro rfl
      exact absurd hc (by decide)
    obtain ⟨b₁, h₁⟩ := Codes.elementary host hb 2 (by decide) c.toNat_lt
    refine ⟨b₁, ?_⟩
    rw [marshallUtf16Wchar, if_neg hc', if_neg Bool.false_ne_true, unmarshallUtf16Wchar,
      if_neg Bool.false_ne_true, onBuffer_bind, bind_assoc]
    refine h₁.map ?_
    rw [UInt16.ofNat_toNat, if_neg hrev, if_neg hne, onBuffer_pure, pure_bind,
      Program.onlyIf_false hc', pure_bind]

/-- The length that is marshalled before a string in UTF-16, which counts the byte order mark. -/
def utf16Length (m : Bool) (s : List UInt16) : Nat :=
  if m = true then (s.length + 1) * 2 else s.length + 2

def utf16StringOctets (order : Endianness) (position : Nat) (m : Bool) (s : List UInt16) : List UInt8 :=
  (zeros position 4 ++ orderedOctets order 4 (utf16Length m s)) ++
    (orderedOctets order 2 bom.toNat ++ units order (terminated m s))

theorem unconvertible_terminated {m : Bool} {s : List UInt16} (hs : ∀ c ∈ s, unconvertible c = false) :
    ∀ c ∈ terminated m s, unconvertible c = false := by
  intro c hc
  cases m with
  | true => exact hs c hc
  | false =>
    rcases List.mem_append.mp hc with hc | hc
    · exact hs c hc
    · obtain rfl := List.mem_singleton.mp hc
      decide

theorem orderedOctets_mod (order : Endianness) (n v : Nat) :
    orderedOctets order n v = orderedOctets order n (v % 256 ^ n) := by
  have ho : Octets.toOctets n v = Octets.toOctets n (v % 256 ^ n) := by
    have h := Octets.toOctets_ofOctets (Octets.toOctets n v)
    rwa [Octets.length_toOctets, Octets.ofOctets_toOctets_mod, eq_comm] at h
  cases order <;> rw [orderedOctets, orderedOctets, ho]

theorem marshallElementary_mod (size v : Nat) :
    marshallElementary host size v = marshallElementary host size (v % 256 ^ size) := by
  rw [marshallElementary, marshallElementary, ← orderedOctets_mod]

theorem utf16WideString_written (hb : b.AtEnd) (m : Bool) {s : List UInt16} (hs : s.length < 2 ^ 31)
    (hc : ∀ c ∈ s, unconvertible c = false) :
    ∃ b₁ b₂ b₃,
      Codes (onBuffer (marshallElementary host 4 (utf16Length m s)))
        (onBuffer (unmarshallElementary host 4)) (utf16Length m s % 256 ^ 4) b b₁
        (zeros b.cdrPosition 4 ++ orderedOctets b.endianness 4 (utf16Length m s)) ∧
      Codes (onBuffer (marshallElementary host 2 bom.toNat))
        (onBuffer (unmarshallElementary host 2)) bom.toNat b₁ b₂
        (orderedOctets b.endianness 2 bom.toNat) ∧
      Codes (onBuffer (marshallWideCharacters host (terminated m s)))
        (unmarshallUtf16Characters host (terminated m s).length) (terminated m s) b₂ b₃
        (units b.endianness (terminated m s)) ∧
      marshallUtf16WideString host m s ⟨b, none⟩ = .ok () ⟨b₃, none⟩ := by
  obtain ⟨b₁, h₁⟩ := Codes.elementary host hb 4 (v := utf16Length m s % 256 ^ 4) (by decide)
    (Nat.mod_lt _ (by decide))
  obtain ⟨b₂, h₂⟩ := Codes.aligned host h₁.atEnd 2 (by decide) bom.toNat_lt (h₁.even hb)
  have hpos : b₂.cdrPosition % 2 = 0 := by
    have hp := h₂.position h₁.atEnd
    have he := h₁.even hb
    rw [length_orderedOctets] at hp
    omega
  obtain ⟨b₃, h₃⟩ := utf16Characters_coded host h₂.atEnd hpos
    (unconvertible_terminated (m := m) hc)
  rw [h₂.order, h₁.order] at h₃
  rw [h₁.order] at h₂
  rw [← marshallElementary_mod host 4, ← orderedOctets_mod _ 4] at h₁
  refine ⟨b₁, b₂, b₃, h₁, h₂, h₃, ?_⟩
  have hm : marshallUtf16WideString host m s =
      (onBuffer (checkIndex s.length) >>= fun _ =>
        onBuffer (marshallElementary host 4 (utf16Length m s)) >>= fun _ =>
        onBuffer (marshallElementary host 2 bom.toNat) >>= fun _ =>
        onBuffer (marshallWideCharacters host (terminated m s))) := by
    rw [marshallUtf16WideString, marshallUtf16Characters_eq host hc, ← marshall_terminated, onBuffer_bind]
    simp only [bind_assoc, pure_bind]
    cases m <;> rfl
  rw [hm, Program.bind_ok (onBuffer_checkIndex hs _), Program.bind_ok h₁.marshall,
    Program.bind_ok h₂.marshall, h₃.marshall]

theorem utf16WideString_coded (hb : b.AtEnd) (m : Bool) {s : List UInt16} (hs : s.length < 2 ^ 31)
    (hc : ∀ c ∈ s, unconvertible c = false) (hv : utf16Length m s < 2 ^ 31) :
    ∃ b', Codes (marshallUtf16WideString host m s) (unmarshallUtf16WideString host m) s b b'
      (utf16StringOctets b.endianness b.cdrPosition m s) := by
  obtain ⟨b₁, b₂, b₃, h₁, h₂, h₃, hm⟩ := utf16WideString_written host hb m hs hc
  rw [Nat.mod_eq_of_lt (lt_trans hv (by decide))] at h₁
  have hlast : (if m = true then utf16Length m s / 2 else utf16Length m s) =
      (terminated m s).length + 1 := by
    rw [length_terminated, utf16Length]
    split_ifs <;> omega
  have heven : ¬(m = true ∧ utf16Length m s % 2 = 1) := by
    rintro ⟨hm, ho⟩
    rw [utf16Length, if_pos hm] at ho
    omega
  have hpositive : ¬(m = true ∧ utf16Length m s = 0) := by
    rintro ⟨hm, h0⟩
    rw [utf16Length, if_pos hm] at h0
    omega
  refine ⟨b₃, Codes.encode
    (m := onBuffer (marshallElementary host 4 (utf16Length m s)) >>= fun _ =>
      onBuffer (marshallElementary host 2 bom.toNat) >>= fun _ =>
      onBuffer (marshallWideCharacters host (terminated m s))) ?_ hm⟩
  refine h₁.bind hb (Codes.skip (onBuffer_checkIndex hv) ?_)
  rw [if_neg heven, if_neg hpositive, hlast]
  refine h₂.bind h₁.atEnd ?_
  refine Codes.skip (d := ()) (fun t => Program.raiseIf_false (Nat.succ_ne_zero _) _ _) ?_
  rw [Nat.add_sub_cancel]
  refine h₃.map ?_
  rw [resultUpTo_terminated, onBuffer_pure]

end PolyORB
