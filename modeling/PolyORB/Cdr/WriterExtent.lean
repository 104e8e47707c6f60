import PolyORB.Cdr.Extent

/-!
# Which values are carried

A writer moves as far as the encoding of its value is long, except that the fast path leaves out of
a storage of `2 ^ 32` octets or more all but the remainder (`writesTo_data`).  A reader moves the
whole way.  So the round trip holds exactly for the values that are `Marshallable`.
-/

namespace PolyORB

open Buffer
open Program (onlyIf raiseIf evaluate)

variable {cfg : Config} {R : Primitives} {h : Heap} {order : Endianness}
variable {mtc : TcRef → CdrProg Unit} {utc : DecodeProg TcRef}

/-! ## One step of the writer -/

theorem padAlign_position {b b' : Buffer} {a : Nat} (he : padAlign a b = .ok () b') :
    b'.endianness = b.endianness ∧ b'.cdrPosition = b.cdrPosition + Octets.padding b.cdrPosition a := by
  rw [padAlign, Program.bind_get] at he
  by_cases h0 : Octets.padding b.cdrPosition a = 0
  · simp only [h0, if_true, Program.pure_apply] at he
    injection he with _ he
    subst he
    exact ⟨rfl, by omega⟩
  · simp only [h0, if_false] at he
    rw [Program.bind_ok (Program.set_apply ..), alignPosition, Program.bind_get] at he
    split_ifs at he
    · injection he with _ he
      subst he
      exact ⟨rfl, rfl⟩
    · cases he

theorem marshallElementary_position {host : Endianness} {size v : Nat} {b b' : Buffer}
    (he : marshallElementary host size v b = .ok () b') :
    b'.endianness = b.endianness ∧
      b'.cdrPosition = b.cdrPosition + Octets.padding b.cdrPosition size + size := by
  obtain ⟨⟨⟩, b₁, h₁, h₂⟩ := Program.bind_eq_ok.mp he
  have hpad : b₁.endianness = b.endianness ∧
      b₁.cdrPosition = b.cdrPosition + Octets.padding b.cdrPosition size := by
    by_cases hs : size = 1
    · subst hs
      cases h₁
      exact ⟨rfl, by simp⟩
    · rw [Program.onlyIf_true hs] at h₁
      exact padAlign_position h₁
  injection h₂ with _ h₂
  subst h₂
  refine ⟨hpad.1, ?_⟩
  simp only [hpad.2]
  split_ifs <;> simp

theorem insertRawData_position {host : Endianness} {xs : List UInt8} {b b' : Buffer}
    (he : insertRawData host xs b = .ok () b') :
    b.endianness = host ∧ b'.endianness = b.endianness ∧
      b'.cdrPosition = b.cdrPosition + xs.length := by
  rw [insertRawData, Program.bind_get] at he
  split_ifs at he with hh
  · injection he with _ he
    subst he
    exact ⟨hh, rfl, rfl⟩
  · cases he

/-! ## Programs that write -/

/-- When `m` succeeds from position `p`, it moves to `f p`, short of a multiple of `2 ^ 32`, and
meets `P` if it is not short. -/
def WritesTo (m : CdrProg Unit) (f : Nat → Nat) (P : Endianness → Prop) : Prop :=
  ∀ s s' : Transfer, m s = .ok () s' → s'.error = none → s.error = none ∧
    s'.buffer.endianness = s.buffer.endianness ∧
    ∃ n, s'.buffer.cdrPosition + 2 ^ 32 * n = f s.buffer.cdrPosition ∧
      (n = 0 → P s.buffer.endianness)

variable {P Q : Endianness → Prop} {f : Nat → Nat} {m : CdrProg Unit}

theorem WritesTo.bind {m' : CdrProg Unit} {g : Nat → Nat}
    (hm : WritesTo m f P) (hm' : WritesTo m' g Q)
    (hg : ∀ p n, g (p + 2 ^ 32 * n) = g p + 2 ^ 32 * n) :
    WritesTo (m >>= fun _ => m') (fun p => g (f p)) (fun o => P o ∧ Q o) := by
  intro s s' he herr
  obtain ⟨⟨⟩, s₁, h₁, h₂⟩ := Program.bind_eq_ok.mp he
  obtain ⟨herr₁, hend', n', hpos', hq⟩ := hm' s₁ s' h₂ herr
  obtain ⟨herr₀, hend, n, hpos, hp⟩ := hm s s₁ h₁ herr₁
  refine ⟨herr₀, hend'.trans hend, n' + n, ?_, fun h0 => ⟨hp (by omega), ?_⟩⟩
  · have hshift := hg s₁.buffer.cdrPosition n
    simp only
    rw [← hpos, hshift, ← hpos']
    omega
  · rw [← hend]
    exact hq (by omega)

theorem WritesTo.imp {g : Nat → Nat}
    (hm : WritesTo m f P) (hf : ∀ p, f p = g p) (hp : ∀ o, P o → Q o) : WritesTo m g Q := by
  intro s s' he herr
  obtain ⟨herr₀, hend, n, hpos, hq⟩ := hm s s' he herr
  exact ⟨herr₀, hend, n, by rw [hpos, hf], fun h0 => hp _ (hq h0)⟩

theorem WritesTo.handled
    (hm : WritesTo m f P) : WritesTo (tryCatch m fun _ => throwSysError marshalError) f P := by
  intro s s' he herr
  rcases Program.tryCatch_eq_ok.mp he with he | ⟨e, t, -, he⟩
  · exact hm s s' he herr
  · cases he
    cases herr

theorem writesTo_onBuffer {m : BufferProg Unit}
    (hm : ∀ b b', m b = .ok () b' → b'.endianness = b.endianness ∧
      ∃ n, b'.cdrPosition + 2 ^ 32 * n = f b.cdrPosition ∧ (n = 0 → P b.endianness)) :
    WritesTo (onBuffer m) f P := by
  intro s s' he herr
  rw [onBuffer, Program.zoom_eq_ok] at he
  obtain ⟨b, hb, rfl⟩ := he
  obtain ⟨hend, hn⟩ := hm s.buffer b hb
  exact ⟨herr, hend, hn⟩

theorem writesTo_elementary (host : Endianness) (size : Nat) {v : Nat} :
    WritesTo (onBuffer (marshallElementary host size v))
      (fun p => p + Octets.padding p size + size) (fun _ => True) :=
  writesTo_onBuffer fun b b' he => by
    obtain ⟨hend, hpos⟩ := marshallElementary_position he
    exact ⟨hend, 0, by simpa using hpos, fun _ => trivial⟩

theorem writesTo_forIndices {body : Nat → CdrProg Unit} {P : Nat → Endianness → Prop}
    (els : List Content) : ∀ j : Nat,
    (∀ i el, els[i]? = some el → WritesTo (body (j + i)) el.advance (P (j + i))) →
    WritesTo (forIndices body els.length j) (Content.advance.advances els)
      (fun o => ∀ i, i < els.length → P (j + i) o) := by
  induction els with
  | nil =>
    intro j _ s s' he herr
    cases he
    exact ⟨herr, rfl, 0, rfl, fun _ i hi => absurd hi (Nat.not_lt_zero i)⟩
  | cons el els ih =>
    intro j hel
    have hrest := ih (j + 1) fun i el' hi => by
      have hnext := hel (i + 1) el' hi
      rwa [show j + (i + 1) = j + 1 + i by omega] at hnext
    refine ((hel 0 el rfl).bind hrest (Content.advances_shift els)).imp (fun _ => rfl) ?_
    rintro o ⟨hfirst, hnext⟩ i hi
    cases i with
    | zero => exact hfirst
    | succ i =>
      have hi' := hnext i (by simpa using hi)
      rwa [show j + 1 + i = j + (i + 1) by omega] at hi'

variable {marshall : TcRef → Content → CdrProg Unit} {els : List Content}

theorem writesTo_aggregateElement {direct : Bool} {tc : TcRef} {j : Nat} {el : Content}
    (hel : els[j]? = some el) (hm : WritesTo (marshall tc el) f P) :
    WritesTo (marshallAggregateElement marshall direct els tc j) f
      (fun o => IsGettable direct el ∧ P o) := by
  intro s s' he herr
  obtain ⟨el', s₁, h₁, h₂⟩ := Program.bind_eq_ok.mp he
  obtain ⟨hget, rfl⟩ := Program.evaluate_eq_ok.mp h₁
  rw [Heap.getAggregateElement, hel] at hget
  simp only at hget
  split_ifs at hget with hg
  obtain rfl := Except.ok.inj hget
  obtain ⟨herr₀, hend, n, hpos, hq⟩ := hm s₁ s' h₂ herr
  refine ⟨herr₀, hend, n, hpos, fun h0 => ⟨fun hd => ?_, hq h0⟩⟩
  cases hemp : el.isEmpty with
  | false => rfl
  | true => exact absurd ⟨hd, hemp⟩ hg

theorem memberTypeWithLabel_memberless {tc t m : TcRef} {label : Container}
    (hk : Heap.kind h tc = .tkUnion) (ht : Heap.discriminatorType h tc = .ok t)
    (hn : Heap.memberCount h tc = .ok 0) (hmap : Heap.map h tc = none)
    (hlt : Heap.parameterCount h tc < unsignedLongModulus) :
    Heap.memberTypeWithLabel h cfg.structuredEq tc label ≠ .ok m := by
  intro hm
  simp only [Heap.memberCount, hk] at hn
  have hz := Except.ok.inj hn
  have hcount : Heap.parameterCount h tc < 7 := by
    unfold subUnsignedLong unsignedLongModulus at hz
    unfold unsignedLongModulus at hlt
    omega
  have hbounds (index : Nat) : Heap.memberLabel h tc index = .error .typeCodeBounds := by
    simp only [Heap.memberLabel, hk]
    rw [if_pos (by omega)]
  have hscan (defIndex : Int) (count index : Nat) (hne : (index : Int) ≠ defIndex) :
      Heap.scanLabels h cfg.structuredEq tc label.value defIndex (count + 1) index =
        .error .typeCodeBounds := by
    simp [Heap.scanLabels, ht, hbounds, bind, Except.bind, if_pos hne]
  -- the scan goes up to 2 ^ 32 - 1, and meets an index that is not the default one at once
  obtain ⟨q, hq⟩ : ∃ q, subUnsignedLong (subUnsignedLong (Heap.parameterCount h tc) 4 / 3) 1 =
      q + 1 := ⟨2 ^ 32 - 2, by rw [hz]; decide⟩
  have hfail (defIndex : Int) : Heap.scanLabels h cfg.structuredEq tc label.value defIndex
      (q + 1 + 1) 0 = .error .typeCodeBounds := by
    by_cases h0 : ((0 : Nat) : Int) ≠ defIndex
    · exact hscan defIndex (q + 1) 0 h0
    · have h1 : ((1 : Nat) : Int) ≠ defIndex := by omega
      rw [Heap.scanLabels]
      simp only [if_neg h0]
      exact hscan defIndex q 1 h1
  have hmember : ∀ i, Heap.labelToMember h cfg.structuredEq tc label ≠ .ok i := by
    intro i hi
    simp only [Heap.labelToMember, hmap, hq] at hi
    cases hdef : Heap.defaultIndex h tc with
    | error e =>
      rw [hdef] at hi
      cases hi
    | ok defIndex =>
      simp only [hdef, bind, Except.bind, hfail] at hi
      cases hi
  unfold Heap.memberTypeWithLabel at hm
  split_ifs at hm with hku
  cases hi : Heap.labelToMember h cfg.structuredEq tc label with
  | error e =>
    rw [hi] at hm
    cases hm
  | ok i => exact hmember i hi

/-! ## The fast path -/

theorem advances_const {size len : Nat} (hsize : 0 < size) (hdvd : size ∣ len)
    (els : List Content) (hel : ∀ el ∈ els, ∀ p, el.advance p = p + Octets.padding p size + len) :
    ∀ p, els ≠ [] →
      Content.advance.advances els p = p + Octets.padding p size + els.length * len := by
  induction els with
  | nil =>
    intro p hne
    exact absurd rfl hne
  | cons el els ih =>
    intro p _
    obtain ⟨hfirst, hrest⟩ := List.forall_mem_cons.mp hel
    rw [Content.advance.advances, hfirst, List.length_cons, Nat.succ_mul]
    by_cases hnil : els = []
    · subst hnil
      simp [Content.advance.advances]
    · have haligned : Octets.padding (p + Octets.padding p size + len) size = 0 :=
        Octets.padding_eq_zero (Nat.mod_eq_zero_of_dvd
          (dvd_add (Nat.dvd_of_mod_eq_zero (Octets.add_padding_mod hsize p)) hdvd))
      rw [ih hrest _ hnil, haligned]
      omega

theorem FastElements.advance_eq {d : Nat} {tc elTc : TcRef} {n : Nat}
    (hf : FastElements h d tc elTc n) (hs : fastPathElementSize (Heap.kind h elTc) ≠ 0) :
    ∀ {c : Content}, Conforms cfg h d tc c → ∀ p,
      c.advance p = p + Octets.padding p (fastPathElementSize (Heap.kind h elTc)) +
        n * fastPathElementSize (Heap.kind h elTc) := by
  induction d generalizing tc n with
  | zero => exact hf.elim
  | succ d ih =>
    intro c hc p
    rw [FastElements] at hf
    split_ifs at hf with hk
    · obtain ⟨len, t, m, hl, hpos, ht, hm, rfl⟩ := hf
      obtain ⟨direct, els, t', rfl, -, hl', ht', hels⟩ := conforms_array hk hc
      obtain rfl := Except.ok.inj (hl.symm.trans hl')
      obtain rfl := Except.ok.inj (ht.symm.trans ht')
      rw [Content.advance, if_neg (by decide), advances_const (Nat.pos_of_ne_zero hs)
        (Dvd.intro_left m rfl) els (fun el hel => ih hm (hels el hel)) p
        (List.ne_nil_of_length_pos hpos), Nat.mul_assoc]
    · obtain ⟨rfl, rfl⟩ := hf
      obtain ⟨-, v, rfl, -⟩ := conforms_elementary hs hc
      rw [Content.advance, elementarySize_eq hs, Nat.one_mul]

theorem writesTo_stored {alignment : Nat} {data : List UInt8} :
    WritesTo (do
        onBuffer (padAlign alignment)
        onBuffer (insertRawData cfg.hostOrder (data.take (data.length % unsignedLongModulus))))
      (fun p => p + Octets.padding p alignment + data.length)
      (fun o => o = cfg.hostOrder ∧ data.length < 2 ^ 32) := by
  have hpad : WritesTo (onBuffer (padAlign alignment)) (fun p => p + Octets.padding p alignment)
      (fun _ => True) := writesTo_onBuffer fun b b' he => by
    obtain ⟨hend, hpos⟩ := padAlign_position he
    exact ⟨hend, 0, by simpa using hpos, fun _ => trivial⟩
  have hinsert : WritesTo
      (onBuffer (insertRawData cfg.hostOrder (data.take (data.length % unsignedLongModulus))))
      (fun p => p + data.length) (fun o => o = cfg.hostOrder ∧ data.length < 2 ^ 32) :=
    writesTo_onBuffer fun b b' he => by
      obtain ⟨hhost, hend, hpos⟩ := insertRawData_position he
      have hdiv := Nat.mod_add_div data.length (2 ^ 32)
      have hle := Nat.mod_le data.length (2 ^ 32)
      rw [List.length_take, unsignedLongModulus, min_eq_left hle] at hpos
      refine ⟨hend, data.length / 2 ^ 32, by omega, fun h0 => ⟨hhost, ?_⟩⟩
      omega
  refine (hpad.bind hinsert fun p n => by omega).imp (fun _ => rfl) fun _ ho => ho.2

/-! ## The induction -/

theorem writesTo_scalar {fuel : Nat} {ctc tc : TcRef} {v : Nat}
    (hu : Heap.unwindTypedefs h ctc = .ok tc) (hscalar : isScalarKind (Heap.kind h tc) = true)
    (hP : ∀ o, P o) :
    WritesTo (marshallFromAny cfg R h mtc (fuel + 1) ctc (.elementary (Heap.kind h tc) v))
      (Content.elementary (Heap.kind h tc) v).advance P := by
  have hfrom := fromAny_elementary (v := v) hu rfl
  rw [marshallFromAny_eq hu]
  generalize hk : Heap.kind h tc = k at *
  by_cases hb : k = .tkBoolean
  · subst hb
    simp only [marshallCase, hfrom]
    exact WritesTo.imp (writesTo_elementary cfg.hostOrder 1) (fun _ => rfl)
      fun o _ => hP o
  · have hcase : marshallCase cfg R h mtc (fuel + 1) (marshallFromAny cfg R h mtc fuel) k tc ctc
        (.elementary k v) = onBuffer (marshallElementary cfg.hostOrder (elementarySize k) v) := by
      funext s
      cases k <;> first
        | exact absurd rfl hb
        | exact absurd hscalar (by decide)
        | (simp only [marshallCase]
           rw [Program.bind_evaluate hfrom])
    rw [hcase]
    exact WritesTo.imp (writesTo_elementary _ _) (fun _ => rfl) fun o _ => hP o

theorem WritesTo.ofEvaluate {α : Type} {x : Except Exn α} {m : α → CdrProg Unit}
    (hm : ∀ a, x = .ok a → WritesTo (m a) f P) :
    WritesTo (evaluate x >>= m) f P := by
  intro s s' he herr
  obtain ⟨a, s₁, h₁, h₂⟩ := Program.bind_eq_ok.mp he
  obtain ⟨hx, rfl⟩ := Program.evaluate_eq_ok.mp h₁
  exact hm a hx s₁ s' h₂ herr

theorem marshallable_of_unwound {d : Nat} {ctc tc : TcRef} {c : Content}
    (hu : Heap.unwindTypedefs h ctc = .ok tc) (hm : Marshallable cfg h order (d + 1) tc c) :
    Marshallable cfg h order (d + 1) ctc c := by
  obtain ⟨t, hu', hcase⟩ := hm
  obtain rfl := Except.ok.inj ((unwindTypedefs_unwound hu).symm.trans hu')
  exact ⟨tc, hu, hcase⟩

theorem writesTo_element {k : TCKind} {tc elTc t : TcRef}
    {direct : Bool} {nb j : Nat} {el : Content} (h0 : ¬(j = 0 ∧ k = .tkSequence))
    (ht : (if k = .tkStruct ∨ k = .tkExcept then Heap.memberType h tc j else .ok elTc) = .ok t)
    (hel : els[j]? = some el) (hm : WritesTo (marshall t el) el.advance P) :
    WritesTo (marshallElement h marshall k tc elTc direct els nb j) el.advance
      (fun o => IsGettable direct el ∧ P o) := by
  rw [marshallElement, if_neg h0]
  refine .ofEvaluate fun t' ht' => ?_
  obtain rfl := Except.ok.inj (ht.symm.trans ht')
  exact writesTo_aggregateElement hel hm

theorem writesTo_elements {fuel : Nat} {k : TCKind}
    {tc : TcRef} (elTc : TcRef) {c : Content} {direct : Bool}
    {P : Nat → Endianness → Prop} (hl : marshallLayout h k tc els.length = .ok (els.length, elTc))
    (hinfo : ∀ o, ∃ r, fastPathGetInfo cfg h fuel c els.length tc o = .ok r)
    (hel : ∀ i el, els[i]? = some el →
      WritesTo (marshallElement h marshall k tc elTc direct els els.length i) el.advance (P i))
    (hslow : ∀ o, (els ≠ [] → fastPathGetInfo cfg h fuel c els.length tc o = .ok none) →
      (∀ i, i < els.length → P i o) → Q o)
    (hfast : ∀ o data size alignment, els ≠ [] → fastPathGetInfo cfg h fuel c els.length tc o =
        .ok (some (data, size, alignment)) →
      WritesTo (do
        onlyIf (k = .tkSequence) (marshallUnsignedLong cfg (els.length - 1))
        onBuffer (padAlign alignment)
        onBuffer (insertRawData cfg.hostOrder (data.take size)))
        (Content.advance.advances els) (fun o' => o = o' → Q o')) :
    WritesTo (marshallElements cfg h fuel marshall k tc c direct els)
      (Content.advance.advances els) Q := by
  intro s s' he herr
  have hloop := writesTo_forIndices els 0 (fun i el hi => by
    have := hel i el hi
    rwa [Nat.zero_add])
  obtain ⟨r, hr⟩ := hinfo s.buffer.endianness
  by_cases hfs : els ≠ [] ∧ r ≠ none
  · obtain ⟨hne, hsome⟩ := hfs
    cases r with
    | none => exact absurd rfl hsome
    | some info =>
      obtain ⟨data, size, alignment⟩ := info
      rw [marshallElements_fast hl hne hr] at he
      obtain ⟨herr₀, hend, n, hpos, hq⟩ := hfast _ data size alignment hne hr s s' he herr
      exact ⟨herr₀, hend, n, hpos, fun h0 => hq h0 rfl⟩
  · have hnone : els ≠ [] →
        fastPathGetInfo cfg h fuel c els.length tc s.buffer.endianness = .ok none := by
      intro hne
      cases r with
      | none => exact hr
      | some info => exact absurd ⟨hne, by simp⟩ hfs
    rw [marshallElements_slow cfg fuel hl hnone] at he
    obtain ⟨herr₀, hend, n, hpos, hq⟩ := hloop s s' he herr
    refine ⟨herr₀, hend, n, hpos, fun h0 => hslow _ hnone fun i hi => ?_⟩
    have := hq h0 i hi
    rwa [Nat.zero_add] at this

theorem WritesTo.ofFound
    (hm : WritesTo m f P) : WritesTo (do if ← found then return () else m) f P := by
  intro s s' he herr
  obtain ⟨b, s₁, h₁, h₂⟩ := Program.bind_eq_ok.mp he
  obtain ⟨rfl, rfl⟩ : b = s.error.isSome ∧ s₁ = s := by
    cases h₁
    exact ⟨rfl, rfl⟩
  by_cases hf : s₁.error.isSome = true
  · rw [if_pos hf] at h₂
    cases h₂
    rw [herr] at hf
    cases hf
  · rw [if_neg hf] at h₂
    exact hm s₁ s' h₂ herr

theorem WritesTo.ofRaiseIf {c : Prop} [Decidable c] {e : Exn} (hm : WritesTo m f P) :
    WritesTo (raiseIf c e >>= fun _ => m) f P := by
  intro s s' he herr
  obtain ⟨⟨⟩, s₁, h₁, h₂⟩ := Program.bind_eq_ok.mp he
  by_cases hc : c
  · rw [Program.raiseIf_true hc] at h₁
    cases h₁
  · rw [Program.raiseIf_false hc] at h₁
    cases h₁
    exact hm s s' h₂ herr

theorem writesTo_data {d : Nat} : ∀ {fuel : Nat} {ctc tc : TcRef} {c : Content},
    d < fuel → Heap.unwindTypedefs h ctc = .ok tc → IsData h d tc → Conforms cfg h d tc c →
    WritesTo (marshallFromAny cfg R h mtc fuel ctc c) c.advance
      (fun o => Marshallable cfg h o d tc c) := by
  induction d with
  | zero =>
    intro _ _ _ _ _ _ hd
    exact hd.elim
  | succ d ih =>
    intro fuel ctc tc c hfuel hu hd hc
    obtain ⟨fuel, rfl⟩ : ∃ f, fuel = f + 1 := ⟨fuel - 1, by omega⟩
    have hut := unwindTypedefs_unwound hu
    have hd₀ := hd
    have hc₀ := hc
    -- an element of type `t` is written for `t` itself or for the unwound type
    have hsub : ∀ {t : TcRef} {el : Content}, IsData h d t → Conforms cfg h d t el →
        ∃ u, Heap.unwindTypedefs h t = .ok u ∧
          WritesTo (marshallFromAny cfg R h mtc fuel u el) el.advance
            (fun o => Marshallable cfg h o d t el) ∧
          WritesTo (marshallFromAny cfg R h mtc fuel t el) el.advance
            (fun o => Marshallable cfg h o d t el) := by
      intro t el hdt hct
      obtain ⟨u, hu₁⟩ := hdt.unwinds
      cases d with
      | zero => exact hdt.elim
      | succ d =>
        have hdu := isData_unwound hu₁ hdt
        have hcu := conforms_unwound hu₁ hct
        refine ⟨u, hu₁, ?_, ?_⟩
        · exact (ih (by omega) (unwindTypedefs_unwound hu₁) hdu hcu).imp (fun _ => rfl)
            fun o => marshallable_of_unwound hu₁
        · exact (ih (by omega) hu₁ hdu hcu).imp (fun _ => rfl)
            fun o => marshallable_of_unwound hu₁
    obtain ⟨_, e₁, hdata⟩ := hd
    obtain rfl := Except.ok.inj (hut.symm.trans e₁)
    obtain ⟨_, e₂, hval⟩ := hc
    obtain rfl := Except.ok.inj (hut.symm.trans e₂)
    by_cases hscalar : isScalarKind (Heap.kind h tc) = true
    · obtain ⟨v, rfl⟩ : ∃ v, c = .elementary (Heap.kind h tc) v := by
        cases hk : Heap.kind h tc <;> rw [hk] at hscalar <;> first
          | exact absurd hscalar (by decide)
          | (simp only [hk] at hval
             exact ⟨_, hval.2.choose_spec.1⟩)
      refine writesTo_scalar hu hscalar fun o => ⟨tc, hut, ?_⟩
      cases hk : Heap.kind h tc <;> rw [hk] at hscalar <;> first
        | exact absurd hscalar (by decide)
        | trivial
    rw [marshallFromAny_eq hu]
    cases hk : Heap.kind h tc with
    | tkNull | tkVoid =>
      simp only [hk] at hval
      subst hval
      intro s s' he herr
      cases he
      refine ⟨herr, rfl, 0, rfl, fun _ => ⟨tc, hut, ?_⟩⟩
      simp
    | tkEnum =>
      simp only [hk] at hval
      obtain ⟨direct, v, rfl, -⟩ := hval
      have hul : Heap.unwindTypedefs h (.ptc .tkUlong) = .ok (.ptc .tkUlong) :=
        unwindTypedefs_of_kind (by rintro ⟨⟩)
      obtain ⟨fuel, rfl⟩ : ∃ f, fuel = f + 1 := ⟨fuel - 1, by omega⟩
      refine .ofEvaluate fun a ha => ?_
      obtain rfl := Except.ok.inj ha
      refine (writesTo_aggregateElement (P := fun _ => True) rfl
        (writesTo_scalar hul rfl fun _ => trivial)).imp (fun _ => rfl) fun o _ => ⟨tc, hut, ?_⟩
      simp [hk]
    | tkStruct | tkExcept =>
      simp only [hk] at hdata hval
      obtain ⟨n, hn, hmembers⟩ := hdata
      obtain ⟨direct, els, rfl, hlt, hcount, hels⟩ := hval
      obtain rfl := Except.ok.inj (hn.symm.trans hcount)
      have hinfo : ∀ (c : Content) (count : Nat) (o : Endianness),
          fastPathGetInfo cfg h (fuel + 1) c count tc o = .ok none := fun c count o =>
        fastPathGetInfo_other hut (by rw [hk]; decide) (by rw [hk]; decide) (by rw [hk]; decide)
      refine .ofEvaluate fun a ha => ?_
      obtain rfl := Except.ok.inj ha
      refine WritesTo.handled (WritesTo.imp (writesTo_elements (.ptc .tkVoid)
        (P := fun i o => ∀ el t, els[i]? = some el → Heap.memberType h tc i = .ok t →
          IsGettable direct el ∧ Marshallable cfg h o d t el)
        (Q := fun o => ∀ i el t, els[i]? = some el → Heap.memberType h tc i = .ok t →
          IsGettable direct el ∧ Marshallable cfg h o d t el)
        ?_ (fun o => ⟨_, hinfo _ _ o⟩) (fun i el hi => ?_) (fun o _ hall i el t hi ht => ?_)
        (fun o data size alignment _ hsome => ?_)) (fun p => ?_) fun o hall => ⟨tc, hut, ?_⟩)
      · simp [marshallLayout, hcount, bind, Except.bind, pure, Except.pure]
      · have hlt : i < els.length := (List.getElem?_eq_some_iff.mp hi).1
        obtain ⟨t, ht, hdt⟩ := hmembers i hlt
        obtain ⟨t', ht', hct⟩ := hels i el hi
        obtain rfl := Except.ok.inj (ht.symm.trans ht')
        obtain ⟨u, -, -, hw⟩ := hsub hdt hct
        refine (writesTo_element (by rintro ⟨-, ⟨⟩⟩) (by simpa using ht) hi hw).imp (fun _ => rfl) ?_
        intro o ho el' t' hi' ht'
        obtain rfl := Option.some.inj (hi.symm.trans hi')
        obtain rfl := Except.ok.inj (ht.symm.trans ht')
        exact ho
      · exact hall i (List.getElem?_eq_some_iff.mp hi).1 el t hi ht
      · rw [hinfo] at hsome
        cases hsome
      · rw [Content.advance, if_neg (by decide)]
      · simp only [hk]
        exact hall
    | tkUnion =>
      simp only [hk] at hdata hval
      obtain ⟨⟨t, ht, hdisc⟩, hmembers, hmap, hparams⟩ := hdata
      obtain ⟨direct, label, rest, t', rfl, ht', hlabel, hmember⟩ := hval
      obtain rfl := Except.ok.inj (ht.symm.trans ht')
      obtain ⟨u, -, -, hwl⟩ := hsub (hmembers 2 t (discriminatorType_parameter ht)) hlabel
      refine .ofEvaluate fun a ha => ?_
      obtain rfl := Except.ok.inj ha
      refine .ofEvaluate fun t' ht' => ?_
      obtain rfl := Except.ok.inj (ht.symm.trans ht')
      refine .ofEvaluate fun l hl => ?_
      rw [getAggregateElement_ok rfl (isGettable_of_discriminator direct hdisc hlabel)] at hl
      obtain rfl := Except.ok.inj hl
      refine (WritesTo.bind hwl (WritesTo.ofFound (f := Content.advance.advances rest)
        (P := fun o => Heap.memberCount h tc ≠ .ok 0 ∧ ∀ v ∈ rest, IsGettable direct v ∧
          ∀ t m, Heap.discriminatorType h tc = .ok t →
            Heap.memberTypeWithLabel h cfg.structuredEq tc ⟨t, label⟩ = .ok m →
            Marshallable cfg h o d m v) (.ofEvaluate fun m hm => ?_))
        (Content.advances_shift rest)).imp (fun p => ?_) fun o ho => ⟨tc, hut, ?_⟩
      · have hcount : Heap.memberCount h tc ≠ .ok 0 := fun hn =>
          memberTypeWithLabel_memberless hk ht hn (hmap hn) hparams hm
        rcases hmember with ⟨hzero, -⟩ | ⟨m', hm', hsel⟩
        · exact absurd hzero hcount
        obtain rfl := Except.ok.inj (hm.symm.trans hm')
        by_cases hv : Heap.kind h m = .tkVoid
        · rw [if_pos hv] at hsel
          subst hsel
          rw [if_neg (not_not.mpr hv)]
          intro s s' he herr
          cases he
          exact ⟨herr, rfl, 0, rfl, fun _ => ⟨hcount, fun v hv' => absurd hv' List.not_mem_nil⟩⟩
        · rw [if_neg hv] at hsel
          obtain ⟨v, rfl, hcm⟩ := hsel
          obtain ⟨j, hj⟩ := memberTypeWithLabel_parameter hm hv
          obtain ⟨_, -, -, hw⟩ := hsub (hmembers j m hj) hcm
          rw [if_pos hv]
          refine .ofRaiseIf ((writesTo_aggregateElement
            (show [label, v][1]? = some v from rfl) hw).imp (fun _ => rfl)
            fun o ho => ⟨hcount, fun v' hv' => ?_⟩)
          obtain rfl := List.mem_singleton.mp hv'
          refine ⟨ho.1, fun t' m' ht' hm' => ?_⟩
          obtain rfl := Except.ok.inj (ht.symm.trans ht')
          obtain rfl := Except.ok.inj (hm.symm.trans hm')
          exact ho.2
      · rw [Content.advance, if_neg (by decide), Content.advance.advances]
      · simp only [hk]
        exact ho.2
    | tkSequence =>
      simp only [hk] at hdata hval
      obtain ⟨n, t, hn, ht, hdt⟩ := hdata
      obtain ⟨direct, els, bound, t', rfl, hlt, -, -, ht', hels⟩ := hval
      obtain rfl := Except.ok.inj (ht.symm.trans ht')
      obtain ⟨u, hut'⟩ := hdt.unwinds
      have hle : ∀ o, fastPathGetInfo cfg h (fuel + 1)
          (.aggregate .tkSequence direct (.elementary .tkUlong els.length :: els)) (els.length + 1)
          tc o = fastPathGetInfo cfg h (d + 1)
          (.aggregate .tkSequence direct (.elementary .tkUlong els.length :: els)) (els.length + 1)
          tc o := fun o => fastPathGetInfo_of_le hd₀ (by omega) _ _
      have hul : Heap.unwindTypedefs h (.ptc .tkUlong) = .ok (.ptc .tkUlong) :=
        unwindTypedefs_of_kind (by rintro ⟨⟩)
      refine .ofEvaluate fun a ha => ?_
      obtain rfl := Except.ok.inj ha
      refine WritesTo.handled (WritesTo.imp (writesTo_elements u
        (P := fun i o => ∀ el, 0 < i → (Content.elementary .tkUlong els.length :: els)[i]? = some el →
          IsGettable direct el ∧ Marshallable cfg h o d t el)
        (Q := fun o => Marshallable cfg h o (d + 1) tc
          (.aggregate .tkSequence direct (.elementary .tkUlong els.length :: els)))
        ?_ (fun o => ?_) (fun i el hi => ?_) (fun o hslow hall => ⟨tc, hut, ?_⟩)
        (fun o data size alignment hne hsome => ?_)) (fun p => ?_) fun o hall => hall)
      · simp [marshallLayout, ht, hut', bind, Except.bind, pure, Except.pure]
      · exact hle o ▸ exists_fastPathGetInfo cfg o hd₀ _ _
      · cases i with
        | zero =>
          obtain rfl := Option.some.inj hi
          obtain ⟨fuel, rfl⟩ : ∃ f, fuel = f + 1 := ⟨fuel - 1, by omega⟩
          refine .ofEvaluate fun _ _ => .ofEvaluate fun _ _ => .ofRaiseIf ?_
          refine (writesTo_aggregateElement (P := fun _ => True) rfl
            (writesTo_scalar hul rfl fun _ => trivial)).imp (fun _ => rfl) ?_
          exact fun _ _ _ h0 => absurd h0 (Nat.lt_irrefl 0)
        | succ i =>
          have hi' : els[i]? = some el := by rwa [List.getElem?_cons_succ] at hi
          have hct := hels el (List.mem_of_getElem? hi')
          obtain ⟨u', hu', hw, -⟩ := hsub hdt hct
          obtain rfl := Except.ok.inj (hut'.symm.trans hu')
          refine (writesTo_element (by rintro ⟨⟨⟩, -⟩) rfl hi hw).imp (fun _ => rfl) ?_
          intro o ho el' _ hi'
          obtain rfl := Option.some.inj (hi.symm.trans hi')
          exact ho
      · have hnone := (hle o).symm.trans (hslow (List.cons_ne_nil _ _))
        simp only [hk, List.length_cons, hnone]
        intro j el t' hpos hj ht'
        obtain rfl := Except.ok.inj (ht.symm.trans ht')
        exact hall j (List.getElem?_eq_some_iff.mp hj).1 el (hpos trivial) hj
      · obtain ⟨elTc, m, hfe, hsize, rfl, hne', hdata, hlen, rfl⟩ :=
          fastPathGetInfo_sequence hk hd₀ ht hels hlt (by omega) hsome
        refine (WritesTo.bind (writesTo_elementary _ _) writesTo_stored fun p n => ?_).imp (fun p => ?_) ?_
        · rw [Content.padding_shift (elementarySize_eq hsize ▸ Content.elementarySize_dvd _)]
          omega
        · rw [Content.advance.advances, Content.advance,
            advances_const (Nat.pos_of_ne_zero hsize) (Dvd.intro_left m rfl) els
              (fun el hel => hfe.advance_eq hsize (hels el hel)) _ hne', hlen, Nat.mul_assoc]
          rfl
        · rintro o' ⟨-, hhost, hlt'⟩ rfl
          refine ⟨tc, hut, ?_⟩
          rw [List.length_cons, hle] at hsome
          simp only [hk, List.length_cons, hsome]
          exact ⟨hhost, hlt'⟩
      · rw [Content.advance, if_neg (by decide)]
    | tkArray =>
      simp only [hk] at hdata hval
      obtain ⟨n, t, hn, hpos, ht, hdt⟩ := hdata
      obtain ⟨direct, els, t', rfl, hlt, hl, ht', hels⟩ := hval
      obtain rfl := Except.ok.inj (hn.symm.trans hl)
      obtain rfl := Except.ok.inj (ht.symm.trans ht')
      obtain ⟨u, hut'⟩ := hdt.unwinds
      have hle : ∀ o, fastPathGetInfo cfg h (fuel + 1) (.aggregate .tkArray direct els) els.length tc
          o = fastPathGetInfo cfg h (d + 1) (.aggregate .tkArray direct els) els.length tc o :=
        fun o => fastPathGetInfo_of_le hd₀ (by omega) _ _
      refine .ofEvaluate fun a ha => ?_
      obtain rfl := Except.ok.inj ha
      refine WritesTo.handled (WritesTo.imp (writesTo_elements u
        (P := fun i o => ∀ el, els[i]? = some el → IsGettable direct el ∧ Marshallable cfg h o d t el)
        (Q := fun o => Marshallable cfg h o (d + 1) tc (.aggregate .tkArray direct els))
        ?_ (fun o => ?_) (fun i el hi => ?_) (fun o hslow hall => ⟨tc, hut, ?_⟩)
        (fun o data size alignment hne hsome => ?_)) (fun p => ?_) fun o hall => hall)
      · simp [marshallLayout, hl, ht, hut', bind, Except.bind, pure, Except.pure]
      · rw [hle]
        exact exists_fastPathGetInfo cfg o hd₀ _ _
      · have hct := hels el (List.mem_of_getElem? hi)
        obtain ⟨u', hu', hw, -⟩ := hsub hdt hct
        obtain rfl := Except.ok.inj (hut'.symm.trans hu')
        refine (writesTo_element (by rintro ⟨-, ⟨⟩⟩) rfl hi hw).imp (fun _ => rfl) ?_
        intro o ho el' hi'
        obtain rfl := Option.some.inj (hi.symm.trans hi')
        exact ho
      · have hnone := (hle o).symm.trans (hslow (List.ne_nil_of_length_pos hpos))
        simp only [hk, hnone]
        intro j el t' _ hj ht'
        obtain rfl := Except.ok.inj (ht.symm.trans ht')
        exact hall j (List.getElem?_eq_some_iff.mp hj).1 el hj
      · obtain ⟨elTc, n, hfe, hsize, rfl, hdata, hlen, rfl⟩ :=
          fastPathGetInfo_array hk hd₀ hc₀ (by omega) hsome
        refine writesTo_stored.imp (fun p => ?_) ?_
        · rw [hlen, ← hfe.advance_eq hsize hc₀, Content.advance, if_neg (by decide)]
        · rintro o' ⟨hhost, hlt'⟩ rfl
          refine ⟨tc, hut, ?_⟩
          rw [hle] at hsome
          simp only [hk, hsome]
          exact ⟨hhost, hlt'⟩
      · rw [Content.advance, if_neg (by decide)]
    | tkValuebox =>
      simp only [hk] at hdata hval
      obtain ⟨t, ht, hdt⟩ := hdata
      obtain ⟨direct, els, rfl, hels⟩ := hval
      refine .ofEvaluate fun a ha => ?_
      obtain rfl := Except.ok.inj ha
      rcases hels with rfl | ⟨el, t', rfl, ht', hct⟩
      · refine WritesTo.imp (writesTo_elementary _ _) (fun _ => rfl) fun o _ => ⟨tc, hut, ?_⟩
        simp only [hk]
        exact fun el hel => absurd hel List.not_mem_nil
      · obtain rfl := Except.ok.inj (ht.symm.trans ht')
        obtain ⟨u, -, -, hw⟩ := hsub hdt hct
        refine ((writesTo_elementary _ _).bind (WritesTo.ofEvaluate
          (P := fun o => IsGettable direct el ∧ Marshallable cfg h o d t el) fun t' ht' => ?_)
          (Content.advances_shift [el])).imp (fun p => ?_) fun o ho => ⟨tc, hut, ?_⟩
        · obtain rfl := Except.ok.inj (ht.symm.trans ht')
          exact writesTo_aggregateElement (show [el][0]? = some el from rfl) hw
        · rw [Content.advance, if_pos rfl]
        · simp only [hk]
          intro el' hel' t' ht'
          obtain rfl := List.mem_singleton.mp hel'
          obtain rfl := Except.ok.inj (ht.symm.trans ht')
          exact ho.2
    | _ =>
      simp only [hk] at hdata
      first
        | exact absurd hdata (by decide)
        | exact absurd rfl (hk ▸ hscalar)

/-! ## The round trip -/

/-- `Marshall_From_Any`, then `Unmarshall_To_Any` from where it began into an empty container of the
same typecode: no error, the same value, and the position where marshalling ended. -/
def RoundTripsFrom (cfg : Config) (R : Primitives) (mtc : TcRef → CdrProg Unit)
    (utc : DecodeProg TcRef) (fuel : Nat) (h : Heap) (tc : TcRef) (c : Content) (b : Buffer) :
    Prop :=
  ∃ b', marshallFromAny cfg R h mtc fuel tc c ⟨b, none⟩ = .ok () ⟨b', none⟩ ∧
    ∀ tcMap complex,
      unmarshallToAny cfg R utc fuel tc .noContent
          ⟨⟨{ b' with cdrPosition := b.cdrPosition }, none⟩, h, tcMap, complex⟩ =
        .ok c.plain ⟨⟨b', none⟩, h, tcMap, complex⟩

theorem roundTripsFrom_iff {d fuel : Nat} {tc : TcRef} {c : Content} {b : Buffer} (hfuel : d < fuel)
    (hd : IsData h d tc) (hc : Conforms cfg h d tc c) (hb : b.AtEnd) :
    RoundTripsFrom cfg R mtc utc fuel h tc c b ↔ Marshallable cfg h b.endianness d tc c := by
  cases d with
  | zero => exact hd.elim
  | succ d =>
    obtain ⟨t, hu⟩ := hd.unwinds
    have hdt := isData_unwound hu hd
    have hct := conforms_unwound hu hc
    constructor
    · rintro ⟨b', hwrite, hread⟩
      obtain ⟨-, -, n, hpos, hm⟩ := writesTo_data hfuel hu hdt hct _ _ hwrite rfl
      obtain ⟨-, hend⟩ := reads_data hfuel hu hdt _ _ _ rfl (hread none (-1)) rfl
      replace hend := hend ((Content.counted_plain c).trans (counted_of_conforms hct))
      rw [Content.advance_plain] at hend
      have hlong : 2 ^ 32 * n = 0 := by
        simp only at hpos hend
        omega
      exact marshallable_of_unwound hu (hm (by omega))
    · intro hm
      obtain ⟨b', htr⟩ := carries_data (R := R) hfuel hfuel hu hu hdt hct
        (marshallable_unwound hu hm) b hb rfl
      refine ⟨b', htr.marshall, fun tcMap complex => ?_⟩
      exact htr.unmarshall _ ⟨rfl, rfl, (Presents.self b' _).setPosition _, rfl⟩

/-! ## A sequence of octets -/

/-- A host in little endian order, with the fast path. -/
def sampleConfig : Config where
  hostOrder := .littleEndian
  enableFastPath := true
  structuredEq _ _ _ _ := .error .programError

def samplePrimitives : Primitives :=
  giop10Primitives .littleEndian (fun _ => throw .programError) (throw .programError)

/-- `sequence <octet>`. -/
def octetSequenceHeap : Heap :=
  [⟨.tkSequence, [⟨.ptc .tkUlong, .elementary .tkUlong 0⟩,
    ⟨.ptc .tkTypeCode, .typeCode (.ptc .tkOctet)⟩], none⟩]

def octetSequence : Content :=
  .aggregate .tkSequence true [.elementary .tkUlong 1, .elementary .tkOctet 5]

theorem isData_octetSequence : IsData octetSequenceHeap 2 (.obj 0) :=
  ⟨.obj 0, rfl, 0, .ptc .tkOctet, rfl, rfl, .ptc .tkOctet, rfl, rfl⟩

theorem conforms_octetSequence : Conforms sampleConfig octetSequenceHeap 2 (.obj 0) octetSequence := by
  refine ⟨.obj 0, rfl, true, [.elementary .tkOctet 5], 0, .ptc .tkOctet, rfl, by decide, rfl,
    .inl rfl, rfl, fun el hel => ?_⟩
  obtain rfl := List.mem_singleton.mp hel
  exact ⟨.ptc .tkOctet, rfl, rfl, 5, rfl, by decide⟩

theorem roundTripsFrom_iff_octetSequence :
    RoundTripsFrom sampleConfig samplePrimitives (fun _ => throw .programError)
      (throw .programError) 3 octetSequenceHeap (.obj 0) octetSequence (Buffer.new .littleEndian) :=
  (roundTripsFrom_iff (by decide) isData_octetSequence conforms_octetSequence
    (atEnd_new .littleEndian)).mpr ⟨.obj 0, rfl, rfl, by decide⟩

/-- In the other byte order, the octets are still to be inserted as raw data, which needs a buffer
in the order of the host. -/
theorem not_roundTripsFrom_octetSequence :
    ¬∀ (cfg : Config) (R : Primitives) (mtc : TcRef → CdrProg Unit) (utc : DecodeProg TcRef)
      (d fuel : Nat) (h : Heap) (tc : TcRef) (c : Content) (b : Buffer), d < fuel →
      IsData h d tc → Conforms cfg h d tc c → b.AtEnd →
      RoundTripsFrom cfg R mtc utc fuel h tc c b := by
  intro hall
  obtain ⟨b', hwrite, -⟩ := hall sampleConfig samplePrimitives (fun _ => throw .programError)
    (throw .programError) 2 3 octetSequenceHeap (.obj 0) octetSequence (Buffer.new .bigEndian)
    (by decide) isData_octetSequence conforms_octetSequence (atEnd_new .bigEndian)
  have herror : ∃ b'', marshallFromAny sampleConfig samplePrimitives octetSequenceHeap
      (fun _ => throw .programError) 3 (.obj 0) octetSequence ⟨Buffer.new .bigEndian, none⟩ =
        .ok () ⟨b'', some marshalError⟩ := ⟨_, rfl⟩
  obtain ⟨b'', herror⟩ := herror
  rw [hwrite] at herror
  cases herror

/-- A union of a boolean discriminator and no members. -/
def emptyUnionHeap : Heap :=
  [⟨.tkUnion, [⟨.ptc .tkString, .string []⟩, ⟨.ptc .tkString, .string []⟩,
    ⟨.ptc .tkTypeCode, .typeCode (.ptc .tkBoolean)⟩, ⟨.ptc .tkLong, .elementary .tkLong 0⟩], none⟩]

def emptyUnion : Content := .aggregate .tkUnion false [.elementary .tkBoolean 1]

theorem isData_emptyUnion : IsData emptyUnionHeap 2 (.obj 0) := by
  refine ⟨.obj 0, rfl, ⟨.ptc .tkBoolean, rfl, .ptc .tkBoolean, rfl, .inl rfl⟩, fun j t ht => ?_,
    fun _ => rfl, by decide⟩
  obtain _ | _ | _ | _ | j := j
  case succ.succ.zero =>
    obtain rfl := Except.ok.inj ht
    exact ⟨.ptc .tkBoolean, rfl, rfl⟩
  all_goals cases ht

theorem conforms_emptyUnion : Conforms sampleConfig emptyUnionHeap 2 (.obj 0) emptyUnion :=
  ⟨.obj 0, rfl, false, .elementary .tkBoolean 1, [], .ptc .tkBoolean, rfl, rfl,
    ⟨.ptc .tkBoolean, rfl, rfl, 1, rfl, by decide⟩, .inl ⟨rfl, rfl⟩⟩

/-- Without members, the scan for the label runs to `0 - 1`, whether assertions are checked or not. -/
theorem not_roundTripsFrom_emptyUnion : IsData emptyUnionHeap 2 (.obj 0) ∧
    Conforms sampleConfig emptyUnionHeap 2 (.obj 0) emptyUnion ∧
    ¬RoundTripsFrom sampleConfig samplePrimitives (fun _ => throw .programError)
      (throw .programError) 3 emptyUnionHeap (.obj 0) emptyUnion (Buffer.new .littleEndian) := by
  refine ⟨isData_emptyUnion, conforms_emptyUnion, ?_⟩
  rintro ⟨b', hwrite, -⟩
  have herror : ∃ b'', marshallFromAny sampleConfig samplePrimitives emptyUnionHeap
      (fun _ => throw .programError) 3 (.obj 0) emptyUnion ⟨Buffer.new .littleEndian, none⟩ =
        .error .typeCodeBounds ⟨b'', none⟩ := ⟨_, rfl⟩
  obtain ⟨b'', herror⟩ := herror
  rw [hwrite] at herror
  cases herror

end PolyORB
