import PolyORB.Cdr.DataRoundTrip

/-!
# Where a transfer ends

`Content.advance c p` is the position after the encoding of `c` from position `p` on.  A reader that
returns `c` without an error has moved there (`reads_data`), except for a sequence of length
`2 ^ 32 - 1`: its number of elements wraps around to 0, and `c` then has no place for the length.
-/

namespace PolyORB

open Buffer
open Program (onlyIf raiseIf evaluate)

variable {cfg : Config} {R : Primitives} {h : Heap} {order : Endianness}
variable {mtc : TcRef → CdrProg Unit} {utc : DecodeProg TcRef} {k : TCKind}

namespace Content

def advance : Content → Nat → Nat
  | elementary k _, p => p + Octets.padding p (elementarySize k) + elementarySize k
  | aggregate k _ els, p =>
    advances els (if k = .tkValuebox then p + Octets.padding p 4 + 4 else p)
  | _, p => p
where
  advances : List Content → Nat → Nat
    | [], p => p
    | c :: cs, p => advances cs (advance c p)

theorem padding_shift {a : Nat} (ha : a ∣ 2 ^ 32) (p m : Nat) :
    Octets.padding (p + 2 ^ 32 * m) a = Octets.padding p a := by
  have hmod : (p + 2 ^ 32 * m) % a = p % a := by
    obtain ⟨q, hq⟩ := ha
    rw [hq, Nat.mul_assoc, Nat.add_mul_mod_self_left]
  rw [Octets.padding, Octets.padding, hmod]

theorem elementarySize_dvd (k : TCKind) : elementarySize k ∣ 2 ^ 32 := by
  cases k <;> decide

mutual

theorem advance_shift : ∀ (c : Content) (p m : Nat),
    c.advance (p + 2 ^ 32 * m) = c.advance p + 2 ^ 32 * m
  | elementary k _, p, m => by
    rw [advance, advance, padding_shift (elementarySize_dvd k)]
    omega
  | aggregate k _ els, p, m => by
    rw [advance, advance]
    split_ifs
    · rw [padding_shift (by decide), ← advances_shift els]
      congr 1
      omega
    · exact advances_shift els p m
  | noContent, _, _ => rfl
  | string _, _, _ => rfl
  | wideString _, _, _ => rfl
  | typeCode _, _, _ => rfl
  | any _ _, _, _ => rfl
  | reference _, _, _ => rfl

theorem advances_shift : ∀ (cs : List Content) (p m : Nat),
    advance.advances cs (p + 2 ^ 32 * m) = advance.advances cs p + 2 ^ 32 * m
  | [], _, _ => rfl
  | c :: cs, p, m => by
    rw [advance.advances, advance.advances, advance_shift c, advances_shift cs]

end

mutual

theorem advance_plain : ∀ (c : Content) (p : Nat), c.plain.advance p = c.advance p
  | aggregate k _ els, p => by
    rw [plain, advance, advance]
    exact advances_plain els _
  | elementary _ _, _ => rfl
  | noContent, _ => rfl
  | string _, _ => rfl
  | wideString _, _ => rfl
  | typeCode _, _ => rfl
  | any _ _, _ => rfl
  | reference _, _ => rfl

theorem advances_plain : ∀ (cs : List Content) (p : Nat),
    advance.advances (plain.plainList cs) p = advance.advances cs p
  | [], _ => rfl
  | c :: cs, p => by
    rw [plain.plainList, advance.advances, advance.advances, advance_plain c, advances_plain cs]

end

/-- Each sequence holds its length. -/
def counted : Content → Bool
  | aggregate k _ els => !(k == .tkSequence && els.isEmpty) && all els
  | _ => true
where
  all : List Content → Bool
    | [] => true
    | c :: cs => counted c && all cs

theorem counted_aggregate {d : Bool} {els : List Content} (h : (aggregate k d els).counted = true) :
    (k = .tkSequence → els ≠ []) ∧ counted.all els = true := by
  rw [counted, Bool.and_eq_true, Bool.not_eq_true', Bool.and_eq_false_iff] at h
  obtain ⟨hk, hall⟩ := h
  refine ⟨fun hs hnil => ?_, hall⟩
  subst hs hnil
  rcases hk with hk | hk <;> cases hk

theorem counted_all_of_mem {cs : List Content} (h : ∀ c ∈ cs, c.counted = true) :
    counted.all cs = true := by
  induction cs with
  | nil => rfl
  | cons c cs ih =>
    rw [List.forall_mem_cons] at h
    rw [counted.all, h.1, ih h.2, Bool.and_self]

theorem counted_of_ne {d : Bool} {els : List Content} (hk : k = .tkSequence → els ≠ [])
    (h : ∀ c ∈ els, c.counted = true) : (aggregate k d els).counted = true := by
  rw [counted, counted_all_of_mem h, Bool.and_true, Bool.not_eq_true', Bool.and_eq_false_iff]
  by_cases hs : k = .tkSequence
  · exact .inr (by simpa using hk hs)
  · exact .inl (by simpa using hs)

mutual

theorem counted_plain : ∀ c : Content, c.plain.counted = c.counted
  | aggregate k _ els => by
    rw [plain, counted, counted, all_plain els]
    cases els <;> rfl
  | elementary _ _ => rfl
  | noContent => rfl
  | string _ => rfl
  | wideString _ => rfl
  | typeCode _ => rfl
  | any _ _ => rfl
  | reference _ => rfl

theorem all_plain : ∀ cs : List Content, counted.all (plain.plainList cs) = counted.all cs
  | [] => rfl
  | c :: cs => by rw [plain.plainList, counted.all, counted.all, counted_plain c, all_plain cs]

end

end Content

/-- The values of a typecode hold the lengths of their sequences. -/
theorem counted_of_conforms {d : Nat} : ∀ {tc : TcRef} {c : Content}, Conforms cfg h d tc c →
    c.counted = true := by
  induction d with
  | zero =>
    intro _ _ hc
    exact hc.elim
  | succ d ih =>
    rintro tc c ⟨tc', -, hc⟩
    cases hk : Heap.kind h tc' with
    | tkNull | tkVoid =>
      simp only [hk] at hc
      rw [hc]
      rfl
    | tkEnum =>
      simp only [hk] at hc
      obtain ⟨direct, v, rfl, -⟩ := hc
      rfl
    | tkStruct | tkExcept =>
      simp only [hk] at hc
      obtain ⟨direct, els, rfl, -, -, hels⟩ := hc
      refine Content.counted_of_ne (by rintro ⟨⟩) fun el hel => ?_
      obtain ⟨j, hj⟩ := List.getElem?_of_mem hel
      obtain ⟨t, -, hcel⟩ := hels j el hj
      exact ih hcel
    | tkUnion =>
      simp only [hk] at hc
      obtain ⟨direct, label, rest, t, rfl, -, hlabel, hrest⟩ := hc
      refine Content.counted_of_ne (by rintro ⟨⟩) (List.forall_mem_cons.mpr ⟨ih hlabel, ?_⟩)
      rcases hrest with ⟨-, rfl⟩ | ⟨m, -, hm⟩
      · simp
      · split_ifs at hm
        · subst hm
          simp
        · obtain ⟨v, rfl, hv⟩ := hm
          simpa using ih hv
    | tkSequence =>
      simp only [hk] at hc
      obtain ⟨direct, els, bound, t, rfl, -, -, -, -, hels⟩ := hc
      exact Content.counted_of_ne (fun _ => List.cons_ne_nil _ _)
        (List.forall_mem_cons.mpr ⟨rfl, fun el hel => ih (hels el hel)⟩)
    | tkArray =>
      simp only [hk] at hc
      obtain ⟨direct, els, t, rfl, -, -, -, hels⟩ := hc
      exact Content.counted_of_ne (by rintro ⟨⟩) fun el hel => ih (hels el hel)
    | tkValuebox =>
      simp only [hk] at hc
      obtain ⟨direct, els, rfl, rfl | ⟨el, t, rfl, -, hel⟩⟩ := hc
      · rfl
      · exact Content.counted_of_ne (by rintro ⟨⟩) (by simpa using ih hel)
    | _ =>
      simp only [hk] at hc
      obtain ⟨-, v, rfl, -⟩ := hc
      rfl

/-! ## One step of the reader -/

theorem extractData_position {n : Nat} {xs : List UInt8} {r r' : Buffer}
    (he : extractData n r = .ok xs r') : r'.cdrPosition = r.cdrPosition + n := by
  have hle := Chunks.length_run_le r.chunks (r.cdrPosition - r.initialCdrPosition) n
  rw [extractData, Program.bind_get] at he
  by_cases hlen : (Chunks.run r.chunks (r.cdrPosition - r.initialCdrPosition) n).length < n
  · rw [Program.bind_error (Program.raiseIf_true hlen _ _)] at he
    cases he
  · rw [Program.bind_raiseIf hlen, Program.bind_ok (Program.set_apply ..)] at he
    injection he with _ he
    subst he
    simp only
    omega

theorem unmarshallElementary_position {host : Endianness} {size v : Nat} {r r' : Buffer}
    (he : unmarshallElementary host size r = .ok v r') :
    r'.cdrPosition = r.cdrPosition + Octets.padding r.cdrPosition size + size := by
  obtain ⟨⟨⟩, r₁, h₁, he⟩ := Program.bind_eq_ok.mp he
  obtain ⟨z, r₂, h₂, h₃⟩ := Program.bind_eq_ok.mp he
  injection h₃ with _ h₃
  subst h₃
  rw [extractData_position h₂]
  by_cases hs : size = 1
  · subst hs
    cases h₁
    simp
  · rw [Program.onlyIf_true hs, alignPosition, Program.bind_get] at h₁
    split_ifs at h₁
    · injection h₁ with _ h₁
      subst h₁
      rfl
    · cases h₁

variable {s s' : Decoder}

theorem onHeap_eq_ok {α : Type} {f : Heap → Except Exn α} {a : α} :
    onHeap f s = .ok a s' ↔ f s.heap = .ok a ∧ s' = s := by
  rw [onHeap, Program.bind_get, Program.evaluate_eq_ok]

theorem onTransfer_found_eq (s : Decoder) : onTransfer found s = .ok s.error.isSome s := rfl

theorem fromBuffer_eq_ok {α : Type} {u : BufferProg α} {a : α} (he : fromBuffer u s = .ok a s') :
    ∃ r, u s.buffer = .ok a r ∧ s' = { s with buffer := r } := by
  rw [fromBuffer, onTransfer, Program.zoom_eq_ok] at he
  obtain ⟨t, ht, rfl⟩ := he
  rw [onBuffer, Program.zoom_eq_ok] at ht
  obtain ⟨r, hr, rfl⟩ := ht
  exact ⟨r, hr, rfl⟩

/-! ## The reader -/

/-- When `u` returns `c` without an error, it has read as much as `c` takes. -/
def Reads (h : Heap) (u : DecodeProg Content) : Prop :=
  ∀ s s' c, s.heap = h → u s = .ok c s' → s'.error = none →
    s'.heap = h ∧
      (c.counted = true → s'.buffer.cdrPosition = c.advance s.buffer.cdrPosition)

theorem reads_scalar {fuel : Nat} {ctc tc : TcRef} (hu : Heap.unwindTypedefs h ctc = .ok tc)
    (hscalar : isScalarKind (Heap.kind h tc) = true) :
    Reads h (unmarshallToAny cfg R utc fuel ctc .noContent) := by
  intro s s' c hh he herr
  cases fuel with
  | zero => cases he
  | succ fuel =>
    subst hh
    rw [unmarshallToAny_eq hu] at he
    have hread : ∀ {k : TCKind}, isScalarKind k = true → k ≠ .tkBoolean →
        unmarshallCase cfg R utc (fuel + 1) (unmarshallToAny cfg R utc fuel) k tc .noContent s =
          .ok c s' → s'.heap = s.heap ∧ (c.counted = true →
            s'.buffer.cdrPosition = c.advance s.buffer.cdrPosition) := by
      intro k hs hb hc
      obtain ⟨v, s₁, h₁, h₂⟩ : ∃ v s₁,
          fromBuffer (unmarshallElementary cfg.hostOrder (elementarySize k)) s = .ok v s₁ ∧
          evaluate (Content.setAnyValue (.elementary k v) .noContent) s₁ = .ok c s' := by
        cases k <;> first
          | exact absurd rfl hb
          | exact absurd hs (by decide)
          | exact Program.bind_eq_ok.mp hc
      obtain ⟨r, hr, rfl⟩ := fromBuffer_eq_ok h₁
      obtain ⟨hval, rfl⟩ := Program.evaluate_eq_ok.mp h₂
      obtain rfl := Except.ok.inj hval
      exact ⟨rfl, fun _ => unmarshallElementary_position hr⟩
    by_cases hb : Heap.kind s.heap tc = .tkBoolean
    · rw [hb] at he
      obtain ⟨v, s₁, h₁, h₂⟩ := Program.bind_eq_ok.mp he
      obtain ⟨r, hr, rfl⟩ := fromBuffer_eq_ok h₁
      obtain ⟨hval, rfl⟩ := Program.evaluate_eq_ok.mp h₂
      obtain rfl := Except.ok.inj hval
      obtain ⟨o, r₁, ho, hr⟩ := Program.bind_eq_ok.mp hr
      have hpos := unmarshallElementary_position ho
      refine ⟨rfl, fun _ => ?_⟩
      split at hr
      · cases hr
        exact hpos
      · cases hr
        exact hpos
      · cases hr
    · exact hread hscalar hb he

variable {unmarshall : TcRef → Content → DecodeProg Content}

theorem reads_loop {tc elTc valTc : TcRef} (nb : Nat) (hk : k ≠ .tkUnion)
    (hel : ∀ j t, j < nb → elementType k tc elTc valTc j h = .ok t →
      Reads h (unmarshall t .noContent)) :
    ∀ (count : Nat) (done out : List Content) (s s' : Decoder), s.heap = h →
      done.length + count = nb →
      unmarshallLoop cfg unmarshall k tc elTc false count done.length valTc
        (done ++ List.replicate count .noContent) s = .ok out s' → s'.error = none →
      ∃ rest, out = done ++ rest ∧ s'.heap = h ∧ (Content.counted.all rest = true →
        s'.buffer.cdrPosition = Content.advance.advances rest s.buffer.cdrPosition) := by
  intro count
  induction count with
  | zero =>
    intro done out s s' hh _ he _
    cases he
    exact ⟨[], by simp, hh, fun _ => rfl⟩
  | succ count ih =>
    intro done out s s' hh hnb hrun herr
    have hget : (done ++ List.replicate (count + 1) Content.noContent)[done.length]? =
        some .noContent := by
      simp
    obtain ⟨t, s₁, h₁, he⟩ := Program.bind_eq_ok.mp hrun
    obtain ⟨ht, rfl⟩ := onHeap_eq_ok.mp h₁
    rw [hget] at he
    rw [Program.bind_evaluate rfl] at he
    obtain ⟨c, s₂, h₂, he⟩ := Program.bind_eq_ok.mp he
    rw [Program.bind_ok (onTransfer_found_eq s₂)] at he
    by_cases hfound : s₂.error.isSome = true
    · rw [if_pos hfound] at he
      cases he
      rw [herr] at hfound
      cases hfound
    · rw [if_neg hfound, if_neg (fun hc => hk hc.1)] at he
      rw [hh] at ht
      obtain ⟨hheap, hpos⟩ := hel _ t (by omega) ht s₁ s₂ c hh h₂ (by simpa using hfound)
      have hset : (done ++ List.replicate (count + 1) Content.noContent).set done.length c =
          done ++ [c] ++ List.replicate count .noContent := by
        rw [List.replicate_succ]
        simp
      have hlen : done.length + 1 = (done ++ [c]).length := by simp
      rw [hset, hlen] at he
      obtain ⟨rest, rfl, hheap', hpos'⟩ := ih (done ++ [c]) out s₂ s' hheap
        (by omega) he herr
      refine ⟨c :: rest, by simp, hheap', fun hcounted => ?_⟩
      rw [Content.counted.all, Bool.and_eq_true] at hcounted
      rw [hpos' hcounted.2, hpos hcounted.1]
      rfl

/-- What a successful decoding of an aggregate has done. -/
theorem unmarshallElements_inv {fuel : Nat}
    {tc elTc : TcRef} {nb first : Nat} {s₁ : Decoder} {c : Content}
    (hl : unmarshallLayout cfg k tc s = .ok (nb, first, elTc) s₁)
    (hu : Heap.unwindTypedefs s₁.heap tc = .ok tc)
    (hf : ∃ r, fastPathElements s₁.heap nb fuel tc true 1 = .ok r)
    (he : unmarshallElements cfg fuel unmarshall k tc .noContent s = .ok c s') :
    ∃ els, c = .aggregate k false els ∧
      (if nb < first + 1 then pure (newElements k nb) else
        unmarshallLoop cfg unmarshall k tc elTc false (nb - first) first (.ptc .tkVoid)
          (newElements k nb) : DecodeProg (List Content)) s₁ = .ok els s' := by
  have ht : Content.noContent.targetElements = .ok (false, []) := rfl
  by_cases hn : nb < 2 ^ 31
  · rw [unmarshallElements_apply hl hu hn hf] at he
    obtain ⟨els, s₂, h₂, he⟩ := Program.bind_eq_ok.mp he
    cases he
    exact ⟨els, rfl, h₂⟩
  · have hset : onHeap (fun h => setAggregateCount h k false [] elTc nb) s₁ =
        .error .constraintError s₁ := by
      rw [onHeap, Program.bind_get, setAggregateCount, if_pos rfl, if_pos (by omega)]
      rfl
    rw [unmarshallElements, Program.bind_ok hl] at he
    simp only at he
    rw [Program.bind_evaluate ht] at he
    rw [Program.bind_error hset] at he
    cases he

/-- Unions: the label, then the member that it selects, if any. -/
theorem reads_unionLoop {tc t : TcRef}
    (ht : Heap.discriminatorType h tc = .ok t) (hlabel : Reads h (unmarshall t .noContent))
    (hmember : ∀ m j, Heap.getTypeParameter h tc j = .ok m → Reads h (unmarshall m .noContent))
    {out : List Content} (hh : s.heap = h)
    (hrun : unmarshallLoop cfg unmarshall .tkUnion tc (.ptc .tkVoid) false 2 0 (.ptc .tkVoid)
      (List.replicate 2 .noContent) s = .ok out s') (herr : s'.error = none) :
    s'.heap = h ∧ (Content.counted.all out = true →
      s'.buffer.cdrPosition = Content.advance.advances out s.buffer.cdrPosition) := by
  subst hh
  rw [unmarshallLoop, Program.bind_ok (onHeap_ok (show elementType .tkUnion tc (.ptc .tkVoid)
    (.ptc .tkVoid) 0 s.heap = .ok t from ht))] at hrun
  simp only [List.replicate, List.getElem?_cons_zero, Bool.false_eq_true, if_false] at hrun
  rw [Program.bind_evaluate rfl] at hrun
  obtain ⟨c, s₁, h₁, hlook⟩ := Program.bind_eq_ok.mp hrun
  rw [Program.bind_ok (onTransfer_found_eq s₁)] at hlook
  by_cases hfound : s₁.error.isSome = true
  · rw [if_pos hfound] at hlook
    cases hlook
    rw [herr] at hfound
    cases hfound
  rw [if_neg hfound, if_pos ⟨trivial, trivial⟩] at hlook
  obtain ⟨hheap, hpos⟩ := hlabel s s₁ c rfl h₁ (by simpa using hfound)
  obtain ⟨m, s₂, h₂, hsel⟩ := Program.bind_eq_ok.mp hlook
  obtain ⟨hm, rfl⟩ := onHeap_eq_ok.mp h₂
  rw [Program.bind_get] at hsel
  by_cases hv : Heap.kind s₂.heap m = .tkVoid
  · rw [if_pos hv] at hsel
    cases hsel
    exact ⟨hheap, fun hcounted => hpos (by simpa [Content.counted.all] using hcounted)⟩
  · rw [if_neg hv, unmarshallLoop, Program.bind_ok (onHeap_ok (show elementType .tkUnion tc
      (.ptc .tkVoid) m 1 s₂.heap = .ok m from rfl))] at hsel
    simp only [List.set_cons_zero, List.getElem?_cons_succ, List.getElem?_cons_zero,
      Bool.false_eq_true, if_false] at hsel
    rw [Program.bind_evaluate rfl] at hsel
    obtain ⟨c', s₃, h₃, hsel⟩ := Program.bind_eq_ok.mp hsel
    rw [Program.bind_ok (onTransfer_found_eq s₃)] at hsel
    by_cases hfound' : s₃.error.isSome = true
    · rw [if_pos hfound'] at hsel
      cases hsel
      rw [herr] at hfound'
      cases hfound'
    · rw [if_neg hfound', if_neg (by decide)] at hsel
      cases hsel
      rw [hheap] at hm hv
      obtain ⟨j, hj⟩ := memberTypeWithLabel_parameter hm hv
      obtain ⟨hheap', hpos'⟩ := hmember m j hj s₂ s' c' hheap h₃ herr
      refine ⟨hheap', fun hcounted => ?_⟩
      simp only [Content.counted.all, List.set_cons_succ, List.set_cons_zero, Bool.and_eq_true]
        at hcounted
      rw [hpos' hcounted.2.1, hpos hcounted.1]
      rfl

theorem reads_handled {u : DecodeProg Content} (hu : Reads h u) {old : Content} :
    Reads h (tryCatch u fun _ => do
      onTransfer (throwSysError marshalError)
      return old) := by
  intro s s' c hh he herr
  rcases Program.tryCatch_eq_ok.mp he with he | ⟨e, t, -, he⟩
  · exact hu s s' c hh he herr
  · obtain ⟨⟨⟩, t', h₁, h₂⟩ := Program.bind_eq_ok.mp he
    rw [onTransfer, Program.zoom_eq_ok] at h₁
    obtain ⟨t₁, h₁, rfl⟩ := h₁
    cases h₁
    cases h₂
    cases herr

theorem unmarshallUnsignedLong_inv {v : Nat}
    (he : unmarshallUnsignedLong cfg s = .ok v s') : s'.heap = s.heap ∧
      s'.buffer.cdrPosition =
        s.buffer.cdrPosition + Octets.padding s.buffer.cdrPosition 4 + 4 := by
  obtain ⟨r, hr, rfl⟩ := fromBuffer_eq_ok he
  exact ⟨rfl, unmarshallElementary_position hr⟩

theorem reads_fromZero {fuel : Nat}
    {tc : TcRef} (elTc : TcRef) {nb : Nat} (hu : Heap.unwindTypedefs h tc = .ok tc)
    (hf : ∃ r, fastPathElements h nb fuel tc true 1 = .ok r) (hk : k ≠ .tkSequence)
    (hku : k ≠ .tkUnion) (hkv : k ≠ .tkValuebox)
    (hl : ∀ s : Decoder, s.heap = h → unmarshallLayout cfg k tc s = .ok (nb, 0, elTc) s)
    (hel : ∀ j t, j < nb → elementType k tc elTc (.ptc .tkVoid) j h = .ok t →
      Reads h (unmarshall t .noContent)) :
    Reads h (unmarshallElements cfg fuel unmarshall k tc .noContent) := by
  intro s s' c hh he herr
  subst hh
  obtain ⟨els, rfl, hrun⟩ := unmarshallElements_inv (hl s rfl) hu hf he
  rw [newElements, if_neg hk] at hrun
  have hloop : unmarshallLoop cfg unmarshall k tc elTc false nb ([] : List Content).length
      (.ptc .tkVoid) ([] ++ List.replicate nb .noContent) s = .ok els s' := by
    by_cases h0 : nb < 0 + 1
    · obtain rfl : nb = 0 := by omega
      exact hrun
    · rw [if_neg h0] at hrun
      exact hrun
  obtain ⟨rest, rfl, hheap, hpos⟩ := reads_loop nb hku hel nb [] els s s' rfl
    (Nat.zero_add nb) hloop herr
  refine ⟨hheap, fun hcounted => ?_⟩
  rw [Content.advance, if_neg hkv, hpos (Content.counted_aggregate hcounted).2]

theorem reads_data {d : Nat} : ∀ {fuel : Nat} {ctc tc : TcRef}, d < fuel →
    Heap.unwindTypedefs h ctc = .ok tc → IsData h d tc →
    Reads h (unmarshallToAny cfg R utc fuel ctc .noContent) := by
  induction d with
  | zero =>
    intro _ _ _ _ _ hd
    exact hd.elim
  | succ d ih =>
    intro fuel ctc tc hfuel hu hd
    obtain ⟨fuel, rfl⟩ : ∃ f, fuel = f + 1 := ⟨fuel - 1, by omega⟩
    have hut := unwindTypedefs_unwound hu
    have hd₀ := hd
    have hsub : ∀ {t : TcRef}, IsData h d t →
        Reads h (unmarshallToAny cfg R utc fuel t .noContent) := by
      intro t hdt
      obtain ⟨u, hu₁⟩ := hdt.unwinds
      cases d with
      | zero => exact hdt.elim
      | succ d => exact ih (by omega) hu₁ (isData_unwound hu₁ hdt)
    obtain ⟨_, e₁, hdata⟩ := hd
    obtain rfl := Except.ok.inj (hut.symm.trans e₁)
    by_cases hscalar : isScalarKind (Heap.kind h tc) = true
    · exact reads_scalar hu hscalar
    -- it is enough to look at one branch
    suffices hcase : Reads h (unmarshallCase cfg R utc (fuel + 1) (unmarshallToAny cfg R utc fuel)
        (Heap.kind h tc) tc .noContent) by
      intro s s' c hh he herr
      subst hh
      rw [unmarshallToAny_eq hu] at he
      exact hcase s s' c rfl he herr
    have hok := fun count => fastPathElements_ok hd₀ count (show d + 1 ≤ fuel + 1 by omega) true 1
    cases hk : Heap.kind h tc with
    | tkNull | tkVoid =>
      intro s s' c hh he _
      cases he
      exact ⟨hh, fun _ => rfl⟩
    | tkEnum =>
      have hul : Heap.unwindTypedefs h (.ptc .tkUlong) = .ok (.ptc .tkUlong) :=
        unwindTypedefs_of_kind (by rintro ⟨⟩)
      refine reads_handled (reads_fromZero (.ptc .tkUlong) hut (hok 1) (by decide) (by decide) (by decide)
        (fun s _ => rfl) fun j t _ ht => ?_)
      obtain rfl := Except.ok.inj ht
      exact reads_scalar hul rfl
    | tkStruct | tkExcept =>
      simp only [hk] at hdata
      obtain ⟨n, hn, hmembers⟩ := hdata
      refine reads_handled (reads_fromZero (.ptc .tkVoid) hut (hok n) (by decide) (by decide) (by decide)
        (fun s hs => ?_) fun j t hj ht => ?_)
      · subst hs
        rw [unmarshallLayout, Program.bind_ok (onHeap_ok hn)]
        rfl
      · obtain ⟨t', ht', hdt⟩ := hmembers j hj
        obtain rfl := Except.ok.inj (ht'.symm.trans ht)
        exact hsub hdt
    | tkUnion =>
      simp only [hk] at hdata
      obtain ⟨⟨t, ht, -⟩, hmembers, -, -⟩ := hdata
      refine reads_handled fun s s' c hh he herr => ?_
      subst hh
      obtain ⟨els, rfl, hrun⟩ := unmarshallElements_inv
        (show unmarshallLayout cfg .tkUnion tc s = .ok (2, 0, .ptc .tkVoid) s from rfl) hut (hok 2) he
      obtain ⟨hheap, hpos⟩ := reads_unionLoop ht
        (hsub (hmembers 2 t (discriminatorType_parameter ht))) (fun m j hj => hsub (hmembers j m hj))
        rfl hrun herr
      refine ⟨hheap, fun hcounted => ?_⟩
      rw [Content.advance, if_neg (by decide), hpos (Content.counted_aggregate hcounted).2]
    | tkSequence =>
      simp only [hk] at hdata
      obtain ⟨bound, t, hl, ht, hdt⟩ := hdata
      refine reads_handled fun s s' c hh he herr => ?_
      subst hh
      obtain ⟨⟨nb, first, elTc⟩, s₁, hlayout, -⟩ := Program.bind_eq_ok.mp he
      have hlay := hlayout
      rw [unmarshallLayout, Program.bind_ok (onHeap_ok hl)] at hlay
      obtain ⟨n, s₂, hn, hlay⟩ := Program.bind_eq_ok.mp hlay
      obtain ⟨hheap, hpos⟩ := unmarshallUnsignedLong_inv hn
      obtain ⟨⟨⟩, s₃, hraise, hlay⟩ := Program.bind_eq_ok.mp hlay
      have hle : ¬(0 < bound ∧ bound < n) := by
        intro hlt
        rw [Program.raiseIf_true hlt] at hraise
        cases hraise
      rw [Program.raiseIf_false hle] at hraise
      cases hraise
      rw [Program.bind_ok (onHeap_ok (hheap ▸ ht))] at hlay
      cases hlay
      rw [← hheap] at hut hok
      obtain ⟨els, rfl, hrun⟩ := unmarshallElements_inv hlayout hut (hok _) he
      by_cases hnb : (n + 1) % unsignedLongModulus = 0
      · -- the number of elements wraps around, and no element is read
        rw [hnb] at hrun
        cases hrun
        exact ⟨hheap, fun hcounted => absurd hcounted (by decide)⟩
      have hnew : newElements .tkSequence ((n + 1) % unsignedLongModulus) =
          [.elementary .tkUlong ((n + 1) % unsignedLongModulus - 1)] ++
            List.replicate ((n + 1) % unsignedLongModulus - 1) .noContent := by
        obtain ⟨q, hq⟩ : ∃ q, (n + 1) % unsignedLongModulus = q + 1 :=
          ⟨(n + 1) % unsignedLongModulus - 1, by omega⟩
        rw [hq, newElements, if_pos rfl, List.replicate_succ]
        rfl
      have hloop : unmarshallLoop cfg (unmarshallToAny cfg R utc fuel) .tkSequence tc t false
          ((n + 1) % unsignedLongModulus - 1) 1 (.ptc .tkVoid)
          ([.elementary .tkUlong ((n + 1) % unsignedLongModulus - 1)] ++
            List.replicate ((n + 1) % unsignedLongModulus - 1) .noContent) s₁ = .ok els s' := by
        rw [← hnew]
        by_cases h1 : (n + 1) % unsignedLongModulus < 1 + 1
        · rw [if_pos h1] at hrun
          have hz : (n + 1) % unsignedLongModulus - 1 = 0 := by omega
          rw [hz]
          exact hrun
        · rw [if_neg h1] at hrun
          exact hrun
      obtain ⟨rest, rfl, hheap', hpos'⟩ := reads_loop ((n + 1) % unsignedLongModulus)
        (by decide) (fun j t' _ ht' => by
          obtain rfl := Except.ok.inj ht'
          exact hsub hdt) _ [.elementary .tkUlong ((n + 1) % unsignedLongModulus - 1)] els s₁ s'
        hheap (by simp only [List.length_singleton]; omega) hloop herr
      refine ⟨hheap', fun hcounted => ?_⟩
      rw [hpos' (by simpa [Content.counted, Content.counted.all] using
        (Content.counted_aggregate hcounted).2), hpos]
      rfl
    | tkArray =>
      simp only [hk] at hdata
      obtain ⟨n, t, hl, -, ht, hdt⟩ := hdata
      refine reads_handled (reads_fromZero t hut (hok n) (by decide) (by decide) (by decide)
        (fun s hs => ?_) fun j t' _ ht' => ?_)
      · subst hs
        rw [unmarshallLayout, Program.bind_ok (onHeap_ok hl), Program.bind_ok (onHeap_ok ht)]
        rfl
      · obtain rfl := Except.ok.inj ht'
        exact hsub hdt
    | tkValuebox =>
      simp only [hk] at hdata
      obtain ⟨t, ht, hdt⟩ := hdata
      intro s s' c hh he herr
      subst hh
      have hnew : Content.noContent.targetElements = .ok (false, []) := rfl
      obtain ⟨tag, s₁, htag, he⟩ := Program.bind_eq_ok.mp he
      obtain ⟨hheap, hpos⟩ := unmarshallUnsignedLong_inv htag
      rw [Program.bind_evaluate hnew] at he
      simp only at he
      by_cases h0 : tag = nullTag
      · rw [if_pos h0] at he
        cases he
        exact ⟨hheap, fun _ => hpos⟩
      · rw [if_neg h0, Program.bind_ok (onHeap_ok (hheap ▸ ht)), Program.bind_ok (onHeap_ok
          (show setAggregateCount s₁.heap .tkValuebox false [] t 1 = .ok [.noContent] from rfl))] at he
        obtain ⟨c', s₂, h₂, he⟩ := Program.bind_eq_ok.mp he
        cases he
        obtain ⟨hheap', hpos'⟩ := hsub hdt s₁ s' c' hheap h₂ herr
        refine ⟨hheap', fun hcounted => ?_⟩
        have hcounted' := (Content.counted_aggregate hcounted).2
        rw [hpos' (by simpa [Content.counted.all] using hcounted'), hpos]
        rfl
    | _ =>
      simp only [hk] at hdata
      first
        | exact absurd hdata (by decide)
        | exact absurd rfl (hk ▸ hscalar)

end PolyORB
