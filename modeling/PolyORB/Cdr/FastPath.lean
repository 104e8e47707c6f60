import PolyORB.Cdr.ValueRoundTrip

/-!
# The fast path

A typed aggregate of fixed-size elements is written in one piece, and read element by element into
a container that is empty.  `FastElements h d tc elTc n`: inside `tc` there are any number of arrays
and, in them, `n` elements of type `elTc`.  `Supplies r start data` says that the buffer `r` has the
octets `data` in one piece, `ReadsStored u c xs` that `u` reads `c` where such a piece has `xs`.
-/

namespace PolyORB

open Buffer
open Program (onlyIf raiseIf evaluate)

variable {cfg : Config} {R : Primitives} {h : Heap} {order : Endianness}
variable {mtc : TcRef → CdrProg Unit} {utc : DecodeProg TcRef}

/-! ## Elements and storage -/

def FastElements (h : Heap) : Nat → TcRef → TcRef → Nat → Prop
  | 0, _, _, _ => False
  | d + 1, tc, elTc, n =>
    if Heap.kind h tc = .tkArray then
      ∃ len t m, Heap.length h tc = .ok len ∧ 0 < len ∧ Heap.contentType h tc = .ok t ∧
        FastElements h d t elTc m ∧ n = len * m
    else elTc = tc ∧ n = 1

variable {tc elTc t : TcRef} {d : Nat}

theorem exists_fastElements (hd : IsData h d tc) :
    ∃ elTc n, FastElements h d tc elTc n := by
  induction d generalizing tc with
  | zero => exact hd.elim
  | succ d ih =>
    by_cases hk : Heap.kind h tc = .tkArray
    · obtain ⟨t, hu, hcase⟩ := hd
      rw [unwindTypedefs_of_kind (by rw [hk]; decide)] at hu
      obtain rfl := Except.ok.inj hu
      simp only [hk] at hcase
      obtain ⟨len, t, hl, hpos, ht, hdt⟩ := hcase
      obtain ⟨elTc, m, hm⟩ := ih hdt
      refine ⟨elTc, len * m, ?_⟩
      rw [FastElements, if_pos hk]
      exact ⟨len, t, m, hl, hpos, ht, hm, rfl⟩
    · exact ⟨tc, 1, by rw [FastElements, if_neg hk]; exact ⟨rfl, rfl⟩⟩

theorem FastElements.pos {n : Nat} (hf : FastElements h d tc elTc n) :
    0 < n := by
  induction d generalizing tc n with
  | zero => exact hf.elim
  | succ d ih =>
    rw [FastElements] at hf
    split_ifs at hf with hk
    · obtain ⟨len, t, m, -, hpos, -, hm, rfl⟩ := hf
      exact Nat.mul_pos hpos (ih hm)
    · obtain ⟨-, rfl⟩ := hf
      exact one_pos

theorem FastElements.fastPathElements_eq {n : Nat}
    (hf : FastElements h d tc elTc n) (count : Nat) : ∀ {fuel : Nat}, d ≤ fuel → ∀ k : Nat,
    ∃ m, fastPathElements h count fuel tc false k = .ok (elTc, m) ∧
      m % unsignedLongModulus = k * n % unsignedLongModulus := by
  induction d generalizing tc n with
  | zero => exact hf.elim
  | succ d ih =>
    intro fuel hfuel k
    obtain ⟨fuel, rfl⟩ : ∃ f, fuel = f + 1 := ⟨fuel - 1, by omega⟩
    rw [FastElements] at hf
    split_ifs at hf with hk
    · obtain ⟨len, t, m, hl, -, ht, hm, rfl⟩ := hf
      obtain ⟨r, hr, hmod⟩ := ih hm (show d ≤ fuel by omega) (k * len % unsignedLongModulus)
      refine ⟨r, ?_, ?_⟩
      · rw [fastPathElements, if_pos (.inl hk)]
        simp only [hk, hl, ht, bind, Except.bind, pure, Except.pure] at hr ⊢
        exact hr
      · rw [hmod, Nat.mod_mul_mod, Nat.mul_assoc]
    · obtain ⟨rfl, rfl⟩ := hf
      refine ⟨k, ?_, by rw [Nat.mul_one]⟩
      rw [fastPathElements, if_neg (by simp [hk])]
      rfl

theorem storages_eq_map (host : Endianness) (els : List Content) :
    Content.storages host els = els.map (Content.storage host) := by
  induction els with
  | nil => rfl
  | cons el els ih => rw [Content.storages, ih, List.map_cons]

theorem storage_array (host : Endianness) (direct : Bool) (els : List Content) :
    Content.storage host (.aggregate .tkArray direct els) =
      (els.map (Content.storage host)).flatten := by
  rw [Content.storage, if_neg (by decide), storages_eq_map]

theorem elementarySize_eq {k : TCKind} (hk : fastPathElementSize k ≠ 0) :
    elementarySize k = fastPathElementSize k := by
  cases k <;> first
    | rfl
    | exact absurd rfl hk

theorem conforms_elementary {c : Content}
    (hs : fastPathElementSize (Heap.kind h tc) ≠ 0) (hc : Conforms cfg h (d + 1) tc c) :
    isScalarKind (Heap.kind h tc) = true ∧ ∃ v, c = .elementary (Heap.kind h tc) v ∧
      v < 256 ^ elementarySize (Heap.kind h tc) := by
  obtain ⟨t, hu, hcase⟩ := hc
  have hna : Heap.kind h tc ≠ .tkAlias := by
    intro hk
    rw [hk] at hs
    exact hs rfl
  rw [unwindTypedefs_of_kind hna] at hu
  obtain rfl := Except.ok.inj hu
  cases hk : Heap.kind h tc <;> rw [hk] at hs <;> first
    | exact absurd rfl hs
    | (simp only [hk] at hcase
       obtain ⟨hsc, v, hv, hlt⟩ := hcase
       exact ⟨hsc, v, hv, hlt⟩)

theorem conforms_array {c : Content} (hk : Heap.kind h tc = .tkArray)
    (hc : Conforms cfg h (d + 1) tc c) :
    ∃ direct els t, c = .aggregate .tkArray direct els ∧ els.length < 2 ^ 31 ∧
      Heap.length h tc = .ok els.length ∧ Heap.contentType h tc = .ok t ∧
      ∀ el ∈ els, Conforms cfg h d t el := by
  obtain ⟨t, hu, hcase⟩ := hc
  rw [unwindTypedefs_of_kind (by rw [hk]; decide)] at hu
  obtain rfl := Except.ok.inj hu
  simpa only [hk] using hcase

theorem FastElements.length_storage (host : Endianness) {n : Nat}
    (hf : FastElements h d tc elTc n) (hs : fastPathElementSize (Heap.kind h elTc) ≠ 0) :
    ∀ {c : Content}, Conforms cfg h d tc c →
      (Content.storage host c).length = n * fastPathElementSize (Heap.kind h elTc) := by
  induction d generalizing tc n with
  | zero => exact hf.elim
  | succ d ih =>
    intro c hc
    rw [FastElements] at hf
    split_ifs at hf with hk
    · obtain ⟨len, t, m, hl, -, ht, hm, rfl⟩ := hf
      obtain ⟨direct, els, t', rfl, -, hl', ht', hels⟩ := conforms_array hk hc
      obtain rfl := Except.ok.inj (hl.symm.trans hl')
      obtain rfl := Except.ok.inj (ht.symm.trans ht')
      rw [storage_array, List.length_flatten, List.map_map]
      have hconst : els.map (List.length ∘ Content.storage host) =
          List.replicate els.length (m * fastPathElementSize (Heap.kind h elTc)) :=
        List.eq_replicate_iff.mpr ⟨List.length_map .., fun x hx => by
          obtain ⟨el, hel, rfl⟩ := List.mem_map.mp hx
          exact ih hm (hels el hel)⟩
      rw [hconst, List.sum_replicate, smul_eq_mul, Nat.mul_assoc]
    · obtain ⟨rfl, rfl⟩ := hf
      obtain ⟨-, v, rfl, -⟩ := conforms_elementary hs hc
      rw [Content.storage, length_orderedOctets, elementarySize_eq hs, Nat.one_mul]

/-! ## Reading what was stored -/

/-- The octets `data` lie in one piece of `r`, at a position that is aligned on `size`. -/
structure Supplies (host : Endianness) (size : Nat) (r : Buffer) (start : Nat) (data : List UInt8) :
    Prop where
  piece_eq : r.pieceAt start data.length = some data
  endianness_eq : r.endianness = host
  aligned : size ∣ start
  limit_le : start + data.length ≤ r.initialCdrPosition + r.length

/-- Where a piece has the octets `xs`, after possible padding, `u` reads `c`. -/
def ReadsStored (h : Heap) (host : Endianness) (size : Nat) (u : DecodeProg Content) (c : Content)
    (xs : List UInt8) : Prop :=
  ∀ (s : Decoder) (start a : Nat) (data : List UInt8), s.heap = h → s.error = none →
    Supplies host size s.buffer start data → size ∣ a →
    s.buffer.cdrPosition + Octets.padding s.buffer.cdrPosition size = start + a →
    xs <+: data.drop a → u s = .ok c (s.seek (start + a + xs.length))

theorem fromBuffer_ok {α : Type} {u : BufferProg α} {a : α} {s : Decoder} {p : Nat}
    (hu : u s.buffer = .ok a { s.buffer with cdrPosition := p }) :
    fromBuffer u s = .ok a (s.seek p) := by
  have ht : onBuffer u s.toTransfer = .ok a (s.seek p).toTransfer := Program.zoom_ok hu
  rw [fromBuffer, onTransfer, Program.zoom_ok ht]
  rfl

variable {data : List UInt8} {host : Endianness}

theorem Supplies.seek {size start : Nat} {s : Decoder}
    (hs : Supplies host size s.buffer start data) (p : Nat) :
    Supplies host size (s.seek p).buffer start data :=
  ⟨hs.piece_eq, hs.endianness_eq, hs.aligned, hs.limit_le⟩

theorem readsStored_elementary {fuel : Nat} {v : Nat}
    (hsize : fastPathElementSize (Heap.kind h tc) ≠ 0)
    (hscalar : isScalarKind (Heap.kind h tc) = true)
    (hv : v < 256 ^ elementarySize (Heap.kind h tc)) :
    ReadsStored h host (fastPathElementSize (Heap.kind h tc))
      (unmarshallToAny cfg R utc (fuel + 1) tc .noContent) (.elementary (Heap.kind h tc) v)
      (Content.storage host (.elementary (Heap.kind h tc) v)) := by
  intro s start a data hh herr hsup ha hp hxs
  subst hh
  obtain rfl := hsup.endianness_eq
  generalize hk : Heap.kind s.heap tc = k at *
  have hu : Heap.unwindTypedefs s.heap tc = .ok tc :=
    unwindTypedefs_of_kind (by rw [hk]; rintro rfl; exact hsize rfl)
  have hes := elementarySize_eq hsize
  rw [← hes] at hsup ha hp
  have hpos : 0 < elementarySize k := by omega
  rw [Content.storage] at hxs ⊢
  have hle := hxs.length_le
  rw [length_orderedOctets, List.length_drop] at hle
  have hz : s.buffer.pieceAt (start + a) (elementarySize k) =
      some (orderedOctets s.buffer.endianness (elementarySize k) v) := by
    rw [pieceAt_sub hsup.piece_eq hpos (by omega)]
    have ht := List.prefix_iff_eq_take.mp hxs
    rw [length_orderedOctets] at ht
    exact congrArg some ht.symm
  have hlim := hsup.limit_le
  have hread := unmarshallElementary_ok cfg.hostOrder (r := s.buffer) hpos (z :=
    orderedOctets s.buffer.endianness (elementarySize k) v) (by omega) (by rw [hp]; exact hz)
  rw [fromOrderedOctets_orderedOctets hv, hp] at hread
  rw [unmarshallToAny_eq hu, hk, length_orderedOctets]
  cases k <;> first
    | exact absurd rfl hsize
    | exact absurd hscalar (by decide)
    | (simp only [unmarshallCase]
       rw [Program.bind_ok (fromBuffer_ok hread)]
       rfl)

theorem unmarshallLoop_stored (cfg : Config) {size : Nat} {k : TCKind}
    (tc : TcRef) (valTc : TcRef) {unmarshall : TcRef → Content → DecodeProg Content} {start : Nat}
    (hk : k = .tkArray ∨ k = .tkSequence) (rest : List Content)
    (hel : ∀ el ∈ rest, size ∣ (Content.storage host el).length ∧
      ReadsStored h host size (unmarshall elTc .noContent) el.plain (Content.storage host el)) :
    ∀ (done : List Content) (s : Decoder) (a : Nat), s.heap = h → s.error = none →
      Supplies host size s.buffer start data → size ∣ a →
      s.buffer.cdrPosition + Octets.padding s.buffer.cdrPosition size = start + a →
      (rest.map (Content.storage host)).flatten <+: data.drop a → ∃ q,
        unmarshallLoop cfg unmarshall k tc elTc false rest.length done.length valTc
          (done ++ List.replicate rest.length .noContent) s =
            .ok (done ++ rest.map Content.plain) (s.seek q) ∧
        (rest ≠ [] → q = start + a + (rest.map (Content.storage host)).flatten.length) := by
  induction rest with
  | nil =>
    intro done s a _ _ _ _ _ _
    refine ⟨s.buffer.cdrPosition, ?_, fun hne => absurd rfl hne⟩
    simp [unmarshallLoop, Decoder.seek_self]
  | cons el rest ih =>
    intro done s a hh herr hsup ha hp hxs
    obtain ⟨⟨hdvd, hread⟩, hrest⟩ := List.forall_mem_cons.mp hel
    rw [List.map_cons, List.flatten_cons] at hxs
    obtain ⟨tail, htail⟩ := hxs
    rw [List.append_assoc] at htail
    have hfirst := hread s start a data hh herr hsup ha hp ⟨_, htail⟩
    -- the next element starts where this one ends, and needs no padding
    generalize hx : Content.storage host el = xs at *
    have hnext : start + a + xs.length + Octets.padding (start + a + xs.length) size =
        start + (a + xs.length) := by
      have hmod : (start + a + xs.length) % size = 0 :=
        Nat.mod_eq_zero_of_dvd (dvd_add (dvd_add hsup.aligned ha) hdvd)
      rw [Octets.padding_eq_zero hmod]
      omega
    have hdrop : (rest.map (Content.storage host)).flatten <+: data.drop (a + xs.length) := by
      refine ⟨tail, ?_⟩
      rw [← List.drop_drop, ← htail, List.drop_left]
    have hlen : (done ++ [el.plain]).length = done.length + 1 := by simp
    obtain ⟨q, hq, hend⟩ := ih hrest (done ++ [el.plain]) (s.seek (start + a + xs.length))
      (a + xs.length) hh herr (hsup.seek _) (dvd_add ha hdvd) hnext hdrop
    have hset : (done ++ List.replicate (rest.length + 1) Content.noContent).set done.length
        el.plain = done ++ [el.plain] ++ List.replicate rest.length .noContent := by
      rw [List.replicate_succ]
      simp
    have hget : (done ++ List.replicate (rest.length + 1) Content.noContent)[done.length]? =
        some .noContent := by
      simp
    refine ⟨q, ?_, fun _ => ?_⟩
    · have ht : onHeap (elementType k tc elTc valTc done.length) s = .ok elTc s := by
        rcases hk with rfl | rfl <;> exact onHeap_ok rfl
      have hku : k ≠ .tkUnion := by rcases hk with rfl | rfl <;> decide
      rw [List.length_cons, unmarshallLoop, Program.bind_ok ht, hget]
      simp only [Bool.false_eq_true, if_false]
      rw [Program.bind_evaluate rfl, Program.bind_ok hfirst,
        Program.bind_ok (onTransfer_found (s := s.seek (start + a + xs.length)) herr)]
      simp only [Bool.false_eq_true, if_false, hku, false_and, hset]
      rw [← hlen, hq]
      simp
    · rw [List.map_cons, List.flatten_cons, hx, List.length_append]
      by_cases hnil : rest = []
      · subst hnil
        injection hq with hq1 hq2
        have hseek := congrArg (fun s => s.buffer.cdrPosition) hq2
        simpa using hseek.symm
      · rw [hend hnil]
        omega

theorem readsStored (utc : DecodeProg TcRef) (host : Endianness) {n : Nat} (hd : IsData h d tc)
    (hf : FastElements h d tc elTc n) (hsize : fastPathElementSize (Heap.kind h elTc) ≠ 0) :
    ∀ {c : Content} {fuel : Nat}, Conforms cfg h d tc c → d ≤ fuel →
      ReadsStored h host (fastPathElementSize (Heap.kind h elTc))
        (unmarshallToAny cfg R utc fuel tc .noContent) c.plain (Content.storage host c) := by
  induction d generalizing tc n with
  | zero => exact hf.elim
  | succ d ih =>
    intro c fuel hc hfuel
    obtain ⟨fuel, rfl⟩ : ∃ f, fuel = f + 1 := ⟨fuel - 1, by omega⟩
    have hok := fun count => fastPathElements_ok hd count hfuel true 1
    rw [FastElements] at hf
    split_ifs at hf with hk
    · obtain ⟨len, t, m, hl, hpos, ht, hm, rfl⟩ := hf
      obtain ⟨direct, els, t', rfl, hlt, hl', ht', hels⟩ := conforms_array hk hc
      obtain rfl := Except.ok.inj (hl.symm.trans hl')
      obtain rfl := Except.ok.inj (ht.symm.trans ht')
      have hu : Heap.unwindTypedefs h tc = .ok tc := unwindTypedefs_of_kind (by rw [hk]; decide)
      have hdt : IsData h d t := by
        obtain ⟨t₁, hu₁, hcase⟩ := hd
        obtain rfl := Except.ok.inj (hu.symm.trans hu₁)
        simp only [hk] at hcase
        obtain ⟨_, t₂, -, -, ht₂, hdt⟩ := hcase
        obtain rfl := Except.ok.inj (ht.symm.trans ht₂)
        exact hdt
      have hel : ∀ el ∈ els, fastPathElementSize (Heap.kind h elTc) ∣
            (Content.storage host el).length ∧
          ReadsStored h host (fastPathElementSize (Heap.kind h elTc))
            (unmarshallToAny cfg R utc fuel t .noContent) el.plain (Content.storage host el) := by
        intro el hmem
        rw [hm.length_storage host hsize (hels el hmem)]
        exact ⟨Dvd.intro_left _ rfl, ih hdt hm (hels el hmem) (by omega)⟩
      intro s start a data hh herr hsup ha hp hxs
      subst hh
      rw [storage_array] at hxs ⊢
      obtain ⟨q, hloop, hend⟩ := unmarshallLoop_stored cfg tc (.ptc .tkVoid) (.inl rfl) els hel [] s
        a rfl herr hsup ha hp hxs
      have hlayout : unmarshallLayout cfg .tkArray tc s = .ok (els.length, 0, t) s := by
        rw [unmarshallLayout, Program.bind_ok (onHeap_ok hl), Program.bind_ok (onHeap_ok ht)]
        rfl
      have hread : unmarshallElements cfg (fuel + 1) (unmarshallToAny cfg R utc fuel) .tkArray tc
          .noContent s = _ :=
        unmarshallElements_apply hlayout hu hlt (hok els.length)
      rw [if_neg (by omega), newElements, if_neg (by decide)] at hread
      rw [unmarshallToAny_eq hu, hk]
      simp only [unmarshallCase]
      rw [Program.tryCatch_ok (hread.trans (Program.bind_ok hloop)),
        hend (List.ne_nil_of_length_pos hpos), Content.plain_aggregate]
      rfl
    · obtain ⟨rfl, rfl⟩ := hf
      obtain ⟨hscalar, v, rfl, hv⟩ := conforms_elementary hsize hc
      exact readsStored_elementary hsize hscalar hv

/-! ## Writing in one piece -/

theorem transfers_stored (cfg : Config) {size : Nat} (hsize : 0 < size) (hdata : 0 < data.length)
    {α : Type} {u : DecodeProg α} {a : α} {b : Buffer} (hb : b.AtEnd)
    (ho : b.endianness = cfg.hostOrder)
    (hread : ∀ (s : Decoder) (start : Nat), s.heap = h → s.error = none →
      Supplies cfg.hostOrder size s.buffer start data →
      s.buffer.cdrPosition + Octets.padding s.buffer.cdrPosition size = start →
      u s = .ok a (s.seek (start + data.length))) :
    ∃ b', Transfers h (do
        onBuffer (padAlign size)
        onBuffer (insertRawData cfg.hostOrder data)) u a b b' := by
  obtain ⟨b₁, e₁, w₁, p₁⟩ := padAlign_ok hb size
  obtain ⟨b₂, e₂, w₂, p₂, c₂⟩ := insertRawData_ok w₁.atEnd (w₁.endianness_eq.trans ho) hdata
  refine ⟨b₂, ?_, w₁.trans w₂, fun s hs => ?_⟩
  · have h₁ : onBuffer (padAlign size) ⟨b, none⟩ = .ok () ⟨b₁, none⟩ := Program.zoom_ok e₁
    have h₂ : onBuffer (insertRawData cfg.hostOrder data) ⟨b₁, none⟩ = .ok () ⟨b₂, none⟩ :=
      Program.zoom_ok e₂
    rw [Program.bind_ok h₁, h₂]
  · have hend := w₂.atEnd.position_eq
    have hlim := hs.presents.limit_le
    have hsup : Supplies cfg.hostOrder size s.buffer b₁.cdrPosition data := by
      refine ⟨hs.presents.piece_eq _ _ _ (by omega) hdata c₂, ?_, ?_, by omega⟩
      · rw [hs.presents.endianness_eq, w₂.endianness_eq, w₁.endianness_eq, ho]
      · rw [p₁]
        exact Nat.dvd_of_mod_eq_zero (Octets.add_padding_mod hsize _)
    have hstart : s.buffer.cdrPosition + Octets.padding s.buffer.cdrPosition size =
        b₁.cdrPosition := by rw [hs.position_eq, p₁]
    rw [hread s b₁.cdrPosition hs.heap_eq hs.error_eq hsup hstart, p₂]

theorem marshallElements_fast {fuel : Nat} {marshall : TcRef → Content → CdrProg Unit} {k : TCKind}
    {c : Content} {direct : Bool} {els : List Content} {s : Transfer} {size alignment : Nat}
    (hl : marshallLayout h k tc els.length = .ok (els.length, elTc)) (hne : els ≠ [])
    (hf : fastPathGetInfo cfg h fuel c els.length tc s.buffer.endianness =
      .ok (some (data, size, alignment))) :
    marshallElements cfg h fuel marshall k tc c direct els s = (do
      onlyIf (k = .tkSequence) (marshallUnsignedLong cfg (els.length - 1))
      onBuffer (padAlign alignment)
      onBuffer (insertRawData cfg.hostOrder (data.take size)) : CdrProg Unit) s := by
  have hlen : els.length ≠ 0 := by simpa using hne
  rw [marshallElements, Program.bind_evaluate hl]
  simp only
  rw [Program.bind_raiseIf (by simp)]
  simp only [hlen, if_false]
  rw [Program.bind_get, Program.bind_evaluate hf]

theorem fastPathGetInfo_some {fuel : Nat} {c : Content} {count : Nat}
    {size alignment : Nat} (hu : Heap.unwindTypedefs h tc = .ok tc)
    (hf : fastPathGetInfo cfg h fuel c count tc order = .ok (some (data, size, alignment))) :
    ∃ elTc elCount, fastPathElements h count fuel tc true 1 = .ok (elTc, elCount) ∧
      fastPathElementSize (Heap.kind h elTc) ≠ 0 ∧
      (1 < fastPathElementSize (Heap.kind h elTc) → order = cfg.hostOrder) ∧
      c.uncheckedGetV cfg.hostOrder = some data ∧
      size = elCount * fastPathElementSize (Heap.kind h elTc) % unsignedLongModulus ∧
      alignment = fastPathElementSize (Heap.kind h elTc) := by
  unfold fastPathGetInfo at hf
  split_ifs at hf with henable
  · cases hf
  · simp only [hu, bind, Except.bind] at hf
    cases hel : fastPathElements h count fuel tc true 1 with
    | error e =>
      rw [hel] at hf
      cases hf
    | ok r =>
      obtain ⟨elTc, elCount⟩ := r
      simp only [hel] at hf
      refine ⟨elTc, elCount, rfl, ?_⟩
      split_ifs at hf with h0 h1
      · cases hf
      · cases hf
      · cases hv : c.uncheckedGetV cfg.hostOrder with
        | none =>
          rw [hv] at hf
          cases hf
        | some data' =>
          rw [hv] at hf
          injection hf with hf
          injection hf with hf
          obtain ⟨rfl, rfl, rfl⟩ := hf
          refine ⟨h0, fun hlt => ?_, rfl, rfl, rfl⟩
          by_contra hne
          exact h1 ⟨hlt, hne⟩

theorem fastPathElements_mono {count : Nat} {out : Bool} {n : Nat}
    {r : TcRef × Nat} : ∀ {fuel fuel' : Nat}, fuel ≤ fuel' →
      fastPathElements h count fuel tc out n = .ok r →
      fastPathElements h count fuel' tc out n = .ok r := by
  intro fuel
  induction fuel generalizing tc out n with
  | zero =>
    intro fuel' _ hr
    cases hr
  | succ fuel ih =>
    intro fuel' hle hr
    obtain ⟨fuel', rfl⟩ : ∃ f, fuel' = f + 1 := ⟨fuel' - 1, by omega⟩
    rw [fastPathElements] at hr ⊢
    by_cases hc : Heap.kind h tc = .tkArray ∨ (out = true ∧ Heap.kind h tc = .tkSequence)
    · rw [if_pos hc] at hr ⊢
      cases ht : Heap.contentType h tc with
      | error e =>
        cases hl : Heap.length h tc <;> simp only [ht, hl, bind, Except.bind] at hr <;>
          split_ifs at hr <;> cases hr
      | ok t =>
        by_cases hs : Heap.kind h tc = .tkSequence
        · rw [if_pos hs] at hr ⊢
          simp only [ht, bind, Except.bind, pure, Except.pure] at hr ⊢
          exact ih (by omega) hr
        · rw [if_neg hs] at hr ⊢
          cases hl : Heap.length h tc with
          | error e =>
            rw [hl] at hr
            cases hr
          | ok m =>
            simp only [ht, hl, bind, Except.bind, pure, Except.pure] at hr ⊢
            exact ih (by omega) hr
    · rw [if_neg hc] at hr ⊢
      exact hr

/-! ## Typed arrays and sequences -/

theorem isData_unwound {ctc : TcRef} (hu : Heap.unwindTypedefs h ctc = .ok tc)
    (hd : IsData h (d + 1) ctc) : IsData h (d + 1) tc := by
  obtain ⟨t, hu', hcase⟩ := hd
  obtain rfl := Except.ok.inj (hu.symm.trans hu')
  exact ⟨tc, unwindTypedefs_unwound hu, hcase⟩

theorem IsData.unwinds (hd : IsData h d tc) :
    ∃ t, Heap.unwindTypedefs h tc = .ok t := by
  cases d with
  | zero => exact hd.elim
  | succ d => exact ⟨hd.choose, hd.choose_spec.1⟩

theorem isData_array (hk : Heap.kind h tc = .tkArray)
    (ht : Heap.contentType h tc = .ok t) (hd : IsData h (d + 1) tc) :
    IsData h d t ∧ ∃ n, Heap.length h tc = .ok n ∧ 0 < n := by
  obtain ⟨t₁, hu₁, hcase⟩ := hd
  rw [unwindTypedefs_of_kind (by rw [hk]; decide)] at hu₁
  obtain rfl := Except.ok.inj hu₁
  simp only [hk] at hcase
  obtain ⟨n, t₂, hl, hpos, ht₂, hdt⟩ := hcase
  obtain rfl := Except.ok.inj (ht.symm.trans ht₂)
  exact ⟨hdt, n, hl, hpos⟩

theorem isData_sequence (hk : Heap.kind h tc = .tkSequence)
    (ht : Heap.contentType h tc = .ok t) (hd : IsData h (d + 1) tc) : IsData h d t := by
  obtain ⟨t₁, hu₁, hcase⟩ := hd
  rw [unwindTypedefs_of_kind (by rw [hk]; decide)] at hu₁
  obtain rfl := Except.ok.inj hu₁
  simp only [hk] at hcase
  obtain ⟨n, t₂, -, ht₂, hdt⟩ := hcase
  obtain rfl := Except.ok.inj (ht.symm.trans ht₂)
  exact hdt

theorem fastPathElements_array {count fuel n : Nat} (hk : Heap.kind h tc = .tkArray) :
    fastPathElements h count fuel tc true n = fastPathElements h count fuel tc false n := by
  cases fuel with
  | zero => rfl
  | succ fuel =>
    have hc {out : Bool} : Heap.kind h tc = .tkArray ∨
        (out = true ∧ Heap.kind h tc = .tkSequence) := .inl hk
    rw [fastPathElements, fastPathElements, if_pos hc, if_pos hc]

theorem fastPathElements_sequence {count fuel : Nat}
    (hk : Heap.kind h tc = .tkSequence) (ht : Heap.contentType h tc = .ok t) :
    fastPathElements h count (fuel + 1) tc true 1 =
      fastPathElements h count fuel t false (subUnsignedLong count 1) := by
  rw [fastPathElements, if_pos (.inr ⟨rfl, hk⟩), if_pos hk]
  simp [ht, bind, Except.bind, pure, Except.pure]

theorem fastPathGetInfo_array {fuel size alignment : Nat} {direct : Bool}
    {els : List Content} (hkind : Heap.kind h tc = .tkArray)
    (hd : IsData h (d + 1) tc) (hc : Conforms cfg h (d + 1) tc (.aggregate .tkArray direct els))
    (hfuel : d ≤ fuel)
    (hf : fastPathGetInfo cfg h (fuel + 1) (.aggregate .tkArray direct els) els.length tc
      order = .ok (some (data, size, alignment))) :
    ∃ elTc n, FastElements h (d + 1) tc elTc n ∧ fastPathElementSize (Heap.kind h elTc) ≠ 0 ∧
      alignment = fastPathElementSize (Heap.kind h elTc) ∧
      data = Content.storage cfg.hostOrder (.aggregate .tkArray direct els) ∧
      data.length = n * alignment ∧ size = data.length % unsignedLongModulus := by
  have hu : Heap.unwindTypedefs h tc = .ok tc := unwindTypedefs_of_kind (by rw [hkind]; decide)
  obtain ⟨elTc, elCount, hel, hsize, -, hv, rfl, rfl⟩ := fastPathGetInfo_some hu hf
  obtain ⟨elTc', n, hfe⟩ := exists_fastElements hd
  obtain ⟨m, hm, hmod⟩ := hfe.fastPathElements_eq els.length (show d + 1 ≤ fuel + 1 by omega) 1
  rw [← fastPathElements_array hkind, hel] at hm
  obtain ⟨rfl, rfl⟩ : elTc = elTc' ∧ elCount = m := by simpa using hm
  rw [Nat.one_mul] at hmod
  have hdata : data = Content.storage cfg.hostOrder (.aggregate .tkArray direct els) := by
    cases direct with
    | false => cases hv
    | true =>
      exact (Option.some.inj hv).symm
  have hlen := hfe.length_storage cfg.hostOrder hsize hc
  rw [← hdata] at hlen
  refine ⟨elTc, n, hfe, hsize, rfl, hdata, hlen, ?_⟩
  rw [hlen, Nat.mul_mod, hmod, ← Nat.mul_mod]

theorem fastPathGetInfo_sequence {fuel size alignment : Nat} {direct : Bool}
    {els : List Content} (hkind : Heap.kind h tc = .tkSequence)
    (hd : IsData h (d + 1) tc) (ht : Heap.contentType h tc = .ok t)
    (hels : ∀ el ∈ els, Conforms cfg h d t el) (hn : els.length + 1 < 2 ^ 31) (hfuel : d ≤ fuel)
    (hf : fastPathGetInfo cfg h (fuel + 1)
      (.aggregate .tkSequence direct (.elementary .tkUlong els.length :: els)) (els.length + 1) tc
      order = .ok (some (data, size, alignment))) :
    ∃ elTc n, FastElements h d t elTc n ∧ fastPathElementSize (Heap.kind h elTc) ≠ 0 ∧
      alignment = fastPathElementSize (Heap.kind h elTc) ∧ els ≠ [] ∧
      data = (els.map (Content.storage cfg.hostOrder)).flatten ∧
      data.length = els.length * n * alignment ∧ size = data.length % unsignedLongModulus := by
  have hu : Heap.unwindTypedefs h tc = .ok tc := unwindTypedefs_of_kind (by rw [hkind]; decide)
  obtain ⟨elTc, elCount, hel, hsize, -, hv, rfl, rfl⟩ := fastPathGetInfo_some hu hf
  obtain ⟨elTc', n, hfe⟩ := exists_fastElements (isData_sequence hkind ht hd)
  obtain ⟨m, hm, hmod⟩ := hfe.fastPathElements_eq (els.length + 1) hfuel els.length
  rw [fastPathElements_sequence hkind ht, subUnsignedLong_of_le (by omega)
    (by unfold unsignedLongModulus; omega), Nat.add_sub_cancel, hm] at hel
  obtain ⟨rfl, rfl⟩ : elTc' = elTc ∧ m = elCount := by simpa using hel
  obtain ⟨hne, hdata⟩ : els ≠ [] ∧ data = (els.map (Content.storage cfg.hostOrder)).flatten := by
    cases direct with
    | false => cases hv
    | true =>
      rw [Content.uncheckedGetV] at hv
      split_ifs at hv with hshort
      refine ⟨?_, ?_⟩
      · rintro rfl
        exact hshort ⟨rfl, le_refl _⟩
      · rw [← Option.some.inj hv, Content.storage, if_pos rfl, storages_eq_map]
        rfl
  have hlen : data.length = els.length * n * fastPathElementSize (Heap.kind h elTc') := by
    have hconst : els.map (List.length ∘ Content.storage cfg.hostOrder) =
        List.replicate els.length (n * fastPathElementSize (Heap.kind h elTc')) :=
      List.eq_replicate_iff.mpr ⟨List.length_map .., fun x hx => by
        obtain ⟨el, hel, rfl⟩ := List.mem_map.mp hx
        exact hfe.length_storage cfg.hostOrder hsize (hels el hel)⟩
    rw [hdata, List.length_flatten, List.map_map, hconst, List.sum_replicate, smul_eq_mul,
      Nat.mul_assoc]
  refine ⟨elTc', n, hfe, hsize, rfl, hne, hdata, hlen, ?_⟩
  rw [hlen, Nat.mul_mod, hmod, ← Nat.mul_mod]

theorem take_storage (hlt : data.length < 2 ^ 32) :
    data.take (data.length % unsignedLongModulus) = data := by
  rw [show data.length % unsignedLongModulus = data.length from Nat.mod_eq_of_lt hlt,
    List.take_length]

section Typed

variable {marshall : TcRef → Content → CdrProg Unit} {fuel fuel' d : Nat} {tc ctc : TcRef}
  {direct : Bool} {els : List Content} {b : Buffer} {data : List UInt8} {size alignment : Nat}

theorem transfers_typedArray (hkind : Heap.kind h tc = .tkArray) (hd : IsData h (d + 1) tc)
    (hc : Conforms cfg h (d + 1) tc (.aggregate .tkArray direct els)) (hfuel : d ≤ fuel)
    (hfuel' : d ≤ fuel')
    (hf : fastPathGetInfo cfg h (fuel + 1) (.aggregate .tkArray direct els) els.length tc
      order = .ok (some (data, size, alignment)))
    (hlt : data.length < 2 ^ 32) (hb : b.AtEnd) (ho : b.endianness = order)
    (hhost : order = cfg.hostOrder) :
    ∃ b', Transfers h
      (marshallCase cfg R h mtc (fuel + 1) marshall .tkArray tc ctc (.aggregate .tkArray direct els))
      (unmarshallCase cfg R utc (fuel' + 1) (unmarshallToAny cfg R utc fuel') .tkArray tc .noContent)
      (Content.aggregate .tkArray direct els).plain b b' := by
  subst ho
  have hu : Heap.unwindTypedefs h tc = .ok tc := unwindTypedefs_of_kind (by rw [hkind]; decide)
  obtain ⟨elTc, n, hfe, hsize, rfl, hdata, hlen, rfl⟩ :=
    fastPathGetInfo_array hkind hd hc hfuel hf
  obtain ⟨_, els', t, heq, -, hl, ht, -⟩ := conforms_array hkind hc
  obtain rfl : els = els' := by
    injection heq
  obtain ⟨hdt, n', hl', hpos'⟩ := isData_array hkind ht hd
  obtain rfl := Except.ok.inj (hl.symm.trans hl')
  obtain ⟨u, hut⟩ := hdt.unwinds
  have hlayout : marshallLayout h .tkArray tc els.length = .ok (els.length, u) := by
    simp [marshallLayout, hl, ht, hut, bind, Except.bind, pure, Except.pure]
  have hpos : 0 < data.length := by
    rw [hlen]
    exact Nat.mul_pos hfe.pos (Nat.pos_of_ne_zero hsize)
  obtain ⟨b', htr⟩ := transfers_stored cfg (h := h) (Nat.pos_of_ne_zero hsize) hpos hb hhost
    (u := unmarshallToAny cfg R utc (fuel' + 1) tc .noContent) fun s start hh herr hsup hp => by
      have hread := readsStored (R := R) utc cfg.hostOrder hd hfe hsize hc
        (show d + 1 ≤ fuel' + 1 by omega) s start 0 data hh herr hsup (dvd_zero _) hp
      rw [← hdata] at hread
      exact hread ⟨[], by simp⟩
  have hwrite : marshallElements cfg h (fuel + 1) marshall .tkArray tc
      (.aggregate .tkArray direct els) direct els ⟨b, none⟩ = _ :=
    marshallElements_fast hlayout (List.ne_nil_of_length_pos hpos') hf
  rw [take_storage hlt, Program.onlyIf_false (by decide)] at hwrite
  refine ⟨b', ?_, htr.written, fun s hs => ?_⟩
  · have hagg : (Content.aggregate .tkArray direct els).asAggregate = .ok (direct, els) := rfl
    simp only [marshallCase]
    exact Program.tryCatch_ok (hwrite.trans htr.marshall)
  · have hread := htr.unmarshall s hs
    have hh := hs.heap_eq
    subst hh
    rwa [unmarshallToAny_eq hu, hkind] at hread

theorem transfers_typedSequence (hkind : Heap.kind h tc = .tkSequence) (hd : IsData h (d + 1) tc)
    {bound : Nat} (hl : Heap.length h tc = .ok bound)
    (hbound : bound = 0 ∨ els.length ≤ bound) (ht : Heap.contentType h tc = .ok t)
    (hels : ∀ el ∈ els, Conforms cfg h d t el) (hn : els.length + 1 < 2 ^ 31) (hfuel : d ≤ fuel)
    (hfuel' : d ≤ fuel') (hf : fastPathGetInfo cfg h (fuel + 1)
      (.aggregate .tkSequence direct (.elementary .tkUlong els.length :: els)) (els.length + 1) tc
      order = .ok (some (data, size, alignment)))
    (hlt : data.length < 2 ^ 32) (hb : b.AtEnd) (ho : b.endianness = order)
    (hhost : order = cfg.hostOrder) :
    ∃ b', Transfers h
      (marshallCase cfg R h mtc (fuel + 1) marshall .tkSequence tc ctc
        (.aggregate .tkSequence direct (.elementary .tkUlong els.length :: els)))
      (unmarshallCase cfg R utc (fuel' + 1) (unmarshallToAny cfg R utc fuel') .tkSequence tc
        .noContent)
      (Content.aggregate .tkSequence direct (.elementary .tkUlong els.length :: els)).plain b b' := by
  subst ho
  have hu : Heap.unwindTypedefs h tc = .ok tc := unwindTypedefs_of_kind (by rw [hkind]; decide)
  have hdt := isData_sequence hkind ht hd
  obtain ⟨elTc, n, hfe, hsize, rfl, hne, hdata, hlen, rfl⟩ :=
    fastPathGetInfo_sequence hkind hd ht hels hn hfuel hf
  have hpos : 0 < data.length := by
    rw [hlen]
    exact Nat.mul_pos (Nat.mul_pos (List.length_pos_of_ne_nil hne) hfe.pos)
      (Nat.pos_of_ne_zero hsize)
  obtain ⟨u, hut⟩ := hdt.unwinds
  have hmlayout : marshallLayout h .tkSequence tc (els.length + 1) = .ok (els.length + 1, u) := by
    simp [marshallLayout, ht, hut, bind, Except.bind, pure, Except.pure]
  have hwrite : marshallElements cfg h (fuel + 1) marshall .tkSequence tc
      (.aggregate .tkSequence direct (.elementary .tkUlong els.length :: els)) direct
      (.elementary .tkUlong els.length :: els) ⟨b, none⟩ = _ :=
    marshallElements_fast hmlayout (List.cons_ne_nil _ _) hf
  rw [take_storage hlt, Program.onlyIf_true rfl] at hwrite
  obtain ⟨b₁, h₁⟩ := Transfers.elementary (h := h) cfg hb (show 0 < 4 by decide)
    (show els.length < 256 ^ 4 by omega)
  have hlayout := transfers_sequenceLayout hl hbound ht hn h₁
  have hnew : newElements .tkSequence (els.length + 1) =
      [.elementary .tkUlong els.length] ++ List.replicate els.length .noContent := by
    rfl
  have hstored : ∀ el ∈ els, fastPathElementSize (Heap.kind h elTc) ∣
        (Content.storage cfg.hostOrder el).length ∧
      ReadsStored h cfg.hostOrder (fastPathElementSize (Heap.kind h elTc))
        (unmarshallToAny cfg R utc fuel' t .noContent) el.plain
        (Content.storage cfg.hostOrder el) := by
    intro el hmem
    rw [hfe.length_storage cfg.hostOrder hsize (hels el hmem)]
    exact ⟨Dvd.intro_left _ rfl, readsStored utc cfg.hostOrder hdt hfe hsize (hels el hmem) hfuel'⟩
  obtain ⟨b₂, h₂⟩ := transfers_stored cfg (h := h) (Nat.pos_of_ne_zero hsize) hpos
    h₁.written.atEnd (h₁.written.endianness_eq.trans hhost)
    (u := unmarshallLoop cfg (unmarshallToAny cfg R utc fuel') .tkSequence tc t false els.length 1
      (.ptc .tkVoid) ([.elementary .tkUlong els.length] ++ List.replicate els.length .noContent))
    fun s start hh herr hsup hp => by
      obtain ⟨q, hloop, hend⟩ := unmarshallLoop_stored cfg tc (.ptc .tkVoid) (.inr rfl) els hstored
        [.elementary .tkUlong els.length] s 0 hh herr hsup (dvd_zero _) hp ⟨[], by rw [hdata]; simp⟩
      rw [hend hne, ← hdata] at hloop
      exact hloop
  have hread := unmarshallElements_new _ hb hu hn (fastPathElements_ok hd _ (Nat.succ_le_succ hfuel')
    true 1) hlayout (h₂.decode (fun s _ _ _ => by
      rw [if_neg (by have := List.length_pos_of_ne_nil hne; omega), hnew, Nat.add_sub_cancel]))
  refine ⟨b₂, ?_⟩
  rw [Content.plain_aggregate]
  have htr := (hread.encode hwrite).handlers (fun _ => throwSysError marshalError) fun _ => do
    onTransfer (throwSysError marshalError)
    return .noContent
  exact htr.before rfl

end Typed

end PolyORB
