import PolyORB.Cdr.Values

/-!
# The round trip of plain values

`marshallFromAny` followed by `unmarshallToAny`, by induction on the nesting depth of the typecode.
The branches are taken one at a time, for a nested call that is only known to carry the elements
(`Carries`).  A typed aggregate is written in one piece and read element by element: there the
reader relies on what its storage holds (`Holds`).
-/

namespace PolyORB

open Buffer
open Program (onlyIf raiseIf evaluate)

variable {cfg : Config} {R : Primitives} {h : Heap} {order : Endianness}
variable {mtc : TcRef → CdrProg Unit} {utc : DecodeProg TcRef}

/-! ## Typecodes without aliases -/

variable {tc t elTc ctc : TcRef}

theorem unwindTypedefs_go {n : Nat} (hu : Heap.unwindTypedefs.go h n tc = .ok t) :
    Heap.kind h t ≠ .tkAlias := by
  induction n generalizing tc with
  | zero => cases hu
  | succ n ih =>
    rw [Heap.unwindTypedefs.go] at hu
    split_ifs at hu with hk
    · cases hc : Heap.contentType h tc with
      | error e => rw [hc] at hu; cases hu
      | ok t' => rw [hc] at hu; exact ih hu
    · injection hu with hu
      rw [← hu]
      exact hk

theorem unwindTypedefs_of_kind (hk : Heap.kind h tc ≠ .tkAlias) :
    Heap.unwindTypedefs h tc = .ok tc := by
  rw [Heap.unwindTypedefs, Heap.unwindTypedefs.go, if_neg hk]

theorem unwindTypedefs_unwound (hu : Heap.unwindTypedefs h tc = .ok t) :
    Heap.unwindTypedefs h t = .ok t :=
  unwindTypedefs_of_kind (unwindTypedefs_go hu)

variable {k : TCKind}

theorem fromAny_elementary {v : Nat}
    (hu : Heap.unwindTypedefs h tc = .ok t) (hk : Heap.kind h t = k) :
    Heap.fromAny h k ⟨tc, .elementary k v⟩ = .ok v := by
  simp [Heap.fromAny, hu, hk, bind, Except.bind]

/-! ## One call of each side -/

theorem marshallFromAny_eq (hu : Heap.unwindTypedefs h tc = .ok t) (fuel : Nat) (c : Content) :
    marshallFromAny cfg R h mtc (fuel + 1) tc c =
      marshallCase cfg R h mtc (fuel + 1) (marshallFromAny cfg R h mtc fuel) (Heap.kind h t) t tc
        c := by
  funext s
  rw [marshallFromAny, hu, Program.bind_ok (Program.evaluate_ok t s)]

theorem unmarshallToAny_eq {s : Decoder} (hu : Heap.unwindTypedefs s.heap tc = .ok t)
    (fuel : Nat) (old : Content) :
    unmarshallToAny cfg R utc (fuel + 1) tc old s =
      unmarshallCase cfg R utc (fuel + 1) (unmarshallToAny cfg R utc fuel) (Heap.kind s.heap t) t
        old s := by
  rw [unmarshallToAny, Program.bind_ok (onHeap_ok hu), Program.bind_ok (Program.get_apply s)]

/-- The value `c` goes through: `marshall` writes it for type `tc`, `unmarshall` reads it for
type `tc'`, into an empty container. -/
def Carries (h : Heap) (order : Endianness) (marshall : TcRef → Content → CdrProg Unit)
    (unmarshall : TcRef → Content → DecodeProg Content) (tc tc' : TcRef) (c : Content) : Prop :=
  ∀ b, b.AtEnd → b.endianness = order →
    ∃ b', Transfers h (marshall tc c) (unmarshall tc' .noContent) c.plain b b'

theorem carries_of_case {fuel fuel' : Nat} {tc' : TcRef} {c : Content}
    (hu : Heap.unwindTypedefs h tc = .ok t) (hu' : Heap.unwindTypedefs h tc' = .ok t)
    (hc : ∀ b, b.AtEnd → b.endianness = order → ∃ b', Transfers h
      (marshallCase cfg R h mtc (fuel + 1) (marshallFromAny cfg R h mtc fuel) (Heap.kind h t) t tc c)
      (unmarshallCase cfg R utc (fuel' + 1) (unmarshallToAny cfg R utc fuel') (Heap.kind h t) t
        .noContent) c.plain b b') :
    Carries h order (marshallFromAny cfg R h mtc (fuel + 1)) (unmarshallToAny cfg R utc (fuel' + 1))
      tc tc' c := by
  intro b hb ho
  obtain ⟨b', ht⟩ := hc b hb ho
  refine ⟨b', ?_⟩
  rw [marshallFromAny_eq hu]
  refine ht.decode fun s hs he _ => ?_
  subst hs
  exact unmarshallToAny_eq hu' fuel' .noContent

/-! ## Scalars -/

variable {unmarshall : TcRef → Content → DecodeProg Content}

variable {marshall : TcRef → Content → CdrProg Unit} {b : Buffer}

theorem transfers_scalar {fuel fuel' : Nat}
    {v : Nat} (hs : isScalarKind k = true) (hv : v < scalarModulus k)
    (hu : Heap.unwindTypedefs h tc = .ok t) (hk : Heap.kind h t = k) (hb : b.AtEnd) :
    ∃ b', Transfers h (marshallCase cfg R h mtc fuel marshall k t tc (.elementary k v))
      (unmarshallCase cfg R utc fuel' unmarshall k t .noContent) (.elementary k v) b b' := by
  have hf := fromAny_elementary (v := v) hu hk
  by_cases hbool : k = .tkBoolean
  · subst hbool
    obtain ⟨b', ht⟩ := RoundTrips.boolean cfg.hostOrder hb (v == 1)
    refine ⟨b', .before (by rw [hf]; rfl) (.map (.ofBuffer ht) fun s _ _ => ?_)⟩
    have hv' : (v == 1).toNat = v := by
      have hv2 : v < 2 := hv
      interval_cases v <;> rfl
    rw [hv']
    rfl
  · have hsize : 0 < elementarySize k ∧ scalarModulus k = 256 ^ elementarySize k := by
      cases k <;> simp_all [isScalarKind, scalarModulus, elementarySize]
    rw [hsize.2] at hv
    obtain ⟨b', ht⟩ := Transfers.elementary (h := h) cfg hb hsize.1 hv
    refine ⟨b', ?_⟩
    cases k <;> first
      | exact absurd rfl hbool
      | exact absurd hs (by decide)
      | exact .before (by rw [hf]; rfl) (.map ht fun s _ _ => rfl)

theorem transfers_nothing {fuel fuel' : Nat} (hk : k = .tkNull ∨ k = .tkVoid) (hb : b.AtEnd) :
    ∃ b', Transfers h (marshallCase cfg R h mtc fuel marshall k t tc .noContent)
      (unmarshallCase cfg R utc fuel' unmarshall k t .noContent) .noContent b b' := by
  rcases hk with rfl | rfl
  · exact ⟨b, .pure hb _⟩
  · exact ⟨b, .pure hb _⟩

/-! ## Aggregates, element by element -/

variable {els : List Content} {direct : Bool}

theorem getAggregateElement_ok {j : Nat} {el : Content}
    (hel : els[j]? = some el) (hg : IsGettable direct el) :
    Heap.getAggregateElement direct els j = .ok el := by
  rw [Heap.getAggregateElement, hel]
  have hn : ¬(direct = false ∧ el.isEmpty = true) := by
    rintro ⟨hd, he⟩
    have hf := hg hd
    rw [he] at hf
    cases hf
  exact if_neg hn

/-- The storage of a default aggregate cannot be addressed. -/
theorem fastPathGetInfo_default {fuel : Nat} {count : Nat} (hu : Heap.unwindTypedefs h tc = .ok tc)
    (hf : ∃ r, fastPathElements h count fuel tc true 1 = .ok r) :
    fastPathGetInfo cfg h fuel (.aggregate k false els) count tc order = .ok none := by
  obtain ⟨⟨elTc, elCount⟩, hf⟩ := hf
  simp only [fastPathGetInfo, hu, bind, Except.bind, hf, Content.uncheckedGetV, Option.map_none]
  split_ifs <;> rfl

theorem fastPathElements_other {fuel : Nat} {count n : Nat} {out : Bool}
    (hs : Heap.kind h tc ≠ .tkSequence) (ha : Heap.kind h tc ≠ .tkArray) :
    fastPathElements h count (fuel + 1) tc out n = .ok (tc, n) := by
  rw [fastPathElements, if_neg (by simp [hs, ha])]
  rfl

def newElements (k : TCKind) (nb : Nat) : List Content :=
  if k = .tkSequence then (List.replicate nb Content.noContent).set 0 (.elementary .tkUlong (nb - 1))
  else List.replicate nb .noContent

theorem setAggregateCount_new {nb : Nat} (hn : nb < 2 ^ 31) :
    setAggregateCount h k false [] tc nb = .ok (List.replicate nb .noContent) := by
  rw [setAggregateCount, if_pos rfl, if_neg (by omega)]
  simp

/-- What `unmarshallElements` does for an empty container once it knows the layout. -/
theorem unmarshallElements_apply {fuel : Nat} {nb first : Nat} {s s₁ : Decoder}
    (hl : unmarshallLayout cfg k tc s = .ok (nb, first, elTc) s₁)
    (hu : Heap.unwindTypedefs s₁.heap tc = .ok tc) (hn : nb < 2 ^ 31)
    (hf : ∃ r, fastPathElements s₁.heap nb fuel tc true 1 = .ok r) :
    unmarshallElements cfg fuel unmarshall k tc .noContent s =
      ((if nb < first + 1 then pure (newElements k nb) else
        unmarshallLoop cfg unmarshall k tc elTc false (nb - first) first (.ptc .tkVoid)
          (newElements k nb)) >>= fun els => pure (Content.aggregate k false els)) s₁ := by
  have ht : Content.noContent.targetElements = .ok (false, []) := rfl
  have hset : onHeap (fun h => setAggregateCount h k false [] elTc nb) s₁ =
      .ok (List.replicate nb .noContent) s₁ := onHeap_ok (setAggregateCount_new hn)
  rw [unmarshallElements, Program.bind_ok hl]
  simp only
  rw [Program.bind_evaluate ht]
  rw [Program.bind_ok hset, Program.bind_get,
    List.length_replicate, Program.bind_evaluate (fastPathGetInfo_default hu hf)]
  by_cases hlt : nb < first + 1
  · simp only [if_pos hlt, pure_bind]
    rfl
  · simp only [if_neg hlt]
    rfl

theorem unmarshallElements_new (m' : CdrProg Unit) {fuel : Nat} {nb first : Nat} {m : CdrProg Unit}
    {b₁ b₂ : Buffer} (hb : b.AtEnd) (hu : Heap.unwindTypedefs h tc = .ok tc) (hn : nb < 2 ^ 31)
    (hf : ∃ r, fastPathElements h nb fuel tc true 1 = .ok r)
    (hl : Transfers h m (unmarshallLayout cfg k tc) (nb, first, elTc) b b₁)
    (hloop : Transfers h m' (if nb < first + 1 then pure (newElements k nb) else
      unmarshallLoop cfg unmarshall k tc elTc false (nb - first) first (.ptc .tkVoid)
        (newElements k nb)) els b₁ b₂) :
    Transfers h (m >>= fun _ => m') (unmarshallElements cfg fuel unmarshall k tc .noContent)
      (.aggregate k false els) b b₂ := by
  have hret : Transfers h m' ((if nb < first + 1 then pure (newElements k nb) else
      unmarshallLoop cfg unmarshall k tc elTc false (nb - first) first (.ptc .tkVoid)
        (newElements k nb)) >>= fun els => pure (Content.aggregate k false els))
        (Content.aggregate k false els) b₁ b₂ := hloop.map fun _ _ _ => rfl
  refine ⟨?_, hl.written.trans hloop.written, fun s hready => ?_⟩
  · rw [Program.bind_ok hl.marshall, hloop.marshall]
  · have h1 := hl.unmarshall s (hready.first hl.written.atEnd hloop.written)
    have h2 := hret.unmarshall _ (hready.second hb hl.written)
    have hh := hready.heap_eq
    subst hh
    rw [unmarshallElements_apply h1 hu hn hf, h2]
    rfl

theorem transfers_loop (cfg : Config) {body : Nat → CdrProg Unit}
    {valTc : TcRef} (hk : k ≠ .tkUnion) (rest : List Content) :
    ∀ (done : List Content) (j : Nat), done.length = j →
      (∀ i el, rest[i]? = some el → ∃ t t', body (j + i) = marshall t el ∧
        elementType k tc elTc valTc (j + i) h = .ok t' ∧
        Carries h order marshall unmarshall t t' el) →
      ∀ b, b.AtEnd → b.endianness = order → ∃ b', Transfers h (forIndices body rest.length j)
        (unmarshallLoop cfg unmarshall k tc elTc false rest.length j valTc
          (done ++ List.replicate rest.length .noContent)) (done ++ rest.map Content.plain) b b' := by
  induction rest with
  | nil =>
    intro done j _ _ b hb _
    refine ⟨b, ?_⟩
    have h0 := Transfers.pure (h := h) hb done
    simpa [forIndices, unmarshallLoop] using h0
  | cons el rest ih =>
    intro done j hj hel b hb ho
    obtain ⟨t, t', hbody, ht', hc⟩ := hel 0 el rfl
    obtain ⟨b₁, h₁⟩ := hc b hb ho
    have hlen : (done ++ [el.plain]).length = j + 1 := by simp [hj]
    have hrest : ∀ i el, rest[i]? = some el → ∃ t t', body (j + 1 + i) = marshall t el ∧
        elementType k tc elTc valTc (j + 1 + i) h = .ok t' ∧
        Carries h order marshall unmarshall t t' el := by
      intro i el hi
      have hs := hel (i + 1) el hi
      rwa [show j + (i + 1) = j + 1 + i by omega] at hs
    obtain ⟨b₂, h₂⟩ := ih (done ++ [el.plain]) (j + 1) hlen hrest b₁ h₁.written.atEnd
      (h₁.written.endianness_eq.trans ho)
    have hset : (done ++ List.replicate (rest.length + 1) Content.noContent).set j el.plain =
        done ++ [el.plain] ++ List.replicate rest.length .noContent := by
      rw [← hj, List.replicate_succ]
      simp
    have hget : (done ++ List.replicate (rest.length + 1) Content.noContent)[j]? =
        some .noContent := by
      rw [← hj, List.replicate_succ]
      simp
    have hres : done ++ (el :: rest).map Content.plain =
        done ++ [el.plain] ++ rest.map Content.plain := by simp
    rw [hres]
    refine ⟨b₂, ?_, h₁.written.trans h₂.written, fun s hs => ?_⟩
    · have hb0 : body j = marshall t el := hbody
      rw [List.length_cons, forIndices, hb0, Program.bind_ok h₁.marshall]
      exact h₂.marshall
    · -- the element is read, no error is found, and the loop goes on with one more element done
      have ht0 : elementType k tc elTc valTc j s.heap = .ok t' := by
        rw [hs.heap_eq]
        exact ht'
      have hfirst := h₁.unmarshall s (hs.first h₁.written.atEnd h₂.written)
      have hsecond := h₂.unmarshall _ (hs.second hb h₁.written)
      rw [List.length_cons, unmarshallLoop, Program.bind_ok (onHeap_ok ht0), hget]
      simp only [Bool.false_eq_true, if_false]
      rw [Program.bind_evaluate rfl, Program.bind_ok hfirst,
        Program.bind_ok (onTransfer_found (hs.second hb h₁.written).error_eq)]
      simp only [Bool.false_eq_true, if_false, hk, false_and, hset]
      rw [hsecond]
      rfl

theorem marshallElements_slow (cfg : Config) (fuel : Nat) {c : Content} {s : Transfer}
    (hl : marshallLayout h k tc els.length = .ok (els.length, elTc)) (hf : els ≠ [] →
      fastPathGetInfo cfg h fuel c els.length tc s.buffer.endianness = .ok none) :
    marshallElements cfg h fuel marshall k tc c direct els s =
      forIndices (marshallElement h marshall k tc elTc direct els els.length) els.length 0 s := by
  rw [marshallElements, Program.bind_evaluate hl]
  simp only
  rw [Program.bind_raiseIf (by simp)]
  by_cases hn : els = []
  · subst hn
    rfl
  · have hlen : els.length ≠ 0 := by simpa using hn
    simp only [hlen, if_false]
    rw [Program.bind_get, Program.bind_evaluate (hf hn)]

theorem fastPathGetInfo_other {fuel : Nat} {c : Content} {count : Nat}
    (hu : Heap.unwindTypedefs h tc = .ok tc) (hs : Heap.kind h tc ≠ .tkSequence)
    (ha : Heap.kind h tc ≠ .tkArray) (hsize : fastPathElementSize (Heap.kind h tc) = 0) :
    fastPathGetInfo cfg h (fuel + 1) c count tc order = .ok none := by
  simp only [fastPathGetInfo, hu, bind, Except.bind, fastPathElements_other hs ha, hsize]
  split_ifs <;> rfl

theorem transfers_fromZero (fuel : Nat) {nb : Nat} {m : CdrProg Unit}
    {b' : Buffer} (hb : b.AtEnd) (hu : Heap.unwindTypedefs h tc = .ok tc) (hn : nb < 2 ^ 31)
    (hf : ∃ r, fastPathElements h nb fuel tc true 1 = .ok r) (hk : k ≠ .tkSequence)
    (hl : ∀ s : Decoder, s.heap = h → unmarshallLayout cfg k tc s = .ok (nb, 0, elTc) s)
    (hloop : Transfers h m (unmarshallLoop cfg unmarshall k tc elTc false nb 0 (.ptc .tkVoid)
      (List.replicate nb .noContent)) els b b') :
    Transfers h m (unmarshallElements cfg fuel unmarshall k tc .noContent)
      (.aggregate k false els) b b' := by
  have hlayout : Transfers h (pure ()) (unmarshallLayout cfg k tc) (nb, 0, elTc) b b := by
    have h0 := Transfers.pure (h := h) hb (nb, 0, elTc)
    exact h0.decode fun s hs _ _ => hl s hs
  have hnew : newElements k nb = List.replicate nb .noContent := if_neg hk
  refine (unmarshallElements_new m hb hu hn hf hlayout ?_).encode rfl
  rw [hnew]
  by_cases h0 : nb < 0 + 1
  · have hz : nb = 0 := by omega
    subst hz
    exact hloop
  · rw [if_neg h0]
    exact hloop

theorem transfers_struct {fuel fuel' : Nat} (hk : k = .tkStruct ∨ k = .tkExcept)
    (hkind : Heap.kind h tc = k) (hc : Heap.memberCount h tc = .ok els.length)
    (hn : els.length < 2 ^ 31)
    (hel : ∀ j el, els[j]? = some el → ∃ t, Heap.memberType h tc j = .ok t ∧
      IsGettable direct el ∧ Carries h order marshall unmarshall t t el)
    (hb : b.AtEnd) (ho : b.endianness = order) :
    ∃ b', Transfers h
      (marshallCase cfg R h mtc (fuel + 1) marshall k tc ctc (.aggregate k direct els))
      (unmarshallCase cfg R utc (fuel' + 1) unmarshall k tc .noContent)
      (Content.aggregate k direct els).plain b b' := by
  have hs : k ≠ .tkSequence ∧ k ≠ .tkArray ∧ k ≠ .tkUnion ∧ k ≠ .tkAlias ∧
      fastPathElementSize k = 0 := by
    rcases hk with rfl | rfl <;> decide
  obtain ⟨hks, hka, hku, hkl, hsize⟩ := hs
  have hu : Heap.unwindTypedefs h tc = .ok tc := unwindTypedefs_of_kind (by rw [hkind]; exact hkl)
  rw [← hkind] at hks hka hsize
  have hbody : ∀ i el, els[i]? = some el → ∃ t t',
      marshallElement h marshall k tc (.ptc .tkVoid) direct els els.length (0 + i) =
        marshall t el ∧
      elementType k tc (.ptc .tkVoid) (.ptc .tkVoid) (0 + i) h = .ok t' ∧
      Carries h order marshall unmarshall t t' el := by
    intro i el hi
    obtain ⟨t, ht, hg, hcar⟩ := hel i el hi
    rw [Nat.zero_add]
    refine ⟨t, t, ?_, ?_, hcar⟩
    · funext s
      have hnot : ¬(i = 0 ∧ k = .tkSequence) := by
        rintro ⟨-, hk'⟩
        exact hks (hkind.trans hk')
      rw [marshallElement, if_neg hnot, if_pos hk, Program.bind_evaluate ht,
        marshallAggregateElement, Program.bind_evaluate (getAggregateElement_ok hi hg)]
    · rcases hk with rfl | rfl <;> exact ht
  obtain ⟨b', ht⟩ := transfers_loop cfg hku els [] 0 rfl hbody b hb ho
  have hlayout : marshallLayout h k tc els.length = .ok (els.length, .ptc .tkVoid) := by
    rcases hk with rfl | rfl <;> rw [marshallLayout, hc] <;> rfl
  have hfast : ∀ {f : Nat} {o : Endianness}, fastPathGetInfo cfg h (f + 1)
      (.aggregate k direct els) els.length tc o = .ok none :=
    fastPathGetInfo_other hu hks hka hsize
  have hun := transfers_fromZero (fuel' + 1) hb hu hn
    ⟨_, fastPathElements_other hks hka⟩ (by rw [← hkind]; exact hks)
    (fun s hs => by
      rcases hk with rfl | rfl <;>
        · subst hs
          rw [unmarshallLayout, Program.bind_ok (onHeap_ok hc)]
          rfl) ht
  rw [Content.plain_aggregate]
  refine ⟨b', ?_⟩
  have hmarshall := (hun.encode (marshallElements_slow cfg (fuel + 1)
    hlayout fun _ => hfast)).handlers (fun _ => throwSysError marshalError) fun _ => do
      onTransfer (throwSysError marshalError)
      return .noContent
  rcases hk with rfl | rfl
  · exact hmarshall.before rfl
  · exact hmarshall.before rfl

theorem transfers_enum {fuel fuel' : Nat} {v : Nat} (hkind : Heap.kind h tc = .tkEnum)
    (hc : Carries h order marshall unmarshall (.ptc .tkUlong) (.ptc .tkUlong) (.elementary .tkUlong v))
    (hb : b.AtEnd) (ho : b.endianness = order) :
    ∃ b', Transfers h
      (marshallCase cfg R h mtc fuel marshall .tkEnum tc ctc
        (.aggregate .tkEnum direct [.elementary .tkUlong v]))
      (unmarshallCase cfg R utc (fuel' + 1) unmarshall .tkEnum tc .noContent)
      (Content.aggregate .tkEnum direct [.elementary .tkUlong v]).plain b b' := by
  have hu : Heap.unwindTypedefs h tc = .ok tc :=
    unwindTypedefs_of_kind (by rw [hkind]; decide)
  have hbody : ∀ i el, [Content.elementary .tkUlong v][i]? = some el → ∃ t t',
      (fun _ => marshall (.ptc .tkUlong) (.elementary .tkUlong v)) (0 + i) = marshall t el ∧
      elementType .tkEnum tc (.ptc .tkUlong) (.ptc .tkVoid) (0 + i) h = .ok t' ∧
      Carries h order marshall unmarshall t t' el := by
    intro i el hi
    obtain ⟨-, rfl⟩ : i = 0 ∧ el = .elementary .tkUlong v := by
      cases i with
      | zero => exact ⟨rfl, (Option.some.inj hi).symm⟩
      | succ i => cases hi
    exact ⟨_, _, rfl, rfl, hc⟩
  obtain ⟨b', ht⟩ : ∃ b', Transfers h
      (forIndices (fun _ => marshall (.ptc .tkUlong) (.elementary .tkUlong v)) 1 0)
      (unmarshallLoop cfg unmarshall .tkEnum tc (.ptc .tkUlong) false 1 0 (.ptc .tkVoid)
        (List.replicate 1 .noContent)) [.elementary .tkUlong v] b b' :=
    transfers_loop cfg (by decide) [Content.elementary .tkUlong v] [] 0 rfl hbody b hb ho
  have hun := transfers_fromZero (fuel' + 1) hb hu (by decide)
    ⟨_, fastPathElements_other (by rw [hkind]; decide) (by rw [hkind]; decide)⟩ (by decide)
    (fun s _ => rfl) ht
  refine ⟨b', ?_⟩
  have hhandled := hun.handlers (fun _ => throwSysError marshalError) fun _ => do
    onTransfer (throwSysError marshalError)
    return .noContent
  refine ⟨?_, hhandled.written, hhandled.unmarshall⟩
  have hm := ht.marshall
  simp only [forIndices] at hm
  obtain ⟨⟨⟩, s, h1, h2⟩ := Program.bind_eq_ok.mp hm
  cases h2
  have hagg : (Content.aggregate .tkEnum direct [.elementary .tkUlong v]).asAggregate =
      .ok (direct, [.elementary .tkUlong v]) := rfl
  have hget : Heap.getAggregateElement direct [.elementary .tkUlong v] 0 =
      .ok (.elementary .tkUlong v) := getAggregateElement_ok rfl fun _ => rfl
  simp only [marshallCase]
  rw [Program.bind_evaluate hagg]
  rw [marshallAggregateElement, Program.bind_evaluate hget, h1]

theorem unmarshallLoop_label {labelTc m : TcRef} {c : Content} {p : Nat}
    (hdisc : Heap.discriminatorType h tc = .ok labelTc)
    (hm : Heap.memberTypeWithLabel h cfg.structuredEq tc ⟨labelTc, c⟩ = .ok m) {s : Decoder}
    (hh : s.heap = h) (herr : s.error = none)
    (hread : unmarshall labelTc .noContent s = .ok c (s.seek p)) :
    unmarshallLoop cfg unmarshall .tkUnion tc (.ptc .tkVoid) false 2 0 (.ptc .tkVoid)
        (List.replicate 2 .noContent) s =
      (if Heap.kind h m = .tkVoid then pure [c] else
        unmarshallLoop cfg unmarshall .tkUnion tc (.ptc .tkVoid) false 1 1 m [c, .noContent])
        (s.seek p) := by
  subst hh
  have ht : onHeap (elementType .tkUnion tc (.ptc .tkVoid) (.ptc .tkVoid) 0) s = .ok labelTc s :=
    onHeap_ok hdisc
  have hm' : onHeap (Heap.memberTypeWithLabel · cfg.structuredEq tc ⟨labelTc, c⟩) (s.seek p) =
      .ok m (s.seek p) := onHeap_ok hm
  rw [unmarshallLoop, Program.bind_ok ht]
  simp only [List.replicate, List.getElem?_cons_zero, Bool.false_eq_true, if_false]
  rw [Program.bind_evaluate rfl, Program.bind_ok hread,
    Program.bind_ok (onTransfer_found (s := s.seek p) herr)]
  simp only [Bool.false_eq_true, if_false, true_and, if_true]
  rw [Program.bind_ok hm', Program.bind_get]
  by_cases hv : Heap.kind s.heap m = .tkVoid
  · rfl
  · rfl

theorem transfers_union {fuel fuel' : Nat} {labelTc m : TcRef}
    {label : Content} {rest : List Content} (hkind : Heap.kind h tc = .tkUnion)
    (hdisc : Heap.discriminatorType h tc = .ok labelTc)
    (hlabel : IsGettable direct label ∧ Carries h order marshall unmarshall labelTc labelTc label)
    (hm : Heap.memberTypeWithLabel h cfg.structuredEq tc ⟨labelTc, label⟩ = .ok m)
    (hm' : Heap.memberTypeWithLabel h cfg.structuredEq tc ⟨labelTc, label.plain⟩ = .ok m)
    (hrest : if Heap.kind h m = .tkVoid then rest = [] else
      ∃ v, rest = [v] ∧ IsGettable direct v ∧ Carries h order marshall unmarshall m m v)
    (hb : b.AtEnd) (ho : b.endianness = order) :
    ∃ b', Transfers h
      (marshallCase cfg R h mtc fuel marshall .tkUnion tc ctc
        (.aggregate .tkUnion direct (label :: rest)))
      (unmarshallCase cfg R utc (fuel' + 1) unmarshall .tkUnion tc .noContent)
      (Content.aggregate .tkUnion direct (label :: rest)).plain b b' := by
  obtain ⟨hg, hcar⟩ := hlabel
  have hu : Heap.unwindTypedefs h tc = .ok tc :=
    unwindTypedefs_of_kind (by rw [hkind]; decide)
  obtain ⟨b₁, h₁⟩ := hcar b hb ho
  have hread (mm : CdrProg Unit) {b' : Buffer} {els : List Content}
      (hloop : Transfers h mm (unmarshallLoop cfg unmarshall .tkUnion tc (.ptc .tkVoid) false 2 0
        (.ptc .tkVoid) (List.replicate 2 .noContent)) els b b')
      (he : marshallCase cfg R h mtc fuel marshall .tkUnion tc ctc
        (.aggregate .tkUnion direct (label :: rest)) ⟨b, none⟩ = mm ⟨b, none⟩) :
      Transfers h (marshallCase cfg R h mtc fuel marshall .tkUnion tc ctc
          (.aggregate .tkUnion direct (label :: rest)))
        (unmarshallCase cfg R utc (fuel' + 1) unmarshall .tkUnion tc .noContent)
        (.aggregate .tkUnion false els) b b' := by
    have hun := transfers_fromZero (fuel' + 1) hb hu (by decide)
      ⟨_, fastPathElements_other (by rw [hkind]; decide) (by rw [hkind]; decide)⟩ (by decide)
      (fun s _ => rfl) hloop
    have hhandled := hun.handlers (fun _ => throwSysError marshalError) fun _ => do
      onTransfer (throwSysError marshalError)
      return .noContent
    exact ⟨he.trans hun.marshall, hhandled.written, hhandled.unmarshall⟩
  have hwrite : marshallCase cfg R h mtc fuel marshall .tkUnion tc ctc
        (.aggregate .tkUnion direct (label :: rest)) ⟨b, none⟩ =
      (do
        if Heap.kind h m ≠ TCKind.tkVoid then
          raiseIf ((label :: rest).length ≠ 2) Exn.assertionError
          marshallAggregateElement marshall direct (label :: rest) m 1
        else raiseIf ((label :: rest).length ≠ 1) Exn.assertionError : CdrProg Unit) ⟨b₁, none⟩ := by
    have hagg : (Content.aggregate .tkUnion direct (label :: rest)).asAggregate =
        .ok (direct, label :: rest) := rfl
    have hget : Heap.getAggregateElement direct (label :: rest) 0 = .ok label :=
      getAggregateElement_ok rfl hg
    simp only [marshallCase]
    rw [Program.bind_evaluate hagg]
    rw [Program.bind_evaluate hdisc, Program.bind_evaluate hget, Program.bind_ok h₁.marshall,
      Program.bind_ok (found_none b₁)]
    simp only [Bool.false_eq_true, if_false]
    rw [Program.bind_evaluate hm]
  by_cases hv : Heap.kind h m = .tkVoid
  · rw [if_pos hv] at hrest
    subst hrest
    refine ⟨b₁, hread (marshall labelTc label) ⟨h₁.marshall, h₁.written, fun s hs => ?_⟩ ?_⟩
    · rw [unmarshallLoop_label hdisc hm' hs.heap_eq hs.error_eq (h₁.unmarshall s hs), if_pos hv]
      rfl
    · rw [hwrite, h₁.marshall]
      simp only [hv, ne_eq, not_true_eq_false, if_false]
      rfl
  · rw [if_neg hv] at hrest
    obtain ⟨v, rfl, hgv, hcarv⟩ := hrest
    obtain ⟨b₂, h₂⟩ := hcarv b₁ h₁.written.atEnd (h₁.written.endianness_eq.trans ho)
    refine ⟨b₂, hread (marshall labelTc label >>= fun _ => marshall m v)
      ⟨?_, h₁.written.trans h₂.written, fun s hs => ?_⟩ ?_⟩
    · rw [Program.bind_ok h₁.marshall, h₂.marshall]
    · have hfirst := h₁.unmarshall s (hs.first h₁.written.atEnd h₂.written)
      have hsecond := hs.second hb h₁.written
      have hval := h₂.unmarshall _ hsecond
      rw [unmarshallLoop_label hdisc hm' hs.heap_eq hs.error_eq hfirst, if_neg hv, unmarshallLoop,
        Program.bind_ok (onHeap_ok (show elementType .tkUnion tc (.ptc .tkVoid) m 1
          (s.seek b₁.cdrPosition).heap = .ok m from rfl))]
      simp only [List.getElem?_cons_succ, List.getElem?_cons_zero, Bool.false_eq_true, if_false]
      rw [Program.bind_evaluate rfl, Program.bind_ok hval,
        Program.bind_ok (onTransfer_found (s := (s.seek b₁.cdrPosition).seek b₂.cdrPosition)
          hs.error_eq)]
      rfl
    · have hget : Heap.getAggregateElement direct [label, v] 1 = .ok v :=
        getAggregateElement_ok rfl hgv
      rw [hwrite, Program.bind_ok h₁.marshall]
      simp only [ne_eq, hv, not_false_eq_true, if_true]
      rw [Program.bind_raiseIf (by simp), marshallAggregateElement, Program.bind_evaluate hget]

theorem transfers_valuebox {fuel fuel' : Nat}
    (hels : els = [] ∨ ∃ el t, els = [el] ∧ Heap.contentType h tc = .ok t ∧ IsGettable direct el ∧
      Carries h order marshall unmarshall t t el) (hb : b.AtEnd) (ho : b.endianness = order) :
    ∃ b', Transfers h
      (marshallCase cfg R h mtc fuel marshall .tkValuebox tc ctc (.aggregate .tkValuebox direct els))
      (unmarshallCase cfg R utc fuel' unmarshall .tkValuebox tc .noContent)
      (Content.aggregate .tkValuebox direct els).plain b b' := by
  have hagg : (Content.aggregate .tkValuebox direct els).asAggregate = .ok (direct, els) := rfl
  have hnew : Content.noContent.targetElements = .ok (false, []) := rfl
  rcases hels with rfl | ⟨el, t, rfl, ht, hg, hcar⟩
  · obtain ⟨b₁, h₁⟩ := Transfers.elementary (h := h) cfg hb (show 0 < 4 by decide)
      (show nullTag < 256 ^ 4 by decide)
    refine ⟨b₁, (h₁.map fun s _ _ => ?_).encode ?_⟩
    · rfl
    · simp only [marshallCase]
      rfl
  · obtain ⟨b₁, h₁⟩ := Transfers.elementary (h := h) cfg hb (show 0 < 4 by decide)
      (show valueTag < 256 ^ 4 by decide)
    obtain ⟨b₂, h₂⟩ := hcar b₁ h₁.written.atEnd (h₁.written.endianness_eq.trans ho)
    have hbox : Transfers h (marshall t el)
        (unmarshall t .noContent >>= fun c => pure (Content.aggregate .tkValuebox false [c]))
        (Content.aggregate .tkValuebox false [el.plain]) b₁ b₂ := h₂.map fun _ _ _ => rfl
    have hget : Heap.getAggregateElement direct [el] 0 = .ok el := getAggregateElement_ok rfl hg
    refine ⟨b₂, (h₁.bind hb (hbox.decode fun s hs _ _ => ?_)).encode ?_⟩
    · subst hs
      rw [Program.bind_evaluate hnew]
      simp only [show valueTag ≠ nullTag by decide, if_false]
      rw [Program.bind_ok (onHeap_ok ht), Program.bind_ok (onHeap_ok
        (show setAggregateCount s.heap .tkValuebox false [] t 1 = .ok [.noContent] from rfl))]
      rfl
    · simp only [marshallCase]
      rw [Program.bind_evaluate hagg]
      simp only [List.length_singleton, Nat.one_ne_zero, if_false]
      refine congrFun (congrArg _ (funext fun _ => funext fun u => ?_)) _
      rw [Program.bind_evaluate ht, marshallAggregateElement, Program.bind_evaluate hget]

/-! ## Arrays and sequences, element by element -/

theorem fastPathElements_ok {d : Nat} (hd : IsData h d tc) (count : Nat) :
    ∀ {fuel : Nat}, d ≤ fuel → ∀ (out : Bool) (n : Nat),
      ∃ r, fastPathElements h count fuel tc out n = .ok r := by
  induction d generalizing tc with
  | zero => exact hd.elim
  | succ d ih =>
    intro fuel hfuel out n
    obtain ⟨fuel, rfl⟩ : ∃ f, fuel = f + 1 := ⟨fuel - 1, by omega⟩
    rw [fastPathElements]
    by_cases hc : Heap.kind h tc = .tkArray ∨ (out = true ∧ Heap.kind h tc = .tkSequence)
    · rw [if_pos hc]
      obtain ⟨t, hu, hcase⟩ := hd
      have hna : Heap.kind h tc ≠ .tkAlias := by
        rcases hc with hc | ⟨-, hc⟩ <;> rw [hc] <;> decide
      rw [unwindTypedefs_of_kind hna] at hu
      obtain rfl := Except.ok.inj hu
      rcases hc with hc | ⟨-, hc⟩
      · simp only [hc] at hcase
        obtain ⟨m, t, hl, -, ht, hdt⟩ := hcase
        obtain ⟨r, hr⟩ := ih hdt (show d ≤ fuel by omega) false (n * m % unsignedLongModulus)
        refine ⟨r, ?_⟩
        simp only [hc, hl, ht, bind, Except.bind, pure, Except.pure] at hr ⊢
        exact hr
      · simp only [hc] at hcase
        obtain ⟨m, t, hl, ht, hdt⟩ := hcase
        obtain ⟨r, hr⟩ := ih hdt (show d ≤ fuel by omega) false (subUnsignedLong (n * count) 1)
        refine ⟨r, ?_⟩
        simp only [hc, ht, bind, Except.bind, pure, Except.pure, if_true] at hr ⊢
        exact hr
    · rw [if_neg hc]
      exact ⟨_, rfl⟩

section Elements

variable {marshall : TcRef → Content → CdrProg Unit}
  {unmarshall : TcRef → Content → DecodeProg Content} {fuel fuel' : Nat} {tc ctc t u : TcRef}
  {direct : Bool} {els : List Content} {b : Buffer}

theorem marshallElement_content (hk : k = .tkArray ∨ k = .tkSequence) {nb j : Nat}
    (hj : k = .tkSequence → j ≠ 0) {el : Content} (hi : els[j]? = some el)
    (hg : IsGettable direct el) :
    marshallElement h marshall k tc u direct els nb j = marshall u el := by
  funext s
  have h0 : ¬(j = 0 ∧ k = .tkSequence) := fun ⟨h1, h2⟩ => hj h2 h1
  have hs : ¬(k = .tkStruct ∨ k = .tkExcept) := by rcases hk with rfl | rfl <;> decide
  rw [marshallElement, if_neg h0, if_neg hs, Program.bind_evaluate rfl, marshallAggregateElement,
    Program.bind_evaluate (getAggregateElement_ok hi hg)]

theorem transfers_array (hkind : Heap.kind h tc = .tkArray)
    (hl : Heap.length h tc = .ok els.length) (ht : Heap.contentType h tc = .ok t)
    (hu : Heap.unwindTypedefs h t = .ok u) (hn : els.length < 2 ^ 31)
    (hf : ∃ r, fastPathElements h els.length fuel' tc true 1 = .ok r)
    (hslow : els ≠ [] → fastPathGetInfo cfg h fuel (.aggregate .tkArray direct els) els.length tc
      order = .ok none)
    (hel : ∀ el ∈ els, IsGettable direct el ∧ Carries h order marshall unmarshall u t el)
    (hb : b.AtEnd) (ho : b.endianness = order) :
    ∃ b', Transfers h
      (marshallCase cfg R h mtc fuel marshall .tkArray tc ctc (.aggregate .tkArray direct els))
      (unmarshallCase cfg R utc fuel' unmarshall .tkArray tc .noContent)
      (Content.aggregate .tkArray direct els).plain b b' := by
  have hun : Heap.unwindTypedefs h tc = .ok tc := unwindTypedefs_of_kind (by rw [hkind]; decide)
  have hbody : ∀ i el, els[i]? = some el → ∃ t₁ t₂,
      marshallElement h marshall .tkArray tc u direct els els.length (0 + i) = marshall t₁ el ∧
      elementType .tkArray tc t (.ptc .tkVoid) (0 + i) h = .ok t₂ ∧
      Carries h order marshall unmarshall t₁ t₂ el := by
    intro i el hi
    obtain ⟨hg, hcar⟩ := hel el (List.mem_of_getElem? hi)
    rw [Nat.zero_add]
    exact ⟨u, t, marshallElement_content (.inl rfl) (by rintro ⟨⟩) hi hg, rfl, hcar⟩
  obtain ⟨b', htr⟩ := transfers_loop cfg (by decide) els [] 0 rfl hbody b hb ho
  have hlayout : marshallLayout h .tkArray tc els.length = .ok (els.length, u) := by
    simp [marshallLayout, hl, ht, hu, bind, Except.bind, pure, Except.pure]
  have hread := transfers_fromZero fuel' hb hun hn hf (by decide) (fun s hs => by
    subst hs
    rw [unmarshallLayout, Program.bind_ok (onHeap_ok hl), Program.bind_ok (onHeap_ok ht)]
    rfl) htr
  refine ⟨b', ?_⟩
  rw [Content.plain_aggregate]
  have hm := (hread.encode (marshallElements_slow cfg fuel hlayout
    (s := ⟨b, none⟩) (ho ▸ hslow))).handlers
    (fun _ => throwSysError marshalError) fun _ => do
      onTransfer (throwSysError marshalError)
      return .noContent
  exact hm.before rfl

theorem transfers_sequenceLayout {m : CdrProg Unit} {n bound : Nat} {b' : Buffer}
    (hl : Heap.length h tc = .ok bound) (hbound : bound = 0 ∨ n ≤ bound)
    (ht : Heap.contentType h tc = .ok t) (hn : n + 1 < 2 ^ 31)
    (hcount : Transfers h m (unmarshallUnsignedLong cfg) n b b') :
    Transfers h m (unmarshallLayout cfg .tkSequence tc) (n + 1, 1, t) b b' := by
  have hmap : Transfers h m
      (unmarshallUnsignedLong cfg >>= fun nb => do
        raiseIf (0 < bound ∧ bound < nb) Exn.constraintError
        return ((nb + 1) % unsignedLongModulus, 1, ← onHeap (Heap.contentType · tc)))
      (n + 1, 1, t) b b' := by
    refine hcount.map fun s hs _ => ?_
    subst hs
    have hle : ¬(0 < bound ∧ bound < n) := by omega
    have hmod : (n + 1) % unsignedLongModulus = n + 1 :=
      Nat.mod_eq_of_lt (by unfold unsignedLongModulus; omega)
    rw [Program.bind_raiseIf hle, Program.bind_ok (onHeap_ok ht), hmod]
    rfl
  refine hmap.decode fun s hs _ _ => ?_
  subst hs
  rw [unmarshallLayout, Program.bind_ok (onHeap_ok hl)]

theorem transfers_sequence (hkind : Heap.kind h tc = .tkSequence) {bound : Nat}
    (hl : Heap.length h tc = .ok bound) (hbound : bound = 0 ∨ els.length ≤ bound)
    (ht : Heap.contentType h tc = .ok t) (hu : Heap.unwindTypedefs h t = .ok u)
    (hn : els.length + 1 < 2 ^ 31)
    (hf : ∃ r, fastPathElements h (els.length + 1) fuel' tc true 1 = .ok r)
    (hslow : fastPathGetInfo cfg h fuel
      (.aggregate .tkSequence direct (.elementary .tkUlong els.length :: els)) (els.length + 1) tc
      order = .ok none)
    (hcount : ∀ b : Buffer, b.AtEnd → ∃ b', Transfers h
      (marshall (.ptc .tkUlong) (.elementary .tkUlong els.length)) (unmarshallUnsignedLong cfg)
      els.length b b')
    (hel : ∀ el ∈ els, IsGettable direct el ∧ Carries h order marshall unmarshall u t el)
    (hb : b.AtEnd) (ho : b.endianness = order) :
    ∃ b', Transfers h
      (marshallCase cfg R h mtc fuel marshall .tkSequence tc ctc
        (.aggregate .tkSequence direct (.elementary .tkUlong els.length :: els)))
      (unmarshallCase cfg R utc fuel' unmarshall .tkSequence tc .noContent)
      (Content.aggregate .tkSequence direct (.elementary .tkUlong els.length :: els)).plain b b' := by
  have hun : Heap.unwindTypedefs h tc = .ok tc := unwindTypedefs_of_kind (by rw [hkind]; decide)
  obtain ⟨b₁, h₁⟩ := hcount b hb
  have hlayout := transfers_sequenceLayout hl hbound ht hn h₁
  have hbody : ∀ i el, els[i]? = some el → ∃ t₁ t₂,
      marshallElement h marshall .tkSequence tc u direct (.elementary .tkUlong els.length :: els)
        (els.length + 1) (1 + i) = marshall t₁ el ∧
      elementType .tkSequence tc t (.ptc .tkVoid) (1 + i) h = .ok t₂ ∧
      Carries h order marshall unmarshall t₁ t₂ el := by
    intro i el hi
    obtain ⟨hg, hcar⟩ := hel el (List.mem_of_getElem? hi)
    have hi' : (Content.elementary .tkUlong els.length :: els)[1 + i]? = some el := by
      rw [Nat.add_comm, List.getElem?_cons_succ, hi]
    exact ⟨u, t, marshallElement_content (.inr rfl) (fun _ => by omega) hi' hg, rfl, hcar⟩
  obtain ⟨b₂, h₂⟩ := transfers_loop cfg (by decide) els [.elementary .tkUlong els.length] 1 rfl hbody
    b₁ h₁.written.atEnd (h₁.written.endianness_eq.trans ho)
  have hnew : newElements .tkSequence (els.length + 1) =
      [.elementary .tkUlong els.length] ++ List.replicate els.length .noContent := by
    rfl
  have hloop : Transfers h
      (forIndices (marshallElement h marshall .tkSequence tc u direct
        (.elementary .tkUlong els.length :: els) (els.length + 1)) els.length 1)
      (if els.length + 1 < 1 + 1 then
      pure (newElements .tkSequence (els.length + 1)) else
      unmarshallLoop cfg unmarshall .tkSequence tc t false (els.length + 1 - 1) 1 (.ptc .tkVoid)
        (newElements .tkSequence (els.length + 1)))
      ([.elementary .tkUlong els.length] ++ els.map Content.plain) b₁ b₂ := by
    by_cases h0 : els = []
    · subst h0
      exact h₂
    · have hpos := List.length_pos_of_ne_nil h0
      rw [if_neg (by omega)]
      exact h₂
  have hread := unmarshallElements_new _ hb hun hn hf hlayout hloop
  have hmlayout : marshallLayout h .tkSequence tc (els.length + 1) = .ok (els.length + 1, u) := by
    simp [marshallLayout, ht, hu, bind, Except.bind, pure, Except.pure]
  have hzero (s : Transfer) : marshallElement h marshall .tkSequence tc u direct
      (.elementary .tkUlong els.length :: els) (els.length + 1) 0 s =
      marshall (.ptc .tkUlong) (.elementary .tkUlong els.length) s := by
    have hget : Heap.getAggregateElement direct (.elementary .tkUlong els.length :: els) 0 =
        .ok (.elementary .tkUlong els.length) := getAggregateElement_ok rfl fun _ => rfl
    have hfrom : Heap.fromAny h .tkUlong ⟨.ptc .tkUlong, .elementary .tkUlong els.length⟩ =
        .ok els.length := fromAny_elementary (unwindTypedefs_of_kind (by rintro ⟨⟩)) rfl
    rw [marshallElement, if_pos ⟨rfl, rfl⟩, Program.bind_evaluate hget, Program.bind_evaluate hfrom,
      Program.bind_raiseIf (by simp), marshallAggregateElement, Program.bind_evaluate hget]
  have hwrite : marshallElements cfg h fuel marshall .tkSequence tc
        (.aggregate .tkSequence direct (.elementary .tkUlong els.length :: els)) direct
        (.elementary .tkUlong els.length :: els) ⟨b, none⟩ =
      forIndices (marshallElement h marshall .tkSequence tc u direct
        (.elementary .tkUlong els.length :: els) (els.length + 1)) (els.length + 1) 0 ⟨b, none⟩ :=
    marshallElements_slow cfg fuel hmlayout fun _ => ho ▸ hslow
  refine ⟨b₂, ?_⟩
  rw [Content.plain_aggregate]
  have hm := (hread.encode (hwrite.trans ?_)).handlers
    (fun _ => throwSysError marshalError) fun _ => do
      onTransfer (throwSysError marshalError)
      return .noContent
  · exact hm.before rfl
  · rw [forIndices, Program.bind_ok ((hzero _).trans h₁.marshall),
      Program.bind_ok h₁.marshall]

end Elements

end PolyORB
