import PolyORB.Cdr.WriterExtent

/-!
# Lengths of sequences

The length that `Unmarshall_To_Any` reads for a sequence is the number of its elements, and each of
them has been read, unless a computation on the length wraps around (`faithful_iff`): the number of
slots of the aggregate, which is one more, or the size of the copy of the fast path.
-/

namespace PolyORB

open Buffer
open Program (raiseIf evaluate)

variable {cfg : Config} {R : Primitives} {h : Heap} {utc : DecodeProg TcRef}
variable {fuel : Nat} {tc elTc : TcRef} {old c : Content} {s s₁ s' : Decoder} {bound n : Nat}

/-! ## What is read -/

/-- The length `n` is read, which is within the bound, and leaves the decoder in state `s₁`. -/
structure ReadsLength (cfg : Config) (tc : TcRef) (s : Decoder) (bound n : Nat) (s₁ : Decoder) :
    Prop where
  bound_eq : Heap.length s.heap tc = .ok bound
  length_eq : unmarshallUnsignedLong cfg s = .ok n s₁
  le_bound : 0 < bound → n ≤ bound

/-- One content after the other is read for type `t`, each of them without an error. -/
inductive ReadsElements (unmarshall : TcRef → Content → DecodeProg Content) (t : TcRef) :
    List Content → Decoder → Decoder → Prop
  | nil (s : Decoder) : ReadsElements unmarshall t [] s s
  | cons {old c : Content} {cs : List Content} {s s₁ s' : Decoder} :
    unmarshall t old s = .ok c s₁ → s₁.error = none → ReadsElements unmarshall t cs s₁ s' →
      ReadsElements unmarshall t (c :: cs) s s'

/-- The octets that a value of the type takes in the storage of a direct aggregate. -/
def storageSize (h : Heap) : Nat → TcRef → Nat
  | 0, _ => 0
  | fuel + 1, tc =>
    if Heap.kind h tc = .tkArray then
      match Heap.length h tc, Heap.contentType h tc with
      | .ok n, .ok t => n * storageSize h fuel t
      | _, _ => 0
    else fastPathElementSize (Heap.kind h tc)

/-- The `n` elements that `c` holds are in the octets between two states of the decoder. -/
def Backed (cfg : Config) (unmarshall : TcRef → Content → DecodeProg Content) (fuel : Nat)
    (tc elTc : TcRef) (n : Nat) (c : Content) (els : List Content) (s s' : Decoder) : Prop :=
  match fastPathGetInfo cfg s.heap (fuel + 1) c (n + 1) tc s.buffer.endianness with
  | .ok (some (_, _, alignment)) =>
    ∃ data, fromBuffer (alignUnmarshallCopy alignment (n * storageSize s.heap fuel elTc)) s =
      .ok data s'
  | _ => ReadsElements unmarshall elTc els s s'

/-- The content that was decoded has as many elements as the length says, and all of them were
read. -/
def FaithfulSequence (cfg : Config) (unmarshall : TcRef → Content → DecodeProg Content) (fuel : Nat)
    (tc : TcRef) (s : Decoder) (c : Content) (s' : Decoder) : Prop :=
  ∃ bound n s₁ elTc direct els, ReadsLength cfg tc s bound n s₁ ∧
    Heap.contentType s.heap tc = .ok elTc ∧
    c = .aggregate .tkSequence direct (.elementary .tkUlong n :: els) ∧ els.length = n ∧
    Backed cfg unmarshall fuel tc elTc n c els s₁ s'

/-- The length makes the number of slots, or the size of the copy of the fast path, wrap around. -/
def SequenceWraps (cfg : Config) (fuel : Nat) (tc : TcRef) (old : Content) (s : Decoder) : Prop :=
  s.error = none ∧ ∃ bound n s₁ elTc direct els, ReadsLength cfg tc s bound n s₁ ∧
    Heap.contentType s.heap tc = .ok elTc ∧ old.targetElements = .ok (direct, els) ∧
    if direct = false then
      n + 1 = unsignedLongModulus ∧ fastPathGetInfo cfg s.heap (fuel + 1)
        (.aggregate .tkSequence false []) 0 tc s₁.buffer.endianness = .ok none
    else ∃ slots data size alignment,
      setAggregateCount s.heap .tkSequence true els elTc (n + 1) = .ok slots ∧
      fastPathGetInfo cfg s.heap (fuel + 1) (.aggregate .tkSequence true slots) (n + 1) tc
        s₁.buffer.endianness = .ok (some (data, size, alignment)) ∧
      unsignedLongModulus ≤ n * storageSize s.heap fuel elTc ∧
      ∃ octets s', fromBuffer (alignUnmarshallCopy alignment size) s₁ = .ok octets s'

/-! ## The loop over the elements -/

variable {unmarshall : TcRef → Content → DecodeProg Content} {direct : Bool}

theorem readsElements_of_loop {valTc : TcRef}
    {s' : Decoder} {out : List Content} (herr : s'.error = none) :
    ∀ (count j : Nat) (els : List Content) (s : Decoder), els.length = j + count →
      unmarshallLoop cfg unmarshall .tkSequence tc elTc direct count j valTc els s = .ok out s' →
      ∃ news, news.length = count ∧ out = els.take j ++ news ∧
        ReadsElements unmarshall elTc news s s' := by
  intro count
  induction count with
  | zero =>
    intro j els s hlen hrun
    cases hrun
    exact ⟨[], rfl, by rw [List.take_of_length_le (by omega), List.append_nil], .nil _⟩
  | succ count ih =>
    intro j els s hlen hrun
    obtain ⟨t, s₁, h₁, hread⟩ := Program.bind_eq_ok.mp hrun
    obtain ⟨ht, rfl⟩ := onHeap_eq_ok.mp h₁
    obtain rfl := Except.ok.inj ht
    obtain ⟨el, s₂, hel, hstep⟩ := Program.bind_eq_ok.mp hread
    obtain ⟨-, rfl⟩ := Program.evaluate_eq_ok.mp hel
    obtain ⟨c, s₃, hc, hlook⟩ := Program.bind_eq_ok.mp hstep
    rw [Program.bind_ok (onTransfer_found_eq s₃)] at hlook
    by_cases hfound : s₃.error.isSome = true
    · rw [if_pos hfound] at hlook
      cases hlook
      rw [herr] at hfound
      cases hfound
    rw [if_neg hfound, if_neg (fun hu => nomatch hu.1)] at hlook
    obtain ⟨news, hnews, rfl, hreads⟩ := ih (j + 1) (els.set j c) s₃
      (by rw [List.length_set]; omega) hlook
    have htake : (els.set j c).take (j + 1) = els.take j ++ [c] := by
      rw [List.take_add_one, List.take_set_of_le (Nat.le_refl j),
        List.getElem?_set_self (by omega)]
      rfl
    refine ⟨c :: news, by rw [List.length_cons, hnews], ?_, .cons hc (by simpa using hfound) hreads⟩
    rw [htake, List.append_assoc]
    rfl

/-! ## The size of the fast path -/

variable {count : Nat}

theorem fastPathElements_storageSize {n : Nat} {t : TcRef} :
    ∀ {fuel : Nat} {tc : TcRef} {m : Nat}, fastPathElements h count fuel tc false m = .ok (t, n) →
      n * fastPathElementSize (Heap.kind h t) % unsignedLongModulus =
        m * storageSize h fuel tc % unsignedLongModulus := by
  intro fuel
  induction fuel with
  | zero =>
    intro _ _ he
    cases he
  | succ fuel ih =>
    intro tc m he
    rw [fastPathElements] at he
    by_cases ha : Heap.kind h tc = .tkArray
    · rw [if_pos (.inl ha), if_neg (by rw [ha]; decide)] at he
      rw [storageSize, if_pos ha]
      cases hlen : Heap.length h tc with
      | error e =>
        rw [hlen] at he
        cases he
      | ok len =>
        cases ht : Heap.contentType h tc with
        | error e =>
          rw [hlen, ht] at he
          cases he
        | ok t' =>
          rw [hlen, ht] at he
          have hrest := ih (show fastPathElements h count fuel t' false
            (m * len % unsignedLongModulus) = .ok (t, n) from he)
          rw [hrest, Nat.mod_mul_mod, Nat.mul_assoc]
    · rw [if_neg (by simp [ha])] at he
      cases he
      rw [storageSize, if_neg ha]

variable {order : Endianness}

theorem fastPathGetInfo_size {data : List UInt8} {size alignment : Nat}
    (hu : Heap.unwindTypedefs h tc = .ok tc) (hk : Heap.kind h tc = .tkSequence)
    (ht : Heap.contentType h tc = .ok elTc) (hn : n + 1 < unsignedLongModulus)
    (hi : fastPathGetInfo cfg h (fuel + 1) c (n + 1) tc order =
      .ok (some (data, size, alignment))) :
    size = n * storageSize h fuel elTc % unsignedLongModulus := by
  have hcount : subUnsignedLong (1 * (n + 1)) 1 = n := by
    rw [Nat.one_mul, subUnsignedLong_of_le (by omega) hn, Nat.add_sub_cancel]
  have hloop : fastPathElements h (n + 1) (fuel + 1) tc true 1 =
      fastPathElements h (n + 1) fuel elTc false n := by
    rw [fastPathElements, if_pos (.inr ⟨rfl, hk⟩), if_pos hk, ht, hcount]
    rfl
  rw [fastPathGetInfo] at hi
  split_ifs at hi with hfast
  · cases hi
  rw [hu] at hi
  simp only [bind, Except.bind, hloop] at hi
  cases hels : fastPathElements h (n + 1) fuel elTc false n with
  | error e =>
    rw [hels] at hi
    cases hi
  | ok r =>
    rw [hels] at hi
    simp only at hi
    split_ifs at hi
    · cases hi
    · cases hi
    · cases hdata : c.uncheckedGetV cfg.hostOrder with
      | none =>
        rw [hdata] at hi
        cases hi
      | some d =>
        rw [hdata] at hi
        cases hi
        exact fastPathElements_storageSize hels

theorem fastPathGetInfo_shape {k : TCKind} {els els' : List Content}
    (hlen : els.length = els'.length) :
    (fastPathGetInfo cfg h fuel (.aggregate k direct els) count tc order).map
        (Option.map Prod.snd) =
      (fastPathGetInfo cfg h fuel (.aggregate k direct els') count tc order).map
        (Option.map Prod.snd) := by
  have hshape : ((Content.aggregate k direct els).uncheckedGetV cfg.hostOrder).map (fun _ => ()) =
      ((Content.aggregate k direct els').uncheckedGetV cfg.hostOrder).map fun _ => () := by
    cases direct with
    | false => rfl
    | true =>
      rw [Content.uncheckedGetV, Content.uncheckedGetV, hlen]
      split_ifs <;> rfl
  have hmap : ∀ (size alignment : Nat),
      (((Content.aggregate k direct els).uncheckedGetV cfg.hostOrder).map
          fun data => (data, size, alignment)).map Prod.snd =
        (((Content.aggregate k direct els').uncheckedGetV cfg.hostOrder).map
          fun data => (data, size, alignment)).map Prod.snd := by
    intro size alignment
    have hconst := congrArg (Option.map fun _ => (size, alignment)) hshape
    rw [Option.map_map, Option.map_map] at hconst ⊢
    exact hconst
  simp only [fastPathGetInfo]
  split_ifs with hfast
  · rfl
  cases Heap.unwindTypedefs h tc with
  | error e => rfl
  | ok t =>
    simp only [bind, Except.bind]
    cases fastPathElements h count fuel t true 1 with
    | error e => rfl
    | ok r =>
      simp only
      split_ifs
      · rfl
      · rfl
      · exact congrArg Except.ok (hmap _ _)

/-! ## The storage of the elements -/

theorem length_overwriteAll (host : Endianness) : ∀ (skip : Bool) (els : List Content)
    (bs : List UInt8), (Content.overwriteAll host skip els bs).1.length = els.length
  | _, [], _ => rfl
  | true, c :: cs, bs => by
    exact congrArg (· + 1) (length_overwriteAll host false cs bs)
  | false, c :: cs, bs => by
    exact congrArg (· + 1) (length_overwriteAll host false cs _)

theorem overwrite_sequence (host : Endianness) (direct : Bool) (len : Content) (els : List Content)
    (bs : List UInt8) : ∃ els', els'.length = els.length ∧
      (Content.overwrite host (.aggregate .tkSequence direct (len :: els)) bs).1 =
        .aggregate .tkSequence direct (len :: els') :=
  ⟨_, length_overwriteAll host false els bs, rfl⟩

theorem setAggregateCount_slots {els slots : List Content}
    (he : setAggregateCount h .tkSequence direct els elTc (n + 1) = .ok slots) :
    slots.length = n + 1 ∧
      (direct = true → slots = slots.set 0 (.elementary .tkUlong n)) := by
  rw [setAggregateCount] at he
  split_ifs at he
  · cases he
    exact ⟨by simp; omega, fun hd => by simp_all⟩
  · cases he
    refine ⟨by simp; omega, fun _ => ?_⟩
    rw [List.set_set, Nat.add_sub_cancel]
  · exact absurd rfl ‹¬TCKind.tkSequence = TCKind.tkSequence›

/-! ## One call -/

theorem unmarshallElements_sequence :
    unmarshallElements cfg (fuel + 1) unmarshall .tkSequence tc old s = .ok c s' ↔
      ∃ bound n s₁ elTc direct els slots info, ReadsLength cfg tc s bound n s₁ ∧
        Heap.contentType s₁.heap tc = .ok elTc ∧ old.targetElements = .ok (direct, els) ∧
        setAggregateCount s₁.heap .tkSequence direct els elTc ((n + 1) % unsignedLongModulus) =
          .ok slots ∧
        fastPathGetInfo cfg s₁.heap (fuel + 1) (.aggregate .tkSequence direct slots) slots.length tc
          s₁.buffer.endianness = .ok info ∧
        match info with
        | some (_, size, alignment) => ∃ data,
          fromBuffer (alignUnmarshallCopy alignment size) s₁ = .ok data s' ∧
            c = (Content.overwrite cfg.hostOrder (.aggregate .tkSequence direct slots) data).1
        | none => ∃ read, (if (n + 1) % unsignedLongModulus < 1 + 1 then
              pure (slots.set 0 (.elementary .tkUlong ((n + 1) % unsignedLongModulus - 1)))
            else unmarshallLoop cfg unmarshall .tkSequence tc elTc direct
              ((n + 1) % unsignedLongModulus - 1) 1 (.ptc .tkVoid)
              (slots.set 0 (.elementary .tkUlong ((n + 1) % unsignedLongModulus - 1))) :
              DecodeProg (List Content)) s₁ = .ok read s' ∧
          c = .aggregate .tkSequence direct read := by
  constructor
  · intro he
    obtain ⟨⟨nb, first, elTc⟩, s₁, hlayout, htarget⟩ := Program.bind_eq_ok.mp he
    obtain ⟨bound, s₂, hlength, hread⟩ := Program.bind_eq_ok.mp hlayout
    obtain ⟨hb, rfl⟩ := onHeap_eq_ok.mp hlength
    obtain ⟨n, s₃, hn, hcheck⟩ := Program.bind_eq_ok.mp hread
    obtain ⟨⟨⟩, s₄, hraise, hret⟩ := Program.bind_eq_ok.mp hcheck
    by_cases hle : 0 < bound ∧ bound < n
    · rw [Program.raiseIf_true hle] at hraise
      cases hraise
    rw [Program.raiseIf_false hle] at hraise
    cases hraise
    obtain ⟨t, s₅, htype, hpure⟩ := Program.bind_eq_ok.mp hret
    obtain ⟨ht, rfl⟩ := onHeap_eq_ok.mp htype
    cases hpure
    obtain ⟨⟨direct, els⟩, s₆, hold, hset⟩ := Program.bind_eq_ok.mp htarget
    obtain ⟨hels, rfl⟩ := Program.evaluate_eq_ok.mp hold
    obtain ⟨slots, s₇, hcount, hinfo⟩ := Program.bind_eq_ok.mp hset
    obtain ⟨hslots, rfl⟩ := onHeap_eq_ok.mp hcount
    rw [Program.bind_get] at hinfo
    obtain ⟨info, s₈, hget, hstore⟩ := Program.bind_eq_ok.mp hinfo
    obtain ⟨hfast, rfl⟩ := Program.evaluate_eq_ok.mp hget
    refine ⟨bound, n, _, elTc, direct, els, slots, info, ⟨hb, hn, by omega⟩, ht, hels, hslots,
      hfast, ?_⟩
    cases info with
    | none =>
      by_cases hone : (n + 1) % unsignedLongModulus < 1 + 1
      · rw [if_pos hone] at hstore
        cases hstore
        exact ⟨_, by rw [if_pos hone]; rfl, rfl⟩
      · rw [if_neg hone] at hstore
        obtain ⟨read, s₉, hloop, hstore⟩ := Program.bind_eq_ok.mp hstore
        cases hstore
        exact ⟨read, by rw [if_neg hone]; exact hloop, rfl⟩
    | some i =>
      obtain ⟨data, s₉, hcopy, hstore⟩ := Program.bind_eq_ok.mp hstore
      cases hstore
      exact ⟨data, hcopy, rfl⟩
  · rintro ⟨bound, n, s₁, elTc, direct, els, slots, info, ⟨hb, hn, hle⟩, ht, hels, hslots, hfast,
      hstore⟩
    have hin : ¬(0 < bound ∧ bound < n) := fun hlt => absurd (hle hlt.1) (Nat.not_le.mpr hlt.2)
    have hlayout : unmarshallLayout cfg .tkSequence tc s =
        .ok ((n + 1) % unsignedLongModulus, 1, elTc) s₁ := by
      rw [unmarshallLayout, Program.bind_ok (onHeap_ok hb), Program.bind_ok hn,
        Program.bind_raiseIf hin, Program.bind_ok (onHeap_ok ht)]
      rfl
    have hset : onHeap (fun h => setAggregateCount h .tkSequence direct els elTc
        ((n + 1) % unsignedLongModulus)) s₁ = .ok slots s₁ := onHeap_ok hslots
    rw [unmarshallElements, Program.bind_ok hlayout]
    simp only
    rw [Program.bind_evaluate hels]
    rw [Program.bind_ok hset, Program.bind_get, Program.bind_evaluate hfast]
    cases info with
    | none =>
      obtain ⟨read, hread, rfl⟩ := hstore
      simp only [if_true]
      by_cases hone : (n + 1) % unsignedLongModulus < 1 + 1
      · rw [if_pos hone] at hread ⊢
        cases hread
        rfl
      · rw [if_neg hone] at hread ⊢
        rw [Program.bind_ok hread]
        rfl
    | some i =>
      obtain ⟨data, hcopy, rfl⟩ := hstore
      simp only
      rw [Program.bind_ok hcopy]
      rfl

/-! ## Positions -/

theorem unmarshallUnsignedLong_lt (he : unmarshallUnsignedLong cfg s = .ok n s₁) :
    n < unsignedLongModulus := by
  obtain ⟨r, hr, rfl⟩ := fromBuffer_eq_ok he
  obtain ⟨⟨⟩, r₁, -, he⟩ := Program.bind_eq_ok.mp hr
  obtain ⟨z, r₂, hz, hret⟩ := Program.bind_eq_ok.mp he
  have hlen : z.length ≤ 4 := by
    rw [extractData, Program.bind_get] at hz
    obtain ⟨⟨⟩, r₃, -, hz⟩ := Program.bind_eq_ok.mp hz
    cases hz
    exact Chunks.length_run_le ..
  have hn : n = fromOrderedOctets cfg.hostOrder
      (if 1 < 4 ∧ r₂.endianness ≠ cfg.hostOrder then z.reverse else z) := by
    injection hret with hret
    exact hret.symm
  have hlt := fromOrderedOctets_lt cfg.hostOrder
    (if 1 < 4 ∧ r₂.endianness ≠ cfg.hostOrder then z.reverse else z)
  rw [← hn] at hlt
  have hle : (if 1 < 4 ∧ r₂.endianness ≠ cfg.hostOrder then z.reverse else z).length ≤ 4 := by
    split_ifs
    · rwa [List.length_reverse]
    · exact hlen
  exact lt_of_lt_of_le hlt (Nat.pow_le_pow_right (by decide) hle)

theorem alignUnmarshallCopy_go_position : ∀ {fuel size : Nat} {xs : List UInt8} {r r' : Buffer},
    alignUnmarshallCopy.go fuel size r = .ok xs r' → r'.cdrPosition = r.cdrPosition + size := by
  intro fuel
  induction fuel with
  | zero =>
    intro size xs r r' he
    cases size with
    | zero =>
      cases he
      rfl
    | succ left => cases he
  | succ fuel ih =>
    intro size xs r r' he
    cases size with
    | zero =>
      cases he
      rfl
    | succ left =>
      have hle := Chunks.length_run_le r.chunks (r.cdrPosition - r.initialCdrPosition) (left + 1)
      obtain ⟨ys, r₁, hpart, he⟩ := Program.bind_eq_ok.mp he
      cases hpart
      obtain ⟨⟨⟩, r₂, hraise, he⟩ := Program.bind_eq_ok.mp he
      obtain ⟨zs, r₃, hgo, he⟩ := Program.bind_eq_ok.mp he
      cases he
      rw [raiseIf] at hraise
      by_cases hz : (Chunks.run r.chunks (r.cdrPosition - r.initialCdrPosition)
          (left + 1)).length = 0
      · rw [Program.onlyIf_true hz] at hraise
        cases hraise
      rw [Program.onlyIf_false hz] at hraise
      cases hraise
      rw [ih hgo]
      simp only
      omega

theorem alignUnmarshallCopy_position {alignment size : Nat} {xs : List UInt8} {r r' : Buffer}
    (he : alignUnmarshallCopy alignment size r = .ok xs r') :
    r'.cdrPosition = r.cdrPosition + Octets.padding r.cdrPosition alignment + size := by
  obtain ⟨⟨⟩, r₁, hpad, hgo⟩ := Program.bind_eq_ok.mp he
  rw [alignUnmarshallCopy_go_position hgo]
  rw [alignPosition, Program.bind_get] at hpad
  split_ifs at hpad
  · cases hpad
    rfl
  · cases hpad

/-! ## Lengths -/

theorem handled_eq_ok {u : DecodeProg Content} (herr : s'.error = none) :
    (tryCatch u fun _ => do
      onTransfer (throwSysError marshalError)
      return old) s = .ok c s' ↔ u s = .ok c s' := by
  refine ⟨fun he => ?_, fun he => Program.tryCatch_ok he⟩
  rcases Program.tryCatch_eq_ok.mp he with he | ⟨e, t, -, he⟩
  · exact he
  · obtain ⟨⟨⟩, t', h₁, h₂⟩ := Program.bind_eq_ok.mp he
    rw [onTransfer, Program.zoom_eq_ok] at h₁
    obtain ⟨t₁, h₁, rfl⟩ := h₁
    cases h₁
    cases h₂
    cases herr

theorem fastPathGetInfo_of_shape {k : TCKind} {els : List Content} (els' : List Content)
    {info : Option (List UInt8 × Nat × Nat)} (hlen : els.length = els'.length)
    (hi : fastPathGetInfo cfg h fuel (.aggregate k direct els) count tc order = .ok info) :
    ∃ info', fastPathGetInfo cfg h fuel (.aggregate k direct els') count tc order = .ok info' ∧
      info'.map Prod.snd = info.map Prod.snd := by
  have hshape : (fastPathGetInfo cfg h fuel (.aggregate k direct els) count tc order).map
      (Option.map Prod.snd) = (fastPathGetInfo cfg h fuel (.aggregate k direct els') count tc
        order).map (Option.map Prod.snd) := fastPathGetInfo_shape hlen
  rw [hi] at hshape
  cases hi' : fastPathGetInfo cfg h fuel (.aggregate k direct els') count tc order with
  | error e =>
    rw [hi'] at hshape
    cases hshape
  | ok info' =>
    rw [hi'] at hshape
    exact ⟨info', rfl, (Except.ok.inj hshape).symm⟩

theorem fastPathGetInfo_none {k : TCKind} {els : List Content}
    {info : Option (List UInt8 × Nat × Nat)}
    (hi : fastPathGetInfo cfg h fuel (.aggregate k false els) count tc order = .ok info) :
    info = none := by
  simp only [fastPathGetInfo] at hi
  split_ifs at hi
  · cases hi
    rfl
  cases ht : Heap.unwindTypedefs h tc with
  | error e =>
    rw [ht] at hi
    cases hi
  | ok t =>
    rw [ht] at hi
    simp only [bind, Except.bind] at hi
    cases hr : fastPathElements h count fuel t true 1 with
    | error e =>
      rw [hr] at hi
      cases hi
    | ok r =>
      rw [hr] at hi
      simp only at hi
      split_ifs at hi <;> cases hi <;> rfl

theorem setAggregateCount_direct {k : TCKind} {els slots : List Content}
    (he : setAggregateCount h k true els elTc count = .ok slots) :
    subUnsignedLong count 1 < 2 ^ 31 := by
  rw [setAggregateCount, if_neg (by decide)] at he
  split_ifs at he with hlt
  all_goals exact Nat.lt_of_not_le hlt

/-- Unless a computation on the length wraps around, it is the number of the elements. -/
theorem faithfulSequence_of_not_wraps (hu : Heap.unwindTypedefs s.heap tc = .ok tc)
    (hk : Heap.kind s.heap tc = .tkSequence)
    (hwraps : ¬SequenceWraps cfg fuel tc old s) (herr : s'.error = none)
    (hrun : unmarshallElements cfg (fuel + 1) unmarshall .tkSequence tc old s = .ok c s') :
    FaithfulSequence cfg unmarshall fuel tc s c s' := by
  obtain ⟨bound, n, s₁, elTc, direct, els, slots, info, hlen, ht, hels, hslots, hinfo, hstore⟩ :=
    unmarshallElements_sequence.mp hrun
  have hn := unmarshallUnsignedLong_lt hlen.length_eq
  obtain ⟨r, hr, rfl⟩ := fromBuffer_eq_ok hlen.length_eq
  by_cases hlast : n + 1 = unsignedLongModulus
  · -- no slot is left, not even for the length
    have hzero : (n + 1) % unsignedLongModulus = 0 := by rw [hlast, Nat.mod_self]
    rw [hzero] at hslots hstore
    cases direct with
    | true => exact absurd (setAggregateCount_direct hslots) (by decide)
    | false =>
      obtain rfl : slots = [] := by
        have h0 := hslots
        rw [setAggregateCount, if_pos rfl, if_neg (by decide)] at h0
        simpa using h0.symm
      obtain rfl := fastPathGetInfo_none hinfo
      obtain ⟨read, hread, rfl⟩ := hstore
      cases hread
      exact absurd ⟨herr, bound, n, _, elTc, false, els, hlen, ht, hels, hlast, hinfo⟩ hwraps
  have hnb : (n + 1) % unsignedLongModulus = n + 1 := Nat.mod_eq_of_lt (by omega)
  rw [hnb] at hslots hstore
  obtain ⟨hcount, hfirst⟩ := setAggregateCount_slots hslots
  rw [hcount] at hinfo
  obtain ⟨x, rest, rfl⟩ := List.exists_cons_of_length_eq_add_one hcount
  have hrest : rest.length = n := by simpa using hcount
  -- whatever is stored, the slots have this shape
  have hinfo' := fun (els' : List Content) (hl : els'.length = n) => fastPathGetInfo_of_shape
    (.elementary .tkUlong n :: els') (by simp [hl, hrest]) hinfo
  cases info with
  | none =>
    obtain ⟨read, hread, rfl⟩ := hstore
    obtain ⟨news, hnews, rfl, hreads⟩ : ∃ news, news.length = n ∧
        read = .elementary .tkUlong n :: news ∧
        ReadsElements unmarshall elTc news { s with buffer := r } s' := by
      by_cases hone : n + 1 < 1 + 1
      · obtain rfl : n = 0 := by omega
        rw [if_pos hone, List.length_eq_zero_iff.mp hrest] at hread
        cases hread
        exact ⟨[], rfl, rfl, .nil _⟩
      · rw [if_neg hone, Nat.add_sub_cancel, List.set_cons_zero] at hread
        exact readsElements_of_loop herr n 1 _ _ (by simp [hrest]; omega) hread
    obtain ⟨info', hi, hnone⟩ := hinfo' news hnews
    refine ⟨bound, n, _, elTc, direct, news, hlen, ht, rfl, hnews, ?_⟩
    obtain rfl : info' = none := by simpa using hnone
    rw [Backed, hi]
    exact hreads
  | some i =>
    obtain ⟨data, size, alignment⟩ := i
    obtain ⟨octets, hcopy, rfl⟩ := hstore
    have hsize := fastPathGetInfo_size hu hk ht (by omega) hinfo
    cases direct with
    | false => cases fastPathGetInfo_none hinfo
    | true =>
      obtain rfl : x = .elementary .tkUlong n := (List.cons.inj (hfirst rfl)).1
      obtain ⟨els', hels', hover⟩ := overwrite_sequence cfg.hostOrder true
        (.elementary .tkUlong n) rest octets
      obtain ⟨info', hi, hsome⟩ := hinfo' els' (hels'.trans hrest)
      have herr' : s.error = none := by
        obtain ⟨r', -, rfl⟩ := fromBuffer_eq_ok hcopy
        exact herr
      have hfit : n * storageSize s.heap fuel elTc < unsignedLongModulus := by
        by_contra hlong
        exact hwraps ⟨herr', bound, n, _, elTc, true, els, hlen, ht, hels, _, data, size, alignment,
          hslots, hinfo, Nat.le_of_not_lt hlong, octets, s', hcopy⟩
      rw [Nat.mod_eq_of_lt hfit] at hsize
      refine ⟨bound, n, _, elTc, true, els', hlen, ht, hover, hels'.trans hrest, ?_⟩
      rw [hover, Backed, hi]
      cases info' with
      | none => cases hsome
      | some i =>
        obtain ⟨data', size', alignment'⟩ := i
        cases hsome
        exact ⟨octets, hsize ▸ hcopy⟩

/-- What is read when the length wraps around is not the sequence. -/
theorem not_faithfulSequence_of_wraps (hu : Heap.unwindTypedefs s.heap tc = .ok tc)
    (hk : Heap.kind s.heap tc = .tkSequence) (hwraps : SequenceWraps cfg fuel tc old s) :
    ∃ c s', unmarshallElements cfg (fuel + 1) unmarshall .tkSequence tc old s = .ok c s' ∧
      s'.error = none ∧ ¬FaithfulSequence cfg unmarshall fuel tc s c s' := by
  obtain ⟨herr, bound, n, s₁, elTc, direct, els, hlen, ht, hels, hcase⟩ := hwraps
  have hn := unmarshallUnsignedLong_lt hlen.length_eq
  obtain ⟨r, hr, rfl⟩ := fromBuffer_eq_ok hlen.length_eq
  cases direct with
  | false =>
    obtain ⟨hlast, hinfo⟩ := hcase
    have hzero : (n + 1) % unsignedLongModulus = 0 := by rw [hlast, Nat.mod_self]
    refine ⟨.aggregate .tkSequence false [], { s with buffer := r },
      unmarshallElements_sequence.mpr ⟨bound, n, _, elTc, false, els, [], none, hlen, ht, hels, ?_,
        hinfo, [], ?_, rfl⟩, herr, ?_⟩
    · rw [hzero, setAggregateCount, if_pos rfl, if_neg (by decide)]
      simp
    · rw [hzero]
      rfl
    · rintro ⟨_, _, _, _, _, _, -, -, hc, -⟩
      cases hc
  | true =>
    obtain ⟨slots, data, size, alignment, hslots, hinfo, hover, octets, s', hcopy⟩ := hcase
    have hsmall := setAggregateCount_direct hslots
    have hlast : n + 1 < unsignedLongModulus := by
      by_contra hc
      have hm : n + 1 = unsignedLongModulus := by omega
      rw [hm] at hsmall
      exact absurd hsmall (by decide)
    have hnb : (n + 1) % unsignedLongModulus = n + 1 := Nat.mod_eq_of_lt hlast
    obtain ⟨hcount, hfirst⟩ := setAggregateCount_slots hslots
    have hsize := fastPathGetInfo_size hu hk ht hlast hinfo
    obtain ⟨x, rest, rfl⟩ := List.exists_cons_of_length_eq_add_one hcount
    obtain ⟨els', hels', hc⟩ := overwrite_sequence cfg.hostOrder true x rest octets
    refine ⟨_, s', unmarshallElements_sequence.mpr ⟨bound, n, _, elTc, true, els, _,
      some (data, size, alignment), hlen, ht, hels, hnb ▸ hslots, hcount ▸ hinfo, octets, hcopy,
      rfl⟩, ?_, ?_⟩
    · obtain ⟨r', -, rfl⟩ := fromBuffer_eq_ok hcopy
      exact herr
    · rintro ⟨bound', n', s₁', elTc', direct', news, hlen', ht', -, -, hback⟩
      cases hlen.length_eq.symm.trans hlen'.length_eq
      cases ht.symm.trans ht'
      have hlength : (x :: rest).length = (x :: els').length := by simp [hels']
      obtain ⟨info', hi, hsome⟩ := fastPathGetInfo_of_shape (x :: els') hlength (hcount ▸ hinfo)
      rw [hc, Backed, ← hcount, hi] at hback
      cases info' with
      | none => cases hsome
      | some i =>
        obtain ⟨data', size', alignment'⟩ := i
        cases hsome
        obtain ⟨octets', hfull⟩ := hback
        obtain ⟨r₁, hr₁, rfl⟩ := fromBuffer_eq_ok hcopy
        obtain ⟨r₂, hr₂, heq⟩ := fromBuffer_eq_ok hfull
        -- both copies end at the same position
        have hpos := alignUnmarshallCopy_position hr₁
        have hpos' := alignUnmarshallCopy_position hr₂
        cases heq
        have hlt := Nat.mod_lt (n * storageSize s.heap fuel elTc)
          (show 0 < unsignedLongModulus by decide)
        simp only at hpos hpos' hsize hlt
        omega

/-- For every buffer and sequence typecode: whatever is decoded without an error has as many
elements as the length that was read says, within the bound, and all of them were read, if and only
if the length does not make the number of slots or the size of the copy wrap around. -/
theorem faithfulSequence_iff {ctc : TcRef} (hu : Heap.unwindTypedefs s.heap ctc = .ok tc)
    (hk : Heap.kind s.heap tc = .tkSequence) :
    (∀ c s', unmarshallToAny cfg R utc (fuel + 1) ctc old s = .ok c s' → s'.error = none →
        FaithfulSequence cfg (unmarshallToAny cfg R utc fuel) fuel tc s c s') ↔
      ¬SequenceWraps cfg fuel tc old s := by
  have hut := unwindTypedefs_unwound hu
  have hcall : ∀ {c s'}, s'.error = none →
      (unmarshallToAny cfg R utc (fuel + 1) ctc old s = .ok c s' ↔
        unmarshallElements cfg (fuel + 1) (unmarshallToAny cfg R utc fuel) .tkSequence tc old s =
          .ok c s') := by
    intro c s' herr
    rw [unmarshallToAny_eq hu, hk]
    exact handled_eq_ok herr
  constructor
  · intro hall hwraps
    obtain ⟨c, s', hrun, herr, hnot⟩ := not_faithfulSequence_of_wraps hut hk hwraps
    exact hnot (hall c s' ((hcall herr).mpr hrun) herr)
  · intro hwraps c s' hrun herr
    exact faithfulSequence_of_not_wraps hut hk hwraps herr ((hcall herr).mp hrun)

def received (octets : List UInt8) : Decoder where
  buffer := Buffer.initializeBuffer octets .littleEndian 0
  error := none
  heap := octetSequenceHeap
  tcMap := none
  currentComplex := -1

/-- `sequence <octet>`, read into an empty container and into a typed one of two octets. -/
theorem faithfulSequence_iff_received :
    let reads (old : Content) (octets : List UInt8) (c : Content) : Prop :=
      ∃ s', unmarshallToAny sampleConfig samplePrimitives (throw .programError) 3 (.obj 0) old
          (received octets) = .ok c s' ∧
        FaithfulSequence sampleConfig
          (unmarshallToAny sampleConfig samplePrimitives (throw .programError) 2) 2 (.obj 0)
          (received octets) c s'
    reads .noContent [3, 0, 0, 0, 5, 6, 7] (.aggregate .tkSequence false
      [.elementary .tkUlong 3, .elementary .tkOctet 5, .elementary .tkOctet 6,
        .elementary .tkOctet 7]) ∧
    reads (.aggregate .tkSequence true
        [.elementary .tkUlong 2, .elementary .tkOctet 0, .elementary .tkOctet 0])
      [2, 0, 0, 0, 5, 6] (.aggregate .tkSequence true
        [.elementary .tkUlong 2, .elementary .tkOctet 5, .elementary .tkOctet 6]) := by
  intro reads
  have hreads {old octets c} (hwraps : ¬SequenceWraps sampleConfig 2 (.obj 0) old
      (received octets)) (hrun : unmarshallToAny sampleConfig samplePrimitives
        (throw .programError) 3 (.obj 0) old (received octets) = .ok c
          { received octets with
            buffer := { (received octets).buffer with cdrPosition := octets.length } }) :
      reads old octets c :=
    ⟨_, hrun, (faithfulSequence_iff (by rfl) (by rfl)).mpr hwraps _ _ hrun rfl⟩
  refine ⟨hreads ?_ rfl, hreads ?_ rfl⟩
  · rintro ⟨-, bound, n, s₁, elTc, direct, els, hlen, -, hels, hcase⟩
    cases hels
    obtain ⟨hlast, -⟩ := hcase
    have hread : unmarshallUnsignedLong sampleConfig (received [3, 0, 0, 0, 5, 6, 7]) =
      .ok 3 _ := rfl
    cases hread.symm.trans hlen.length_eq
    exact absurd hlast (by decide)
  · rintro ⟨-, bound, n, s₁, elTc, direct, els, hlen, ht, hels, hcase⟩
    cases hels
    cases ht
    obtain ⟨slots, data, size, alignment, -, -, hover, -⟩ := hcase
    have hread : unmarshallUnsignedLong sampleConfig (received [2, 0, 0, 0, 5, 6]) = .ok 2 _ := rfl
    cases hread.symm.trans hlen.length_eq
    exact absurd hover (by decide)

/-- The length `2 ^ 32 - 1` of a sequence without a bound. -/
theorem not_faithfulSequence :
    ∃ c s', unmarshallToAny sampleConfig samplePrimitives (throw .programError) 3 (.obj 0)
        .noContent (received [255, 255, 255, 255]) = .ok c s' ∧ s'.error = none ∧
      ¬FaithfulSequence sampleConfig
        (unmarshallToAny sampleConfig samplePrimitives (throw .programError) 2) 2 (.obj 0)
        (received [255, 255, 255, 255]) c s' := by
  refine ⟨.aggregate .tkSequence false [], _, rfl, rfl, ?_⟩
  rintro ⟨_, _, _, _, _, _, -, -, hc, -⟩
  cases hc

end PolyORB
