import PolyORB.Buffers

/-!
# Sending a buffer

`Send_Iovec_Pool` hands the iovecs of a buffer to `Lowlevel_Send` until all octets are taken.  Each
call may take fewer octets than it is offered; the loop then skips the iovecs that were completed
and shortens the next one in place.
-/

namespace PolyORB

namespace Sending

/-- The variables of the loop, and what `Lowlevel_Send` has taken.  `index` counts the iovecs before
`Vecs (Index)`. -/
structure State where
  vecs : List (List UInt8)
  index : Nat
  remainder : Nat
  accepted : List UInt8
  deriving DecidableEq

/-- The iovecs completed by a call: the new index, remainder and count. -/
def completeIovecs : List (List UInt8) → Nat → Nat → Nat → Nat × Nat × Nat
  | [], index, remainder, count => (index, remainder, count)
  | v :: vs, index, remainder, count =>
    if v.length ≤ count then
      completeIovecs vs (index + 1) (remainder - v.length) (count - v.length)
    else (index, remainder, count)

/-- What the call is given: as many iovecs as are left, from `Vecs (1)` on. -/
def offered (s : State) : List (List UInt8) := s.vecs.take (s.vecs.length - s.index)

/-- The count of a call that would take `n` octets. -/
def lowlevelSend (n offered : Nat) : Nat := min (max 1 n) offered

/-- One turn of the loop; `none` if `Vecs (Index)` is out of range. -/
def sendOnce (s : State) (n : Nat) : Option State :=
  let data := (offered s).flatten
  let count := lowlevelSend n data.length
  let accepted := s.accepted ++ data.take count
  let (index, remainder, count) :=
    completeIovecs (s.vecs.drop s.index) s.index s.remainder count
  if 0 < count then
    s.vecs[index]?.map fun v =>
      { vecs := s.vecs.set index (v.drop count), index, remainder := remainder - count, accepted }
  else some { s with index, remainder, accepted }

/-- The octets taken when the loop is left, if that takes no more than `fuel` calls.  The calls from
number `call` on take what `counts` says. -/
def sendLoop (counts : Nat → Nat) : Nat → Nat → State → Option (List UInt8)
  | 0, _, s => if s.remainder = 0 then some s.accepted else none
  | fuel + 1, call, s =>
    if s.remainder = 0 then some s.accepted
    else (sendOnce s (counts call)).bind (sendLoop counts fuel (call + 1))

def start (contents : List (List UInt8)) : State :=
  { vecs := contents, index := 0, remainder := contents.flatten.length, accepted := [] }

def sendBuffer (fuel : Nat) (contents : List (List UInt8)) (counts : Nat → Nat) :
    Option (List UInt8) :=
  sendLoop counts fuel 0 (start contents)

/-- The loop is left, and every octet of the buffer has been taken once, in order. -/
def SendsAll (contents : List (List UInt8)) (counts : Nat → Nat) : Prop :=
  ∃ fuel, sendBuffer fuel contents counts = some contents.flatten

/-! ## The first iovec that has octets -/

/-- The octets that the first `calls` calls take when enough are offered. -/
def sent (counts : Nat → Nat) (calls : Nat) : Nat := ((List.range calls).map (max 1 <| counts ·)).sum

/-- The number of empty iovecs in front. -/
def leading (lengths : List Nat) : Nat := (lengths.takeWhile (· = 0)).length

def firstLength (lengths : List Nat) : Nat := (lengths.dropWhile (· = 0)).headD 0

/-- Every call but the last stops before the end of the first iovec that has octets, and if there
are several calls, then the octets are in the iovecs that they are offered. -/
def StopsInFirst (lengths : List Nat) (counts : Nat → Nat) : Prop :=
  ∀ calls, 0 < calls → sent counts calls < lengths.sum →
    sent counts calls < firstLength lengths ∧
      (lengths.take (lengths.length - leading lengths)).sum = lengths.sum

/-! ## One call -/

variable {counts : Nat → Nat} {z k n : Nat} {d e octets : List UInt8} {rest : List (List UInt8)}
  {s s' : State}

theorem completeIovecs_replicate (m : Nat) (vs : List (List UInt8)) (i r c : Nat) :
    completeIovecs (List.replicate m [] ++ vs) i r c = completeIovecs vs (i + m) r c := by
  induction m generalizing i with
  | zero => rfl
  | succ m ih =>
    rw [List.replicate_succ, List.cons_append, completeIovecs, List.length_nil,
      if_pos (Nat.zero_le _), Nat.sub_zero, Nat.sub_zero, ih, Nat.add_assoc, Nat.add_comm 1]

theorem completeIovecs_flatten (vs : List (List UInt8)) (i : Nat) :
    completeIovecs vs i vs.flatten.length vs.flatten.length = (i + vs.length, 0, 0) := by
  induction vs generalizing i with
  | nil => rfl
  | cons v vs ih =>
    rw [completeIovecs, List.flatten_cons, List.length_append, if_pos (Nat.le_add_right ..),
      Nat.add_sub_cancel_left, ih, List.length_cons, Nat.add_assoc, Nat.add_comm 1]

theorem completeIovecs_spec (vs : List (List UInt8)) (i r c : Nat) :
    ∃ j m, m ≤ c ∧ completeIovecs vs i r c = (i + j, r - m, c - m) := by
  induction vs generalizing i r c with
  | nil => exact ⟨0, 0, Nat.zero_le c, rfl⟩
  | cons v vs ih =>
    rw [completeIovecs]
    split_ifs with h
    · obtain ⟨j, m, hm, heq⟩ := ih (i + 1) (r - v.length) (c - v.length)
      refine ⟨j + 1, v.length + m, by omega, ?_⟩
      rw [heq, Nat.sub_sub, Nat.sub_sub, Nat.add_assoc, Nat.add_comm 1]
    · exact ⟨0, 0, Nat.zero_le c, rfl⟩

theorem sendOnce_cases {i r c c' : Nat} (hc : lowlevelSend n (offered s).flatten.length = c)
    (h : completeIovecs (s.vecs.drop s.index) s.index s.remainder c = (i, r, c')) :
    sendOnce s n = none ∨ ∃ s', sendOnce s n = some s' ∧ s'.index = i ∧ s'.remainder = r - c' ∧
      s'.accepted = s.accepted ++ (offered s).flatten.take c ∧
      s'.vecs.take i = s.vecs.take i := by
  unfold sendOnce
  dsimp only
  rw [hc, h]
  split_ifs with hpos
  · cases s.vecs[i]? with
    | none => exact .inl rfl
    | some v =>
      refine .inr ⟨_, rfl, rfl, rfl, rfl, ?_⟩
      rw [List.take_set, List.set_eq_of_length_le]
      exact List.length_take_le ..
  · obtain rfl := Nat.eq_zero_of_not_pos hpos
    exact .inr ⟨_, rfl, rfl, rfl, rfl, rfl⟩

theorem lowlevelSend_le (n m : Nat) : lowlevelSend n m ≤ m := min_le_right ..

theorem lowlevelSend_pos {m : Nat} (hm : 0 < m) (n : Nat) : 0 < lowlevelSend n m :=
  lt_min (lt_of_lt_of_le one_pos (le_max_left ..)) hm

theorem sendLoop_all {fuel call : Nat} (hdata : (offered s).flatten = (s.vecs.drop s.index).flatten)
    (hrem : s.remainder = (offered s).flatten.length) (hpos : s.remainder ≠ 0)
    (hn : lowlevelSend (counts call) (offered s).flatten.length = (offered s).flatten.length) :
    sendLoop counts (fuel + 1) call s = some (s.accepted ++ (offered s).flatten) := by
  have hone : sendOnce s (counts call) = some { s with
      index := s.index + (s.vecs.drop s.index).length, remainder := 0
      accepted := s.accepted ++ (offered s).flatten } := by
    unfold sendOnce
    dsimp only
    rw [hn, hrem, hdata, completeIovecs_flatten, List.take_length]
    rfl
  rw [sendLoop, if_neg hpos, hone, Option.bind_some]
  cases fuel with
  | zero => rfl
  | succ fuel => rfl

/-! ## Stopping in the first iovec -/

/-- The calls so far have taken `k` octets of `d`, the first iovec that has any. -/
structure Stopped (z : Nat) (d : List UInt8) (rest : List (List UInt8)) (k : Nat) (s : State) :
    Prop where
  vecs : s.vecs = List.replicate z [] ++ d.drop k :: rest
  index : s.index ≤ z
  remainder : s.remainder = (d.drop k ++ rest.flatten).length
  accepted : s.accepted = d.take k
  lt : k < d.length

/-- An iovec with octets that were taken is in front of those that are still to be taken. -/
structure Passed (z : Nat) (d : List UInt8) (s : State) : Prop where
  vecs : ∃ e, e ≠ [] ∧ e.Sublist d ∧ s.vecs.take (z + 1) = List.replicate z [] ++ [e]
  index : z < s.index
  remainder : 0 < s.remainder

namespace Stopped

theorem length_pos (h : Stopped z d rest k s) : 0 < (d.drop k).length := by
  rw [List.length_drop]
  exact Nat.sub_pos_of_lt h.lt

theorem completeIovecs (h : Stopped z d rest k s) (c : Nat) :
    Sending.completeIovecs (s.vecs.drop s.index) s.index s.remainder c =
      Sending.completeIovecs (d.drop k :: rest) z s.remainder c := by
  have hi := h.index
  rw [h.vecs, List.drop_append_of_le_length (by rw [List.length_replicate]; exact hi),
    List.drop_replicate, completeIovecs_replicate, Nat.add_sub_cancel' hi]

theorem drop_index (h : Stopped z d rest k s) (hz : s.index = z) :
    s.vecs.drop s.index = d.drop k :: rest := by
  rw [h.vecs, hz]
  exact List.drop_left' List.length_replicate

theorem offered_eq (h : Stopped z d rest k s) (hz : s.index = z) : (offered s).flatten =
    if z ≤ rest.length then d.drop k ++ (rest.take (rest.length - z)).flatten else [] := by
  rw [offered, hz, h.vecs, List.length_append, List.length_replicate, List.length_cons,
    Nat.add_sub_cancel_left, List.take_append, List.length_replicate]
  split_ifs with hz
  · rw [Nat.succ_sub hz, List.take_succ_cons, List.flatten_append, List.flatten_cons,
      List.take_replicate, List.flatten_replicate_nil, List.nil_append]
  · rw [Nat.sub_eq_zero_of_le (by omega), List.take_zero, List.append_nil, List.take_replicate,
      List.flatten_replicate_nil]

theorem sendOnce_lt (h : Stopped z d rest k s) {c : Nat}
    (hc : lowlevelSend n (offered s).flatten.length = c) (hlt : c < (d.drop k).length)
    (hdata : (offered s).flatten.take c = (d.drop k).take c) :
    ∃ s', sendOnce s n = some s' ∧ Stopped z d rest (k + c) s' ∧ s'.index = z := by
  have hone := h.completeIovecs c
  rw [Sending.completeIovecs, if_neg (by omega)] at hone
  have hacc : s.accepted ++ (offered s).flatten.take c = d.take (k + c) := by
    rw [hdata, h.accepted, List.take_add]
  have hlt' : k + c < d.length := by
    rw [List.length_drop] at hlt
    omega
  unfold sendOnce
  dsimp only
  rw [hc, hone, hacc]
  split_ifs with hpos
  · have hget : s.vecs[z]? = some (d.drop k) := by
      rw [h.vecs, List.getElem?_append_right (by rw [List.length_replicate]), List.length_replicate,
        Nat.sub_self, List.getElem?_cons_zero]
    rw [hget, Option.map_some]
    refine ⟨_, rfl, ⟨?_, le_refl z, ?_, rfl, hlt'⟩, rfl⟩
    · rw [h.vecs, List.set_append_right _ _ (by rw [List.length_replicate]), List.length_replicate,
        Nat.sub_self, List.set_cons_zero, List.drop_drop]
    · dsimp only
      rw [h.remainder, List.length_append, List.length_append, List.length_drop, List.length_drop]
      omega
  · obtain rfl := Nat.eq_zero_of_not_pos hpos
    exact ⟨_, rfl, ⟨h.vecs, le_refl z, h.remainder, rfl, h.lt⟩, rfl⟩

theorem sendOnce_ge (h : Stopped z d rest k s) {c : Nat}
    (hc : lowlevelSend n (offered s).flatten.length = c) (hle : (d.drop k).length ≤ c)
    (hlt : c < s.remainder) : sendOnce s n = none ∨ ∃ s', sendOnce s n = some s' ∧
      Passed z d s' ∧ s'.accepted = s.accepted ++ (offered s).flatten.take c := by
  have hone := h.completeIovecs c
  rw [Sending.completeIovecs, if_pos hle] at hone
  obtain ⟨j, m, hm, heq⟩ := completeIovecs_spec rest (z + 1) (s.remainder - (d.drop k).length)
    (c - (d.drop k).length)
  rw [heq] at hone
  refine (sendOnce_cases hc hone).imp_right ?_
  rintro ⟨s', hs', hi, hr, hacc, hv⟩
  refine ⟨s', hs', ⟨⟨d.drop k, ?_, List.drop_sublist .., ?_⟩, by omega, by omega⟩, hacc⟩
  · exact List.ne_nil_of_length_pos h.length_pos
  · have hz : z + 1 ≤ z + 1 + j := Nat.le_add_right ..
    have htake := congrArg (List.take (z + 1)) hv
    rw [List.take_take, List.take_take, Nat.min_eq_left hz] at htake
    rw [htake, h.vecs, List.take_append, List.length_replicate, Nat.add_sub_cancel_left,
      List.take_succ_cons, List.take_zero, List.take_of_length_le]
    rw [List.length_replicate]
    exact Nat.le_succ z

theorem sendOnce_short (h : Stopped z d rest k s) {c : Nat}
    (hc : lowlevelSend n (offered s).flatten.length = c)
    (hdata : (offered s).flatten <+: d.drop k ++ rest.flatten) (hlt : c < s.remainder) :
    sendOnce s n = none ∨ ∃ s', sendOnce s n = some s' ∧
      ((Stopped z d rest (k + c) s' ∧ s'.index = z) ∨
        (Passed z d s' ∧ s'.accepted = (d ++ rest.flatten).take (k + c) ∧ d.length ≤ k + c ∧
          k + c < (d ++ rest.flatten).length)) := by
  have hle : c ≤ (offered s).flatten.length := by
    rw [← hc]
    exact lowlevelSend_le ..
  have htake : (offered s).flatten.take c = (d.drop k ++ rest.flatten).take c := by
    obtain ⟨t, ht⟩ := hdata
    rw [← ht, List.take_append_of_le_length hle]
  have hdrop : (d.drop k).length = d.length - k := List.length_drop
  have hk := h.lt
  by_cases hin : c < (d.drop k).length
  · rw [List.take_append_of_le_length hin.le] at htake
    obtain ⟨s', hs', hstop⟩ := h.sendOnce_lt hc hin htake
    exact .inr ⟨s', hs', .inl hstop⟩
  · refine (h.sendOnce_ge hc (Nat.le_of_not_lt hin) hlt).imp_right ?_
    rintro ⟨s', hs', hpass, hacc⟩
    refine ⟨s', hs', .inr ⟨hpass, ?_, by omega, ?_⟩⟩
    · rw [hacc, htake, h.accepted, List.take_add, List.take_append_of_le_length hk.le,
        List.drop_append_of_le_length hk.le]
    · rw [h.remainder, List.length_append] at hlt
      rw [List.length_append]
      omega

end Stopped

/-! ## What goes wrong afterwards -/

theorem sendLoop_prefix {fuel call : Nat} {octets : List UInt8}
    (h : sendLoop counts fuel call s = some octets) : s.accepted <+: octets := by
  induction fuel generalizing call s with
  | zero =>
    rw [sendLoop] at h
    split_ifs at h
    rw [Option.some.inj h]
  | succ fuel ih =>
    rw [sendLoop] at h
    split_ifs at h
    · rw [Option.some.inj h]
    · obtain ⟨s', hs', hloop⟩ := Option.bind_eq_some_iff.mp h
      obtain ⟨j, m, -, heq⟩ := completeIovecs_spec (s.vecs.drop s.index) s.index s.remainder
        (lowlevelSend (counts call) (offered s).flatten.length)
      rcases sendOnce_cases rfl heq with hnone | ⟨s'', hs'', -, -, hacc, -⟩
      · rw [hs'] at hnone
        cases hnone
      · rw [hs'] at hs''
        obtain rfl := Option.some.inj hs''
        have hpre := ih hloop
        rw [hacc] at hpre
        exact (List.prefix_append ..).trans hpre

theorem Passed.sendOnce (h : Passed z d s) (hs : sendOnce s n = some s') :
    (Passed z d s' ∧ s'.accepted = s.accepted) ∨
      ∃ o ∈ d, ∃ t, s'.accepted = s.accepted ++ o :: t := by
  obtain ⟨e, hne, hsub, htake⟩ := h.vecs
  obtain ⟨j, m, hm, heq⟩ := completeIovecs_spec (s.vecs.drop s.index) s.index s.remainder
    (lowlevelSend n (offered s).flatten.length)
  obtain ⟨s'', hs'', hi, hr, hacc, hv⟩ := (sendOnce_cases rfl heq).resolve_left (by rw [hs]; exact nofun)
  rw [hs] at hs''
  obtain rfl := Option.some.inj hs''
  by_cases hz : s.vecs.length - s.index ≤ z
  · have hnil : (offered s).flatten = [] := by
      have hpre := congrArg (List.take (s.vecs.length - s.index)) htake
      rw [List.take_take, Nat.min_eq_left (by omega), List.take_append, List.take_replicate,
        List.length_replicate, Nat.sub_eq_zero_of_le hz, List.take_zero, List.append_nil] at hpre
      rw [offered, hpre, List.flatten_replicate_nil]
    rw [hnil, List.take_nil, List.append_nil] at hacc
    rw [hnil, List.length_nil, lowlevelSend, Nat.min_zero] at hm hr
    refine .inl ⟨⟨⟨e, hne, hsub, ?_⟩, ?_, ?_⟩, hacc⟩
    · have hle : z + 1 ≤ s.index + j := by
        have := h.index
        omega
      have hpre := congrArg (List.take (z + 1)) hv
      rw [List.take_take, List.take_take, Nat.min_eq_left hle] at hpre
      rw [hpre, htake]
    · have := h.index
      omega
    · have := h.remainder
      omega
  · right
    cases e with
    | nil => exact absurd rfl hne
    | cons o e =>
      have hoff : ∃ t, (offered s).flatten = o :: t := by
        refine ⟨e ++ ((s.vecs.drop (z + 1)).take (s.vecs.length - s.index - (z + 1))).flatten, ?_⟩
        have hsplit : s.vecs.length - s.index = z + 1 + (s.vecs.length - s.index - (z + 1)) := by omega
        rw [offered, hsplit, List.take_add, htake, Nat.add_sub_cancel_left, List.flatten_append,
          List.flatten_append, List.flatten_replicate_nil]
        simp
      obtain ⟨t, ht⟩ := hoff
      have hpos : 0 < lowlevelSend n (offered s).flatten.length :=
        lowlevelSend_pos (by rw [ht]; exact Nat.succ_pos _) n
      rw [ht] at hacc hpos
      refine ⟨o, hsub.subset List.mem_cons_self, t.take (lowlevelSend n (o :: t).length - 1), ?_⟩
      rw [hacc, ← List.take_succ_cons, Nat.sub_add_cancel hpos]

theorem Passed.fails (h : Passed z d s) {o : UInt8} (ho : o ∉ d)
    (hdue : s.accepted ++ [o] <+: octets) (fuel call : Nat) :
    sendLoop counts fuel call s ≠ some octets := by
  induction fuel generalizing call s with
  | zero =>
    rw [sendLoop, if_neg h.remainder.ne']
    exact nofun
  | succ fuel ih =>
    rw [sendLoop, if_neg h.remainder.ne']
    intro hsome
    obtain ⟨s', hs', hloop⟩ := Option.bind_eq_some_iff.mp hsome
    rcases h.sendOnce hs' with ⟨hpass, hacc⟩ | ⟨o', ho', t, hacc⟩
    · exact ih hpass (by rw [hacc]; exact hdue) _ hloop
    · have hpre := sendLoop_prefix hloop
      rw [hacc] at hpre
      have hpre' : s.accepted ++ [o'] <+: octets :=
        List.IsPrefix.trans ⟨t, by rw [List.append_assoc]; rfl⟩ hpre
      have heq := (List.prefix_of_prefix_length_le hdue hpre' (by simp)).eq_of_length (by simp)
      have : o = o' := by
        injection List.append_cancel_left heq
      exact ho (this ▸ ho')

/-! ## Runs -/

theorem sent_succ (counts : Nat → Nat) (calls : Nat) :
    sent counts (calls + 1) = sent counts calls + max 1 (counts calls) := by
  rw [sent, List.range_succ, List.map_append, List.sum_append]
  simp [sent]

theorem sent_mono (counts : Nat → Nat) : Monotone (sent counts) :=
  monotone_nat_of_le_succ fun calls => by rw [sent_succ]; exact Nat.le_add_right ..

namespace Stopped

/-- The octets of `d` and those after them can be told apart. -/
def Marked (d : List UInt8) (rest : List (List UInt8)) : Prop :=
  ∃ o, o ∉ d ∧ ∀ o' ∈ rest.flatten, o' = o

theorem remainder_pos (h : Stopped z d rest k s) : s.remainder ≠ 0 := by
  have := h.length_pos
  rw [h.remainder, List.length_append]
  omega

theorem fails_of_short (hm : Marked d rest) (h : Stopped z d rest k s) {c fuel call : Nat}
    (hc : lowlevelSend (counts call) (offered s).flatten.length = c)
    (hdata : (offered s).flatten <+: d.drop k ++ rest.flatten) (hlt : c < s.remainder)
    (hnext : ∀ s', Stopped z d rest (k + c) s' → s'.index = z →
      sendLoop counts fuel (call + 1) s' ≠ some (d ++ rest.flatten)) :
    sendLoop counts (fuel + 1) call s ≠ some (d ++ rest.flatten) := by
  rw [sendLoop, if_neg h.remainder_pos]
  intro hsome
  obtain ⟨s', hs', hloop⟩ := Option.bind_eq_some_iff.mp hsome
  rcases h.sendOnce_short hc hdata hlt with hnone | ⟨s'', hs'', hcase⟩
  · rw [hs'] at hnone
    cases hnone
  · rw [hs'] at hs''
    obtain rfl := Option.some.inj hs''
    rcases hcase with ⟨hstop, hi⟩ | ⟨hpass, hacc, hle, hlt'⟩
    · exact hnext s' hstop hi hloop
    · obtain ⟨o, ho, hrest⟩ := hm
      refine hpass.fails ho ?_ _ _ hloop
      have hdue : (d ++ rest.flatten)[k + c] = o := by
        rw [List.getElem_append_right hle]
        exact hrest _ (List.getElem_mem _)
      rw [hacc, ← hdue, List.take_concat_get']
      exact List.take_prefix ..

theorem offered_prefix (h : Stopped z d rest k s) (hz : s.index = z) :
    (offered s).flatten <+: d.drop k ++ rest.flatten := by
  rw [h.offered_eq hz]
  split_ifs
  · have : (rest.take (rest.length - z)).flatten <+: rest.flatten :=
      ⟨(rest.drop (rest.length - z)).flatten, by rw [← List.flatten_append, List.take_append_drop]⟩
    exact (List.prefix_append_right_inj _).mpr this
  · exact List.nil_prefix

theorem fails_of_tail (hm : Marked d rest)
    (htail : z ≤ rest.length → (rest.take (rest.length - z)).flatten.length < rest.flatten.length)
    (fuel : Nat) : ∀ {call k s}, Stopped z d rest k s → s.index = z →
      sendLoop counts fuel call s ≠ some (d ++ rest.flatten) := by
  induction fuel with
  | zero =>
    intro call k s h hz
    rw [sendLoop, if_neg h.remainder_pos]
    exact nofun
  | succ fuel ih =>
    intro call k s h hz
    refine h.fails_of_short hm rfl (h.offered_prefix hz) ?_ fun s' hstop hi => ih hstop hi
    refine lt_of_le_of_lt (lowlevelSend_le ..) ?_
    rw [h.offered_eq hz, h.remainder, List.length_append]
    split_ifs with hle
    · rw [List.length_append]
      exact Nat.add_lt_add_left (htail hle) _
    · exact Nat.add_pos_left h.length_pos _

theorem fails_of_passing (hm : Marked d rest) (hz : z ≤ rest.length)
    (htail : (rest.take (rest.length - z)).flatten = rest.flatten) (fuel : Nat) {calls : Nat}
    (hlt : sent counts calls < (d ++ rest.flatten).length) (hle : d.length ≤ sent counts calls) :
    ∀ {call s}, call < calls → Stopped z d rest (sent counts call) s → s.index = z →
      sendLoop counts fuel call s ≠ some (d ++ rest.flatten) := by
  induction fuel with
  | zero =>
    intro call s _ h _
    rw [sendLoop, if_neg h.remainder_pos]
    exact nofun
  | succ fuel ih =>
    intro call s hcall h hi
    have hdata : (offered s).flatten = d.drop (sent counts call) ++ rest.flatten := by
      rw [h.offered_eq hi, if_pos hz, htail]
    have hsucc := sent_succ counts call
    have hmono : sent counts (call + 1) ≤ sent counts calls := sent_mono counts hcall
    have hc : lowlevelSend (counts call) (offered s).flatten.length = max 1 (counts call) := by
      refine min_eq_left ?_
      rw [hdata, List.length_append, List.length_drop]
      rw [List.length_append] at hlt
      omega
    refine h.fails_of_short hm hc (h.offered_prefix hi) ?_ fun s' hstop hi' => ?_
    · rw [h.remainder, List.length_append, List.length_drop]
      rw [List.length_append] at hlt
      omega
    · rw [← hsucc] at hstop
      refine ih (lt_of_le_of_ne hcall fun heq => ?_) hstop hi'
      have := hstop.lt
      rw [heq] at this
      omega

theorem sends (hz : z ≤ rest.length)
    (htail : (rest.take (rest.length - z)).flatten = rest.flatten) {call : Nat} {s : State}
    (hall : ∀ calls, call < calls → sent counts calls < (d ++ rest.flatten).length →
      sent counts calls < d.length)
    (h : Stopped z d rest (sent counts call) s) (hi : s.index = z) :
    ∃ fuel, sendLoop counts fuel call s = some (d ++ rest.flatten) := by
  have hdata : (offered s).flatten = d.drop (sent counts call) ++ rest.flatten := by
    rw [h.offered_eq hi, if_pos hz, htail]
  have hrem : s.remainder = (offered s).flatten.length := by rw [hdata, h.remainder]
  have hsucc := sent_succ counts call
  have hk := h.lt
  have hlen : (offered s).flatten.length + sent counts call = (d ++ rest.flatten).length := by
    rw [hdata, List.length_append, List.length_append, List.length_drop]
    omega
  by_cases hlast : sent counts (call + 1) < (d ++ rest.flatten).length
  · have hlt := hall (call + 1) (Nat.lt_succ_self _) hlast
    have hc : lowlevelSend (counts call) (offered s).flatten.length = max 1 (counts call) :=
      min_eq_left (by omega)
    obtain ⟨s', hs', hstop, hi'⟩ := h.sendOnce_lt hc (by rw [List.length_drop]; omega) (by
      rw [hdata, List.take_append_of_le_length (by rw [List.length_drop]; omega)])
    rw [← hsucc] at hstop
    obtain ⟨fuel, hfuel⟩ := sends hz htail
      (fun calls hcalls => hall calls ((Nat.lt_succ_self _).trans hcalls)) hstop hi'
    refine ⟨fuel + 1, ?_⟩
    rw [sendLoop, if_neg h.remainder_pos, hs', Option.bind_some, hfuel]
  · have hc : lowlevelSend (counts call) (offered s).flatten.length = (offered s).flatten.length :=
      min_eq_right (by omega)
    refine ⟨1, ?_⟩
    rw [sendLoop_all (by rw [hdata, h.drop_index hi]; rfl) hrem h.remainder_pos hc, h.accepted,
      hdata, ← List.append_assoc, List.take_append_drop]
termination_by (d ++ rest.flatten).length - sent counts call
decreasing_by
  have hs : sent counts call.succ = sent counts call + max 1 (counts call) := sent_succ ..
  omega

end Stopped

/-! ## Send_Buffer -/

theorem stopped_start (hd : 0 < d.length) (z : Nat) (rest : List (List UInt8)) :
    Stopped z d rest 0 (start (List.replicate z [] ++ d :: rest)) where
  vecs := rfl
  index := Nat.zero_le z
  remainder := by
    rw [start, List.flatten_append, List.flatten_replicate_nil, List.flatten_cons]
    rfl
  accepted := rfl
  lt := hd

theorem offered_start (contents : List (List UInt8)) :
    (offered (start contents)).flatten = contents.flatten := by
  rw [offered, start, Nat.sub_zero, List.take_length]

theorem flatten_contents (z : Nat) (d : List UInt8) (rest : List (List UInt8)) :
    (List.replicate z [] ++ d :: rest).flatten = d ++ rest.flatten := by
  rw [List.flatten_append, List.flatten_replicate_nil, List.flatten_cons, List.nil_append]

theorem exists_first {contents : List (List UInt8)} (h : contents.flatten ≠ []) :
    ∃ z d rest, 0 < d.length ∧ contents = List.replicate z [] ++ d :: rest := by
  induction contents with
  | nil => exact absurd rfl h
  | cons v vs ih =>
    cases v with
    | nil =>
      obtain ⟨z, d, rest, hd, heq⟩ := ih h
      exact ⟨z + 1, d, rest, hd, by rw [heq]; rfl⟩
    | cons o v => exact ⟨0, o :: v, vs, Nat.succ_pos _, rfl⟩

theorem map_length_contents (z : Nat) (d : List UInt8) (rest : List (List UInt8)) :
    (List.replicate z [] ++ d :: rest).map List.length =
      List.replicate z 0 ++ d.length :: rest.map List.length := by
  rw [List.map_append, List.map_replicate, List.map_cons, List.length_nil]

section Shape

variable {l : Nat} {ls : List Nat}

theorem leading_eq (hl : 0 < l) : leading (List.replicate z 0 ++ l :: ls) = z := by
  rw [leading, List.takeWhile_append_of_pos fun a ha => by
    rw [List.eq_of_mem_replicate ha]; rfl, List.takeWhile_cons_of_neg (by simpa using hl.ne'),
    List.append_nil, List.length_replicate]

theorem firstLength_eq (hl : 0 < l) : firstLength (List.replicate z 0 ++ l :: ls) = l := by
  rw [firstLength, List.dropWhile_append_of_pos fun a ha => by
    rw [List.eq_of_mem_replicate ha]; rfl, List.dropWhile_cons_of_neg (by simpa using hl.ne'),
    List.headD_cons]

theorem sum_eq : (List.replicate z 0 ++ l :: ls).sum = l + ls.sum := by
  rw [List.sum_append, List.sum_replicate, smul_zero, zero_add, List.sum_cons]

theorem sum_take_eq (hl : 0 < l) : ((List.replicate z 0 ++ l :: ls).take
      ((List.replicate z 0 ++ l :: ls).length - leading (List.replicate z 0 ++ l :: ls))).sum =
    if z ≤ ls.length then l + (ls.take (ls.length - z)).sum else 0 := by
  rw [leading_eq hl, List.length_append, List.length_replicate, List.length_cons,
    Nat.add_sub_cancel_left, List.take_append, List.length_replicate, List.take_replicate,
    List.sum_append, List.sum_replicate, smul_zero, zero_add]
  split_ifs with hz
  · rw [Nat.succ_sub hz, List.take_succ_cons, List.sum_cons]
  · rw [Nat.sub_eq_zero_of_le (by omega), List.take_zero, List.sum_nil]

end Shape

theorem length_flatten_take (rest : List (List UInt8)) (n : Nat) :
    (rest.take n).flatten.length = ((rest.map List.length).take n).sum := by
  rw [List.length_flatten, List.map_take]

theorem exists_firstLength {lengths : List Nat} (h : lengths.sum ≠ 0) :
    ∃ z l ls, 0 < l ∧ lengths = List.replicate z 0 ++ l :: ls := by
  have hlen : (lengths.map (List.replicate · (0 : UInt8))).map List.length = lengths := by
    simp [Function.comp_def]
  have hne : (lengths.map (List.replicate · (0 : UInt8))).flatten ≠ [] := by
    intro hnil
    rw [← hlen, ← List.length_flatten, hnil] at h
    exact h rfl
  obtain ⟨z, d, rest, hd, heq⟩ := exists_first hne
  refine ⟨z, d.length, rest.map List.length, hd, ?_⟩
  rw [← hlen, heq, map_length_contents]

theorem lowlevelSend_first (contents : List (List UInt8)) (counts : Nat → Nat) :
    lowlevelSend (counts 0) (offered (start contents)).flatten.length =
      min (sent counts 1) contents.flatten.length := by
  have hzero : sent counts 0 = 0 := rfl
  rw [offered_start, lowlevelSend, sent_succ, hzero, Nat.zero_add]

theorem stopsInFirst_iff (hd : 0 < d.length) :
    StopsInFirst ((List.replicate z [] ++ d :: rest).map List.length) counts ↔
      ∀ calls, 0 < calls → sent counts calls < (d ++ rest.flatten).length →
        sent counts calls < d.length ∧ z ≤ rest.length ∧
          (rest.take (rest.length - z)).flatten = rest.flatten := by
  rw [StopsInFirst, map_length_contents, sum_take_eq hd, sum_eq, firstLength_eq hd,
    List.length_append, List.length_flatten, List.length_map, ← length_flatten_take]
  refine forall_congr' fun calls => imp_congr_right fun _ => imp_congr_right fun _ =>
    and_congr_right fun _ => ?_
  rw [← List.length_flatten]
  split_ifs with hz
  · rw [Nat.add_left_cancel_iff, and_iff_right hz]
    refine ⟨fun hlen => List.IsPrefix.eq_of_length ?_ hlen, congrArg List.length⟩
    exact ⟨(rest.drop (rest.length - z)).flatten, by
      rw [← List.flatten_append, List.take_append_drop]⟩
  · exact iff_of_false (by omega) fun h => hz h.1

theorem sendsAll_of_stopsInFirst {contents : List (List UInt8)}
    (hstop : StopsInFirst (contents.map List.length) counts) : SendsAll contents counts := by
  by_cases hnil : contents.flatten = []
  · refine ⟨0, ?_⟩
    rw [sendBuffer, sendLoop, if_pos (by rw [start, hnil]; rfl), hnil]
    rfl
  obtain ⟨z, d, rest, hd, rfl⟩ := exists_first hnil
  rw [stopsInFirst_iff hd] at hstop
  have h := stopped_start hd z rest
  have hoff := offered_start (List.replicate z [] ++ d :: rest)
  have hfirst := lowlevelSend_first (List.replicate z [] ++ d :: rest) counts
  rw [SendsAll, flatten_contents]
  rw [flatten_contents] at hoff hfirst
  by_cases hone : sent counts 1 < (d ++ rest.flatten).length
  · obtain ⟨hlt, hz, htail⟩ := hstop 1 one_pos hone
    rw [min_eq_left hone.le] at hfirst
    obtain ⟨s', hs', hstopped, hi⟩ := h.sendOnce_lt hfirst hlt (by
      rw [hoff, List.take_append_of_le_length hlt.le]
      rfl)
    rw [Nat.zero_add] at hstopped
    obtain ⟨fuel, hfuel⟩ := Stopped.sends hz htail
      (fun calls hcalls hc => (hstop calls (by omega) hc).1) hstopped hi
    refine ⟨fuel + 1, ?_⟩
    rw [sendBuffer, sendLoop, if_neg h.remainder_pos, hs', Option.bind_some, hfuel]
  · rw [min_eq_right (Nat.le_of_not_lt hone), ← hoff] at hfirst
    refine ⟨1, ?_⟩
    rw [sendBuffer, sendLoop_all (offered_start _) (by rw [hoff, h.remainder]; rfl) h.remainder_pos
      hfirst, hoff]
    rfl

theorem not_sendsAll (hm : Stopped.Marked d rest) (hd : 0 < d.length)
    (hstop : ¬StopsInFirst ((List.replicate z [] ++ d :: rest).map List.length) counts) :
    ¬SendsAll (List.replicate z [] ++ d :: rest) counts := by
  rw [stopsInFirst_iff hd] at hstop
  push Not at hstop
  obtain ⟨calls, hcalls, hlt, hnot⟩ := hstop
  rintro ⟨fuel, hfuel⟩
  have h := stopped_start hd z rest
  have hone : sent counts 1 < (d ++ rest.flatten).length :=
    lt_of_le_of_lt (sent_mono counts hcalls) hlt
  have hfirst := lowlevelSend_first (List.replicate z [] ++ d :: rest) counts
  rw [flatten_contents, min_eq_left hone.le] at hfirst
  rw [flatten_contents] at hfuel
  cases fuel with
  | zero =>
    rw [sendBuffer, sendLoop, if_neg h.remainder_pos] at hfuel
    cases hfuel
  | succ fuel =>
    refine h.fails_of_short hm hfirst ?_ ?_ (fun s' hs' hi => ?_) hfuel
    · rw [offered_start, flatten_contents]
      exact List.prefix_rfl
    · rw [h.remainder]
      exact hone
    · rw [Nat.zero_add] at hs'
      by_cases htail : z ≤ rest.length ∧ (rest.take (rest.length - z)).flatten = rest.flatten
      · have hle : d.length ≤ sent counts calls := by
          by_contra hin
          exact hnot (Nat.lt_of_not_le hin) htail.1 htail.2
        refine Stopped.fails_of_passing hm htail.1 htail.2 fuel hlt hle ?_ hs' hi
        refine lt_of_le_of_ne hcalls fun heq => ?_
        have := hs'.lt
        rw [Nat.zero_add] at heq
        rw [heq] at this
        omega
      · refine Stopped.fails_of_tail hm (fun hz => ?_) fuel hs' hi
        refine lt_of_le_of_ne ?_ fun heq => htail ⟨hz, ?_⟩
        · rw [length_flatten_take, List.length_flatten]
          exact List.Sublist.sum_le_sum (List.take_sublist ..) fun _ _ => Nat.zero_le _
        · refine List.IsPrefix.eq_of_length ⟨(rest.drop (rest.length - z)).flatten, ?_⟩ heq
          rw [← List.flatten_append, List.take_append_drop]

/-- Whatever its octets are, a buffer is sent correctly exactly when every call but the last stops
before the end of the first iovec that has octets. -/
theorem forall_sendsAll_iff (lengths : List Nat) (counts : Nat → Nat) :
    (∀ contents : List (List UInt8), contents.map List.length = lengths →
      SendsAll contents counts) ↔ StopsInFirst lengths counts := by
  constructor
  · intro hall
    by_contra hnot
    have hsum : lengths.sum ≠ 0 := by
      intro hzero
      refine hnot fun calls _ hlt => ?_
      rw [hzero] at hlt
      exact absurd hlt (Nat.not_lt_zero _)
    obtain ⟨z, l, ls, hl, rfl⟩ := exists_firstLength hsum
    -- zeros in the first iovec, ones after it
    have hlen : (List.replicate z [] ++ List.replicate l (0 : UInt8) ::
        ls.map (List.replicate · 1)).map List.length = List.replicate z 0 ++ l :: ls := by
      simp [Function.comp_def]
    refine not_sendsAll ?_ ?_ ?_ (hall _ hlen)
    · refine ⟨1, fun hmem => ?_, fun o ho => ?_⟩
      · exact absurd (List.eq_of_mem_replicate hmem) (by decide)
      · obtain ⟨v, hv, hov⟩ := List.mem_flatten.mp ho
        obtain ⟨n, -, rfl⟩ := List.mem_map.mp hv
        exact List.eq_of_mem_replicate hov
    · rw [List.length_replicate]
      exact hl
    · rwa [hlen]
  · rintro hstop contents rfl
    exact sendsAll_of_stopsInFirst hstop

/-- The second call is offered the first iovec again. -/
theorem not_forall_sendsAll :
    ¬∀ (contents : List (List UInt8)) (counts : Nat → Nat), SendsAll contents counts := by
  intro hall
  have hnot : ¬SendsAll (List.replicate 0 [] ++ [0] :: [[1]]) fun _ => 1 := by
    refine not_sendsAll ⟨1, by decide, fun o ho => List.mem_singleton.1 ho⟩ (by decide) fun hstop => ?_
    have hsent : sent (fun _ => 1) 1 = 1 := rfl
    obtain ⟨hfirst, -⟩ := hstop 1 one_pos (by exact Nat.one_lt_two)
    exact absurd hfirst (Nat.lt_irrefl 1)
  exact hnot (hall _ _)

end Sending

end PolyORB
