import PolyORB.Dns.SessionSteps
import PolyORB.Lib.Runs

/-!
# Runs of DNS sessions

The events of a run pair requests and replies exactly when each of them is clear.
-/

namespace PolyORB

open Program

namespace DnsProcess

section Runs

variable {p : DnsProcess} {s : Nat}

theorem invoke_next (oneway emitFails : Bool) : ∃ x completions,
    stateAfter (invokeRequest s oneway emitFails) p =
      p.next s x p.currentQuestionNb (p.invocations + 1) completions [] := by
  cases oneway with
  | true =>
    obtain ⟨x, hx, -⟩ := invoke_oneway (p := p) (s := s) emitFails
    exact ⟨x, [], hx⟩
  | false =>
    by_cases hid : (p.sessions s).reqIndex < 2 ^ 16
    · cases emitFails with
      | false => exact ⟨_, _, invoke_sent hid⟩
      | true =>
        have hnew : ⟨p.invocations, (p.sessions s).reqIndex⟩ ∈
            SlotTable.occupants (p.entered s).pendingReqs :=
          entered_perm.mem_iff.2 List.mem_cons_self
        obtain ⟨q, t, ht⟩ := SlotTable.exists_take
          (p := fun q => q.requestId == (p.sessions s).reqIndex) hnew (by simp)
        exact ⟨_, _, invoke_unsent hid ht⟩
    · exact ⟨_, _, invoke_refused hid emitFails⟩

theorem receive_next (hp : p.currentQuestionNb < 2 ^ 16) (ho : (p.sessions s).isOpen = true)
    (m : DnsMessage) : ∃ x, ∃ c < 2 ^ 16, ∃ completions queued,
    p.perform (.receive s m) = p.next s x c p.invocations completions queued := by
  cases m with
  | truncatedHeader =>
    have hm : handleDataIndication s .truncatedHeader p =
        .error .endOfData (p.next s (p.sessions s) p.currentQuestionNb p.invocations [] []) := by
      rw [next_init]
      rfl
    exact ⟨_, _, hp, _, _, perform_error ho hm⟩
  | message h questions hasRecords =>
    by_cases hr : (p.sessions s).role = .client
    · by_cases hf : DnsHeader.isSet DnsHeader.qrFlagPos h.flags = true
      · cases ht : SlotTable.take (fun q : PendingQuery => q.requestId == h.requestId.toNat)
            (p.sessions s).pendingReqs with
        | none => exact ⟨_, _, hp, _, _, perform_error ho (indication_unknown hr hf ht)⟩
        | some r =>
          by_cases hb : h.rcode (p.sessions s).rcode = .noError ∧ hasRecords = false
          · exact ⟨_, _, hp, _, _, perform_error ho (indication_lost hr hf ht hb)⟩
          · exact ⟨_, _, hp, _, _, perform_ok ho (indication_answered hr hf ht hb)⟩
      · exact ⟨_, _, hp, _, _, perform_error ho (indication_unexpected hr hf)⟩
    · by_cases hf : DnsHeader.isSet DnsHeader.qrFlagPos h.flags = true
      · exact ⟨_, _, hp, _, _, perform_error ho (indication_misdirected hr hf)⟩
      · by_cases hn : h.WellFormed questions ∧ (h.nbQuestions = 0 ∨ p.currentQuestionNb = 0)
        · exact ⟨_, 0, by decide, _, _, perform_ok ho (indication_asked hr hf hn.1 hn.2)⟩
        · obtain ⟨e, c, hc, hm⟩ := indication_stopped questions hasRecords hp hr hf hn
          exact ⟨_, c, hc, _, _, perform_error ho hm⟩

theorem Changes.known (hp : p.Tracked) {p' : DnsProcess} {o : List PendingQuery}
    {completions : List DnsCompletion} {queued : List (Text × List (Option DnsQuestion))}
    (hch : Changes p p' s o completions queued) (hi : p.invocations ≤ p'.invocations)
    (ho : ∀ q ∈ o, q.req < p'.invocations) (t : Nat) : ∀ q ∈ p'.outstanding t,
      q.req < p'.invocations := by
  intro q hq
  by_cases ht : t = s
  · rw [ht, hch.outstanding.mem_iff] at hq
    exact ho q hq
  · rw [hch.other t ht] at hq
    exact lt_of_lt_of_le (hp.known t q hq) hi

theorem Invoked.known (hp : p.Tracked) {p' : DnsProcess} {oneway emitFails : Bool}
    (hinv : p.Invoked p' s oneway emitFails) (hi : p.invocations < p'.invocations) (t : Nat) :
    ∀ q ∈ p'.outstanding t, q.req < p'.invocations := by
  have hold : ∀ q ∈ p.outstanding s, q.req < p'.invocations :=
    fun q hq => lt_trans (hp.known s q hq) hi
  rw [Invoked] at hinv
  split_ifs at hinv
  · exact hinv.known hp hi.le hold t
  · exact hinv.known hp hi.le hold t
  · obtain ⟨id, hch⟩ := hinv
    refine hch.known hp hi.le (fun q hq => ?_) t
    rcases List.mem_cons.1 hq with rfl | hq
    · exact hi
    · exact hold q hq

theorem Received.known (hp : p.Tracked) {p' : DnsProcess} {m : DnsMessage}
    (hrec : p.Received p' s m) (hi : p.invocations = p'.invocations) (t : Nat) :
    ∀ q ∈ p'.outstanding t, q.req < p'.invocations := by
  have hold : ∀ q ∈ p.outstanding s, q.req < p'.invocations := hi ▸ hp.known s
  rw [Received] at hrec
  cases hid : (p.sessions s).replyId m with
  | none =>
    simp only [hid] at hrec
    exact hrec.known hp hi.le hold t
  | some id =>
    simp only [hid] at hrec
    rcases hrec with ⟨q, -, -, hch⟩ | ⟨-, hch⟩
    · exact hch.known hp hi.le (fun q' hq' => hold q' (List.mem_of_mem_erase hq')) t
    · exact hch.known hp hi.le hold t

theorem Tracked.perform (hp : p.Tracked) {e : DnsEvent} (he : p.Pairs e) :
    (p.perform e).Tracked := by
  cases e with
  | invoke s oneway emitFails =>
    by_cases hr : (p.sessions s).role = .client
    · obtain ⟨x, completions, hx⟩ := invoke_next (p := p) (s := s) oneway
        (emitFails || !(p.sessions s).isOpen)
      have hx' := (perform_invoke hr oneway emitFails).trans hx
      refine ⟨he.1, ?_, he.2.known hp ?_⟩
      · rw [hx']
        exact hp.currentQuestionNb
      · rw [hx']
        exact Nat.lt_succ_self _
    · have hid : p.perform (.invoke s oneway emitFails) = p := if_neg hr
      rw [hid]
      exact hp
  | receive s m =>
    by_cases ho : (p.sessions s).isOpen = true
    · obtain ⟨x, c, hc, completions, queued, hx⟩ := receive_next hp.currentQuestionNb ho m
      refine ⟨he.1, ?_, he.2.known hp ?_⟩
      · rw [hx]
        exact hc
      · rw [hx]
        rfl
    · have hid : p.perform (.receive s m) = p := if_neg ho
      rw [hid]
      exact hp

theorem tracked_start (role : Nat → DnsRole) : (start role).Tracked where
  answerable := {
    nodup := fun _ => List.nodup_nil
    lt := fun _ _ hq => (List.not_mem_nil hq).elim
    isOpen := fun _ hne => (hne rfl).elim
    role := fun _ hne => (hne rfl).elim }
  currentQuestionNb := Nat.two_pow_pos 16
  known _ _ hq := (List.not_mem_nil hq).elim

theorem pairs_iff_clear (hp : p.Tracked) (e : DnsEvent) : p.Pairs e ↔ p.Clear e := by
  cases e with
  | invoke s oneway emitFails => exact pairs_invoke_iff hp s oneway emitFails
  | receive s m => exact pairs_receive_iff hp s m

/-- The events of a run do what they have to exactly when each of them is clear. -/
theorem sessions_pair_iff (role : Nat → DnsRole) (es : List DnsEvent) :
    Runs.Along perform Pairs (start role) es ↔ Runs.Along perform Clear (start role) es := by
  have hstep : ∀ (p : DnsProcess) (e : DnsEvent), p.Tracked → True →
      (p.Pairs e → p.Clear e) ∧ (p.Clear e → p.Pairs e ∧ (p.perform e).Tracked) := by
    intro p e hp _
    refine ⟨(pairs_iff_clear hp e).1, fun hc => ?_⟩
    have hpairs := (pairs_iff_clear hp e).2 hc
    exact ⟨hpairs, hp.perform hpairs⟩
  exact Runs.along_iff hstep es (start role) (tracked_start role) (Runs.along_true es _)

/-- The second question of the first request is of an unknown type, and the request that comes after
it is refused. -/
theorem not_pairs_after_unsupported : ¬Runs.Along perform Pairs (start fun _ => .server)
    [.receive 0 (.message ⟨1, 0, 2⟩ [⟨[97], 1⟩, ⟨[97], 28⟩] true),
      .receive 1 (.message ⟨1, 0, 1⟩ [⟨[97], 1⟩] true)] := by
  rintro ⟨-, ⟨-, hrec⟩, -⟩
  have hqueued := Changes.queued hrec
  revert hqueued
  decide

end Runs

end DnsProcess

end PolyORB
