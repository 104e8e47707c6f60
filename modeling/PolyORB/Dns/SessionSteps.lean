import PolyORB.Dns.Pairing

/-!
# Steps of DNS sessions

What each kind of event does to the session, and when that is what it has to do.
-/

namespace PolyORB

open Program

namespace DnsProcess

/-! ## Invocations -/

section Invocations

variable {p : DnsProcess} {s : Nat}

/-- The session once a two-way request has its id and its entry. -/
def entered (p : DnsProcess) (s : Nat) : DnsSession :=
  { p.sessions s with
    reqIndex := ((p.sessions s).reqIndex + 1) % unsignedLongModulus
    pendingReqs := SlotTable.insert ⟨p.invocations, (p.sessions s).reqIndex⟩
      (p.sessions s).pendingReqs }

theorem invocation_next : ({ p with invocations := p.invocations + 1 } : DnsProcess) =
    p.next s (p.sessions s) p.currentQuestionNb (p.invocations + 1) [] [] := by
  rw [next, Function.update_eq_self, List.append_nil, List.append_nil]

theorem enter_next : addPendingRequest s p.invocations
      (p.next s (p.sessions s) p.currentQuestionNb (p.invocations + 1) [] []) =
    .ok (p.sessions s).reqIndex
      (p.next s (p.entered s) p.currentQuestionNb (p.invocations + 1) [] []) :=
  addPendingRequest_next _

theorem invoke_oneway (emitFails : Bool) : ∃ x, stateAfter (invokeRequest s true emitFails) p =
      p.next s x p.currentQuestionNb (p.invocations + 1) [] [] ∧
    x.pendingReqs = (p.sessions s).pendingReqs ∧ x.isOpen = (p.sessions s).isOpen ∧
    x.role = (p.sessions s).role := by
  rw [stateAfter, invokeRequest, bind_ok (get_apply _), bind_ok (set_apply ..),
    invocation_next (s := s)]
  simp only [if_true]
  rw [bind_ok getRequestId_next]
  by_cases hid : (p.sessions s).reqIndex < 2 ^ 16
  · rw [bind_ok (sendRequest_next hid _)]
    exact ⟨_, rfl, rfl, rfl, rfl⟩
  · rw [sendRequest, bind_error (bind_error (raiseIf_true (not_lt.1 hid) ..))]
    exact ⟨_, rfl, rfl, rfl, rfl⟩

theorem invoke_refused (hid : ¬(p.sessions s).reqIndex < 2 ^ 16) (emitFails : Bool) :
    stateAfter (invokeRequest s false emitFails) p =
      p.next s (p.entered s) p.currentQuestionNb (p.invocations + 1) [] [] := by
  rw [stateAfter, invokeRequest, bind_ok (get_apply _), bind_ok (set_apply ..),
    invocation_next (s := s)]
  simp only [Bool.false_eq_true, if_false]
  rw [bind_ok enter_next, sendRequest,
    bind_error (bind_error (raiseIf_true (not_lt.1 hid) ..))]

theorem invoke_sent (hid : (p.sessions s).reqIndex < 2 ^ 16) :
    stateAfter (invokeRequest s false false) p =
      p.next s { p.entered s with rcode := .noError } p.currentQuestionNb (p.invocations + 1)
        [] [] := by
  rw [stateAfter, invokeRequest, bind_ok (get_apply _), bind_ok (set_apply ..),
    invocation_next (s := s)]
  simp only [Bool.false_eq_true, if_false]
  rw [bind_ok enter_next, bind_ok (sendRequest_next hid _),
    onlyIf_false (by simp), pure_apply]

theorem invoke_unsent (hid : (p.sessions s).reqIndex < 2 ^ 16) {q : PendingQuery}
    {t : List (Option PendingQuery)}
    (h : SlotTable.take (fun q => q.requestId == (p.sessions s).reqIndex)
      (p.entered s).pendingReqs = some (q, t)) :
    stateAfter (invokeRequest s false true) p =
      p.next s { p.entered s with rcode := .noError, pendingReqs := t } p.currentQuestionNb
        (p.invocations + 1) [.failed p.invocations] [] := by
  rw [stateAfter, invokeRequest, bind_ok (get_apply _), bind_ok (set_apply ..),
    invocation_next (s := s)]
  simp only [Bool.false_eq_true, if_false]
  rw [bind_ok enter_next, bind_ok (sendRequest_next hid _), onlyIf_true rfl,
    bind_ok (getPendingRequest_some (x := { p.entered s with rcode := .noError }) h),
    complete_next]
  rfl

theorem Changes.refl (p : DnsProcess) (s : Nat) : Changes p p s (p.outstanding s) [] [] where
  other _ _ := rfl
  outstanding := .refl _
  completions := (List.append_nil _).symm
  queued := (List.append_nil _).symm

/-- What the process knows between two events. -/
structure Tracked (p : DnsProcess) : Prop where
  answerable : p.Answerable
  currentQuestionNb : p.currentQuestionNb < 2 ^ 16
  known : ∀ s, ∀ q ∈ p.outstanding s, q.req < p.invocations

theorem entered_perm : (SlotTable.occupants (p.entered s).pendingReqs).Perm
    (⟨p.invocations, (p.sessions s).reqIndex⟩ :: p.outstanding s) := SlotTable.insert_perm ..

theorem Answerable.nil (h : p.Answerable)
    (hx : ¬((p.sessions s).isOpen = true ∧ (p.sessions s).role = .client)) :
    p.outstanding s = [] := by
  by_contra hne
  exact hx ⟨h.isOpen s hne, h.role s hne⟩

theorem perform_invoke (hr : (p.sessions s).role = .client) (oneway emitFails : Bool) :
    p.perform (.invoke s oneway emitFails) =
      stateAfter (invokeRequest s oneway (emitFails || !(p.sessions s).isOpen)) p := by
  rw [perform, if_pos hr]

theorem pairs_other (h : p.Answerable) (hr : (p.sessions s).role ≠ .client)
    (oneway emitFails : Bool) : p.Pairs (.invoke s oneway emitFails) := by
  have hp : p.perform (.invoke s oneway emitFails) = p := if_neg hr
  rw [Pairs, hp]
  refine ⟨h, ?_⟩
  rw [Invoked, if_pos (.inl hr)]
  exact .refl p s

theorem pairs_oneway (h : p.Answerable) (hr : (p.sessions s).role = .client) (emitFails : Bool) :
    p.Pairs (.invoke s true emitFails) := by
  obtain ⟨x, hrun, hreqs, hopen, hrole⟩ := invoke_oneway (p := p) (s := s)
    (emitFails || !(p.sessions s).isOpen)
  have hocc : SlotTable.occupants x.pendingReqs = p.outstanding s := by rw [hreqs]; rfl
  rw [Pairs, perform_invoke hr, hrun]
  refine ⟨h.next ?_ ?_ ?_, ?_⟩
  · rw [hocc]
    exact h.nodup s
  · rw [hocc]
    exact h.lt s
  · rw [hocc, hopen, hrole]
    exact fun hne => ⟨h.isOpen s hne, h.role s hne⟩
  · rw [Invoked, if_pos (.inr rfl)]
    exact changes_next (.of_eq hocc)

/-- The id of a request does not fit on the wire, and the request stays in the table. -/
theorem not_pairs_refused (hr : (p.sessions s).role = .client)
    (hid : ¬(p.sessions s).reqIndex < 2 ^ 16) (emitFails : Bool) :
    ¬p.Pairs (.invoke s false emitFails) := by
  rintro ⟨hanswer, -⟩
  rw [perform_invoke hr, invoke_refused hid] at hanswer
  have hmem : ⟨p.invocations, (p.sessions s).reqIndex⟩ ∈
      (p.next s (p.entered s) p.currentQuestionNb (p.invocations + 1) [] []).outstanding s := by
    rw [next_self]
    exact entered_perm.mem_iff.2 List.mem_cons_self
  exact hid (hanswer.lt s _ hmem)

theorem pairs_sent (h : p.Answerable) (hr : (p.sessions s).role = .client)
    (ho : (p.sessions s).isOpen = true) (hid : (p.sessions s).reqIndex < 2 ^ 16) :
    p.Pairs (.invoke s false false) ↔
      ∀ q ∈ p.outstanding s, q.requestId ≠ (p.sessions s).reqIndex := by
  have hrun := invoke_sent hid
  have hperform : p.perform (.invoke s false false) = p.next s
      { p.entered s with rcode := .noError } p.currentQuestionNb (p.invocations + 1) [] [] := by
    rw [perform_invoke hr, ho]
    exact hrun
  have hids := (entered_perm (p := p) (s := s)).map PendingQuery.requestId
  constructor
  · rintro ⟨hanswer, -⟩ q hq heq
    have hnodup := hanswer.nodup s
    rw [hperform, next_self, hids.nodup_iff, List.map_cons, List.nodup_cons] at hnodup
    exact hnodup.1 (List.mem_map.2 ⟨q, hq, heq⟩)
  · intro hfree
    rw [Pairs, hperform]
    refine ⟨h.next ?_ ?_ ?_, ?_⟩
    · rw [hids.nodup_iff, List.map_cons, List.nodup_cons]
      refine ⟨?_, h.nodup s⟩
      rw [List.mem_map]
      rintro ⟨q, hq, heq⟩
      exact hfree q hq heq
    · intro q hq
      rcases List.mem_cons.1 (entered_perm.mem_iff.1 hq) with rfl | hq
      · exact hid
      · exact h.lt s q hq
    · exact fun _ => ⟨ho, hr⟩
    · rw [Invoked, if_neg (by simp [hr]), if_neg (by simp [ho])]
      exact ⟨_, changes_next entered_perm⟩

theorem pairs_unsent (h : p.Tracked) (hr : (p.sessions s).role = .client) {emitFails : Bool}
    (ho : emitFails = true ∨ (p.sessions s).isOpen = false)
    (hid : (p.sessions s).reqIndex < 2 ^ 16) :
    p.Pairs (.invoke s false emitFails) ↔ ∀ q ∈ SlotTable.front (p.sessions s).pendingReqs,
      q.requestId ≠ (p.sessions s).reqIndex := by
  have hflag : (emitFails || !(p.sessions s).isOpen) = true := by simpa using ho
  have hperform : p.perform (.invoke s false emitFails) =
      stateAfter (invokeRequest s false true) p := by
    rw [perform_invoke hr, hflag]
  have hnew : (fun q : PendingQuery => q.requestId == (p.sessions s).reqIndex)
      ⟨p.invocations, (p.sessions s).reqIndex⟩ = true := by simp
  constructor
  · rintro ⟨-, hchanges⟩ q hq heq
    obtain ⟨z, hz, t', htake, hmem⟩ := SlotTable.take_insert_front
      (x := (⟨p.invocations, (p.sessions s).reqIndex⟩ : PendingQuery))
      (p := fun q => q.requestId == (p.sessions s).reqIndex) hq (by simpa using heq)
    rw [Invoked, if_neg (by simp [hr]), if_pos ho, hperform, invoke_unsent hid htake] at hchanges
    have hperm := hchanges.outstanding
    rw [next_self] at hperm
    exact lt_irrefl _ (h.known s _ (hperm.mem_iff.1 hmem))
  · intro hfree
    obtain ⟨t', htake, hocc⟩ := SlotTable.take_insert
      (p := fun q => q.requestId == (p.sessions s).reqIndex) hnew
      fun (q : PendingQuery) hq => by simpa using hfree q hq
    rw [Pairs, hperform, invoke_unsent hid htake]
    refine ⟨h.answerable.next ?_ ?_ ?_, ?_⟩
    · simp only [hocc]
      exact h.answerable.nodup s
    · simp only [hocc]
      exact h.answerable.lt s
    · simp only [hocc]
      exact fun hne => ⟨h.answerable.isOpen s hne, hr⟩
    · rw [Invoked, if_neg (by simp [hr]), if_pos ho]
      exact changes_next (.of_eq hocc)

theorem pairs_invoke_iff (h : p.Tracked) (s : Nat) (oneway emitFails : Bool) :
    p.Pairs (.invoke s oneway emitFails) ↔ p.Clear (.invoke s oneway emitFails) := by
  rw [Clear]
  by_cases hr : (p.sessions s).role = .client
  · cases oneway with
    | true =>
      exact iff_of_true (pairs_oneway h.answerable hr emitFails) fun _ hf => Bool.noConfusion hf
    | false =>
      by_cases hid : (p.sessions s).reqIndex < 2 ^ 16
      · have hclear : ((p.sessions s).role = .client → false = false →
            (p.sessions s).reqIndex < 2 ^ 16 ∧
              ∀ q ∈ p.rivals s emitFails, q.requestId ≠ (p.sessions s).reqIndex) ↔
            ∀ q ∈ p.rivals s emitFails, q.requestId ≠ (p.sessions s).reqIndex :=
          ⟨fun hc => (hc hr rfl).2, fun hc _ _ => ⟨hid, hc⟩⟩
        rw [hclear, rivals]
        by_cases ho : emitFails = true ∨ (p.sessions s).isOpen = false
        · rw [if_pos ho]
          exact pairs_unsent h hr ho hid
        · rw [if_neg ho]
          rw [not_or, Bool.not_eq_true, Bool.not_eq_false] at ho
          rw [ho.1]
          exact pairs_sent h.answerable hr ho.2 hid
      · exact ⟨fun hp => absurd hp (not_pairs_refused hr hid emitFails),
          fun hc => absurd (hc hr rfl).1 hid⟩
  · exact ⟨fun _ hf => absurd hf hr, fun _ => pairs_other h.answerable hr oneway emitFails⟩

end Invocations

/-! ## Messages -/

section Messages

variable {p : DnsProcess} {s : Nat} {m : DnsMessage} {h : DnsHeader} {questions : List DnsQuestion}
  {hasRecords : Bool}

/-- The session once the header of a message was read. -/
def headed (p : DnsProcess) (s : Nat) (h : DnsHeader) : DnsSession :=
  { p.sessions s with rcode := h.rcode (p.sessions s).rcode }

/-- The process once the header of a message was read. -/
abbrev opened (p : DnsProcess) (s : Nat) (h : DnsHeader) : DnsProcess :=
  p.next s (p.headed s h) p.currentQuestionNb p.invocations [] []

theorem indication_opened : handleDataIndication s (.message h questions hasRecords) p =
    processMessage s h questions hasRecords (p.opened s h) := by
  rw [handleDataIndication, bind_ok (modify_apply ..)]
  simp [next, headed, setSession]

theorem perform_ok {p' : DnsProcess} (ho : (p.sessions s).isOpen = true)
    (hm : handleDataIndication s m p = .ok () p') : p.perform (.receive s m) = p' := by
  rw [perform, if_pos ho, receive, stateAfter_ok (tryCatch_ok hm)]

theorem perform_error {e : DnsFault} {x : DnsSession} {c : Nat} (ho : (p.sessions s).isOpen = true)
    (hm : handleDataIndication s m p = .error e (p.next s x c p.invocations [] [])) :
    p.perform (.receive s m) = p.next s { x with isOpen := false, pendingReqs := [] } c
      p.invocations ((SlotTable.occupants x.pendingReqs).map fun q => .failed q.req) [] := by
  rw [perform, if_pos ho, receive, stateAfter, tryCatch_error hm, handleDisconnect_next,
    List.nil_append]

theorem Answerable.closed (ha : p.Answerable) {x : DnsSession} {c i : Nat}
    {completions : List DnsCompletion} {queued : List (Text × List (Option DnsQuestion))} :
    (p.next s { x with isOpen := false, pendingReqs := [] } c i completions queued).Answerable :=
  ha.next List.nodup_nil (fun _ hq => (List.not_mem_nil hq).elim) fun hne => (hne rfl).elim

theorem pairs_of_error (ha : p.Answerable) (ho : (p.sessions s).isOpen = true) {e : DnsFault}
    {x : DnsSession} {c : Nat}
    (hm : handleDataIndication s m p = .error e (p.next s x c p.invocations [] []))
    (hx : SlotTable.occupants x.pendingReqs = p.outstanding s)
    (hid : ∀ id, (p.sessions s).replyId m = some id → ∀ q ∈ p.outstanding s, q.requestId ≠ id)
    (hasked : (p.sessions s).asked m = []) :
    p.Pairs (.receive s m) ↔ p.outstanding s = [] := by
  rw [Pairs, perform_error ho hm, hx]
  constructor
  · rintro ⟨-, hr⟩
    have hnil : ∀ {o : List PendingQuery} {queued : List (Text × List (Option DnsQuestion))},
        Changes p (p.next s { x with isOpen := false, pendingReqs := [] } c p.invocations
          ((p.outstanding s).map fun q => .failed q.req) []) s o [] queued →
        p.outstanding s = [] := by
      intro o queued hch
      exact List.map_eq_nil_iff.1 (List.append_cancel_left hch.completions)
    rw [Received] at hr
    cases hi : (p.sessions s).replyId m with
    | none =>
      simp only [hi] at hr
      exact hnil hr
    | some id =>
      simp only [hi] at hr
      rcases hr with ⟨q, hq, heq, -⟩ | ⟨-, hr⟩
      · exact absurd heq (hid id hi q hq)
      · exact hnil hr
  · intro hnil
    refine ⟨ha.closed, ?_⟩
    have hch : Changes p (p.next s { x with isOpen := false, pendingReqs := [] } c p.invocations
        [] []) s (p.outstanding s) [] [] := changes_next (.of_eq hnil.symm)
    have hcompletions : ((p.outstanding s).map fun q => DnsCompletion.failed q.req) = [] := by
      rw [hnil]
      rfl
    rw [hcompletions, Received]
    cases hi : (p.sessions s).replyId m with
    | none => exact hasked ▸ hch
    | some id => exact .inr ⟨hid id hi, hch⟩

theorem pairs_truncated (ha : p.Answerable) (ho : (p.sessions s).isOpen = true) :
    p.Pairs (.receive s .truncatedHeader) ↔ p.outstanding s = [] := by
  have hm : handleDataIndication s .truncatedHeader p =
      .error .endOfData (p.next s (p.sessions s) p.currentQuestionNb p.invocations [] []) := by
    rw [next_init]
    rfl
  exact pairs_of_error ha ho hm rfl (fun _ hi => by cases hi) rfl

theorem pairs_closed (ha : p.Answerable) (ho : ¬(p.sessions s).isOpen = true) :
    p.Pairs (.receive s m) := by
  have hp : p.perform (.receive s m) = p := if_neg ho
  have hi : (p.sessions s).replyId m = none := by
    cases m with
    | truncatedHeader => rfl
    | message h questions hasRecords => exact if_neg fun hc => ho hc.1
  have hasked : (p.sessions s).asked m = [] := by
    cases m with
    | truncatedHeader => rfl
    | message h questions hasRecords => exact if_neg fun hc => ho hc.1
  rw [Pairs, hp, Received]
  simp only [hi, hasked]
  exact ⟨ha, .refl p s⟩

end Messages

/-! ## Messages at a client -/

section Client

variable {p : DnsProcess} {s : Nat} {h : DnsHeader} {questions : List DnsQuestion}
  {hasRecords : Bool} {q : PendingQuery} {t : List (Option PendingQuery)}

theorem processMessage_reply (hr : (p.sessions s).role = .client)
    (hf : DnsHeader.isSet DnsHeader.qrFlagPos h.flags = true) :
    processMessage s h questions hasRecords (p.opened s h) =
      replyReceived s h.requestId.toNat (h.rcode (p.sessions s).rcode) hasRecords
        (p.opened s h) := by
  have hrole : ¬(p.headed s h).role ≠ .client := fun hne => hne hr
  rw [processMessage, bind_ok (get_apply _), if_pos hf, sessions_next_self,
    bind_ok (raiseIf_false hrole ..), headed]

theorem asked_client (hr : (p.sessions s).role = .client) :
    (p.sessions s).asked (.message h questions hasRecords) = [] :=
  if_neg fun hc => by simp [hr] at hc

theorem indication_unexpected (hr : (p.sessions s).role = .client)
    (hf : ¬DnsHeader.isSet DnsHeader.qrFlagPos h.flags = true) :
    handleDataIndication s (.message h questions hasRecords) p =
      .error .dnsError (p.opened s h) := by
  have hrole : (p.headed s h).role ≠ .server := by simp [headed, hr]
  rw [indication_opened, processMessage, bind_ok (get_apply _), if_neg hf, sessions_next_self,
    bind_error (raiseIf_true hrole ..)]

theorem indication_unknown (hr : (p.sessions s).role = .client)
    (hf : DnsHeader.isSet DnsHeader.qrFlagPos h.flags = true)
    (ht : SlotTable.take (fun q => q.requestId == h.requestId.toNat)
      (p.sessions s).pendingReqs = none) :
    handleDataIndication s (.message h questions hasRecords) p =
      .error .dnsError (p.opened s h) := by
  rw [indication_opened, processMessage_reply hr hf, replyReceived,
    bind_ok (getPendingRequest_none (x := p.headed s h) ht)]
  rfl

theorem pairs_unexpected (ha : p.Answerable) (ho : (p.sessions s).isOpen = true)
    (hr : (p.sessions s).role = .client)
    (hf : ¬DnsHeader.isSet DnsHeader.qrFlagPos h.flags = true) :
    p.Pairs (.receive s (.message h questions hasRecords)) ↔ p.outstanding s = [] := by
  refine pairs_of_error ha ho (indication_unexpected hr hf) rfl (fun id hi => ?_) (asked_client hr)
  rw [DnsSession.replyId, if_neg fun hc => hf hc.2.2] at hi
  cases hi

theorem pairs_unknown (ha : p.Answerable) (ho : (p.sessions s).isOpen = true)
    (hr : (p.sessions s).role = .client)
    (hf : DnsHeader.isSet DnsHeader.qrFlagPos h.flags = true)
    (ht : SlotTable.take (fun q => q.requestId == h.requestId.toNat)
      (p.sessions s).pendingReqs = none) :
    p.Pairs (.receive s (.message h questions hasRecords)) ↔ p.outstanding s = [] := by
  refine pairs_of_error ha ho (indication_unknown hr hf ht) rfl (fun id hi q hq => ?_)
    (asked_client hr)
  rw [DnsSession.replyId, if_pos ⟨ho, hr, hf⟩] at hi
  cases hi
  simpa using SlotTable.take_eq_none.1 ht q hq

/-- The entry of the request is cleared before the records of the reply are read. -/
theorem indication_lost (hr : (p.sessions s).role = .client)
    (hf : DnsHeader.isSet DnsHeader.qrFlagPos h.flags = true)
    (ht : SlotTable.take (fun q => q.requestId == h.requestId.toNat)
      (p.sessions s).pendingReqs = some (q, t))
    (hb : h.rcode (p.sessions s).rcode = .noError ∧ hasRecords = false) :
    handleDataIndication s (.message h questions hasRecords) p = .error .endOfData
      (p.next s { p.headed s h with pendingReqs := t } p.currentQuestionNb p.invocations
        [] []) := by
  rw [indication_opened, processMessage_reply hr hf, replyReceived,
    bind_ok (getPendingRequest_some (x := p.headed s h) ht)]
  exact bind_error (raiseIf_true hb ..)

theorem indication_answered (hr : (p.sessions s).role = .client)
    (hf : DnsHeader.isSet DnsHeader.qrFlagPos h.flags = true)
    (ht : SlotTable.take (fun q => q.requestId == h.requestId.toNat)
      (p.sessions s).pendingReqs = some (q, t))
    (hb : ¬(h.rcode (p.sessions s).rcode = .noError ∧ hasRecords = false)) :
    handleDataIndication s (.message h questions hasRecords) p = .ok ()
      (p.next s { p.headed s h with pendingReqs := t } p.currentQuestionNb p.invocations
        [.answered q.req] []) := by
  rw [indication_opened, processMessage_reply hr hf, replyReceived,
    bind_ok (getPendingRequest_some (x := p.headed s h) ht)]
  exact (bind_ok (raiseIf_false hb ..)).trans (complete_next _)

theorem not_pairs_lost (ho : (p.sessions s).isOpen = true) (hr : (p.sessions s).role = .client)
    (hf : DnsHeader.isSet DnsHeader.qrFlagPos h.flags = true)
    (ht : SlotTable.take (fun q => q.requestId == h.requestId.toNat)
      (p.sessions s).pendingReqs = some (q, t))
    (hb : h.rcode (p.sessions s).rcode = .noError ∧ hasRecords = false) :
    ¬p.Pairs (.receive s (.message h questions hasRecords)) := by
  rintro ⟨-, hrec⟩
  have hi : (p.sessions s).replyId (.message h questions hasRecords) =
      some h.requestId.toNat := if_pos ⟨ho, hr, hf⟩
  rw [perform_error ho (indication_lost hr hf ht hb), Received] at hrec
  simp only [hi] at hrec
  rcases hrec with ⟨q', -, -, hch⟩ | ⟨hne, -⟩
  · have hc := List.append_cancel_left hch.completions
    cases hocc : SlotTable.occupants t <;> simp [hocc] at hc
  · exact hne q (SlotTable.mem_of_take ht) (by simpa using (SlotTable.take_eq_some ht).1)

theorem pairs_answered (ha : p.Answerable) (ho : (p.sessions s).isOpen = true)
    (hr : (p.sessions s).role = .client)
    (hf : DnsHeader.isSet DnsHeader.qrFlagPos h.flags = true)
    (ht : SlotTable.take (fun q => q.requestId == h.requestId.toNat)
      (p.sessions s).pendingReqs = some (q, t))
    (hb : ¬(h.rcode (p.sessions s).rcode = .noError ∧ hasRecords = false)) :
    p.Pairs (.receive s (.message h questions hasRecords)) := by
  have hi : (p.sessions s).replyId (.message h questions hasRecords) =
      some h.requestId.toNat := if_pos ⟨ho, hr, hf⟩
  obtain ⟨hq, hperm⟩ := SlotTable.take_eq_some ht
  have hmem : q ∈ p.outstanding s := SlotTable.mem_of_take ht
  have hrest : (SlotTable.occupants t).Perm ((p.outstanding s).erase q) := by
    have hcons := List.perm_cons_erase hmem
    exact (List.perm_cons q).1 (hperm.symm.trans hcons)
  rw [Pairs, perform_ok ho (indication_answered hr hf ht hb), Received]
  simp only [hi]
  refine ⟨ha.next ?_ ?_ fun _ => ⟨ho, hr⟩, .inl ⟨q, hmem, by simpa using hq, ?_⟩⟩
  · have hids := (hperm.map PendingQuery.requestId).nodup_iff.1 (ha.nodup s)
    exact (List.nodup_cons.1 hids).2
  · exact fun q' hq' => ha.lt s q' (hperm.mem_iff.2 (List.mem_cons_of_mem q hq'))
  · exact changes_next hrest

theorem pairs_client_iff (ha : p.Answerable) (ho : (p.sessions s).isOpen = true)
    (hr : (p.sessions s).role = .client) :
    p.Pairs (.receive s (.message h questions hasRecords)) ↔ p.outstanding s = [] ∨
      DnsHeader.isSet DnsHeader.qrFlagPos h.flags = true ∧
      (∃ q ∈ p.outstanding s, q.requestId = h.requestId.toNat) ∧
      (h.rcode (p.sessions s).rcode = .noError → hasRecords = true) := by
  by_cases hf : DnsHeader.isSet DnsHeader.qrFlagPos h.flags = true
  · cases ht : SlotTable.take (fun q : PendingQuery => q.requestId == h.requestId.toNat)
        (p.sessions s).pendingReqs with
    | none =>
      rw [pairs_unknown ha ho hr hf ht]
      refine ⟨.inl, fun hc => hc.elim id fun hc => ?_⟩
      obtain ⟨-, ⟨q, hq, heq⟩, -⟩ := hc
      have hne := SlotTable.take_eq_none.1 ht q hq
      simp [heq] at hne
    | some r =>
      obtain ⟨q, t⟩ := r
      have hmem : q ∈ p.outstanding s := SlotTable.mem_of_take ht
      have heq : q.requestId = h.requestId.toNat := by simpa using (SlotTable.take_eq_some ht).1
      by_cases hb : h.rcode (p.sessions s).rcode = .noError ∧ hasRecords = false
      · refine iff_of_false (not_pairs_lost ho hr hf ht hb) ?_
        rintro (hnil | ⟨-, -, hc⟩)
        · rw [hnil] at hmem
          cases hmem
        · exact Bool.false_ne_true (hb.2.symm.trans (hc hb.1))
      · refine iff_of_true (pairs_answered ha ho hr hf ht hb) (.inr ⟨hf, ⟨q, hmem, heq⟩, ?_⟩)
        exact fun hrc => Bool.not_eq_false _ ▸ fun hn => hb ⟨hrc, hn⟩
  · rw [pairs_unexpected ha ho hr hf]
    exact ⟨.inl, fun hc => hc.elim id fun hc => absurd hc.1 hf⟩

end Client

/-! ## Messages at a server -/

section Server

variable {p : DnsProcess} {s : Nat} {h : DnsHeader} {questions : List DnsQuestion}
  {hasRecords : Bool}

theorem replyId_server (hr : (p.sessions s).role ≠ .client) :
    (p.sessions s).replyId (.message h questions hasRecords) = none :=
  if_neg fun hc => hr hc.2.1

theorem role_server (hr : (p.sessions s).role ≠ .client) : (p.sessions s).role = .server := by
  cases hrole : (p.sessions s).role with
  | client => exact absurd hrole hr
  | server => rfl

theorem Answerable.server (ha : p.Answerable) (hr : (p.sessions s).role ≠ .client) :
    p.outstanding s = [] := ha.nil fun hc => hr hc.2

theorem asked_of_not (hn : ¬((p.sessions s).isOpen = true ∧ (p.sessions s).role = .server ∧
    DnsHeader.isSet DnsHeader.qrFlagPos h.flags = false ∧ h.WellFormed questions)) :
    (p.sessions s).asked (.message h questions hasRecords) = [] := if_neg hn

theorem indication_misdirected (hr : (p.sessions s).role ≠ .client)
    (hf : DnsHeader.isSet DnsHeader.qrFlagPos h.flags = true) :
    handleDataIndication s (.message h questions hasRecords) p =
      .error .dnsError (p.opened s h) := by
  have hrole : (p.headed s h).role ≠ .client := hr
  rw [indication_opened, processMessage, bind_ok (get_apply _), if_pos hf, sessions_next_self,
    bind_error (raiseIf_true hrole ..)]

theorem processMessage_request (hr : (p.sessions s).role ≠ .client)
    (hf : ¬DnsHeader.isSet DnsHeader.qrFlagPos h.flags = true) :
    processMessage s h questions hasRecords (p.opened s h) =
      processRequest h questions (p.opened s h) := by
  have hrole : ¬(p.headed s h).role ≠ .server := fun hne => hne (role_server hr)
  rw [processMessage, bind_ok (get_apply _), if_neg hf, sessions_next_self,
    bind_ok (raiseIf_false hrole ..)]

theorem indication_asked (hr : (p.sessions s).role ≠ .client)
    (hf : ¬DnsHeader.isSet DnsHeader.qrFlagPos h.flags = true) (hw : h.WellFormed questions)
    (hc : h.nbQuestions = 0 ∨ p.currentQuestionNb = 0) :
    handleDataIndication s (.message h questions hasRecords) p = .ok ()
      (p.next s (p.headed s h) 0 p.invocations []
        [(h.requestOpcode, (questions.take h.nbQuestions.toNat).map some)]) := by
  rw [indication_opened, processMessage_request hr hf,
    processRequest_ok (p := p.opened s h) hw hc]
  simp [next]

theorem indication_stopped (questions : List DnsQuestion) (hasRecords : Bool)
    (hp : p.currentQuestionNb < 2 ^ 16)
    (hr : (p.sessions s).role ≠ .client)
    (hf : ¬DnsHeader.isSet DnsHeader.qrFlagPos h.flags = true)
    (hn : ¬(h.WellFormed questions ∧ (h.nbQuestions = 0 ∨ p.currentQuestionNb = 0))) :
    ∃ e, ∃ c < 2 ^ 16, handleDataIndication s (.message h questions hasRecords) p =
      .error e (p.next s (p.headed s h) c p.invocations [] []) := by
  obtain ⟨e, c, hc, he⟩ := processRequest_error (p := p.opened s h) hp hn
  refine ⟨e, c, hc, ?_⟩
  rw [indication_opened, processMessage_request hr hf, he]
  rfl

theorem pairs_misdirected (ha : p.Answerable) (ho : (p.sessions s).isOpen = true)
    (hr : (p.sessions s).role ≠ .client)
    (hf : DnsHeader.isSet DnsHeader.qrFlagPos h.flags = true) :
    p.Pairs (.receive s (.message h questions hasRecords)) := by
  refine (pairs_of_error ha ho (indication_misdirected hr hf) rfl (fun id hi => ?_)
    (asked_of_not fun hc => ?_)).2 (ha.server hr)
  · rw [replyId_server hr] at hi
    cases hi
  · rw [hf] at hc
    exact Bool.noConfusion hc.2.2.1

theorem pairs_asked (ha : p.Answerable) (ho : (p.sessions s).isOpen = true)
    (hr : (p.sessions s).role ≠ .client)
    (hf : ¬DnsHeader.isSet DnsHeader.qrFlagPos h.flags = true) (hw : h.WellFormed questions)
    (hc : h.nbQuestions = 0 ∨ p.currentQuestionNb = 0) :
    p.Pairs (.receive s (.message h questions hasRecords)) := by
  have hasked : (p.sessions s).asked (.message h questions hasRecords) =
      [(h.requestOpcode, (questions.take h.nbQuestions.toNat).map some)] :=
    if_pos ⟨ho, role_server hr, Bool.not_eq_true _ ▸ hf, hw⟩
  have hocc : SlotTable.occupants (p.headed s h).pendingReqs = [] := ha.server hr
  rw [Pairs, perform_ok ho (indication_asked hr hf hw hc), Received]
  simp only [replyId_server hr, hasked]
  refine ⟨ha.next ?_ ?_ ?_, changes_next (.refl _)⟩ <;> simp [hocc]

theorem pairs_server_iff (ha : p.Answerable) (hp : p.currentQuestionNb < 2 ^ 16)
    (ho : (p.sessions s).isOpen = true) (hr : (p.sessions s).role ≠ .client) :
    p.Pairs (.receive s (.message h questions hasRecords)) ↔
      (DnsHeader.isSet DnsHeader.qrFlagPos h.flags = false → h.WellFormed questions →
        h.nbQuestions = 0 ∨ p.currentQuestionNb = 0) := by
  by_cases hf : DnsHeader.isSet DnsHeader.qrFlagPos h.flags = true
  · refine iff_of_true (pairs_misdirected ha ho hr hf) fun hn => ?_
    exact absurd (hn.symm.trans hf) Bool.false_ne_true
  · have hf' := Bool.not_eq_true _ ▸ hf
    by_cases hw : h.WellFormed questions
    · by_cases hc : h.nbQuestions = 0 ∨ p.currentQuestionNb = 0
      · exact iff_of_true (pairs_asked ha ho hr hf hw hc) fun _ _ => hc
      · refine iff_of_false (fun hpairs => ?_) fun hn => hc (hn hf' hw)
        obtain ⟨e, c, -, hm⟩ :=
          indication_stopped questions hasRecords hp hr hf fun hn => hc hn.2
        have hasked : (p.sessions s).asked (.message h questions hasRecords) =
            [(h.requestOpcode, (questions.take h.nbQuestions.toNat).map some)] :=
          if_pos ⟨ho, role_server hr, hf', hw⟩
        rw [Pairs, perform_error ho hm, Received] at hpairs
        simp only [replyId_server hr, hasked] at hpairs
        have hqueued := List.append_cancel_left hpairs.2.queued
        cases hqueued
    · obtain ⟨e, c, -, hm⟩ :=
        indication_stopped questions hasRecords hp hr hf fun hn => hw hn.1
      refine iff_of_true ((pairs_of_error ha ho hm rfl (fun id hi => ?_)
        (asked_of_not fun hc => hw hc.2.2.2)).2 (ha.server hr)) fun _ hw' => absurd hw' hw
      rw [replyId_server hr] at hi
      cases hi

end Server

theorem pairs_receive_iff {p : DnsProcess} (hp : p.Tracked) (s : Nat) (m : DnsMessage) :
    p.Pairs (.receive s m) ↔ p.Clear (.receive s m) := by
  by_cases ho : (p.sessions s).isOpen = true
  · cases m with
    | truncatedHeader => exact pairs_truncated hp.answerable ho
    | message h questions hasRecords =>
      rw [Clear]
      by_cases hr : (p.sessions s).role = .client
      · rw [if_pos hr, pairs_client_iff hp.answerable ho hr]
        exact ⟨fun hc _ => hc, fun hc => hc ho⟩
      · rw [if_neg hr, pairs_server_iff hp.answerable hp.currentQuestionNb ho hr]
        exact ⟨fun hc _ => hc, fun hc => hc ho⟩
  · refine iff_of_true (pairs_closed hp.answerable ho) ?_
    cases m with
    | truncatedHeader => exact hp.answerable.nil fun hc => ho hc.1
    | message h questions hasRecords => exact fun hc => absurd hc ho

end DnsProcess

end PolyORB
