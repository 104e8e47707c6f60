import PolyORB.Dns.Sessions

/-!
# Pairing DNS requests and replies

`Pairs` says what an event has to do with the requests that are outstanding, and `Clear` when it
does so.
-/

namespace PolyORB

open Program

namespace DnsProcess

/-- The requests of a session that wait for a reply. -/
def outstanding (p : DnsProcess) (s : Nat) : List PendingQuery :=
  SlotTable.occupants (p.sessions s).pendingReqs

/-- Each outstanding request can be answered: a reply can carry its id, and no other has it. -/
structure Answerable (p : DnsProcess) : Prop where
  nodup : ∀ s, ((p.outstanding s).map PendingQuery.requestId).Nodup
  lt : ∀ s, ∀ q ∈ p.outstanding s, q.requestId < 2 ^ 16
  isOpen : ∀ s, p.outstanding s ≠ [] → (p.sessions s).isOpen = true
  role : ∀ s, p.outstanding s ≠ [] → (p.sessions s).role = .client

/-- What changes from `p` to `p'`: the requests outstanding in session `s` become `o`, and there are
new completions and new requests for the responder. -/
structure Changes (p p' : DnsProcess) (s : Nat) (o : List PendingQuery)
    (completions : List DnsCompletion) (queued : List (Text × List (Option DnsQuestion))) :
    Prop where
  other : ∀ t ≠ s, p'.outstanding t = p.outstanding t
  outstanding : (p'.outstanding s).Perm o
  completions : p'.completions = p.completions ++ completions
  queued : p'.queued = p.queued ++ queued

end DnsProcess

/-- The questions that the header announces can be read. -/
def DnsHeader.WellFormed (h : DnsHeader) (questions : List DnsQuestion) : Prop :=
  h.nbQuestions.toNat ≤ questions.length ∧
    ∀ q ∈ questions.take h.nbQuestions.toNat, q.Supported

instance (h : DnsHeader) (questions : List DnsQuestion) : Decidable (h.WellFormed questions) :=
  inferInstanceAs (Decidable (_ ∧ _))

namespace DnsSession

def replyId (x : DnsSession) : DnsMessage → Option Nat
  | .truncatedHeader => none
  | .message h _ _ =>
    if x.isOpen = true ∧ x.role = .client ∧ DnsHeader.isSet DnsHeader.qrFlagPos h.flags = true then
      some h.requestId.toNat
    else none

/-- The request that a well-formed message brings to a server. -/
def asked (x : DnsSession) : DnsMessage → List (Text × List (Option DnsQuestion))
  | .truncatedHeader => []
  | .message h questions _ =>
    if x.isOpen = true ∧ x.role = .server ∧ DnsHeader.isSet DnsHeader.qrFlagPos h.flags = false ∧
        h.WellFormed questions then
      [(h.requestOpcode, (questions.take h.nbQuestions.toNat).map some)]
    else []

end DnsSession

namespace DnsProcess

/-- An invocation adds one request, unless it is oneway or fails. -/
def Invoked (p p' : DnsProcess) (s : Nat) (oneway emitFails : Bool) : Prop :=
  if (p.sessions s).role ≠ .client ∨ oneway = true then Changes p p' s (p.outstanding s) [] []
  else if emitFails = true ∨ (p.sessions s).isOpen = false then
    Changes p p' s (p.outstanding s) [.failed p.invocations] []
  else ∃ id, Changes p p' s (⟨p.invocations, id⟩ :: p.outstanding s) [] []

/-- A reply completes the request with its id, if there is one.  Any other message completes none,
and a well-formed request is decoded as if it were the first. -/
def Received (p p' : DnsProcess) (s : Nat) (m : DnsMessage) : Prop :=
  match (p.sessions s).replyId m with
  | some id =>
    (∃ q ∈ p.outstanding s, q.requestId = id ∧
      Changes p p' s ((p.outstanding s).erase q) [.answered q.req] []) ∨
    (∀ q ∈ p.outstanding s, q.requestId ≠ id) ∧ Changes p p' s (p.outstanding s) [] []
  | none => Changes p p' s (p.outstanding s) [] ((p.sessions s).asked m)

/-- What an event has to do, and that it leaves each outstanding request answerable. -/
def Pairs (p : DnsProcess) : DnsEvent → Prop
  | .invoke s oneway emitFails =>
    (p.perform (.invoke s oneway emitFails)).Answerable ∧
      p.Invoked (p.perform (.invoke s oneway emitFails)) s oneway emitFails
  | .receive s m =>
    (p.perform (.receive s m)).Answerable ∧ p.Received (p.perform (.receive s m)) s m

/-- The requests among which the id of a new one must not be; when it cannot be sent, it is removed
by its id. -/
def rivals (p : DnsProcess) (s : Nat) (emitFails : Bool) : List PendingQuery :=
  if emitFails = true ∨ (p.sessions s).isOpen = false then
    SlotTable.front (p.sessions s).pendingReqs
  else p.outstanding s

/-- The next id fits on the wire and is free.  On a client with outstanding requests nothing arrives
but the reply to one of them, with all its records.  A request arrives when the questions of the one
before were all read. -/
def Clear (p : DnsProcess) : DnsEvent → Prop
  | .invoke s oneway emitFails => (p.sessions s).role = .client → oneway = false →
    (p.sessions s).reqIndex < 2 ^ 16 ∧
      ∀ q ∈ p.rivals s emitFails, q.requestId ≠ (p.sessions s).reqIndex
  | .receive s .truncatedHeader => p.outstanding s = []
  | .receive s (.message h questions hasRecords) => (p.sessions s).isOpen = true →
    if (p.sessions s).role = .client then
      p.outstanding s = [] ∨
        DnsHeader.isSet DnsHeader.qrFlagPos h.flags = true ∧
        (∃ q ∈ p.outstanding s, q.requestId = h.requestId.toNat) ∧
        (h.rcode (p.sessions s).rcode = .noError → hasRecords = true)
    else DnsHeader.isSet DnsHeader.qrFlagPos h.flags = false → h.WellFormed questions →
      h.nbQuestions = 0 ∨ p.currentQuestionNb = 0

/-! ## Questions -/

section Questions

variable {p : DnsProcess}

theorem readQuestions_frame (n : Nat) : ∀ (qs : List DnsQuestion) (seq : List (Option DnsQuestion))
    (p : DnsProcess), p.currentQuestionNb < 2 ^ 16 → ∃ c < 2 ^ 16,
      stateAfter (readQuestions n qs seq) p = { p with currentQuestionNb := c } := by
  induction n with
  | zero => exact fun _ _ p hp => ⟨_, hp, rfl⟩
  | succ n ih =>
    intro qs seq p hp
    cases qs with
    | nil => exact ⟨_, hp, rfl⟩
    | cons q qs =>
      by_cases hq : q.Supported
      · have hc : (p.currentQuestionNb + 1) % 2 ^ 16 < 2 ^ 16 := Nat.mod_lt _ (by decide)
        rw [stateAfter, readQuestions, bind_ok (raiseIf_false (not_not.2 hq) ..),
          bind_ok (modify_apply ..), bind_ok (get_apply _)]
        by_cases hi : (p.currentQuestionNb + 1) % 2 ^ 16 = 0 ∨
            seq.length < (p.currentQuestionNb + 1) % 2 ^ 16
        · rw [bind_error (raiseIf_true hi ..)]
          exact ⟨_, hc, rfl⟩
        · rw [bind_ok (raiseIf_false hi ..)]
          exact ih qs _ { p with currentQuestionNb := (p.currentQuestionNb + 1) % 2 ^ 16 } hc
      · rw [stateAfter, readQuestions, bind_error (raiseIf_true hq ..)]
        exact ⟨_, hp, rfl⟩

theorem readQuestions_succ_ok {n : Nat} {qs : List DnsQuestion}
    {seq seq' : List (Option DnsQuestion)} {p' : DnsProcess}
    (h : readQuestions (n + 1) qs seq p = .ok seq' p') : ∃ q qs', qs = q :: qs' ∧ q.Supported ∧
      ¬((p.currentQuestionNb + 1) % 2 ^ 16 = 0 ∨
        seq.length < (p.currentQuestionNb + 1) % 2 ^ 16) ∧
      readQuestions n qs' (seq.set ((p.currentQuestionNb + 1) % 2 ^ 16 - 1) (some q))
        { p with currentQuestionNb := (p.currentQuestionNb + 1) % 2 ^ 16 } = .ok seq' p' := by
  cases qs with
  | nil => cases h
  | cons q qs =>
    by_cases hq : q.Supported
    · rw [readQuestions, bind_ok (raiseIf_false (not_not.2 hq) ..), bind_ok (modify_apply ..),
        bind_ok (get_apply _)] at h
      by_cases hi : (p.currentQuestionNb + 1) % 2 ^ 16 = 0 ∨
          seq.length < (p.currentQuestionNb + 1) % 2 ^ 16
      · rw [bind_error (raiseIf_true hi ..)] at h
        cases h
      · rw [bind_ok (raiseIf_false hi ..)] at h
        exact ⟨q, qs, rfl, hq, hi, h⟩
    · rw [readQuestions, bind_error (raiseIf_true hq ..)] at h
      cases h

theorem wellFormed_of_readQuestions (n : Nat) : ∀ {qs : List DnsQuestion}
    {seq seq' : List (Option DnsQuestion)} {p p' : DnsProcess},
    readQuestions n qs seq p = .ok seq' p' → n ≤ qs.length ∧ ∀ q ∈ qs.take n, q.Supported := by
  induction n with
  | zero => exact fun _ => ⟨Nat.zero_le _, fun q hq => by simp at hq⟩
  | succ n ih =>
    intro qs seq seq' p p' h
    obtain ⟨q, qs', rfl, hq, -, hrest⟩ := readQuestions_succ_ok h
    obtain ⟨hlen, hall⟩ := ih hrest
    refine ⟨Nat.succ_le_succ hlen, fun q' hq' => ?_⟩
    rw [List.take_succ_cons, List.mem_cons] at hq'
    rcases hq' with rfl | hq'
    · exact hq
    · exact hall q' hq'

theorem not_readQuestions_of_pos (n : Nat) : ∀ {qs : List DnsQuestion}
    {seq seq' : List (Option DnsQuestion)} {p p' : DnsProcess},
    seq.length < p.currentQuestionNb + (n + 1) → p.currentQuestionNb < 2 ^ 16 →
      readQuestions (n + 1) qs seq p ≠ .ok seq' p' := by
  induction n with
  | zero =>
    intro qs seq seq' p p' hlen hc h
    obtain ⟨q, qs', rfl, -, hi, -⟩ := readQuestions_succ_ok h
    omega
  | succ n ih =>
    intro qs seq seq' p p' hlen hc h
    obtain ⟨q, qs', rfl, -, hi, hrest⟩ := readQuestions_succ_ok h
    refine ih ?_ ?_ hrest
    · rw [List.length_set]
      show seq.length < (p.currentQuestionNb + 1) % 2 ^ 16 + (n + 1)
      omega
    · exact Nat.mod_lt _ (by decide)

theorem readQuestions_ok (n : Nat) : ∀ (qs done : List DnsQuestion) (p : DnsProcess),
    p.currentQuestionNb = done.length → done.length + n < 2 ^ 16 → n ≤ qs.length →
    (∀ q ∈ qs.take n, q.Supported) →
    readQuestions n qs (done.map some ++ List.replicate n none) p =
      .ok ((done ++ qs.take n).map some) { p with currentQuestionNb := done.length + n } := by
  induction n with
  | zero =>
    intro qs done p hp _ _ _
    simp [readQuestions, ← hp]
  | succ n ih =>
    intro qs done p hp hlt hlen hall
    cases qs with
    | nil => simp at hlen
    | cons q qs =>
      have hq : q.Supported := hall q (by simp)
      have hc : (p.currentQuestionNb + 1) % 2 ^ 16 = done.length + 1 := by omega
      have hset : (done.map some ++ List.replicate (n + 1) none).set done.length (some q) =
          (done ++ [q]).map some ++ List.replicate n none := by
        simp [List.replicate_succ]
      have hin : ¬((p.currentQuestionNb + 1) % 2 ^ 16 = 0 ∨
          (done.map some ++ List.replicate (n + 1) (none : Option DnsQuestion)).length <
            (p.currentQuestionNb + 1) % 2 ^ 16) := by
        rw [hc]
        simp
      have hrest := ih qs (done ++ [q]) { p with currentQuestionNb := done.length + 1 }
        (by simp) (by simp; omega) (by simpa using hlen)
        fun q' hq' => hall q' (by simp [hq'])
      rw [readQuestions, bind_ok (raiseIf_false (not_not.2 hq) ..), bind_ok (modify_apply ..),
        bind_ok (get_apply _), bind_ok (raiseIf_false hin ..)]
      simp only [hc, Nat.add_sub_cancel]
      rw [hset, hrest]
      simp [Nat.add_assoc, Nat.add_comm 1 n]

end Questions

section Requests

variable {p : DnsProcess} {h : DnsHeader} {questions : List DnsQuestion}

theorem processRequest_ok (hw : h.WellFormed questions)
    (hc : h.nbQuestions = 0 ∨ p.currentQuestionNb = 0) :
    processRequest h questions p = .ok () { p with
      currentQuestionNb := 0
      queued := p.queued ++
        [(h.requestOpcode, (questions.take h.nbQuestions.toNat).map some)] } := by
  have hread : ∃ c, readQuestions h.nbQuestions.toNat questions
      (List.replicate h.nbQuestions.toNat none) p =
      .ok ((questions.take h.nbQuestions.toNat).map some) { p with currentQuestionNb := c } := by
    rcases hc with hn | hc
    · rw [hn]
      exact ⟨_, rfl⟩
    · have hlt : h.nbQuestions.toNat < 2 ^ 16 := h.nbQuestions.toNat_lt
      exact ⟨_, readQuestions_ok _ questions [] p hc (by simpa using hlt) hw.1 hw.2⟩
  obtain ⟨c, hread⟩ := hread
  simp only [processRequest]
  rw [bind_ok hread, modify_apply]

theorem processRequest_error (hp : p.currentQuestionNb < 2 ^ 16)
    (hn : ¬(h.WellFormed questions ∧ (h.nbQuestions = 0 ∨ p.currentQuestionNb = 0))) :
    ∃ e, ∃ c < 2 ^ 16, processRequest h questions p =
      .error e { p with currentQuestionNb := c } := by
  obtain ⟨c, hc, hframe⟩ := readQuestions_frame h.nbQuestions.toNat questions
    (List.replicate h.nbQuestions.toNat none) p hp
  simp only [processRequest]
  cases hread : readQuestions h.nbQuestions.toNat questions
      (List.replicate h.nbQuestions.toNat none) p with
  | error e p' =>
    rw [stateAfter_error hread] at hframe
    rw [bind_error hread, hframe]
    exact ⟨e, c, hc, rfl⟩
  | ok seq p' =>
    exfalso
    refine hn ⟨wellFormed_of_readQuestions _ hread, ?_⟩
    by_contra hboth
    rw [not_or] at hboth
    obtain ⟨n, hn⟩ : ∃ n, h.nbQuestions.toNat = n + 1 := by
      refine Nat.exists_eq_succ_of_ne_zero fun hzero => hboth.1 ?_
      exact UInt16.toNat_inj.1 hzero
    rw [hn] at hread
    refine not_readQuestions_of_pos n ?_ hp hread
    rw [List.length_replicate]
    omega

end Requests

/-! ## Effects on one session -/

def next (p : DnsProcess) (s : Nat) (x : DnsSession) (c i : Nat)
    (completions : List DnsCompletion) (queued : List (Text × List (Option DnsQuestion))) :
    DnsProcess where
  sessions := Function.update p.sessions s x
  currentQuestionNb := c
  invocations := i
  completions := p.completions ++ completions
  queued := p.queued ++ queued

section Next

variable {p : DnsProcess} {s c i : Nat} {x : DnsSession} {o : List PendingQuery}
  {completions : List DnsCompletion} {queued : List (Text × List (Option DnsQuestion))}

theorem sessions_next_self : (p.next s x c i completions queued).sessions s = x :=
  Function.update_self ..

theorem sessions_next_other {t : Nat} (h : t ≠ s) :
    (p.next s x c i completions queued).sessions t = p.sessions t := Function.update_of_ne h ..

theorem next_self : (p.next s x c i completions queued).outstanding s =
    SlotTable.occupants x.pendingReqs := by
  rw [outstanding, sessions_next_self]

theorem next_other {t : Nat} (h : t ≠ s) :
    (p.next s x c i completions queued).outstanding t = p.outstanding t := by
  rw [outstanding, sessions_next_other h, outstanding]

theorem changes_next (h : (SlotTable.occupants x.pendingReqs).Perm o) :
    Changes p (p.next s x c i completions queued) s o completions queued where
  other _ ht := next_other ht
  outstanding := next_self ▸ h
  completions := rfl
  queued := rfl

theorem Answerable.next (h : p.Answerable)
    (hnodup : ((SlotTable.occupants x.pendingReqs).map PendingQuery.requestId).Nodup)
    (hlt : ∀ q ∈ SlotTable.occupants x.pendingReqs, q.requestId < 2 ^ 16)
    (hx : SlotTable.occupants x.pendingReqs ≠ [] → x.isOpen = true ∧ x.role = .client) :
    (p.next s x c i completions queued).Answerable where
  nodup t := by
    by_cases ht : t = s
    · rw [ht, next_self]
      exact hnodup
    · rw [next_other ht]
      exact h.nodup t
  lt t := by
    by_cases ht : t = s
    · rw [ht, next_self]
      exact hlt
    · rw [next_other ht]
      exact h.lt t
  isOpen t := by
    by_cases ht : t = s
    · rw [ht, next_self, sessions_next_self]
      exact fun hne => (hx hne).1
    · rw [next_other ht, sessions_next_other ht]
      exact h.isOpen t
  role t := by
    by_cases ht : t = s
    · rw [ht, next_self, sessions_next_self]
      exact fun hne => (hx hne).2
    · rw [next_other ht, sessions_next_other ht]
      exact h.role t

theorem next_init : p.next s (p.sessions s) p.currentQuestionNb p.invocations [] [] = p := by
  rw [next, Function.update_eq_self, List.append_nil, List.append_nil]

theorem setSession_next (y : DnsSession) : (p.next s x c i completions queued).setSession s y =
    p.next s y c i completions queued := by
  rw [setSession, next, next, Function.update_idem]

theorem complete_next (d : DnsCompletion) : complete d (p.next s x c i completions queued) =
    .ok () (p.next s x c i (completions ++ [d]) queued) := by
  rw [complete, modify_apply, next, next, List.append_assoc]

theorem handleDisconnect_next : handleDisconnect s (p.next s x c i completions queued) =
    .ok () (p.next s { x with isOpen := false, pendingReqs := [] } c i
      (completions ++ (SlotTable.occupants x.pendingReqs).map fun q => .failed q.req) queued) := by
  rw [handleDisconnect, modify_apply, setSession_next, sessions_next_self]
  simp [next]

theorem getRequestId_next : getRequestId s (p.next s x c i completions queued) =
    .ok x.reqIndex (p.next s { x with reqIndex := (x.reqIndex + 1) % unsignedLongModulus } c i
      completions queued) := by
  rw [getRequestId, bind_ok (get_apply _), bind_ok (set_apply ..), setSession_next,
    sessions_next_self, pure_apply]

theorem addPendingRequest_next (req : Nat) :
    addPendingRequest s req (p.next s x c i completions queued) =
      .ok x.reqIndex (p.next s { x with
        reqIndex := (x.reqIndex + 1) % unsignedLongModulus
        pendingReqs := SlotTable.insert ⟨req, x.reqIndex⟩ x.pendingReqs } c i
        completions queued) := by
  rw [addPendingRequest, bind_ok getRequestId_next, bind_ok (modify_apply ..), setSession_next,
    sessions_next_self, pure_apply]

theorem sendRequest_next {id : Nat} (hid : id < 2 ^ 16) (emitFails : Bool) :
    sendRequest s id emitFails (p.next s x c i completions queued) =
      .ok emitFails (p.next s { x with rcode := .noError } c i completions queued) := by
  rw [sendRequest, bind_ok (raiseIf_false (not_le.2 hid) ..), bind_ok (modify_apply ..),
    setSession_next, sessions_next_self, pure_apply]

theorem getPendingRequest_some {id : Nat} {q : PendingQuery} {t : List (Option PendingQuery)}
    (h : SlotTable.take (fun q => q.requestId == id) x.pendingReqs = some (q, t)) :
    getPendingRequest s id (p.next s x c i completions queued) =
      .ok (some q) (p.next s { x with pendingReqs := t } c i completions queued) := by
  rw [getPendingRequest, bind_ok (get_apply _), sessions_next_self]
  simp only [h]
  rw [bind_ok (set_apply ..), setSession_next, pure_apply]

theorem getPendingRequest_none {id : Nat}
    (h : SlotTable.take (fun q => q.requestId == id) x.pendingReqs = none) :
    getPendingRequest s id (p.next s x c i completions queued) =
      .ok none (p.next s x c i completions queued) := by
  rw [getPendingRequest, bind_ok (get_apply _), sessions_next_self]
  simp only [h]
  rfl

end Next

end DnsProcess

end PolyORB
