import PolyORB.Giop.Accounting
import PolyORB.Giop.PendingRequests
import PolyORB.Lib.Runs

/-!
# Runs of a client session

The tasks that invoke requests, and the one that processes the messages of the peer, interleave at
the critical sections of the session.  Beside the session, `ClientSystem` records where each
invocation stands (`calls`, `failing`), where each LocateReply does (`locating`, `removing`), and
what the past was.
-/

namespace PolyORB

open Program (stateAfter evaluate)

/-- A LocateReply that has found the entry of a request. -/
structure Located where
  entry : PendingRequest
  locateId : Nat
  locType : LocateReplyType
  deriving DecidableEq

structure ClientSystem where
  session : GiopSession
  /-- Invocations that have still to send their message. -/
  calls : List Call
  /-- Invocations whose message was not sent, with what `Remove_Pending_Request` answered. -/
  failing : List (Nat × Bool)
  /-- LocateReplies between the two critical sections. -/
  locating : List Located
  /-- LocateReplies that have still to remove their entry, and whether they completed its request. -/
  removing : List (Nat × Bool)
  /-- Requests that a LocateReply has completed. -/
  located : List Nat
  drawn : Nat
  /-- How many had been drawn when the id of a request was. -/
  drawnAt : Nat → Nat
  invoked : List Nat
  /-- Requests whose entry was removed by a cancellation, or by a send that failed. -/
  dropped : List Nat

inductive ClientAction where
  | invoke (r : Request)
  | invokeOneway (req : Nat) (outcome : Except Exn (Option SysError))
  | send (c : Call) (outcome : Except Exn (Option SysError))
  | report (req : Nat) (success : Bool)
  | reply (id : Nat) (body : Except Exn Unit)
  | locateReply (locateId : Nat) (locType : LocateReplyType)
  | processLocated (l : Located) (outcome : Except Exn (Option SysError))
      (reference : Except Exn Unit)
  | removeLocated (locateId : Nat) (completed : Bool)
  | cancel (id : Nat) (outcome : Except Exn (Option SysError))
  | disconnect

namespace GiopSession

def executedReq? : Output → Option Nat
  | .executedRequest req => some req
  | _ => none

/-- The requests completed so far. -/
def executed (s : GiopSession) : List Nat := s.outputs.filterMap executedReq?

/-- The requests whose entry `Get_Pending_Request` would remove. -/
def holder (s : GiopSession) (id : Nat) : List Nat :=
  (s.occupants.filter fun p => p.requestId == id).map PendingRequest.req

def Issued (s : GiopSession) (req locateId : Nat) : Prop :=
  .locateRequestSent req locateId ∈ s.outputs

instance (s : GiopSession) (req locateId : Nat) : Decidable (s.Issued req locateId) :=
  inferInstanceAs (Decidable (_ ∈ _))

end GiopSession

namespace ClientSystem

def start (locateThenRequest : Bool) : ClientSystem :=
  { session := .start .client locateThenRequest
    calls := []
    failing := []
    locating := []
    removing := []
    located := []
    drawn := 0
    drawnAt := fun _ => 0
    invoked := []
    dropped := [] }

def perform (s : ClientSystem) : ClientAction → ClientSystem
  | .invoke r =>
    match beginInvoke r s.session with
    | .ok c t =>
      { s with
        session := t
        calls := c :: s.calls
        drawn := s.drawn + if s.session.locateThenRequest then 2 else 1
        drawnAt := Function.update s.drawnAt r.req s.drawn
        invoked := r.req :: s.invoked }
    | .error _ t => { s with session := t }
  | .invokeOneway req outcome =>
    { s with session := stateAfter (invokeOneway req outcome) s.session, drawn := s.drawn + 1 }
  | .send c outcome =>
    match sendInvocation c outcome s.session with
    | .ok none t => { s with session := t, calls := s.calls.erase c }
    | .ok (some success) t =>
      { s with
        session := t
        calls := s.calls.erase c
        failing := (c.req, success) :: s.failing
        dropped := s.session.holder c.requestId ++ s.dropped }
    | .error _ t => { s with session := t, calls := s.calls.erase c }
  | .report req success =>
    { s with
      session := stateAfter (reportFailure req success) s.session
      failing := s.failing.erase (req, success) }
  | .reply id body => { s with session := stateAfter (commonReplyReceived id body) s.session }
  | .locateReply locateId locType =>
    match findLocated locateId locType s.session with
    | .ok p t => { s with session := t, locating := ⟨p, locateId, locType⟩ :: s.locating }
    | .error _ t => { s with session := t }
  | .processLocated l outcome reference =>
    match processLocated l.entry l.locType outcome reference s.session with
    | .ok none t => { s with session := t, locating := s.locating.erase l }
    | .ok (some completed) t =>
      { s with
        session := t
        locating := s.locating.erase l
        removing := (l.locateId, completed) :: s.removing
        located := if completed then l.entry.req :: s.located else s.located }
    | .error _ t => { s with session := t, locating := s.locating.erase l }
  | .removeLocated locateId completed =>
    { s with
      session := stateAfter (removeLocated locateId completed) s.session
      removing := s.removing.erase (locateId, completed) }
  | .cancel id outcome =>
    { s with
      session := stateAfter (commonSendCancelRequest id outcome) s.session
      dropped := s.session.holder id ++ s.dropped }
  | .disconnect => { s with session := stateAfter (handleDisconnect fun _ => false) s.session }

def Possible (s : ClientSystem) : ClientAction → Prop
  | .invoke r => r.req ∉ s.invoked
  | .send c _ => c ∈ s.calls
  | .report req success => (req, success) ∈ s.failing
  | .processLocated l .. => l ∈ s.locating
  | .removeLocated locateId completed => (locateId, completed) ∈ s.removing
  | _ => True

/-- Fewer than 2^32 - 1 ids were drawn since any of the pending requests drew its own. -/
def FewDrawn (s : ClientSystem) : Prop :=
  ∀ req ∈ s.session.pending, s.drawn - (s.drawnAt req + 1) < unsignedLongModulus - 1

instance (s : ClientSystem) : Decidable s.FewDrawn :=
  inferInstanceAs (Decidable (∀ req ∈ s.session.pending, _))

instance (s : ClientSystem) : (a : ClientAction) → Decidable (s.Possible a)
  | .invoke r => inferInstanceAs (Decidable (r.req ∉ s.invoked))
  | .send c _ => inferInstanceAs (Decidable (c ∈ s.calls))
  | .report req success => inferInstanceAs (Decidable ((req, success) ∈ s.failing))
  | .processLocated l .. => inferInstanceAs (Decidable (l ∈ s.locating))
  | .removeLocated locateId completed =>
    inferInstanceAs (Decidable ((locateId, completed) ∈ s.removing))
  | .invokeOneway .. | .reply .. | .locateReply .. | .cancel .. | .disconnect =>
    inferInstanceAs (Decidable True)

def Admissible (s : ClientSystem) (a : ClientAction) : Prop :=
  s.Possible a ∧ (s.perform a).FewDrawn

instance (s : ClientSystem) (a : ClientAction) : Decidable (s.Admissible a) :=
  inferInstanceAs (Decidable (_ ∧ _))

/-! ## Rightful completions -/

/-- Ids are unique among the pending requests, and no request was completed twice. -/
def StateCorrect (s : ClientSystem) : Prop :=
  (s.session.occupants.map PendingRequest.requestId).Nodup ∧ s.session.executed.Nodup

def StepCorrect (s : GiopSession) : ClientAction → GiopSession → Prop
  | .invoke _, t => ∀ p ∈ s.occupants, p ∈ t.occupants
  | .reply id _, t =>
    (∃ p ∈ s.occupants, p.requestId = id ∧ s.occupants.Perm (p :: t.occupants) ∧
      t.outputs = s.outputs ++ [.executedRequest p.req]) ∨
    (∀ p ∈ s.occupants, p.requestId ≠ id) ∧ t.pendingReqs = s.pendingReqs ∧ t.outputs = s.outputs
  | .locateReply .., t => t.pendingReqs = s.pendingReqs ∧ t.outputs = s.outputs
  | .processLocated l .., t =>
    t.pendingReqs = s.pendingReqs ∧
      ∃ new, t.outputs = s.outputs ++ new ∧ ∀ o ∈ new,
        (l.entry ∈ s.occupants ∧ s.Issued l.entry.req l.locateId) ∧
          (o = .executedRequest l.entry.req ∨ o = .requestSent l.entry.req l.entry.requestId)
  | .removeLocated locateId _, t =>
    (∀ p ∈ s.occupants, ¬s.Issued p.req locateId → p ∈ t.occupants) ∧
      ((∀ req, ¬s.Issued req locateId) → t.pendingReqs = s.pendingReqs) ∧ t.outputs = s.outputs
  | _, _ => True

def Correct (s : ClientSystem) (a : ClientAction) : Prop :=
  (s.perform a).StateCorrect ∧ StepCorrect s.session a (s.perform a).session

/-- A Reply to a pending request has a body that is read without exception, and neither it nor a
disconnection meets an entry whose request a LocateReply has completed; a LocateReply that completes
or re-sends a request still has its entry in the table, its LocateRequest was issued, and it is not
completed a second time; what it removes had its LocateRequest issued; and when a send has failed, the
entry of its request was removed then or by a cancellation, or the session is connected. -/
def Harmless (s : ClientSystem) : ClientAction → Prop
  | .reply id body =>
    ∀ p ∈ s.session.occupants, p.requestId = id → body = .ok () ∧ p.req ∉ s.located
  | .processLocated l outcome reference =>
    match locateEffect l.entry l.locType outcome reference with
    | .error _ | .ok .forget => True
    | .ok .resend => l.entry ∈ s.session.occupants ∧ s.session.Issued l.entry.req l.locateId
    | .ok .complete =>
      (l.entry ∈ s.session.occupants ∧ s.session.Issued l.entry.req l.locateId) ∧
        l.entry.req ∉ s.located
  | .removeLocated locateId _ =>
    ∀ p t, SlotTable.take (fun p => p.locateReqId == locateId) s.session.pendingReqs =
        some (p, t) →
      s.session.Issued p.req locateId
  | .disconnect => ∀ p ∈ s.session.occupants, p.req ∉ s.located
  | .report req success =>
    success = false ∧ s.session.state ≠ .notInitialized ∨ req ∈ s.dropped
  | _ => True

end ClientSystem

/-! ## The invariant -/

variable {p : PendingRequest}

namespace GiopSession

variable {s t : GiopSession}

theorem executed_append {o : List Output} (h : t.outputs = s.outputs ++ o) :
    t.executed = s.executed ++ o.filterMap executedReq? := by
  rw [executed, h, List.filterMap_append, executed]

theorem mem_pending (h : p ∈ s.occupants) : p.req ∈ s.pending :=
  List.mem_map_of_mem h

theorem pending_perm (h : s.occupants.Perm (p :: t.occupants)) :
    s.pending.Perm (p.req :: t.pending) := h.map PendingRequest.req

theorem issued_append {o : List Output} {req l : Nat} (h : t.outputs = s.outputs ++ o) :
    t.Issued req l ↔ s.Issued req l ∨ .locateRequestSent req l ∈ o := by
  unfold Issued
  rw [h, List.mem_append]

/-- Outputs of another kind issue no LocateRequest. -/
theorem exists_issued_append {o : List Output} {req : Nat} (h : t.outputs = s.outputs ++ o)
    (ho : ∀ l, .locateRequestSent req l ∉ o) : (∃ l, t.Issued req l) ↔ ∃ l, s.Issued req l :=
  exists_congr fun l => (issued_append h).trans (or_iff_left (ho l))

end GiopSession

namespace ClientSystem

variable {s t : ClientSystem}

/-- The requests whose invocation has not returned. -/
def inFlight (s : ClientSystem) : List Nat := s.calls.map Call.req ++ s.failing.map Prod.fst

/-- Each pending request has the id that was drawn for it, and these ids differ. -/
structure Numbered (s : ClientSystem) : Prop where
  reqIndex_eq : s.session.reqIndex = (s.drawn + 1) % unsignedLongModulus
  id_eq : ∀ p ∈ s.session.occupants,
    p.requestId = (s.drawnAt p.req + 1) % unsignedLongModulus
  calls_id : ∀ c ∈ s.calls, c.requestId = (s.drawnAt c.req + 1) % unsignedLongModulus
  drawnAt_lt : ∀ r ∈ s.invoked, s.drawnAt r < s.drawn
  drawnAt_inj : ∀ r ∈ s.invoked, ∀ q ∈ s.invoked, s.drawnAt r = s.drawnAt q → r = q
  few : s.FewDrawn

structure ClientInv (s : ClientSystem) : Prop where
  role_eq : s.session.role = .client
  numbered : s.Numbered
  failing_pending : ∀ f ∈ s.failing, f.1 ∉ s.session.pending
  accounted : Accounted s.session.pending s.session.executed s.dropped s.located s.inFlight
    s.invoked fun r => ∃ l, s.session.Issued r l

theorem clientInv_start (locateThenRequest : Bool) : (start locateThenRequest).ClientInv where
  role_eq := rfl
  numbered :=
    { reqIndex_eq := by simp [start, GiopSession.start, unsignedLongModulus]
      id_eq := fun p hp => absurd hp List.not_mem_nil
      calls_id := fun c hc => absurd hc List.not_mem_nil
      drawnAt_lt := fun r hr => absurd hr List.not_mem_nil
      drawnAt_inj := fun r hr => absurd hr List.not_mem_nil
      few := fun r hr => absurd hr List.not_mem_nil }
  failing_pending := fun f hf => absurd hf List.not_mem_nil
  accounted := by
    refine .nil fun r => ?_
    rintro ⟨l, hl⟩
    exact absurd hl List.not_mem_nil

variable {c : Call}

namespace ClientInv

theorem invoked (h : s.ClientInv) (hp : p ∈ s.session.occupants) :
    p.req ∈ s.invoked :=
  h.accounted.invoked_of _ (.inl (GiopSession.mem_pending hp))

theorem flight_invoked (h : s.ClientInv) (hc : c ∈ s.calls) : c.req ∈ s.invoked :=
  h.accounted.invoked_of _
    (.inr (.inr (.inr (.inl (List.mem_append_left _ (List.mem_map_of_mem hc))))))

theorem req_eq (h : s.ClientInv) {q : PendingRequest} (hp : p ∈ s.session.occupants)
    (hq : q ∈ s.session.occupants) (hid : p.requestId = q.requestId) : p.req = q.req := by
  have hpi := h.invoked hp
  have hqi := h.invoked hq
  refine h.numbered.drawnAt_inj _ hpi _ hqi ?_
  have hp1 := h.numbered.drawnAt_lt _ hpi
  have hq1 := h.numbered.drawnAt_lt _ hqi
  have hp2 := h.numbered.few _ (GiopSession.mem_pending hp)
  have hq2 := h.numbered.few _ (GiopSession.mem_pending hq)
  rw [h.numbered.id_eq p hp, h.numbered.id_eq q hq] at hid
  unfold unsignedLongModulus at *
  omega

theorem occupants_nodup (h : s.ClientInv) : s.session.occupants.Nodup :=
  h.accounted.pending_nodup.of_map _

theorem eq_of_req_eq (h : s.ClientInv) {q : PendingRequest} (hp : p ∈ s.session.occupants)
    (hq : q ∈ s.session.occupants) (hreq : p.req = q.req) : p = q :=
  List.inj_on_of_nodup_map h.accounted.pending_nodup hp hq hreq

theorem not_located (h : s.ClientInv) (hp : p ∈ s.session.occupants)
    (he : p.req ∉ s.session.executed) : p.req ∉ s.located := fun hl =>
  he ((h.accounted.mem_executed_iff (GiopSession.mem_pending hp)).mpr hl)

theorem stateCorrect (h : s.ClientInv) : s.StateCorrect := by
  refine ⟨h.occupants_nodup.map_on fun p hp q hq hid => ?_, h.accounted.executed_nodup⟩
  exact h.eq_of_req_eq hp hq (h.req_eq hp hq hid)

theorem not_pending_of_call (h : s.ClientInv) (hc : c ∈ s.calls)
    (hno : ∀ p ∈ s.session.occupants, p.requestId ≠ c.requestId) : c.req ∉ s.session.pending := by
  intro hm
  obtain ⟨q, hq, hqc⟩ := List.mem_map.mp hm
  refine hno q hq ?_
  rw [h.numbered.id_eq q hq, h.numbered.calls_id c hc, hqc]

theorem holder_eq (h : s.ClientInv) (hp : p ∈ s.session.occupants) :
    s.session.holder p.requestId = [p.req] := by
  have hfilter : s.session.occupants.filter (fun q => q.requestId == p.requestId) =
      s.session.occupants.filter (fun q => q == p) := by
    refine List.filter_congr fun q hq => ?_
    by_cases hqp : q = p
    · simp [hqp]
    · have hne : q.requestId ≠ p.requestId :=
        fun hid => hqp (h.eq_of_req_eq hq hp (h.req_eq hq hp hid))
      rw [beq_eq_false_iff_ne.mpr hne, beq_eq_false_iff_ne.mpr hqp]
  rw [GiopSession.holder, hfilter, List.filter_beq,
    List.count_eq_one_of_mem h.occupants_nodup hp]
  rfl

theorem holder_nil {id : Nat} (h : ∀ p ∈ s.session.occupants, p.requestId ≠ id) :
    s.session.holder id = [] := by
  rw [GiopSession.holder, List.filter_eq_nil_iff.mpr fun p hp => by simpa using h p hp]
  rfl

end ClientInv

theorem Numbered.shrink (h : s.Numbered) (hidx : t.session.reqIndex = s.session.reqIndex)
    (hocc : ∀ p ∈ t.session.occupants, p ∈ s.session.occupants)
    (hcalls : ∀ c ∈ t.calls, c ∈ s.calls) (hdrawn : t.drawn = s.drawn)
    (hat : t.drawnAt = s.drawnAt) (hinv : t.invoked = s.invoked) : t.Numbered where
  reqIndex_eq := by rw [hidx, hdrawn, h.reqIndex_eq]
  id_eq := fun p hp => by rw [hat, h.id_eq p (hocc p hp)]
  calls_id := fun c hc => by rw [hat, h.calls_id c (hcalls c hc)]
  drawnAt_lt := by
    rw [hat, hinv, hdrawn]
    exact h.drawnAt_lt
  drawnAt_inj := by
    rw [hat, hinv]
    exact h.drawnAt_inj
  few := by
    intro r hr
    obtain ⟨p, hp, rfl⟩ := List.mem_map.mp hr
    rw [hat, hdrawn]
    exact h.few _ (GiopSession.mem_pending (hocc p hp))

namespace ClientInv

/-! ## What the steps keep -/

theorem inState (h : s.ClientInv) (state : GiopState) (asked : Nat) :
    ClientInv { s with session := { s.session with state := state, asked := asked } } :=
  ⟨h.role_eq, h.numbered.shrink rfl (fun _ hq => hq) (fun _ hc => hc) rfl rfl rfl,
    h.failing_pending, h.accounted⟩

theorem listen (h : s.ClientInv) : ClientInv { s with session := s.session.listening } :=
  h.inState .expectHeader (s.session.asked + 1)

variable {u : List (Option PendingRequest)}

theorem complete (h : s.ClientInv) (hperm : s.session.occupants.Perm (p :: SlotTable.occupants u))
    (hnot : p.req ∉ s.located) :
    ClientInv { s with session := { s.session with
      pendingReqs := u, outputs := s.session.outputs ++ [.executedRequest p.req] } } where
  role_eq := h.role_eq
  numbered := h.numbered.shrink rfl (fun _ hq => hperm.mem_iff.mpr (List.mem_cons_of_mem _ hq))
    (fun _ hc => hc) rfl rfl rfl
  failing_pending := fun f hf hm => h.failing_pending f hf
    ((GiopSession.pending_perm hperm).mem_iff.mpr (List.mem_cons_of_mem _ hm))
  accounted := by
    rw [GiopSession.executed_append rfl]
    refine Accounted.complete (Q := [p.req]) (h.accounted.congr (GiopSession.pending_perm hperm)
      (.refl _) fun r => GiopSession.exists_issued_append rfl (by simp)) ?_
    rintro r hr
    rwa [List.mem_singleton.mp hr]

/-- A LocateReply completes the request of an entry, which stays in the table. -/
theorem locate (h : s.ClientInv) (hp : p ∈ s.session.occupants) {l : Nat}
    (hl : s.session.Issued p.req l) (hnot : p.req ∉ s.located) :
    ClientInv { s with
      session := { s.session with outputs := s.session.outputs ++ [.executedRequest p.req] }
      located := p.req :: s.located } where
  role_eq := h.role_eq
  numbered := h.numbered.shrink rfl (fun _ hq => hq) (fun _ hc => hc) rfl rfl rfl
  failing_pending := h.failing_pending
  accounted := by
    rw [GiopSession.executed_append rfl]
    exact (h.accounted.locate (GiopSession.mem_pending hp) hnot ⟨l, hl⟩).congr (.refl _) (.refl _)
      fun r => GiopSession.exists_issued_append rfl (by simp)

theorem drop (h : s.ClientInv)
    (hperm : s.session.occupants.Perm (p :: SlotTable.occupants u)) (new : List Output) (id : Nat)
    (hnew : ∀ o ∈ new, o = .cancelRequestSent id) :
    ClientInv { s with
      session := { s.session with pendingReqs := u, outputs := s.session.outputs ++ new }
      dropped := p.req :: s.dropped } where
  role_eq := h.role_eq
  numbered := h.numbered.shrink rfl (fun _ hq => hperm.mem_iff.mpr (List.mem_cons_of_mem _ hq))
    (fun _ hc => hc) rfl rfl rfl
  failing_pending := fun f hf hm => h.failing_pending f hf
    ((GiopSession.pending_perm hperm).mem_iff.mpr (List.mem_cons_of_mem _ hm))
  accounted := by
    have hexec : new.filterMap GiopSession.executedReq? = [] := by
      refine List.filterMap_eq_nil_iff.mpr fun o ho => ?_
      rw [hnew o ho]
      rfl
    rw [GiopSession.executed_append rfl, hexec, List.append_nil]
    refine Accounted.drop (h.accounted.congr (GiopSession.pending_perm hperm) (.refl _) fun r =>
      GiopSession.exists_issued_append rfl fun l hm => ?_)
    cases hnew _ hm

theorem forget (h : s.ClientInv)
    (hperm : s.session.occupants.Perm (p :: SlotTable.occupants u)) {l : Nat}
    (hl : s.session.Issued p.req l) :
    ClientInv { s with session := { s.session with pendingReqs := u } } where
  role_eq := h.role_eq
  numbered := h.numbered.shrink rfl (fun _ hq => hperm.mem_iff.mpr (List.mem_cons_of_mem _ hq))
    (fun _ hc => hc) rfl rfl rfl
  failing_pending := fun f hf hm => h.failing_pending f hf
    ((GiopSession.pending_perm hperm).mem_iff.mpr (List.mem_cons_of_mem _ hm))
  accounted :=
    (h.accounted.congr (GiopSession.pending_perm hperm) (.refl _) fun _ => Iff.rfl).forget
      (h.accounted.issued_done _ ⟨l, hl⟩)

theorem resend (h : s.ClientInv) (req id : Nat) :
    ClientInv { s with session := { s.session with
      outputs := s.session.outputs ++ [.requestSent req id] } } where
  role_eq := h.role_eq
  numbered := h.numbered.shrink rfl (fun _ hq => hq) (fun _ hc => hc) rfl rfl rfl
  failing_pending := h.failing_pending
  accounted := by
    rw [GiopSession.executed_append rfl]
    exact (List.append_nil s.session.executed).symm ▸ h.accounted.congr (.refl _) (.refl _)
      fun r => GiopSession.exists_issued_append rfl (by simp)

theorem inFlight_perm (hc : c ∈ s.calls) :
    s.inFlight.Perm (c.req :: ((s.calls.erase c).map Call.req ++ s.failing.map Prod.fst)) :=
  ((List.perm_cons_erase hc).map Call.req).append_right _

theorem land (h : s.ClientInv) (hc : c ∈ s.calls) (new : List Output)
    (hnew : ∀ o ∈ new, (∃ id, o = .requestSent c.req id) ∨ ∃ l, o = .locateRequestSent c.req l) :
    ClientInv { s with
      session := { s.session with outputs := s.session.outputs ++ new }
      calls := s.calls.erase c } where
  role_eq := h.role_eq
  numbered := h.numbered.shrink rfl (fun _ hq => hq) (fun _ => List.mem_of_mem_erase) rfl rfl rfl
  failing_pending := h.failing_pending
  accounted := by
    have hexec : new.filterMap GiopSession.executedReq? = [] := by
      refine List.filterMap_eq_nil_iff.mpr fun o ho => ?_
      rcases hnew o ho with ⟨id, rfl⟩ | ⟨l, rfl⟩ <;> rfl
    rw [GiopSession.executed_append rfl, hexec, List.append_nil]
    refine (h.accounted.congr (.refl _) (inFlight_perm hc) fun _ => Iff.rfl).land ?_ ?_
    · rintro q ⟨l, hl⟩
      exact ⟨l, (GiopSession.issued_append rfl).mpr (.inl hl)⟩
    rintro q ⟨l, hl⟩
    rcases (GiopSession.issued_append rfl).mp hl with hl | hl
    · exact .inl ⟨l, hl⟩
    · rcases hnew _ hl with ⟨id, heq⟩ | ⟨l', heq⟩
      · cases heq
      · injection heq with heq
        exact .inr heq

theorem fail (h : s.ClientInv) (hc : c ∈ s.calls) (success : Bool)
    (hnot : c.req ∉ s.session.pending) :
    ClientInv { s with calls := s.calls.erase c, failing := (c.req, success) :: s.failing } where
  role_eq := h.role_eq
  numbered := h.numbered.shrink rfl (fun _ hq => hq) (fun _ => List.mem_of_mem_erase) rfl rfl rfl
  failing_pending := by
    intro f hf
    rcases List.mem_cons.mp hf with rfl | hf
    · exact hnot
    · exact h.failing_pending f hf
  accounted := by
    refine h.accounted.congr (.refl _) ((inFlight_perm hc).trans ?_) fun _ => Iff.rfl
    exact List.perm_middle.symm

theorem reported (h : s.ClientInv) {req : Nat} {success : Bool} (hf : (req, success) ∈ s.failing)
    (hd : req ∈ s.dropped) :
    ClientInv { s with
      session := { s.session with outputs := s.session.outputs ++ [.executedRequest req] }
      failing := s.failing.erase (req, success) } where
  role_eq := h.role_eq
  numbered := h.numbered.shrink rfl (fun _ hq => hq) (fun _ hc => hc) rfl rfl rfl
  failing_pending := fun f hf => h.failing_pending f (List.mem_of_mem_erase hf)
  accounted := by
    rw [GiopSession.executed_append rfl]
    have hF : s.inFlight.Perm (req ::
        (s.calls.map Call.req ++ (s.failing.erase (req, success)).map Prod.fst)) :=
      (((List.perm_cons_erase hf).map Prod.fst).append_left _).trans List.perm_middle
    exact (h.accounted.congr (.refl _) hF fun r =>
      GiopSession.exists_issued_append rfl (by simp)).report hd

theorem unreported (h : s.ClientInv) {req : Nat} {success : Bool}
    (hf : (req, success) ∈ s.failing) :
    ClientInv { s with failing := s.failing.erase (req, success) } where
  role_eq := h.role_eq
  numbered := h.numbered.shrink rfl (fun _ hq => hq) (fun _ hc => hc) rfl rfl rfl
  failing_pending := fun f hf => h.failing_pending f (List.mem_of_mem_erase hf)
  accounted := by
    have hF : s.inFlight.Perm (req ::
        (s.calls.map Call.req ++ (s.failing.erase (req, success)).map Prod.fst)) :=
      (((List.perm_cons_erase hf).map Prod.fst).append_left _).trans List.perm_middle
    exact (h.accounted.congr (.refl _) hF fun _ => Iff.rfl).land (fun _ => id) fun _ => .inl

theorem disconnect (h : s.ClientInv) (hnot : ∀ p ∈ s.session.occupants, p.req ∉ s.located) :
    ClientInv { s with session := { s.session with
      state := .notInitialized
      pendingReqs := []
      outputs := s.session.outputs ++ s.session.pending.map .executedRequest } } where
  role_eq := h.role_eq
  numbered := h.numbered.shrink rfl (fun _ hq => absurd hq List.not_mem_nil) (fun _ hc => hc) rfl
    rfl rfl
  failing_pending := fun _ _ => List.not_mem_nil
  accounted := by
    have hexec : (s.session.pending.map Output.executedRequest).filterMap
        GiopSession.executedReq? = s.session.pending := by
      rw [List.filterMap_map]
      exact List.filterMap_some
    rw [GiopSession.executed_append rfl, hexec]
    refine Accounted.complete (h.accounted.congr ?_ (.refl _) fun r =>
      GiopSession.exists_issued_append rfl (by simp)) fun r hr => ?_
    · exact (List.append_nil _).symm ▸ .refl _
    · obtain ⟨q, hq, rfl⟩ := List.mem_map.mp hr
      exact hnot q hq

theorem draw (h : s.ClientInv) (hfew : FewDrawn { s with drawn := s.drawn + 1 }) :
    ClientInv { s with
      session := { s.session with reqIndex := (s.session.reqIndex + 1) % unsignedLongModulus }
      drawn := s.drawn + 1 } where
  role_eq := h.role_eq
  numbered :=
    { reqIndex_eq := by
        show (s.session.reqIndex + 1) % unsignedLongModulus = _
        rw [h.numbered.reqIndex_eq, Nat.mod_add_mod]
      id_eq := h.numbered.id_eq
      calls_id := h.numbered.calls_id
      drawnAt_lt := fun r hr => Nat.lt_succ_of_lt (h.numbered.drawnAt_lt r hr)
      drawnAt_inj := h.numbered.drawnAt_inj
      few := hfew }
  failing_pending := h.failing_pending
  accounted := h.accounted

theorem invoke (h : s.ClientInv) {u : GiopSession} {n : Nat}
    (hnew : p.req ∉ s.invoked) (hc : c.req = p.req) (hcid : c.requestId = p.requestId)
    (hid : p.requestId = s.session.reqIndex)
    (hperm : u.occupants.Perm (p :: s.session.occupants))
    (hout : u.outputs = s.session.outputs) (hrole : u.role = s.session.role) (hn : 0 < n)
    (hidx : u.reqIndex = (s.session.reqIndex + n) % unsignedLongModulus) (hfew : FewDrawn { s with
      session := u
      drawn := s.drawn + n
      drawnAt := Function.update s.drawnAt p.req s.drawn }) :
    ClientInv { s with
      session := u
      calls := c :: s.calls
      drawn := s.drawn + n
      drawnAt := Function.update s.drawnAt p.req s.drawn
      invoked := p.req :: s.invoked } where
  role_eq := hrole.trans h.role_eq
  numbered :=
    { reqIndex_eq := by
        show u.reqIndex = _
        rw [hidx, h.numbered.reqIndex_eq, Nat.mod_add_mod]
        congr 1
        show s.drawn + 1 + n = s.drawn + n + 1
        omega
      id_eq := by
        intro q hq
        show q.requestId = (Function.update s.drawnAt p.req s.drawn q.req + 1) % _
        rcases List.mem_cons.mp (hperm.mem_iff.mp hq) with rfl | hq
        · rw [Function.update_self, hid, h.numbered.reqIndex_eq]
        · rw [Function.update_of_ne fun heq : q.req = p.req => hnew (heq ▸ h.invoked hq)]
          exact h.numbered.id_eq q hq
      calls_id := by
        intro d hd
        show d.requestId = (Function.update s.drawnAt p.req s.drawn d.req + 1) % _
        rcases List.mem_cons.mp hd with rfl | hd
        · rw [hc, Function.update_self, hcid, hid, h.numbered.reqIndex_eq]
        · rw [Function.update_of_ne fun heq : d.req = p.req => hnew (heq ▸ h.flight_invoked hd)]
          exact h.numbered.calls_id d hd
      drawnAt_lt := by
        intro r hr
        show Function.update s.drawnAt p.req s.drawn r < s.drawn + n
        by_cases hrp : r = p.req
        · rw [hrp, Function.update_self]
          omega
        · rw [Function.update_of_ne hrp]
          have := h.numbered.drawnAt_lt r ((List.mem_cons.mp hr).resolve_left hrp)
          omega
      drawnAt_inj := by
        -- the new request was drawn after all the others
        have hlt : ∀ r ∈ p.req :: s.invoked, r ≠ p.req → s.drawnAt r < s.drawn := fun r hr hrp =>
          h.numbered.drawnAt_lt r ((List.mem_cons.mp hr).resolve_left hrp)
        intro r hr q hq heq
        replace heq : Function.update s.drawnAt p.req s.drawn r =
          Function.update s.drawnAt p.req s.drawn q := heq
        by_cases hrp : r = p.req <;> by_cases hqp : q = p.req
        · rw [hrp, hqp]
        · rw [hrp, Function.update_self, Function.update_of_ne hqp] at heq
          have := hlt q hq hqp
          omega
        · rw [hqp, Function.update_self, Function.update_of_ne hrp] at heq
          have := hlt r hr hrp
          omega
        · rw [Function.update_of_ne hrp, Function.update_of_ne hqp] at heq
          exact h.numbered.drawnAt_inj r ((List.mem_cons.mp hr).resolve_left hrp) q
            ((List.mem_cons.mp hq).resolve_left hqp) heq
      few := hfew }
  failing_pending := by
    intro f hf hm
    rcases List.mem_cons.mp ((hperm.map PendingRequest.req).mem_iff.mp hm) with heq | hm
    · refine hnew (heq ▸ h.accounted.invoked_of f.1 (.inr (.inr (.inr (.inl ?_)))))
      exact List.mem_append_right _ (List.mem_map_of_mem hf)
    · exact h.failing_pending f hf hm
  accounted := by
    have hexec : u.executed = s.session.executed := by rw [GiopSession.executed, hout]; rfl
    rw [hexec]
    have hacc := h.accounted.invoke hnew
    refine hacc.congr (hperm.map PendingRequest.req).symm ?_ ?_
    · show (p.req :: s.inFlight).Perm (c.req :: s.inFlight)
      rw [hc]
    · intro r
      show (∃ l, u.Issued r l) ↔ _
      unfold GiopSession.Issued
      rw [hout]

/-! ## One step -/

/-- What each step has to show: the condition, if the step is correct; the correctness of the step
and the invariant, under the condition. -/
def Step (s : ClientSystem) (a : ClientAction) : Prop :=
  (s.Correct a → s.Harmless a) ∧ (s.Harmless a → s.Correct a ∧ (s.perform a).ClientInv)

theorem step_of_inv {a : ClientAction} (ht : (s.perform a).ClientInv) (hharm : s.Harmless a)
    (hcor : StepCorrect s.session a (s.perform a).session) : Step s a :=
  ⟨fun _ => hharm, fun _ => ⟨⟨ht.stateCorrect, hcor⟩, ht⟩⟩

theorem step_invoke (h : s.ClientInv) (r : Request) (hA : s.Admissible (.invoke r)) :
    Step s (.invoke r) := by
  obtain ⟨hr, hfew⟩ := hA
  obtain ⟨c, t, p, heq, hc, hcid, hp, hid, hperm, hout, hrole, hidx⟩ := beginInvoke_spec r s.session
  have hperf : s.perform (.invoke r) =
      { s with
        session := t
        calls := c :: s.calls
        drawn := s.drawn + if s.session.locateThenRequest then 2 else 1
        drawnAt := Function.update s.drawnAt p.req s.drawn
        invoked := p.req :: s.invoked } := by
    rw [perform, heq, hp]
  refine step_of_inv ?_ trivial ?_
  · rw [hperf] at hfew ⊢
    refine h.invoke (hp ▸ hr) (hc.trans hp.symm) (hcid.trans hid.symm) hid hperm hout hrole ?_ hidx
      hfew
    split <;> decide
  · intro q hq
    rw [hperf]
    exact hperm.mem_iff.mpr (List.mem_cons_of_mem _ hq)

theorem step_invokeOneway (h : s.ClientInv) (req : Nat) (outcome : Except Exn (Option SysError))
    (hA : s.Admissible (.invokeOneway req outcome)) : Step s (.invokeOneway req outcome) := by
  have hdraw : FewDrawn { s with drawn := s.drawn + 1 } := by
    have hfew := hA.2
    rcases outcome with e | (_ | e) <;> exact hfew
  refine step_of_inv ?_ trivial trivial
  rcases outcome with e | (_ | e)
  · exact h.draw hdraw
  · exact (h.draw hdraw).resend req s.session.reqIndex
  · exact h.draw hdraw

theorem step_send (h : s.ClientInv) (c : Call) (outcome : Except Exn (Option SysError))
    (hA : s.Admissible (.send c outcome)) : Step s (.send c outcome) := by
  have hc : c ∈ s.calls := hA.1
  refine step_of_inv ?_ trivial trivial
  rcases sendInvocation_cases s.session c outcome with ⟨e, heq⟩ | ⟨o, heq, ho⟩ | ⟨hno, heq⟩ |
    ⟨p, u, hp, hid, hperm, heq⟩
  · have hland := h.land hc [] (by simp)
    simp only [List.append_nil] at hland
    simpa only [perform, heq] using hland
  · have hland := h.land hc [o] (by simpa using ho)
    simpa only [perform, heq] using hland
  · have hfail := h.fail hc false (h.not_pending_of_call hc hno)
    simpa only [perform, heq, ClientInv.holder_nil hno, List.nil_append] using hfail
  · have hdrop := h.drop hperm [] 0 (by simp)
    simp only [List.append_nil] at hdrop
    have hnot : c.req ∉ (SlotTable.occupants u).map PendingRequest.req := by
      -- an entry of the invocation itself would be the one that was found
      intro hm
      obtain ⟨q, hq, hqc⟩ := List.mem_map.mp hm
      have hnodup := hperm.nodup_iff.mp h.occupants_nodup
      have hqs : q ∈ s.session.occupants := hperm.mem_iff.mpr (List.mem_cons_of_mem _ hq)
      have hqid : q.requestId = p.requestId := by
        rw [hid, h.numbered.id_eq q hqs, h.numbered.calls_id c hc, hqc]
      have hqp := h.eq_of_req_eq hqs hp (h.req_eq hqs hp hqid)
      exact (List.nodup_cons.mp hnodup).1 (hqp ▸ hq)
    have hfail := hdrop.fail hc true hnot
    have hhold : s.session.holder c.requestId = [p.req] := hid ▸ h.holder_eq hp
    simpa only [perform, heq, hhold, List.singleton_append] using hfail

theorem step_report (h : s.ClientInv) (req : Nat) (success : Bool)
    (hA : s.Admissible (.report req success)) : Step s (.report req success) := by
  have hf : (req, success) ∈ s.failing := hA.1
  by_cases hassert : success = false ∧ s.session.state ≠ .notInitialized
  · have heq : stateAfter (reportFailure req success) s.session = s.session := by
      refine Program.stateAfter_error (e := .assertionError) ?_
      unfold reportFailure
      rw [Program.bind_get]
      exact Program.bind_error (Program.raiseIf_true hassert _ _)
    have hkept := h.unreported hf
    refine step_of_inv ?_ (.inl hassert) trivial
    simpa only [perform, heq] using hkept
  · have heq : stateAfter (reportFailure req success) s.session =
        { s.session with outputs := s.session.outputs ++ [.executedRequest req] } := by
      refine Program.stateAfter_ok (a := ()) ?_
      unfold reportFailure
      rw [Program.bind_get, Program.bind_raiseIf hassert]
      rfl
    constructor
    · -- what was reported was not completed before, so that the request had been dropped
      intro hcor
      refine .inr ?_
      have hnodup : (s.session.executed ++ [req]).Nodup := by
        have := hcor.1.2
        simp only [perform, heq] at this
        rwa [GiopSession.executed_append rfl] at this
      have hin : req ∈ s.inFlight :=
        List.mem_append_right _ (List.mem_map_of_mem (f := Prod.fst) hf)
      have hnot : req ∉ s.session.executed := fun hm =>
        (List.nodup_append.mp hnodup).2.2 req hm req (List.mem_singleton_self _) rfl
      rcases h.accounted.flight_cases req hin with hp | he | hd
      · exact absurd hp (h.failing_pending _ hf)
      · exact absurd he hnot
      · exact hd
    · rintro (habs | hd)
      · exact absurd habs hassert
      · have hkept := h.reported hf hd
        have hinv : (s.perform (.report req success)).ClientInv := by
          simpa only [perform, heq] using hkept
        exact ⟨⟨hinv.stateCorrect, trivial⟩, hinv⟩

theorem step_reply (h : s.ClientInv) (id : Nat) (body : Except Exn Unit) :
    Step s (.reply id body) := by
  rcases commonReplyReceived_cases s.session id body with ⟨hno, heq⟩ | ⟨p, u, hp, hid, hperm, hbody⟩
  · refine step_of_inv ?_ ?_ ?_
    · simpa only [perform, heq] using h.listen
    · intro p hp hpid
      exact absurd hpid (hno p hp)
    · simp only [perform, heq]
      exact .inr ⟨hno, rfl, rfl⟩
  · have huniq : ∀ q ∈ s.session.occupants, q.requestId = id → q.req = p.req := fun q hq hqid =>
      h.req_eq hq hp (hqid.trans hid.symm)
    rcases hbody with ⟨hok, heq⟩ | ⟨⟨e, he⟩, heq⟩
    · constructor
      · -- the request is completed here, so that no LocateReply had completed it
        intro hcor q hq hqid
        refine ⟨hok, h.not_located hq ?_⟩
        have hnodup := hcor.1.2
        simp only [perform, heq] at hnodup
        rw [GiopSession.executed_append rfl] at hnodup
        rw [huniq q hq hqid]
        exact fun hm => (List.nodup_append.mp hnodup).2.2 _ hm _ (List.mem_singleton_self _) rfl
      · intro hharm
        have hinv : (s.perform (.reply id body)).ClientInv := by
          simp only [perform, heq]
          exact h.listen.complete hperm (hharm p hp hid).2
        refine ⟨⟨hinv.stateCorrect, .inl ⟨p, hp, hid, ?_⟩⟩, hinv⟩
        simp only [perform, heq]
        exact ⟨hperm, trivial⟩
    · constructor
      · -- the request is removed, and nothing completes it
        rintro ⟨-, ⟨q, -, -, -, hout⟩ | ⟨hno, -⟩⟩
        · simp [perform, heq] at hout
        · exact absurd hid (hno p hp)
      · intro hharm
        rw [he] at hharm
        cases (hharm p hp hid).1

theorem step_cancel (h : s.ClientInv) (id : Nat) (outcome : Except Exn (Option SysError)) :
    Step s (.cancel id outcome) := by
  refine step_of_inv ?_ trivial trivial
  rcases commonSendCancelRequest_cases s.session id outcome with ⟨hno, heq⟩ |
    ⟨p, u, new, hp, hid, hperm, hnew, heq⟩
  · simpa only [perform, heq, ClientInv.holder_nil hno, List.nil_append] using h
  · have hhold : s.session.holder id = [p.req] := hid ▸ h.holder_eq hp
    simpa only [perform, heq, hhold, List.singleton_append] using h.drop hperm new id hnew

theorem step_disconnect (h : s.ClientInv) : Step s .disconnect := by
  have hflush : (SlotTable.occupants s.session.pendingReqs).filterMap (fun p =>
      if s.session.role = .client then some (Output.executedRequest p.req)
      else if false then some (.abortRequest p.req) else none) =
      s.session.pending.map .executedRequest := by
    simp only [h.role_eq, if_true, GiopSession.pending, GiopSession.occupants, List.map_map]
    exact congrFun List.filterMap_eq_map' _
  have heq : stateAfter (handleDisconnect fun _ => false) s.session = { s.session with
      state := .notInitialized
      pendingReqs := []
      outputs := s.session.outputs ++ s.session.pending.map .executedRequest } := by
    refine Program.stateAfter_ok (a := ()) ?_
    unfold handleDisconnect
    rw [Program.bind_get, hflush]
    rfl
  constructor
  · intro hcor p hp
    have hnodup := hcor.1.2
    simp only [perform, heq] at hnodup
    rw [GiopSession.executed_append rfl, List.filterMap_map] at hnodup
    refine h.not_located hp fun hm => (List.nodup_append.mp hnodup).2.2 _ hm p.req ?_ rfl
    exact List.mem_filterMap.mpr ⟨p.req, GiopSession.mem_pending hp, rfl⟩
  · intro hharm
    have hinv : (s.perform .disconnect).ClientInv := by
      simpa only [perform, heq] using h.disconnect hharm
    exact ⟨⟨hinv.stateCorrect, trivial⟩, hinv⟩

/-! ### LocateReplies -/

theorem step_locateReply (h : s.ClientInv) (locateId : Nat) (locType : LocateReplyType) :
    Step s (.locateReply locateId locType) := by
  rcases findLocated_cases s.session locateId locType with ⟨e, heq⟩ | ⟨p, -, heq⟩ <;>
    refine step_of_inv ?_ trivial ?_ <;> simp only [perform, heq]
  · exact h
  · exact ⟨rfl, rfl⟩
  · exact ⟨h.role_eq, h.numbered.shrink rfl (fun _ hq => hq) (fun _ hc => hc) rfl rfl rfl,
      h.failing_pending, h.accounted⟩
  · exact ⟨rfl, rfl⟩

/-- The invariant says nothing of where the LocateReplies stand. -/
theorem relocate (h : s.ClientInv) (locating : List Located) (removing : List (Nat × Bool)) :
    ClientInv { s with locating := locating, removing := removing } :=
  ⟨h.role_eq, h.numbered.shrink rfl (fun _ hq => hq) (fun _ hc => hc) rfl rfl rfl,
    h.failing_pending, h.accounted⟩

theorem step_processLocated (h : s.ClientInv) (l : Located)
    (outcome : Except Exn (Option SysError)) (reference : Except Exn Unit) :
    Step s (.processLocated l outcome reference) := by
  rcases processLocated_cases s.session l.entry l.locType outcome reference with
    ⟨e, heffect, heq⟩ | ⟨heffect, heq⟩ | ⟨heffect, heq⟩ | ⟨heffect, heq⟩
  · refine step_of_inv ?_ ?_ ?_
    · simpa only [perform, heq] using h.relocate (s.locating.erase l) s.removing
    · simp only [Harmless, heffect]
    · simp only [perform, heq]
      exact ⟨rfl, [], (List.append_nil _).symm, by simp⟩
  · refine step_of_inv ?_ ?_ ?_
    · simp only [perform, heq]
      exact h.relocate (s.locating.erase l) ((l.locateId, false) :: s.removing)
    · simp only [Harmless, heffect]
    · simp only [perform, heq]
      exact ⟨rfl, [], (List.append_nil _).symm, by simp⟩
  · constructor
    · rintro ⟨-, -, new, hout, hnew⟩
      simp only [perform, heq, List.append_cancel_left_eq] at hout
      simpa only [Harmless, heffect] using (hnew _ (hout ▸ List.mem_singleton_self _)).1
    · intro hharm
      simp only [Harmless, heffect] at hharm
      have hinv : (s.perform (.processLocated l outcome reference)).ClientInv := by
        simp only [perform, heq]
        exact (h.listen.resend l.entry.req l.entry.requestId).relocate (s.locating.erase l)
          s.removing
      refine ⟨⟨hinv.stateCorrect, ?_⟩, hinv⟩
      simp only [perform, heq]
      exact ⟨rfl, _, rfl, fun o ho => ⟨hharm, .inr (List.mem_singleton.mp ho)⟩⟩
  · constructor
    · rintro ⟨⟨-, hnodup⟩, -, new, hout, hnew⟩
      simp only [perform, heq, List.append_cancel_left_eq] at hout
      have hissued := (hnew _ (hout ▸ List.mem_singleton_self _)).1
      simp only [Harmless, heffect]
      refine ⟨hissued, h.not_located hissued.1 fun hm => ?_⟩
      simp only [perform, heq] at hnodup
      rw [GiopSession.executed_append rfl] at hnodup
      exact (List.nodup_append.mp hnodup).2.2 _ hm _ (List.mem_singleton_self _) rfl
    · intro hharm
      simp only [Harmless, heffect] at hharm
      have hinv : (s.perform (.processLocated l outcome reference)).ClientInv := by
        simp only [perform, heq]
        exact (h.listen.locate hharm.1.1 hharm.1.2 hharm.2).relocate (s.locating.erase l)
          ((l.locateId, true) :: s.removing)
      refine ⟨⟨hinv.stateCorrect, ?_⟩, hinv⟩
      simp only [perform, heq]
      exact ⟨rfl, _, rfl, fun o ho => ⟨hharm.1, .inl (List.mem_singleton.mp ho)⟩⟩

theorem step_removeLocated (h : s.ClientInv) (locateId : Nat) (completed : Bool) :
    Step s (.removeLocated locateId completed) := by
  obtain ⟨n, u, heq, ⟨htake, rfl⟩ | ⟨p, htake⟩⟩ := removeLocated_cases s.session locateId completed
  · refine step_of_inv ?_ ?_ ?_
    · simp only [perform, heq]
      exact (h.inState _ n).relocate s.locating _
    · intro p u hpu
      rw [htake] at hpu
      cases hpu
    · simp only [perform, heq]
      exact ⟨fun p hp _ => hp, fun _ => rfl, rfl⟩
  · have hp : p ∈ s.session.occupants := SlotTable.mem_of_take htake
    have hperm : s.session.occupants.Perm (p :: SlotTable.occupants u) :=
      (SlotTable.take_eq_some htake).2
    constructor
    · -- the entry is gone, so that its LocateRequest was issued
      rintro ⟨-, hkept, -⟩ q t hqt
      obtain ⟨rfl, rfl⟩ := Prod.mk.inj (Option.some.inj (htake.symm.trans hqt))
      by_contra hissued
      simp only [perform, heq] at hkept
      exact (List.nodup_cons.mp (hperm.nodup_iff.mp h.occupants_nodup)).1 (hkept p hp hissued)
    · intro hharm
      have hissued := hharm p u htake
      have hinv : (s.perform (.removeLocated locateId completed)).ClientInv := by
        simp only [perform, heq]
        exact ((h.inState _ n).forget hperm hissued).relocate s.locating _
      refine ⟨⟨hinv.stateCorrect, ?_⟩, hinv⟩
      simp only [perform, heq]
      refine ⟨fun q hq hnot => ?_, fun hnone => absurd hissued (hnone _), rfl⟩
      rcases List.mem_cons.mp (hperm.mem_iff.mp hq) with rfl | hq
      · exact absurd hissued hnot
      · exact hq

theorem step (h : s.ClientInv) {a : ClientAction} (hA : s.Admissible a) : Step s a := by
  cases a with
  | invoke r => exact h.step_invoke r hA
  | invokeOneway req outcome => exact h.step_invokeOneway req outcome hA
  | send c outcome => exact h.step_send c outcome hA
  | report req success => exact h.step_report req success hA
  | reply id body => exact h.step_reply id body
  | locateReply locateId locType => exact h.step_locateReply locateId locType
  | processLocated l outcome reference => exact h.step_processLocated l outcome reference
  | removeLocated locateId completed => exact h.step_removeLocated locateId completed
  | cancel id outcome => exact h.step_cancel id outcome
  | disconnect => exact h.step_disconnect

end ClientInv

/-! ## Runs -/

/-- The target is located, then the request sent and its reply received; another object is not there,
and its request completed. -/
def locatedRun : List ClientAction :=
  [.invoke ⟨5, false⟩, .send ⟨5, 1, 2⟩ (.ok none), .locateReply 2 .objectHere,
    .processLocated ⟨⟨5, false, 2, 1⟩, 2, .objectHere⟩ (.ok none) (.ok ()), .reply 1 (.ok ()),
    .invoke ⟨6, false⟩, .send ⟨6, 3, 4⟩ (.ok none), .locateReply 4 .unknownObject,
    .processLocated ⟨⟨6, false, 4, 3⟩, 4, .unknownObject⟩ (.ok none) (.ok ()), .removeLocated 4 true]

/-- A session that locates nothing has `Locate_Req_Id` 0 in all its entries: a LocateReply with
this id completes a request whose reply is expected. -/
def unknownObjectRun : List ClientAction :=
  [.invoke ⟨5, false⟩, .send ⟨5, 1, 0⟩ (.ok none), .locateReply 0 .unknownObject,
    .processLocated ⟨⟨5, false, 0, 1⟩, 0, .unknownObject⟩ (.ok none) (.ok ())]

end ClientSystem

end PolyORB
