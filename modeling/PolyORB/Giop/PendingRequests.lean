import PolyORB.Giop.Message
import PolyORB.Lib.SlotTable

/-!
# Pending requests of a session

`Pending_Reqs` is read and changed under the mutex of the session.  Each program here is one such
critical section, or what a task does between two of them; how they interleave is the business of
the runs.  A `Request` object is known by a number, `req`.
-/

namespace PolyORB

open Program (onlyIf raiseIf evaluate stateAfter)

structure PendingRequest where
  req : Nat
  targetIsNil : Bool
  locateReqId : Nat
  requestId : Nat
  deriving DecidableEq

/-- What a session emits about requests, to the ORB and to the lower layer. -/
inductive Output where
  | executedRequest (req : Nat)
  | abortRequest (req : Nat)
  | queueRequest (req : Nat)
  | requestSent (req : Nat) (requestId : Nat)
  | locateRequestSent (req : Nat) (locateReqId : Nat)
  | cancelRequestSent (requestId : Nat)
  | replySent (requestId : Nat)
  deriving DecidableEq

structure GiopSession where
  role : Role
  state : GiopState
  locateThenRequest : Bool
  pendingReqs : List (Option PendingRequest)
  reqIndex : Nat
  /-- How often the session has asked for the header of a message. -/
  asked : Nat
  /-- `Reassembly_Contexts`: how far the fragments of a message have arrived. -/
  reassemblyContexts : List (Nat × FragmentState)
  deferredArguments : List Nat
  outputs : List Output

abbrev SessionProg := EStateM Exn GiopSession

/-- A session once it is connected. -/
def GiopSession.start (role : Role) (locateThenRequest : Bool) : GiopSession :=
  { role, state := .expectHeader, locateThenRequest, pendingReqs := [], reqIndex := 1, asked := 1,
    reassemblyContexts := [], deferredArguments := [], outputs := [] }

def emit (o : Output) : SessionProg Unit := modify fun s => { s with outputs := s.outputs ++ [o] }

def GiopSession.listening (s : GiopSession) : GiopSession :=
  { s with state := .expectHeader, asked := s.asked + 1 }

def GiopSession.expectGiopHeader : SessionProg Unit := modify GiopSession.listening

open GiopSession (expectGiopHeader)

/-! ## The table -/

/-- `Get_Pending_Request`, which clears the slot of the request. -/
def getPendingRequest (id : Nat) : SessionProg (Option PendingRequest) := do
  let s ← get
  match SlotTable.take (fun p => p.requestId == id) s.pendingReqs with
  | none => return none
  | some (p, t) => do
    set { s with pendingReqs := t }
    return some p

def getPendingRequestByLocate (locateId : Nat) : SessionProg (Option PendingRequest) := do
  let s ← get
  return (SlotTable.take (fun p => p.locateReqId == locateId) s.pendingReqs).map Prod.fst

def removePendingRequest (id : Nat) : SessionProg Bool := do return (← getPendingRequest id).isSome

def removePendingRequestByLocate (locateId : Nat) : SessionProg Bool := do
  let s ← get
  match SlotTable.take (fun p => p.locateReqId == locateId) s.pendingReqs with
  | none => return false
  | some (_, t) => do
    set { s with pendingReqs := t }
    return true

def addPendingRequest (p : PendingRequest) : SessionProg Unit :=
  modify fun s => { s with pendingReqs := SlotTable.insert p s.pendingReqs }

def getRequestId : SessionProg Nat := do
  let s ← get
  set { s with reqIndex := (s.reqIndex + 1) % unsignedLongModulus }
  return s.reqIndex

/-- `Handle_Disconnect`; `hasSurrogate` tells which requests have a surrogate by then, to which their
abortion can be signalled. -/
def handleDisconnect (hasSurrogate : Nat → Bool) : SessionProg Unit := do
  let s ← get
  let flushed := (SlotTable.occupants s.pendingReqs).filterMap fun p =>
    if s.role = .client then some (Output.executedRequest p.req)
    else if hasSurrogate p.req then some (.abortRequest p.req)
    else none
  set { s with
    state := .notInitialized
    pendingReqs := []
    outputs := s.outputs ++ flushed }

/-! ## What the accesses to the table do -/

namespace GiopSession

def occupants (s : GiopSession) : List PendingRequest := SlotTable.occupants s.pendingReqs

def pending (s : GiopSession) : List Nat := s.occupants.map PendingRequest.req

end GiopSession

theorem getPendingRequest_cases (s : GiopSession) (id : Nat) :
    (∀ p ∈ s.occupants, p.requestId ≠ id) ∧ getPendingRequest id s = .ok none s ∨
    ∃ p u, p ∈ s.occupants ∧ p.requestId = id ∧ s.occupants.Perm (p :: SlotTable.occupants u) ∧
      getPendingRequest id s = .ok (some p) { s with pendingReqs := u } := by
  cases h : SlotTable.take (fun p => p.requestId == id) s.pendingReqs with
  | none =>
    refine .inl ⟨fun p hp => ?_, ?_⟩
    · simpa using SlotTable.take_eq_none.mp h p hp
    · unfold getPendingRequest
      rw [Program.bind_get]
      simp only [h]
      rfl
  | some r =>
    obtain ⟨p, u⟩ := r
    obtain ⟨hid, hperm⟩ := SlotTable.take_eq_some h
    refine .inr ⟨p, u, SlotTable.mem_of_take h, by simpa using hid, hperm, ?_⟩
    unfold getPendingRequest
    rw [Program.bind_get]
    simp only [h]
    rfl

variable {s : GiopSession}

theorem removePendingRequest_eq {t : GiopSession} {id : Nat} {o : Option PendingRequest}
    (h : getPendingRequest id s = .ok o t) : removePendingRequest id s = .ok o.isSome t := by
  unfold removePendingRequest
  rw [Program.bind_ok h]
  rfl

/-! ## Client side -/

/-- The request of a two-way invocation. -/
structure Request where
  req : Nat
  targetIsNil : Bool
  deriving DecidableEq

/-- The local data of an invocation that has still to send its message. -/
structure Call where
  req : Nat
  requestId : Nat
  locateReqId : Nat
  deriving DecidableEq

/-- `Invoke_Request` of a two-way call, up to the end of its critical section. -/
def beginInvoke (r : Request) : SessionProg Call := do
  let requestId ← getRequestId
  let s ← get
  let locateReqId ← if s.locateThenRequest then getRequestId else pure 0
  addPendingRequest ⟨r.req, r.targetIsNil, locateReqId, requestId⟩
  return ⟨r.req, requestId, locateReqId⟩

/-- `Invoke_Request` of a two-way call, from the sending of its message to the removal of a request
whose message was not sent; `outcome` is what becomes of `Send_Request` or `Locate_Object`: an
exception, or what it leaves in the error container. -/
def sendInvocation (c : Call) (outcome : Except Exn (Option SysError)) :
    SessionProg (Option Bool) := do
  let s ← get
  match ← evaluate outcome with
  | none => do
    emit (if s.locateThenRequest then .locateRequestSent c.req c.locateReqId
      else .requestSent c.req c.requestId)
    return none
  | some _ => do
    let success ← removePendingRequest c.requestId
    return some success

/-- `Invoke_Request` once `Remove_Pending_Request` has answered. -/
def reportFailure (req : Nat) (success : Bool) : SessionProg Unit := do
  let s ← get
  raiseIf (success = false ∧ s.state ≠ .notInitialized) .assertionError
  emit (.executedRequest req)

def invokeOneway (req : Nat) (outcome : Except Exn (Option SysError)) : SessionProg Unit := do
  let requestId ← getRequestId
  match ← evaluate outcome with
  | none => emit (.requestSent req requestId)
  | some _ => return ()

/-- `Common_Reply_Received`; `body` is what becomes of the unmarshalling of the body. -/
def commonReplyReceived (requestId : Nat) (body : Except Exn Unit) : SessionProg Unit := do
  match ← getPendingRequest requestId with
  | none => expectGiopHeader
  | some p => do
    evaluate body
    expectGiopHeader
    emit (.executedRequest p.req)

inductive LocateReplyType where
  | unknownObject | objectHere | objectForward | objectForwardPerm | locSystemException
  | locNeedsAddressingMode
  deriving DecidableEq

/-- What a LocateReply comes to for the request that it finds. -/
inductive LocateEffect where
  | complete
  | resend
  | forget
  deriving DecidableEq

/-- `outcome` is what becomes of `Send_Request`, `reference` what becomes of the unmarshalling of the
reference of a forward. -/
def locateEffect (p : PendingRequest) (locType : LocateReplyType)
    (outcome : Except Exn (Option SysError)) (reference : Except Exn Unit) :
    Except Exn LocateEffect :=
  match locType with
  | .unknownObject => .ok .complete
  | .objectHere =>
    if p.targetIsNil = false then
      match outcome with
      | .ok none => .ok .resend
      | .ok (some _) => .ok .complete
      | .error e => .error e
    else .ok .forget
  | .objectForward | .objectForwardPerm => reference.map fun _ => .complete
  | .locSystemException | .locNeedsAddressingMode => .error .giopError

/-- `Common_Process_Locate_Reply`, up to the end of its first critical section. -/
def findLocated (locateId : Nat) (locType : LocateReplyType) : SessionProg PendingRequest := do
  raiseIf (locType = .locSystemException ∨ locType = .locNeedsAddressingMode) .giopError
  match ← getPendingRequestByLocate locateId with
  | none => throw .giopError
  | some p => return p

/-- `Common_Process_Locate_Reply`, between its critical sections: whether the entry is still to be
removed, and if so whether the request was completed. -/
def processLocated (p : PendingRequest) (locType : LocateReplyType)
    (outcome : Except Exn (Option SysError)) (reference : Except Exn Unit) :
    SessionProg (Option Bool) := do
  match ← evaluate (locateEffect p locType outcome reference) with
  | .complete => do
    expectGiopHeader
    emit (.executedRequest p.req)
    return some true
  | .resend => do
    emit (.requestSent p.req p.requestId)
    expectGiopHeader
    return none
  | .forget => return some false

/-- `Common_Process_Locate_Reply`, from `Remove_Pending_Request_By_Locate` on. -/
def removeLocated (locateId : Nat) (completed : Bool) : SessionProg Unit := do
  let success ← removePendingRequestByLocate locateId
  if completed then raiseIf (success = false) .giopError else expectGiopHeader

def commonProcessLocateReply (locateId : Nat) (locType : LocateReplyType)
    (outcome : Except Exn (Option SysError)) (reference : Except Exn Unit) : SessionProg Unit := do
  let p ← findLocated locateId locType
  match ← processLocated p locType outcome reference with
  | none => return ()
  | some completed => removeLocated locateId completed

def commonSendCancelRequest (requestId : Nat) (outcome : Except Exn (Option SysError)) :
    SessionProg Unit := do
  match ← getPendingRequest requestId with
  | none => throw .giopError
  | some _ => do
    match ← evaluate outcome with
    | none => emit (.cancelRequestSent requestId)
    | some _ => throw .giopError

/-! ## Server side -/

def queueRequest (req requestId : Nat) (oneway : Bool) : SessionProg Unit := do
  onlyIf (oneway = false) (addPendingRequest ⟨req, false, 0, requestId⟩)
  emit (.queueRequest req)

def commonProcessCancelRequest (requestId : Nat) (hasSurrogate : Nat → Bool) :
    SessionProg Unit := do
  match ← getPendingRequest requestId with
  | none => expectGiopHeader
  | some p => do
    onlyIf (hasSurrogate p.req = true) (emit (.abortRequest p.req))
    expectGiopHeader

/-- `Common_Send_Reply`, up to the end of its critical section: whether to go on. -/
def beginReply (requestId : Nat) (recovery : Bool) : SessionProg Bool := do
  let success ← removePendingRequest requestId
  return success || recovery

/-- `Common_Send_Reply`, from the marshalling of the reply on; `outcome` is what becomes of the
marshalling and of the emission. -/
def finishReply (requestId : Nat) (outcome : Except Exn (Option SysError)) :
    SessionProg (Option SysError) := do
  let error ← evaluate outcome
  onlyIf (error = none) (emit (.replySent requestId))
  return error

/-! ## What the programs of the client do -/

theorem beginInvoke_spec (r : Request) (s : GiopSession) :
    ∃ c t p, beginInvoke r s = .ok c t ∧ c.req = r.req ∧ c.requestId = s.reqIndex ∧
      p.req = r.req ∧ p.requestId = s.reqIndex ∧ t.occupants.Perm (p :: s.occupants) ∧ t.outputs = s.outputs ∧
      t.role = s.role ∧
      t.reqIndex = (s.reqIndex + if s.locateThenRequest then 2 else 1) % unsignedLongModulus := by
  let s₁ : GiopSession := { s with reqIndex := (s.reqIndex + 1) % unsignedLongModulus }
  have hid : getRequestId s = .ok s.reqIndex s₁ := rfl
  unfold beginInvoke
  rw [Program.bind_ok hid, Program.bind_get]
  by_cases hl : s.locateThenRequest = true
  · let s₂ : GiopSession := { s with reqIndex := (s₁.reqIndex + 1) % unsignedLongModulus }
    let p : PendingRequest := ⟨r.req, r.targetIsNil, s₁.reqIndex, s.reqIndex⟩
    rw [if_pos hl, if_pos hl]
    refine ⟨⟨r.req, s.reqIndex, s₁.reqIndex⟩,
      { s₂ with pendingReqs := SlotTable.insert p s.pendingReqs }, p,
      rfl, rfl, rfl, rfl, rfl, SlotTable.insert_perm .., rfl, rfl, ?_⟩
    show ((s.reqIndex + 1) % unsignedLongModulus + 1) % unsignedLongModulus = _
    rw [Nat.mod_add_mod]
  · let p : PendingRequest := ⟨r.req, r.targetIsNil, 0, s.reqIndex⟩
    rw [if_neg hl, if_neg hl]
    exact ⟨⟨r.req, s.reqIndex, 0⟩, { s₁ with pendingReqs := SlotTable.insert p s.pendingReqs }, p,
      rfl, rfl, rfl, rfl, rfl, SlotTable.insert_perm .., rfl, rfl, rfl⟩

theorem commonReplyReceived_cases (s : GiopSession) (id : Nat) (body : Except Exn Unit) :
    (∀ p ∈ s.occupants, p.requestId ≠ id) ∧ stateAfter (commonReplyReceived id body) s = s.listening ∨
    ∃ p u, p ∈ s.occupants ∧ p.requestId = id ∧ s.occupants.Perm (p :: SlotTable.occupants u) ∧
      (body = .ok () ∧ stateAfter (commonReplyReceived id body) s =
          { s.listening with pendingReqs := u, outputs := s.outputs ++ [.executedRequest p.req] } ∨
        (∃ e, body = .error e) ∧
          stateAfter (commonReplyReceived id body) s = { s with pendingReqs := u }) := by
  rcases getPendingRequest_cases s id with ⟨hno, heq⟩ | ⟨p, u, hp, hid, hperm, heq⟩
  · refine .inl ⟨hno, Program.stateAfter_ok (a := ()) ?_⟩
    unfold commonReplyReceived
    rw [Program.bind_ok heq]
    rfl
  · refine .inr ⟨p, u, hp, hid, hperm, ?_⟩
    cases body with
    | ok _ =>
      refine .inl ⟨rfl, Program.stateAfter_ok (a := ()) ?_⟩
      unfold commonReplyReceived
      rw [Program.bind_ok heq]
      rfl
    | error e =>
      refine .inr ⟨⟨e, rfl⟩, Program.stateAfter_error (e := e) ?_⟩
      unfold commonReplyReceived
      rw [Program.bind_ok heq]
      rfl

theorem commonSendCancelRequest_cases (s : GiopSession) (id : Nat)
    (outcome : Except Exn (Option SysError)) :
    (∀ p ∈ s.occupants, p.requestId ≠ id) ∧ stateAfter (commonSendCancelRequest id outcome) s = s ∨
    ∃ p u new, p ∈ s.occupants ∧ p.requestId = id ∧
      s.occupants.Perm (p :: SlotTable.occupants u) ∧ (∀ o ∈ new, o = .cancelRequestSent id) ∧
      stateAfter (commonSendCancelRequest id outcome) s =
        { s with pendingReqs := u, outputs := s.outputs ++ new } := by
  rcases getPendingRequest_cases s id with ⟨hno, heq⟩ | ⟨p, u, hp, hid, hperm, heq⟩
  · refine .inl ⟨hno, Program.stateAfter_error (e := .giopError) ?_⟩
    unfold commonSendCancelRequest
    rw [Program.bind_ok heq]
    rfl
  · have hrest (x : Except Exn (Option SysError)) :
        commonSendCancelRequest id x s = (do
          match ← evaluate x with
          | none => emit (.cancelRequestSent id)
          | some _ => throw Exn.giopError) { s with pendingReqs := u } := by
      unfold commonSendCancelRequest
      rw [Program.bind_ok heq]
    rcases outcome with e | (_ | e)
    · refine .inr ⟨p, u, [], hp, hid, hperm, by simp, ?_⟩
      rw [List.append_nil]
      exact Program.stateAfter_error (e := e) (hrest _)
    · exact .inr ⟨p, u, [.cancelRequestSent id], hp, hid, hperm, by simp,
        Program.stateAfter_ok (a := ()) (hrest _)⟩
    · refine .inr ⟨p, u, [], hp, hid, hperm, by simp, ?_⟩
      rw [List.append_nil]
      exact Program.stateAfter_error (e := .giopError) (hrest _)

theorem getPendingRequestByLocate_eq (s : GiopSession) (locateId : Nat) :
    getPendingRequestByLocate locateId s =
      .ok ((SlotTable.take (fun p => p.locateReqId == locateId) s.pendingReqs).map Prod.fst) s := rfl

theorem removePendingRequestByLocate_cases (s : GiopSession) (locateId : Nat) :
    SlotTable.take (fun p => p.locateReqId == locateId) s.pendingReqs = none ∧
        removePendingRequestByLocate locateId s = .ok false s ∨
      ∃ p u, SlotTable.take (fun p => p.locateReqId == locateId) s.pendingReqs = some (p, u) ∧
        removePendingRequestByLocate locateId s = .ok true { s with pendingReqs := u } := by
  unfold removePendingRequestByLocate
  rw [Program.bind_get]
  cases htake : SlotTable.take (fun p => p.locateReqId == locateId) s.pendingReqs with
  | none => exact .inl ⟨rfl, rfl⟩
  | some r => exact .inr ⟨r.1, r.2, rfl, rfl⟩

theorem findLocated_cases (s : GiopSession) (locateId : Nat) (locType : LocateReplyType) :
    (∃ e, findLocated locateId locType s = .error e s) ∨
      ∃ p ∈ s.occupants, findLocated locateId locType s = .ok p s := by
  unfold findLocated
  by_cases hraise : locType = .locSystemException ∨ locType = .locNeedsAddressingMode
  · exact .inl ⟨.giopError, Program.bind_error (Program.raiseIf_true hraise _ _)⟩
  · rw [Program.bind_raiseIf hraise]
    rw [Program.bind_ok (getPendingRequestByLocate_eq s locateId)]
    cases htake : SlotTable.take (fun p => p.locateReqId == locateId) s.pendingReqs with
    | none => exact .inl ⟨.giopError, rfl⟩
    | some r =>
      obtain ⟨p, u⟩ := r
      exact .inr ⟨p, SlotTable.mem_of_take htake, rfl⟩

theorem processLocated_cases (s : GiopSession) (p : PendingRequest) (locType : LocateReplyType)
    (outcome : Except Exn (Option SysError)) (reference : Except Exn Unit) :
    (∃ e, locateEffect p locType outcome reference = .error e ∧
        processLocated p locType outcome reference s = .error e s) ∨
      locateEffect p locType outcome reference = .ok .forget ∧
        processLocated p locType outcome reference s = .ok (some false) s ∨
      locateEffect p locType outcome reference = .ok .resend ∧
        processLocated p locType outcome reference s =
          .ok none { s.listening with outputs := s.outputs ++ [.requestSent p.req p.requestId] } ∨
      locateEffect p locType outcome reference = .ok .complete ∧
        processLocated p locType outcome reference s =
          .ok (some true) { s.listening with outputs := s.outputs ++ [.executedRequest p.req] } := by
  unfold processLocated
  rcases h : locateEffect p locType outcome reference with e | effect
  · exact .inl ⟨e, rfl, rfl⟩
  · cases effect with
    | forget => exact .inr (.inl ⟨rfl, rfl⟩)
    | resend => exact .inr (.inr (.inl ⟨rfl, rfl⟩))
    | complete => exact .inr (.inr (.inr ⟨rfl, rfl⟩))

/-- What is left of the table once a located request was removed. -/
theorem removeLocated_cases (s : GiopSession) (locateId : Nat) (completed : Bool) :
    ∃ n u, stateAfter (removeLocated locateId completed) s =
        { s with
          state := if completed then s.state else .expectHeader
          asked := n
          pendingReqs := u } ∧
      (SlotTable.take (fun p => p.locateReqId == locateId) s.pendingReqs = none ∧
          u = s.pendingReqs ∨
        ∃ p, SlotTable.take (fun p => p.locateReqId == locateId) s.pendingReqs = some (p, u)) := by
  have hrest : ∀ (success : Bool) (t : GiopSession),
      removePendingRequestByLocate locateId s = .ok success t →
      ∃ n, stateAfter (removeLocated locateId completed) s =
        { t with state := if completed then t.state else .expectHeader, asked := n } := by
    intro success t hremove
    cases completed with
    | false =>
      refine ⟨t.asked + 1, Program.stateAfter_ok (a := ()) ?_⟩
      unfold removeLocated
      rw [Program.bind_ok hremove]
      rfl
    | true =>
      refine ⟨t.asked, ?_⟩
      cases success with
      | true =>
        refine Program.stateAfter_ok (a := ()) ?_
        unfold removeLocated
        rw [Program.bind_ok hremove]
        exact Program.raiseIf_false (by simp) _ _
      | false =>
        refine Program.stateAfter_error (e := .giopError) ?_
        unfold removeLocated
        rw [Program.bind_ok hremove]
        exact Program.raiseIf_true rfl _ _
  rcases removePendingRequestByLocate_cases s locateId with ⟨htake, hremove⟩ | ⟨p, u, htake, hremove⟩
  · obtain ⟨n, hn⟩ := hrest _ _ hremove
    exact ⟨n, s.pendingReqs, hn, .inl ⟨htake, rfl⟩⟩
  · obtain ⟨n, hn⟩ := hrest _ _ hremove
    exact ⟨n, u, hn, .inr ⟨p, htake⟩⟩

theorem sendInvocation_cases (s : GiopSession) (c : Call) (outcome : Except Exn (Option SysError)) :
    (∃ e, sendInvocation c outcome s = .error e s) ∨
    (∃ o, sendInvocation c outcome s = .ok none { s with outputs := s.outputs ++ [o] } ∧
      ((∃ id, o = .requestSent c.req id) ∨ ∃ l, o = .locateRequestSent c.req l)) ∨
    (∀ p ∈ s.occupants, p.requestId ≠ c.requestId) ∧
      sendInvocation c outcome s = .ok (some false) s ∨
    ∃ p u, p ∈ s.occupants ∧ p.requestId = c.requestId ∧
      s.occupants.Perm (p :: SlotTable.occupants u) ∧
      sendInvocation c outcome s = .ok (some true) { s with pendingReqs := u } := by
  rcases outcome with e | (_ | e)
  · exact .inl ⟨e, rfl⟩
  · refine .inr (.inl ⟨_, rfl, ?_⟩)
    by_cases hl : s.locateThenRequest = true
    · exact .inr ⟨c.locateReqId, if_pos hl⟩
    · exact .inl ⟨c.requestId, if_neg hl⟩
  · have heq : sendInvocation c (.ok (some e)) s = (do
        let success ← removePendingRequest c.requestId
        return some success) s := rfl
    rw [heq]
    rcases getPendingRequest_cases s c.requestId with ⟨hno, hget⟩ | ⟨p, u, hp, hid, hperm, hget⟩
    · refine .inr (.inr (.inl ⟨hno, ?_⟩))
      rw [Program.bind_ok (removePendingRequest_eq hget)]
      rfl
    · refine .inr (.inr (.inr ⟨p, u, hp, hid, hperm, ?_⟩))
      rw [Program.bind_ok (removePendingRequest_eq hget)]
      rfl

end PolyORB
