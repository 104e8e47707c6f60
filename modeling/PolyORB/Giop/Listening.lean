import PolyORB.Giop.PendingRequests
import PolyORB.Lib.Runs

/-!
# Asking for the next message

`Process_Message` of the three versions of GIOP, down to the calls of `Expect_GIOP_Header`.  What
the processing of a message meets in the octets and in the ORB is part of the message: an outcome is
an exception, or what is left in the error container.
-/

namespace PolyORB

open Program (onlyIf raiseIf evaluate stateAfter)

inductive GiopVersion where
  | giopV1_0 | giopV1_1 | giopV1_2
  deriving DecidableEq

abbrev Outcome := Except Exn (Option SysError)

/-- How a request designates its target.  By key, `Get_Empty_Arg_List` may find the arguments of the
operation: then they are unmarshalled at once. -/
inductive TargetAddress where
  | keyAddr (args : Option Outcome)
  | profileAddr
  | referenceAddr

/-- A message as it is unmarshalled. -/
inductive Body where
  | request (req requestId : Nat) (oneway : Bool) (target : TargetAddress)
      (creation : Except Exn Unit)
  | cancelRequest (requestId : Nat) (hasSurrogate : Nat → Bool)
  | reply (requestId : Nat) (contents : Except Exn Unit)
  | closeConnection
  | locateRequest (locateReply : Outcome)
  | locateReply (requestId : Nat) (locType : LocateReplyType) (send : Outcome)
      (reference : Except Exn Unit)
  | messageError

/-- `reading` is what becomes of the unmarshalling of the fields. -/
structure WholeMessage where
  body : Body
  reading : Except Exn Unit

/-- What arrives.  In GIOP 1.2 the first fragment of a message is processed as a `Fragment` too;
`whole` is the message as it is read if this fragment completes it. -/
inductive Incoming where
  | whole (m : WholeMessage)
  | fragment (requestId : Nat) (fragmented : Bool) (fragSize : Nat) (whole : WholeMessage)

/-! ## Requests -/

/-- `Handle_Unmarshall_Arguments`; `args` is what becomes of `Unmarshall_Argument_List`. -/
def handleUnmarshallArguments (args : Outcome) : SessionProg (Option SysError) := do
  let s ← get
  raiseIf (s.state ≠ .waitingUnmarshalling) .assertionError
  let error ← evaluate args
  GiopSession.expectGiopHeader
  return error

/-- The arguments of a request are unmarshalled: any error raises. -/
def unmarshallNow (args : Outcome) : SessionProg Unit := do
  let error ← handleUnmarshallArguments args
  raiseIf (error.isSome = true) .programError

/-- The arguments of `req` are left to be unmarshalled later. -/
def deferArguments (req : Nat) : SessionProg Unit :=
  modify fun s => { s with
    state := .waitingUnmarshalling, deferredArguments := req :: s.deferredArguments }

/-- What `Process_Request` does with the arguments. -/
def requestArguments (req : Nat) : TargetAddress → SessionProg Unit
  | .keyAddr (some args) => unmarshallNow args
  | .keyAddr none | .profileAddr | .referenceAddr => deferArguments req

/-- `Process_Request`, once the fields have been unmarshalled. -/
def processRequest (version : GiopVersion) (req requestId : Nat) (oneway : Bool)
    (target : TargetAddress) (creation : Except Exn Unit) : SessionProg Unit := do
  onlyIf (version = .giopV1_2) (modify fun s => { s with state := .waitingUnmarshalling })
  requestArguments req target
  evaluate creation
  queueRequest req requestId oneway

/-- `Process_Locate_Request`; `locateReply` is what becomes of `Common_Locate_Reply`. -/
def processLocateRequest (locateReply : Outcome) : SessionProg Unit := do
  let error ← evaluate locateReply
  raiseIf (error.isSome = true) .giopError
  GiopSession.expectGiopHeader

/-! ## Messages -/

def Body.acceptedBy : Body → Option Role
  | .request .. | .cancelRequest .. | .closeConnection | .locateRequest _ => some .server
  | .reply .. | .locateReply .. => some .client
  | .messageError => none

/-- The exception for a message that the role of the session does not accept. -/
def wrongRole : GiopVersion → Exn
  | .giopV1_0 | .giopV1_1 => .giopError
  | .giopV1_2 => .bidirectionnalGiopNotImplemented

namespace GiopSession

/-- `Process_Message`, the types other than `Fragment`. -/
def processWhole (version : GiopVersion) (m : WholeMessage) : SessionProg Unit := do
  let s ← get
  raiseIf (m.body.acceptedBy ≠ none ∧ m.body.acceptedBy ≠ some s.role) (wrongRole version)
  evaluate m.reading
  match m.body with
  | .request req requestId oneway target creation =>
    processRequest version req requestId oneway target creation
  | .cancelRequest requestId hasSurrogate => commonProcessCancelRequest requestId hasSurrogate
  | .reply requestId contents => commonReplyReceived requestId contents
  | .closeConnection => expectGiopHeader
  | .locateRequest locateReply => processLocateRequest locateReply
  | .locateReply requestId locType send reference =>
    commonProcessLocateReply requestId locType send reference
  | .messageError => throw .giopError

/-- `Get_Reassembly_Context`, and what is done before the state is looked at: a new context when
there is none, and `First` becomes `Req`. -/
def fragmentState (requestId : Nat) (fragmented : Bool) : SessionProg FragmentState := do
  let s ← get
  match s.reassemblyContexts.lookup requestId with
  | some .first | some .req => return .req
  | some .fragment => return .fragment
  | none => do
    raiseIf (fragmented = false) .assertionError
    return .req

/-- The context of the message becomes `contexts`: none, or one in a state. -/
def setContext (requestId : Nat) (state : Option FragmentState) : SessionProg Unit :=
  modify fun s => { s with
    reassemblyContexts := (state.map fun u => (requestId, u)).toList ++
      s.reassemblyContexts.filter fun c => c.1 != requestId }

def reassemblyCompleted (version : GiopVersion) (requestId : Nat) (whole : WholeMessage) :
    SessionProg Unit := do
  setContext requestId none
  processWhole version whole

/-- `Process_Message` of GIOP 1.2, type `Fragment`: whether the payload has been asked for. -/
def processFragment (version : GiopVersion) (requestId : Nat) (fragmented : Bool) (fragSize : Nat)
    (whole : WholeMessage) : SessionProg Bool := do
  match ← fragmentState requestId fragmented with
  | .req | .first =>
    if 0 < fragSize then do
      setContext requestId (some .fragment)
      return true
    else do
      reassemblyCompleted version requestId whole
      return false
  | .fragment =>
    if fragmented then do
      setContext requestId (some .req)
      expectGiopHeader
      return false
    else do
      reassemblyCompleted version requestId whole
      return false

/-- `Process_Message`: whether more octets of the same message have been asked for. -/
def processMessage (version : GiopVersion) (m : Incoming) : SessionProg Bool := do
  match m with
  | .whole m => do
    processWhole version m
    return false
  | .fragment requestId fragmented fragSize whole =>
    match version with
    | .giopV1_0 => throw .programError
    | .giopV1_1 => return false
    | .giopV1_2 => processFragment version requestId fragmented fragSize whole

/-- The data indications of a message: `Process_Message` is called again for the payload of a
fragment. -/
def receive (version : GiopVersion) (m : Incoming) : SessionProg Unit := do
  modify fun s => { s with state := .expectBody }
  if ← processMessage version m then
    let _ ← processMessage version m
  else return ()

end GiopSession

/-! ## Deferred arguments -/

/-- Who unmarshalls the deferred arguments of a request: the servant, through
`PolyORB.Requests.Arguments`, or the session that forwards the request to another node. -/
inductive ArgumentsReader where
  | servant | proxy
  deriving DecidableEq

/-- `Unmarshall_Arguments` is sent to the session of the request, and its answer received.  The
servant then clears `Deferred_Arguments_Session`, the proxy only when there is no error. -/
def readDeferredArguments (reader : ArgumentsReader) (req : Nat) (args : Outcome) :
    SessionProg Unit := do
  let error ← handleUnmarshallArguments args
  onlyIf (reader = .servant ∨ error = none)
    (modify fun s => { s with deferredArguments := s.deferredArguments.erase req })

/-- `Executed_Request` received by the session, up to the sending of a reply; the request is
destroyed. -/
def requestExecuted (req : Nat) : SessionProg Unit := do
  let s ← get
  onlyIf (req ∈ s.deferredArguments) GiopSession.expectGiopHeader
  modify fun s => { s with deferredArguments := s.deferredArguments.erase req }

/-! ## How often a program asks -/

/-- Whenever `p` returns, it has asked for `n` headers and deferred no arguments; without asking it
leaves the state as it was, or waits for the unmarshalling of arguments. -/
def Asks {α : Type} (n : Nat) (p : SessionProg α) : Prop :=
  ∀ s a t, p s = .ok a t → t.asked = s.asked + n ∧ t.deferredArguments = s.deferredArguments ∧
    (n = 0 → t.state = s.state ∨ t.state = .waitingUnmarshalling)

namespace Asks

variable {α β : Type} {m n : Nat}

theorem pure (a : α) : Asks 0 (Pure.pure a : SessionProg α) := by
  rintro s b t ⟨⟩
  exact ⟨rfl, rfl, fun _ => .inl rfl⟩

theorem throw (e : Exn) : Asks n (MonadExcept.throw e : SessionProg α) := by
  rintro s b t ⟨⟩

theorem bind {p : SessionProg α} {f : α → SessionProg β} (hp : Asks m p) (hf : ∀ a, Asks n (f a)) :
    Asks (m + n) (p >>= f) := by
  intro s b t h
  obtain ⟨a, u, hu, ht⟩ := Program.bind_eq_ok.mp h
  obtain ⟨hasked, hdef, hstate⟩ := hp s a u hu
  obtain ⟨hasked', hdef', hstate'⟩ := hf a u b t ht
  refine ⟨by omega, hdef'.trans hdef, fun h0 => ?_⟩
  rcases hstate' (by omega) with heq | heq
  · exact heq ▸ hstate (by omega)
  · exact .inr heq

theorem after {p : SessionProg α} {f : α → SessionProg β} (hp : Asks 0 p)
    (hf : ∀ a, Asks n (f a)) : Asks n (p >>= f) := by
  simpa using hp.bind hf

theorem get : Asks 0 (MonadState.get : SessionProg GiopSession) := by
  rintro s b t ⟨⟩
  exact ⟨rfl, rfl, fun _ => .inl rfl⟩

theorem evaluate (x : Except Exn α) : Asks 0 (Program.evaluate x : SessionProg α) := by
  cases x with
  | ok a => exact pure a
  | error e => exact throw e

theorem onlyIf {c : Prop} [Decidable c] {p : SessionProg Unit} (hp : Asks 0 p) :
    Asks 0 (Program.onlyIf c p) := by
  by_cases h : c
  · rwa [Program.onlyIf_true h]
  · rw [Program.onlyIf_false h]
    exact pure ()

theorem raiseIf {c : Prop} [Decidable c] {e : Exn} :
    Asks 0 (Program.raiseIf c e : SessionProg Unit) := onlyIf (throw e)

theorem modify {f : GiopSession → GiopSession}
    (hf : ∀ s, (f s).asked = s.asked ∧ (f s).deferredArguments = s.deferredArguments ∧
      ((f s).state = s.state ∨ (f s).state = .waitingUnmarshalling)) :
    Asks 0 (modify f : SessionProg PUnit) := by
  rintro s b t ⟨⟩
  exact ⟨(hf s).1, (hf s).2.1, fun _ => (hf s).2.2⟩

theorem emit (o : Output) : Asks 0 (PolyORB.emit o) := modify fun _ => ⟨rfl, rfl, .inl rfl⟩

theorem expectGiopHeader : Asks 1 GiopSession.expectGiopHeader := by
  rintro s b t ⟨⟩
  exact ⟨rfl, rfl, fun h => absurd h (by decide)⟩

theorem getPendingRequest (id : Nat) : Asks 0 (PolyORB.getPendingRequest id) := by
  intro s a t h
  rcases getPendingRequest_cases s id with ⟨-, heq⟩ | ⟨p, u, -, -, -, heq⟩
  · cases heq.symm.trans h
    exact ⟨rfl, rfl, fun _ => .inl rfl⟩
  · cases heq.symm.trans h
    exact ⟨rfl, rfl, fun _ => .inl rfl⟩

theorem getPendingRequestByLocate (locateId : Nat) :
    Asks 0 (PolyORB.getPendingRequestByLocate locateId) := get.after fun _ => pure _

theorem removePendingRequestByLocate (locateId : Nat) :
    Asks 0 (PolyORB.removePendingRequestByLocate locateId) := by
  intro s a t h
  rcases removePendingRequestByLocate_cases s locateId with ⟨-, heq⟩ | ⟨p, u, -, heq⟩
  · cases heq.symm.trans h
    exact ⟨rfl, rfl, fun _ => .inl rfl⟩
  · cases heq.symm.trans h
    exact ⟨rfl, rfl, fun _ => .inl rfl⟩

theorem addPendingRequest (p : PendingRequest) : Asks 0 (PolyORB.addPendingRequest p) :=
  modify fun _ => ⟨rfl, rfl, .inl rfl⟩

theorem queueRequest (req requestId : Nat) (oneway : Bool) :
    Asks 0 (PolyORB.queueRequest req requestId oneway) :=
  (onlyIf (addPendingRequest _)).after fun _ => emit _

/-! ## The handlers ask once -/

theorem commonProcessCancelRequest (requestId : Nat) (hasSurrogate : Nat → Bool) :
    Asks 1 (PolyORB.commonProcessCancelRequest requestId hasSurrogate) := by
  refine (getPendingRequest requestId).after fun o => ?_
  cases o with
  | none => exact expectGiopHeader
  | some p => exact (onlyIf (emit _)).after fun _ => expectGiopHeader

theorem commonReplyReceived (requestId : Nat) (contents : Except Exn Unit) :
    Asks 1 (PolyORB.commonReplyReceived requestId contents) := by
  refine (getPendingRequest requestId).after fun o => ?_
  cases o with
  | none => exact expectGiopHeader
  | some p => exact (evaluate contents).after fun _ => expectGiopHeader.bind fun _ => emit _

theorem findLocated (locateId : Nat) (locType : LocateReplyType) :
    Asks 0 (PolyORB.findLocated locateId locType) := by
  refine raiseIf.after fun _ => (getPendingRequestByLocate locateId).after fun o => ?_
  cases o with
  | none => exact throw _
  | some p => exact pure p

/-- The header is asked for before the removal of a request that is completed, and after that of one
that is forgotten. -/
theorem commonProcessLocateReply (locateId : Nat) (locType : LocateReplyType) (send : Outcome)
    (reference : Except Exn Unit) :
    Asks 1 (PolyORB.commonProcessLocateReply locateId locType send reference) := by
  refine (findLocated locateId locType).after fun p => ?_
  intro s b t h
  obtain ⟨o, u, hu, ht⟩ := Program.bind_eq_ok.mp h
  rcases processLocated_cases s p locType send reference with
    ⟨e, -, heq⟩ | ⟨-, heq⟩ | ⟨-, heq⟩ | ⟨-, heq⟩ <;> cases heq.symm.trans hu
  · have hremove : Asks 1 (PolyORB.removeLocated locateId false) :=
      (removePendingRequestByLocate locateId).after fun _ => expectGiopHeader
    exact hremove s b t ht
  · cases ht
    exact ⟨rfl, rfl, by simp⟩
  · have hremove : Asks 0 (PolyORB.removeLocated locateId true) :=
      (removePendingRequestByLocate locateId).after fun _ => raiseIf
    obtain ⟨hasked, hdeferred, -⟩ := hremove _ b t ht
    exact ⟨hasked, hdeferred, by simp⟩

theorem processLocateRequest (locateReply : Outcome) :
    Asks 1 (PolyORB.processLocateRequest locateReply) :=
  (evaluate locateReply).after fun _ => raiseIf.after fun _ => expectGiopHeader

theorem handleUnmarshallArguments (args : Outcome) :
    Asks 1 (PolyORB.handleUnmarshallArguments args) :=
  get.after fun _ => raiseIf.after fun _ => (evaluate args).after fun _ =>
    expectGiopHeader.bind fun _ => pure _

theorem unmarshallNow (args : Outcome) : Asks 1 (PolyORB.unmarshallNow args) :=
  (handleUnmarshallArguments args).bind fun _ => raiseIf

end Asks

/-- The processing of a message ends with one header asked for, or with a request whose arguments
are deferred. -/
def Answered (s t : GiopSession) : Prop :=
  t.asked = s.asked + 1 ∧ t.deferredArguments = s.deferredArguments ∨
  t.asked = s.asked ∧ (∃ req, t.deferredArguments = req :: s.deferredArguments) ∧
    t.state = .waitingUnmarshalling

variable {s t : GiopSession}

theorem Asks.answered {α : Type} {p : SessionProg α} (hp : Asks 1 p) {a : α}
    (h : p s = .ok a t) : Answered s t := .inl ⟨(hp s a t h).1, (hp s a t h).2.1⟩

theorem Answered.then {α : Type} {p : SessionProg α} (hp : Asks 0 p) {u : GiopSession} {a : α}
    (hu : Answered s u) (h : p u = .ok a t) : Answered s t := by
  obtain ⟨hasked, hdef, hstate⟩ := hp u a t h
  rcases hu with ⟨h1, h2⟩ | ⟨h1, ⟨req, h2⟩, h3⟩
  · exact .inl ⟨by omega, hdef.trans h2⟩
  · refine .inr ⟨by omega, ⟨req, hdef.trans h2⟩, ?_⟩
    rcases hstate rfl with heq | heq
    · exact heq.trans h3
    · exact heq

theorem Answered.of_asks {α : Type} {p : SessionProg α} (hp : Asks 0 p) {u : GiopSession}
    {a : α} (h : p s = .ok a u) (ht : Answered u t) : Answered s t := by
  obtain ⟨hasked, hdef, -⟩ := hp s a u h
  unfold Answered at ht ⊢
  rwa [hasked, hdef] at ht

theorem answered_deferArguments (req : Nat) (s : GiopSession) :
    Answered s { s with
      state := .waitingUnmarshalling, deferredArguments := req :: s.deferredArguments } :=
  .inr ⟨rfl, ⟨req, rfl⟩, rfl⟩

variable {version : GiopVersion}

theorem answered_processRequest {req requestId : Nat} {oneway : Bool}
    {target : TargetAddress} {creation : Except Exn Unit}
    (h : processRequest version req requestId oneway target creation s = .ok () t) :
    Answered s t := by
  obtain ⟨_, s₁, h₁, h⟩ := Program.bind_eq_ok.mp h
  obtain ⟨_, s₂, h₂, h⟩ := Program.bind_eq_ok.mp h
  have hwait : Asks 0 (onlyIf (version = .giopV1_2)
      (modify fun s : GiopSession => { s with state := .waitingUnmarshalling })) :=
    .onlyIf (.modify fun _ => ⟨rfl, rfl, .inr rfl⟩)
  have hrest : Asks 0 (do
      evaluate creation
      queueRequest req requestId oneway) := (Asks.evaluate _).after fun _ => .queueRequest _ _ _
  refine Answered.of_asks hwait h₁ (Answered.then hrest ?_ h)
  match target with
  | .keyAddr (some args) => exact (Asks.unmarshallNow args).answered h₂
  | .keyAddr none | .profileAddr | .referenceAddr =>
    cases h₂
    exact answered_deferArguments req s₁

namespace GiopSession

theorem answered_processWhole {m : WholeMessage}
    (h : processWhole version m s = .ok () t) : Answered s t := by
  unfold processWhole at h
  rw [Program.bind_get] at h
  obtain ⟨_, s₁, h₁, h⟩ := Program.bind_eq_ok.mp h
  obtain ⟨_, s₂, h₂, h⟩ := Program.bind_eq_ok.mp h
  refine Answered.of_asks .raiseIf h₁ (Answered.of_asks (.evaluate m.reading) h₂ ?_)
  cases hbody : m.body with
  | request => exact answered_processRequest (by simpa only [hbody] using h)
  | cancelRequest => exact (Asks.commonProcessCancelRequest _ _).answered (by simpa only [hbody] using h)
  | reply => exact (Asks.commonReplyReceived _ _).answered (by simpa only [hbody] using h)
  | closeConnection => exact Asks.expectGiopHeader.answered (by simpa only [hbody] using h)
  | locateRequest => exact (Asks.processLocateRequest _).answered (by simpa only [hbody] using h)
  | locateReply =>
    exact (Asks.commonProcessLocateReply _ _ _ _).answered (by simpa only [hbody] using h)
  | messageError =>
    rw [hbody] at h
    cases h

theorem asks_setContext (requestId : Nat) (state : Option FragmentState) :
    Asks 0 (setContext requestId state) := .modify fun _ => ⟨rfl, rfl, .inl rfl⟩

variable {whole : WholeMessage}

theorem answered_reassemblyCompleted {requestId : Nat}
    (h : reassemblyCompleted version requestId whole s = .ok () t) : Answered s t := by
  obtain ⟨_, s₁, h₁, h⟩ := Program.bind_eq_ok.mp h
  exact Answered.of_asks (asks_setContext _ _) h₁ (answered_processWhole h)

theorem asks_fragmentState (requestId : Nat) (fragmented : Bool) :
    Asks 0 (fragmentState requestId fragmented) := by
  refine Asks.get.after fun s => ?_
  cases s.reassemblyContexts.lookup requestId with
  | none => exact Asks.raiseIf.after fun _ => .pure _
  | some u => cases u <;> exact .pure _

theorem answered_payload {requestId fragSize : Nat} {fragmented : Bool} {b : Bool}
    (hctx : s.reassemblyContexts.lookup requestId = some .fragment)
    (h : processFragment version requestId fragmented fragSize whole s = .ok b t) :
    b = false ∧ Answered s t := by
  have hstate : fragmentState requestId fragmented s = .ok .fragment s := by
    unfold fragmentState
    rw [Program.bind_get]
    simp only [hctx]
    rfl
  unfold processFragment at h
  rw [Program.bind_ok hstate] at h
  cases hf : fragmented with
  | true =>
    simp only [hf, if_true] at h
    have hasks : Asks 1 (do
        setContext requestId (some .req)
        expectGiopHeader
        return false : SessionProg Bool) :=
      (asks_setContext _ _).after fun _ => Asks.expectGiopHeader.bind fun _ => .pure _
    refine ⟨?_, hasks.answered h⟩
    cases h
    rfl
  | false =>
    simp only [hf, Bool.false_eq_true, if_false] at h
    obtain ⟨_, s₂, h₂, h⟩ := Program.bind_eq_ok.mp h
    cases h
    exact ⟨rfl, answered_reassemblyCompleted h₂⟩

theorem processFragment_cases {requestId fragSize : Nat} {fragmented : Bool} {b : Bool}
    (h : processFragment version requestId fragmented fragSize whole s = .ok b t) :
    b = false ∧ Answered s t ∨
    b = true ∧ t.asked = s.asked ∧ t.deferredArguments = s.deferredArguments ∧
      t.reassemblyContexts.lookup requestId = some .fragment := by
  by_cases hctx : s.reassemblyContexts.lookup requestId = some .fragment
  · exact .inl (answered_payload hctx h)
  obtain ⟨u, s₁, h₁, h⟩ := Program.bind_eq_ok.mp h
  obtain ⟨hasked, hdef, -⟩ := asks_fragmentState requestId fragmented s u s₁ h₁
  have hreq (h : (if 0 < fragSize then do
        setContext requestId (some .fragment)
        return true
      else do
        reassemblyCompleted version requestId whole
        return false : SessionProg Bool) s₁ = .ok b t) :
      b = false ∧ Answered s t ∨
      b = true ∧ t.asked = s.asked ∧ t.deferredArguments = s.deferredArguments ∧
        t.reassemblyContexts.lookup requestId = some .fragment := by
    split_ifs at h with hsize
    · cases h
      exact .inr ⟨rfl, hasked, hdef, List.lookup_cons_self⟩
    · obtain ⟨_, s₂, h₂, h⟩ := Program.bind_eq_ok.mp h
      cases h
      exact .inl ⟨rfl, Answered.of_asks (asks_fragmentState _ _) h₁ (answered_reassemblyCompleted h₂)⟩
  cases u with
  | first => exact hreq h
  | req => exact hreq h
  | fragment =>
    -- only a context in this state is found in it
    refine absurd ?_ hctx
    unfold fragmentState at h₁
    rw [Program.bind_get] at h₁
    cases hl : s.reassemblyContexts.lookup requestId with
    | none =>
      simp only [hl] at h₁
      obtain ⟨_, _, _, h₁⟩ := Program.bind_eq_ok.mp h₁
      cases h₁
    | some u =>
      cases u with
      | fragment => rfl
      | first | req =>
        simp only [hl] at h₁
        cases h₁

end GiopSession

end PolyORB
