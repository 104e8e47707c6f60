import PolyORB.Interceptors.Traversal
import PolyORB.Lib.Runs

/-!
# Client request interceptors

Client_Invoke of PolyORB.CORBA_P.Interceptors, one attempt at a time: what the interceptors and the
invocation do in an attempt is given with it.  Slots, service contexts and the request information
passed to the interceptors are left out.
-/

namespace PolyORB

open Program

inductive ClientPoint where
  | sendRequest
  | receiveReply
  | receiveException
  | receiveOther
  deriving DecidableEq

/-- What PolyORB.Requests.Invoke leaves in the request. -/
structure Invocation where
  exceptionInfo : RequestException
  argumentsCalled : Bool
  setResultCalled : Bool
  deriving DecidableEq

structure ClientAttempt where
  answer : ClientPoint → Nat → PointAnswer
  invocation : Invocation

abbrev ClientEvent := Interception ClientPoint Unit

def clientEndingPoints : EndingPoints ClientPoint where
  reply := .receiveReply
  exception := .receiveException
  other := .receiveOther
  reply_ne_exception := by decide
  reply_ne_other := by decide

namespace ClientAttempt

/-- PolyORB.Requests.Invoke returns when the request is completed. -/
def invoke (i : Invocation) : TraversalM ClientPoint Unit Unit :=
  modify fun s =>
    { log := s.log ++ [.body ()]
      request :=
        { s.request with
          completed := true
          argumentsCalled := s.request.argumentsCalled || i.argumentsCalled
          setResultCalled := s.request.setResultCalled || i.setResultCalled
          exceptionInfo := i.exceptionInfo } }

/-- An iteration of the loop with `n` interceptors, up to the check of the outcome. -/
def traverse (n : Nat) (b : ClientAttempt) : TraversalM ClientPoint Unit Unit := do
  let index ← TraversalM.callStarting b.answer .sendRequest n 0
  onlyIf (index = n) (invoke b.invocation)
  TraversalM.callEnding b.answer clientEndingPoints index

end ClientAttempt

inductive ClientStatus where
  | running (request : InterceptedRequest)
  | done (request : InterceptedRequest)
  | escaped (fault : InterceptionFault)
  deriving DecidableEq

/-- What follows after an iteration.  The reference of a ForwardRequest is not used. -/
def ClientStatus.reinvoke (r : InterceptedRequest) : ClientStatus :=
  match r.exceptionInfo with
  | .forwardRequest _ => .running r.reset
  | .needsAddressingMode mode => .running { r.reset with addressingMode := some mode }
  | _ => .done r

/-- Client_Invoke, one iteration of its loop. -/
def clientInvoke (n : Nat) : ClientStatus → ClientAttempt → ClientStatus
  | .running r, b =>
    match b.traverse n ⟨[], r⟩ with
    | .ok _ s => .reinvoke s.request
    | .error e _ => .escaped e
  | s, _ => s

/-! ## The flow -/

structure Ready (r : InterceptedRequest) (target : Nat) : Prop where
  target : r.target = target
  completed : r.completed = false
  argumentsCalled : r.argumentsCalled = false
  setResultCalled : r.setResultCalled = false
  exceptionInfo : r.exceptionInfo = .empty

theorem ready_reset {r : InterceptedRequest} {target : Nat} :
    Ready r.reset target ↔ r.target = target ∧ r.setResultCalled = false :=
  ⟨fun h => ⟨h.target, h.setResultCalled⟩, fun h => ⟨h.1, rfl, rfl, h.2, rfl⟩⟩

namespace ClientAttempt

variable (n : Nat) (b : ClientAttempt) (r : InterceptedRequest)

def effect : ClientEvent → Option RequestException :=
  Interception.effect b.answer fun _ => b.invocation.exceptionInfo

def log : List ClientEvent := (stateAfter (b.traverse n) ⟨[], r⟩).log

/-- The outcome after all events. -/
def outcome : RequestException := FlowStack.outcome b.effect .empty (b.log n r)

/-- The request is invoked when all starting points completed. -/
def rising (log : List ClientEvent) (o : RequestException) : List ClientEvent :=
  log ++ if o = .empty then [.body ()] else []

/-- The traversal is a flow stack, and a forward is followed. -/
structure Follows : Prop where
  flow : ∃ log o, Rises b.answer .sendRequest 0 n log o ∧
    FlowStack.Unwinds b.effect (Interception.starting .sendRequest)
      (clientEndingPoints.ending r.replyExpected) .empty (rising log o) (b.log n r)
  next : match b.outcome n r with
    | .forwardRequest ref => ∃ r', clientInvoke n (.running r) b = .running r' ∧ Ready r' ref
    | .needsAddressingMode mode => ∃ r', clientInvoke n (.running r) b = .running r' ∧
      r'.target = r.target ∧ r'.addressingMode = some mode ∧ r'.exceptionInfo = .empty
    | o => ∃ r', clientInvoke n (.running r) b = .done r' ∧ r'.exceptionInfo = o

/-- The ending points that the flow calls for, after these starting points. -/
def falling (log : List ClientEvent) (o : RequestException) : List ClientEvent :=
  FlowStack.unwinding b.effect (clientEndingPoints.ending r.replyExpected)
    (FlowStack.outcome b.effect .empty (rising log o))
    (FlowStack.completed b.effect (Interception.starting .sendRequest) (rising log o)).reverse

/-- No receive_reply that is called raises ForwardRequest.  The attempt does not end in a forward,
but to the target itself and before a result was set. -/
def Sound : Prop :=
  ∀ log o, Rises b.answer .sendRequest 0 n log o →
    NoReplyForwards b.answer clientEndingPoints (b.falling r log o) ∧
    ∀ ref, FlowStack.outcome b.effect .empty (rising log o ++ b.falling r log o) =
        .forwardRequest ref →
      ref = r.target ∧ r.setResultCalled = false ∧
        (o = .empty → b.invocation.setResultCalled = false)

/-- The request when the ending points are called. -/
def risen (o : RequestException) : InterceptedRequest :=
  if o = .empty then
    { r with
      completed := true
      argumentsCalled := r.argumentsCalled || b.invocation.argumentsCalled
      setResultCalled := r.setResultCalled || b.invocation.setResultCalled
      exceptionInfo := b.invocation.exceptionInfo }
  else { r with exceptionInfo := o }

variable {n b r}

theorem risen_replyExpected (o : RequestException) :
    (b.risen r o).replyExpected = r.replyExpected := by
  rw [risen]
  split_ifs <;> rfl

theorem risen_target (o : RequestException) : (b.risen r o).target = r.target := by
  rw [risen]
  split_ifs <;> rfl

theorem risen_setResultCalled (o : RequestException) : (b.risen r o).setResultCalled = false ↔
    r.setResultCalled = false ∧ (o = .empty → b.invocation.setResultCalled = false) := by
  rw [risen]
  split_ifs with ho <;> simp [ho]

theorem traverse_eq (h : r.exceptionInfo = .empty) : ∃ log o m,
    Rises b.answer .sendRequest 0 n log o ∧
    FlowStack.completed b.effect (Interception.starting .sendRequest) (rising log o) =
      List.range m ∧
    (b.risen r o).exceptionInfo = FlowStack.outcome b.effect .empty (rising log o) ∧
    b.traverse n ⟨[], r⟩ =
      TraversalM.callEnding b.answer clientEndingPoints m ⟨rising log o, b.risen r o⟩ := by
  obtain ⟨log, o, m, hrises, hm, hcompleted, hrun⟩ := TraversalM.callStarting_rises
    b.answer (fun _ : Unit => b.invocation.exceptionInfo) .sendRequest n 0 ⟨[], r⟩ h
  rw [Nat.zero_add] at hrises hrun
  have houtcome := hrises.outcome fun _ : Unit => b.invocation.exceptionInfo
  refine ⟨log, o, m, hrises, ?_, ?_, ?_⟩
  · rw [List.range_eq_range', ← hcompleted, rising, FlowStack.completed_append]
    split_ifs
    · exact List.append_nil _
    · exact List.append_nil _
  · rw [rising, FlowStack.outcome_append, risen]
    split_ifs with ho
    · rfl
    · exact houtcome.symm
  · rw [traverse, bind_ok hrun]
    by_cases ho : o = .empty
    · rw [onlyIf_true (hm.1 ho)]
      rw [invoke, bind_ok (modify_apply ..), rising, risen, if_pos ho, if_pos ho]
      rfl
    · rw [onlyIf_false (fun hmn => ho (hm.2 hmn)), bind_ok (pure_apply ..), rising, risen,
        if_neg ho, if_neg ho, List.append_nil, Traversal.extend, h]
      rw [show FlowStack.outcome _ _ log = o from houtcome]
      rfl

/-- The traversal of an attempt in which no ForwardRequest escapes, or how one escapes. -/
theorem traverse_cases (h : r.exceptionInfo = .empty) : ∃ log o,
    Rises b.answer .sendRequest 0 n log o ∧
    ((NoReplyForwards b.answer clientEndingPoints (b.falling r log o) ∧ b.traverse n ⟨[], r⟩ =
        .ok () ⟨rising log o ++ b.falling r log o, { b.risen r o with
          exceptionInfo := FlowStack.outcome b.effect .empty
            (rising log o ++ b.falling r log o) }⟩) ∨
      ¬NoReplyForwards b.answer clientEndingPoints (b.falling r log o) ∧ ∃ l j ref r',
        b.answer .receiveReply j = .forwardRequest ref ∧
        b.traverse n ⟨[], r⟩ =
          .error (.forwardRequest ref) ⟨l ++ [.point .receiveReply j], r'⟩) := by
  obtain ⟨log, o, m, hrises, hcompleted, hrisen, hrun⟩ := traverse_eq (n := n) (b := b) h
  have hfalling : b.falling r log o = endingEvents b.answer
      (fun _ : Unit => b.invocation.exceptionInfo) clientEndingPoints (b.risen r o).replyExpected
      (b.risen r o).exceptionInfo m := by
    rw [falling, hcompleted, risen_replyExpected, hrisen]
    rfl
  refine ⟨log, o, hrises, ?_⟩
  by_cases hno : NoReplyForwards b.answer clientEndingPoints (b.falling r log o)
  · refine .inl ⟨hno, ?_⟩
    rw [FlowStack.outcome_append, ← hrisen]
    rw [hfalling] at hno ⊢
    rw [hrun]
    exact TraversalM.callEnding_ok _ _ _ m ⟨rising log o, b.risen r o⟩ hno
  · refine .inr ⟨hno, ?_⟩
    rw [hfalling] at hno
    obtain ⟨l, j, ref, r', href, herror⟩ :=
      TraversalM.callEnding_escapes _ _ _ m ⟨rising log o, b.risen r o⟩ hno
    refine ⟨rising log o ++ l, j, ref, r', href, ?_⟩
    rw [hrun, herror, List.append_assoc]
    rfl

theorem clientInvoke_ok {s : Traversal ClientPoint Unit} (h : b.traverse n ⟨[], r⟩ = .ok () s) :
    clientInvoke n (.running r) b = .reinvoke s.request := by
  rw [clientInvoke, h]

/-- An attempt follows the rules if and only if it is sound. -/
theorem follows_iff (h : r.exceptionInfo = .empty) : b.Follows n r ↔ b.Sound n r := by
  obtain ⟨log, o, hrises, ⟨hno, hrun⟩ | ⟨hno, l, j, ref, r', href, hrun⟩⟩ :=
    traverse_cases (n := n) (b := b) h
  · have hlog : b.log n r = rising log o ++ b.falling r log o := by
      rw [ClientAttempt.log, stateAfter_ok hrun]
    have houtcome : b.outcome n r =
        FlowStack.outcome b.effect .empty (rising log o ++ b.falling r log o) := by
      rw [ClientAttempt.outcome, hlog]
    have hnext := clientInvoke_ok hrun
    rw [← houtcome] at hnext
    have hsound : b.Sound n r ↔ ∀ ref, b.outcome n r = .forwardRequest ref →
        ref = r.target ∧ r.setResultCalled = false ∧
          (o = .empty → b.invocation.setResultCalled = false) := by
      constructor
      · intro hs
        rw [houtcome]
        exact (hs log o hrises).2
      · intro hs log' o' hrises'
        obtain ⟨rfl, rfl⟩ := hrises.unique hrises'
        rw [← houtcome]
        exact ⟨hno, hs⟩
    have hflow : ∃ log o, Rises b.answer .sendRequest 0 n log o ∧
        FlowStack.Unwinds b.effect (Interception.starting .sendRequest)
          (clientEndingPoints.ending r.replyExpected) .empty (rising log o) (b.log n r) :=
      ⟨log, o, hrises, hlog⟩
    rw [hsound]
    refine ⟨fun hf ref href => ?_, fun hs => ⟨hflow, ?_⟩⟩
    · have hfollowed := hf.next
      rw [href] at hfollowed hnext
      obtain ⟨r', hrunning, hready⟩ := hfollowed
      rw [hnext] at hrunning
      cases hrunning
      obtain ⟨htarget, hset⟩ := ready_reset.1 hready
      exact ⟨htarget.symm.trans (risen_target o), (risen_setResultCalled o).1 hset⟩
    · cases hout : b.outcome n r with
      | forwardRequest ref =>
        rw [hout] at hnext
        obtain ⟨htarget, hset⟩ := hs ref hout
        exact ⟨_, hnext, ready_reset.2
          ⟨(risen_target o).trans htarget.symm, (risen_setResultCalled o).2 hset⟩⟩
      | needsAddressingMode mode =>
        rw [hout] at hnext
        exact ⟨_, hnext, risen_target o, rfl, rfl⟩
      | empty =>
        rw [hout] at hnext
        exact ⟨_, hnext, rfl⟩
      | system e =>
        rw [hout] at hnext
        exact ⟨_, hnext, rfl⟩
      | user e =>
        rw [hout] at hnext
        exact ⟨_, hnext, rfl⟩
  · -- A ForwardRequest of receive_reply leaves Client_Invoke.
    refine ⟨fun hf => ?_, fun hs => absurd (hs log o hrises).1 hno⟩
    have hout : b.outcome n r = .forwardRequest ref := by
      rw [ClientAttempt.outcome, ClientAttempt.log, stateAfter_error hrun,
        FlowStack.outcome_append, FlowStack.outcome_cons]
      exact FlowStack.after_some (by simp [effect, Interception.effect, href, PointAnswer.raised]) _
    have hfollowed := hf.next
    rw [hout] at hfollowed
    obtain ⟨r'', hrunning, -⟩ := hfollowed
    rw [clientInvoke, hrun] at hrunning
    cases hrunning

end ClientAttempt

/-! ## Runs -/

def ClientStatus.Follows (n : Nat) : ClientStatus → ClientAttempt → Prop
  | .running r, b => b.Follows n r
  | _, _ => True

def ClientStatus.Sound (n : Nat) : ClientStatus → ClientAttempt → Prop
  | .running r, b => b.Sound n r
  | _, _ => True

/-- A request that is issued has no exception information. -/
def ClientStatus.Clear : ClientStatus → Prop
  | .running r => r.exceptionInfo = .empty
  | _ => True

theorem clear_reinvoke (r : InterceptedRequest) : (ClientStatus.reinvoke r).Clear := by
  rw [ClientStatus.reinvoke]
  split <;> trivial

theorem clear_clientInvoke (n : Nat) {s : ClientStatus} (h : s.Clear) (b : ClientAttempt) :
    (clientInvoke n s b).Clear := by
  cases s with
  | running r =>
    rw [clientInvoke]
    split
    · exact clear_reinvoke _
    · trivial
  | done r => exact h
  | escaped e => exact h

/-- In a run of Client_Invoke all attempts follow the rules, if and only if all are sound. -/
theorem client_follows_iff (n target reqFlags : Nat) (attempts : List ClientAttempt) :
    Runs.Along (clientInvoke n) (ClientStatus.Follows n) (.running (.setup target reqFlags))
        attempts ↔
      Runs.Along (clientInvoke n) (ClientStatus.Sound n) (.running (.setup target reqFlags))
        attempts := by
  have hstep : ∀ s b, s.Clear → True → (s.Follows n b → s.Sound n b) ∧
      (s.Sound n b → s.Follows n b ∧ (clientInvoke n s b).Clear) := by
    intro s b hs _
    have hnext := clear_clientInvoke n hs b
    cases s with
    | running r =>
      have hiff := ClientAttempt.follows_iff (n := n) (b := b) hs
      exact ⟨hiff.1, fun h => ⟨hiff.2 h, hnext⟩⟩
    | done r => exact ⟨fun _ => trivial, fun _ => ⟨trivial, hnext⟩⟩
    | escaped e => exact ⟨fun _ => trivial, fun _ => ⟨trivial, hnext⟩⟩
  exact Runs.along_iff hstep attempts _ rfl (Runs.along_true attempts _)

/-- A forward is not followed: the request stays on its target. -/
theorem not_follows_forward : ¬∀ (n target reqFlags : Nat) (attempts : List ClientAttempt),
    Runs.Along (clientInvoke n) (ClientStatus.Follows n) (.running (.setup target reqFlags))
      attempts := by
  intro h
  obtain ⟨hfollows, -⟩ := h 0 1 InterceptedRequest.syncWithTarget
    [⟨fun _ _ => .returns, ⟨.forwardRequest 2, false, false⟩⟩]
  obtain ⟨r', hrunning, hready⟩ := hfollows.next
  cases hrunning
  exact absurd hready.target (by decide)

end PolyORB
