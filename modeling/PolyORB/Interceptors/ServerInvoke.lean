import PolyORB.Interceptors.Traversal

/-!
# Server request interceptors

Server_Invoke and Server_Intermediate of PolyORB.CORBA_P.Interceptors, around a static skeleton as
the IDL compiler writes it, which reaches Server_Intermediate from CORBA.ServerRequest.Arguments
and CORBA.ServerRequest.Set_Exception.
-/

namespace PolyORB

open Program

inductive ServerPoint where
  | receiveRequestServiceContexts
  | receiveRequest
  | sendReply
  | sendException
  | sendOther
  deriving DecidableEq

/-- How the implementation of an operation ends: `otherException` is not declared for it. -/
inductive ServantOutcome where
  | returns
  | userException (exception : Nat)
  | otherException (exception : Nat)
  deriving DecidableEq

/-- A skeleton fails when it does not know the operation, or cannot get the arguments. -/
inductive SkeletonOutcome where
  | fails (exception : Nat)
  | executes (outcome : ServantOutcome)
  deriving DecidableEq

def ServantOutcome.info : ServantOutcome → RequestException
  | .returns => .empty
  | .userException e => .user e
  | .otherException e => .system e

structure ServerCall where
  answer : ServerPoint → Nat → PointAnswer
  skeleton : SkeletonOutcome

inductive ServerBody where
  | fails
  | executes
  deriving DecidableEq

abbrev ServerEvent := Interception ServerPoint ServerBody

structure ServerInterceptorNote where
  lastInterceptor : Nat
  exceptionInfo : RequestException
  intermediateCalled : Bool
  deriving DecidableEq

structure ServerTraversal where
  traversal : Traversal ServerPoint ServerBody
  note : ServerInterceptorNote
  deriving DecidableEq

abbrev ServerM := EStateM InterceptionFault ServerTraversal

def serverEndingPoints : EndingPoints ServerPoint where
  reply := .sendReply
  exception := .sendException
  other := .sendOther
  reply_ne_exception := by decide
  reply_ne_other := by decide

namespace ServerCall

variable {α : Type}

def onRequest (p : TraversalM ServerPoint ServerBody α) : ServerM α :=
  zoom ServerTraversal.traversal (fun s t => { s with traversal := t }) p

/-- With the exception information of the note in place of that of the request. -/
def onNote (p : TraversalM ServerPoint ServerBody α) : ServerM α :=
  zoom (fun s => ⟨s.traversal.log,
      { s.traversal.request with exceptionInfo := s.note.exceptionInfo }⟩)
    (fun s t =>
      { traversal := { s.traversal with log := t.log }
        note := { s.note with exceptionInfo := t.request.exceptionInfo } }) p

def setExceptionInfo (val : RequestException) : ServerM Unit :=
  onRequest (modify fun s => { s with request := { s.request with exceptionInfo := val } })

def happens (e : ServerBody) : ServerM Unit :=
  onRequest (modify fun s => { s with log := s.log ++ [.body e] })

/-! ## The code -/

def systemExceptionToAny : InterceptionFault → RequestException
  | .raised (.system e) => .system e
  | _ => .system 0

variable (n : Nat) (b : ServerCall)

def serverIntermediate : ServerM Unit := do
  let s ← get
  (if s.note.intermediateCalled = true then pure ()
  else do
    modify fun s => { s with note := { s.note with intermediateCalled := true } }
    let _ ← onNote (TraversalM.callStarting b.answer .receiveRequest n 0)
    let s ← get
    raiseIf (s.note.exceptionInfo ≠ .empty) (.raised s.note.exceptionInfo))

def setException (val : RequestException) : ServerM Unit := do
  setExceptionInfo val
  serverIntermediate n b

/-- The body of a skeleton's Invoke: Arguments, the implementation, and its declared exceptions. -/
def dispatch : ServerM Unit :=
  match b.skeleton with
  | .fails e => do
    happens .fails
    throw (.raised (.system e))
  | .executes outcome => do
    serverIntermediate n b
    happens .executes
    match outcome with
    | .returns => pure ()
    | .userException e => setException n b (.user e)
    | .otherException e => throw (.raised (.system e))

def invoke : ServerM Unit :=
  tryCatch (dispatch n b) fun e => setException n b (systemExceptionToAny e)

def serverInvoke : ServerM Unit := do
  let lastInterceptor ←
    onRequest (TraversalM.callStarting b.answer .receiveRequestServiceContexts n 0)
  modify fun s => { s with note := { s.note with lastInterceptor := lastInterceptor } }
  onlyIf (lastInterceptor = n) (invoke n b)
  let s ← get
  onlyIf (s.note.exceptionInfo ≠ .empty) (setExceptionInfo s.note.exceptionInfo)
  onRequest (TraversalM.callEnding b.answer serverEndingPoints s.note.lastInterceptor)

/-- The note before the starting points. -/
def start (r : InterceptedRequest) : ServerTraversal := ⟨⟨[], r⟩, ⟨n, .empty, false⟩⟩

/-! ## The flow -/

/-- The outcome that a failing skeleton or the implementation brings about. -/
def outcomeOf (b : ServerCall) : ServerBody → RequestException := fun _ =>
  match b.skeleton with
  | .fails e => .system e
  | .executes outcome => outcome.info

def effect : ServerEvent → Option RequestException := Interception.effect b.answer b.outcomeOf

/-- What may happen between the starting and the ending points, after the outcome of the starting
points: the servant is executed after all calls of receive_request, if none of the points
raised. -/
inductive Middle : RequestException → List ServerEvent → Prop
  | skipped {o : RequestException} (ho : o ≠ .empty) : Middle o []
  | executes {outcome : ServantOutcome} {log : List ServerEvent}
    (hb : b.skeleton = .executes outcome) (h : Rises b.answer .receiveRequest 0 n log .empty) :
    Middle .empty (log ++ [.body .executes])
  | raises {outcome : ServantOutcome} {log : List ServerEvent} {o : RequestException}
    (hb : b.skeleton = .executes outcome) (ho : o ≠ .empty)
    (h : Rises b.answer .receiveRequest 0 n log o) : Middle .empty log
  | fails {e : Nat} {log : List ServerEvent} {o : RequestException} (hb : b.skeleton = .fails e)
    (h : Rises b.answer .receiveRequest 0 n log o) : Middle .empty (.body .fails :: log)

/-- A reply is sent, with the last outcome, and the traversal is a flow stack. -/
def Follows (r : InterceptedRequest) : Prop :=
  ∃ s, serverInvoke n b (start n r) = .ok () s ∧
    s.traversal.request.exceptionInfo = FlowStack.outcome b.effect .empty s.traversal.log ∧
    ∃ log o mid, Rises b.answer .receiveRequestServiceContexts 0 n log o ∧ Middle n b o mid ∧
      FlowStack.Unwinds b.effect (Interception.starting .receiveRequestServiceContexts)
        (serverEndingPoints.ending r.replyExpected) .empty (log ++ mid) s.traversal.log

/-- The ending points that the flow calls for, after the events `up`. -/
def falling (r : InterceptedRequest) (up : List ServerEvent) : List ServerEvent :=
  FlowStack.unwinding b.effect (serverEndingPoints.ending r.replyExpected)
    (FlowStack.outcome b.effect .empty up)
    (FlowStack.completed b.effect (Interception.starting .receiveRequestServiceContexts)
      up).reverse

/-- No send_reply that is called raises ForwardRequest; and when the skeleton fails after all
starting points, no receive_request raises. -/
def Sound (r : InterceptedRequest) : Prop :=
  (∀ log o mid, Rises b.answer .receiveRequestServiceContexts 0 n log o → Middle n b o mid →
    NoReplyForwards b.answer serverEndingPoints (b.falling r (log ++ mid))) ∧
  ((∀ i < n, b.answer .receiveRequestServiceContexts i = .returns) →
    (∃ e, b.skeleton = .fails e) → ∀ i < n, b.answer .receiveRequest i = .returns)

/-! ## The traversal -/

variable {n b} {s : ServerTraversal}

theorem onRequest_ok {α : Type} {p : TraversalM ServerPoint ServerBody α} {a : α}
    {t : Traversal ServerPoint ServerBody} (h : p s.traversal = .ok a t) :
    onRequest p s = .ok a ⟨t, s.note⟩ := by
  simp [onRequest, zoom, h]

theorem onRequest_error {α : Type} {p : TraversalM ServerPoint ServerBody α}
    {e : InterceptionFault} {t : Traversal ServerPoint ServerBody}
    (h : p s.traversal = .error e t) : onRequest p s = .error e ⟨t, s.note⟩ := by
  simp [onRequest, zoom, h]

/-! ### The intermediate points -/

theorem setExceptionInfo_apply (val : RequestException) (t : Traversal ServerPoint ServerBody)
    (note : ServerInterceptorNote) : setExceptionInfo val ⟨t, note⟩ =
      .ok () ⟨⟨t.log, { t.request with exceptionInfo := val }⟩, note⟩ := rfl

theorem happens_apply (e : ServerBody) (t : Traversal ServerPoint ServerBody)
    (note : ServerInterceptorNote) :
    happens e ⟨t, note⟩ = .ok () ⟨⟨t.log ++ [.body e], t.request⟩, note⟩ := rfl

theorem serverIntermediate_called (h : s.note.intermediateCalled = true) :
    serverIntermediate n b s = .ok () s := by
  rw [serverIntermediate, bind_ok (get_apply s), if_pos h]
  rfl

variable (log : List ServerEvent) (r : InterceptedRequest) (k : Nat)

theorem setException_called (val o : RequestException) :
    setException n b val ⟨⟨log, r⟩, ⟨k, o, true⟩⟩ =
      .ok () ⟨⟨log, { r with exceptionInfo := val }⟩, ⟨k, o, true⟩⟩ := by
  rw [setException, bind_ok (setExceptionInfo_apply ..), serverIntermediate_called rfl]

theorem serverIntermediate_first : ∃ mid o, Rises b.answer .receiveRequest 0 n mid o ∧
    (o = .empty → serverIntermediate n b ⟨⟨log, r⟩, ⟨k, .empty, false⟩⟩ =
      .ok () ⟨⟨log ++ mid, r⟩, ⟨k, .empty, true⟩⟩) ∧
    (o ≠ .empty → serverIntermediate n b ⟨⟨log, r⟩, ⟨k, .empty, false⟩⟩ =
      .error (.raised o) ⟨⟨log ++ mid, r⟩, ⟨k, o, true⟩⟩) := by
  obtain ⟨mid, o, m, hrises, -, -, hrun⟩ := TraversalM.callStarting_rises
    b.answer b.outcomeOf .receiveRequest n 0
    ⟨log, { r with exceptionInfo := .empty }⟩ rfl
  rw [Nat.zero_add] at hrises
  have houtcome := hrises.outcome b.outcomeOf
  have hnote : onNote (TraversalM.callStarting b.answer .receiveRequest n 0)
      ⟨⟨log, r⟩, ⟨k, .empty, true⟩⟩ = .ok (0 + m) ⟨⟨log ++ mid, r⟩, ⟨k, o, true⟩⟩ := by
    simp only [onNote, zoom]
    rw [hrun]
    simp [houtcome]
  have hbind : serverIntermediate n b ⟨⟨log, r⟩, ⟨k, .empty, false⟩⟩ =
      raiseIf (o ≠ .empty) (.raised o) ⟨⟨log ++ mid, r⟩, ⟨k, o, true⟩⟩ := by
    rw [serverIntermediate, bind_ok (get_apply _), if_neg (by simp), bind_ok (modify_apply ..),
      bind_ok hnote, bind_ok (get_apply _)]
  refine ⟨mid, o, hrises, fun ho => ?_, fun ho => ?_⟩
  · rw [hbind, raiseIf_false (not_not.2 ho), ho]
  · rw [hbind, raiseIf_true ho]

/-! ### The skeleton -/

theorem dispatch_fails {e : Nat} (hs : b.skeleton = .fails e) (note : ServerInterceptorNote) :
    dispatch n b ⟨⟨log, r⟩, note⟩ =
      .error (.raised (.system e)) ⟨⟨log ++ [.body .fails], r⟩, note⟩ := by
  simp only [dispatch, hs]
  rw [bind_ok (happens_apply ..), throw_apply]

theorem dispatch_executes {outcome : ServantOutcome} (hs : b.skeleton = .executes outcome)
    (h : serverIntermediate n b s = .ok () ⟨⟨log, r⟩, ⟨k, .empty, true⟩⟩)
    (hr : r.exceptionInfo = .empty) :
    dispatch n b s = .ok () ⟨⟨log ++ [.body .executes],
        { r with exceptionInfo := outcome.info }⟩, ⟨k, .empty, true⟩⟩ ∨
      ∃ e, outcome = .otherException e ∧ dispatch n b s = .error (.raised (.system e))
        ⟨⟨log ++ [.body .executes], r⟩, ⟨k, .empty, true⟩⟩ := by
  simp only [dispatch, hs]
  rw [bind_ok h, bind_ok (happens_apply ..)]
  cases outcome with
  | returns =>
    left
    simp only [ServantOutcome.info, ← hr]
    rfl
  | userException e => exact .inl (setException_called ..)
  | otherException e => exact .inr ⟨e, rfl, rfl⟩

theorem invoke_ok (hr : r.exceptionInfo = .empty)
    (hb : (∃ e, b.skeleton = .fails e) → ∀ i < n, b.answer .receiveRequest i = .returns) :
    ∃ mid x y, Middle n b .empty mid ∧
      (if y = .empty then x else y) = FlowStack.outcome b.effect .empty mid ∧
      invoke n b ⟨⟨log, r⟩, ⟨k, .empty, false⟩⟩ =
        .ok () ⟨⟨log ++ mid, { r with exceptionInfo := x }⟩, ⟨k, y, true⟩⟩ := by
  rw [invoke]
  cases hs : b.skeleton with
  | fails e =>
    obtain ⟨mid, o, hrises, hempty, -⟩ := serverIntermediate_first (n := n) (b := b)
      (log ++ [.body .fails]) { r with exceptionInfo := .system e } k
    have ho : o = .empty := hrises.empty_iff.2 fun i _ hi => hb ⟨e, hs⟩ i hi
    have hfails : b.effect (.body .fails) = some (.system e) := by
      simp [effect, Interception.effect, outcomeOf, hs]
    refine ⟨.body .fails :: mid, .system e, .empty, .fails hs hrises, ?_, ?_⟩
    · rw [if_pos rfl, FlowStack.outcome_cons, FlowStack.after_some hfails]
      exact (FlowStack.outcome_of_none (hrises.silent ho _) _).symm
    · rw [tryCatch_error (dispatch_fails log r hs _), systemExceptionToAny, setException,
        bind_ok (setExceptionInfo_apply ..), hempty ho, List.append_assoc]
      rfl
  | executes outcome =>
    obtain ⟨mid, o, hrises, hempty, hraises⟩ := serverIntermediate_first (n := n) (b := b) log r k
    by_cases ho : o = .empty
    · rw [ho] at hrises
      have hexecutes : b.effect (.body .executes) = some outcome.info := by
        simp [effect, Interception.effect, outcomeOf, hs]
      refine ⟨mid ++ [.body .executes], outcome.info, .empty, .executes hs hrises, ?_, ?_⟩
      · rw [if_pos rfl, FlowStack.outcome_append, FlowStack.outcome_cons,
          FlowStack.after_some hexecutes, FlowStack.outcome_nil]
      · rw [← List.append_assoc]
        rcases dispatch_executes _ r k hs (hempty ho) hr with hrun | ⟨e, rfl, hrun⟩
        · exact tryCatch_ok hrun
        · exact (tryCatch_error hrun).trans (setException_called ..)
    · refine ⟨mid, systemExceptionToAny (.raised o), o, .raises hs ho hrises, ?_, ?_⟩
      · rw [if_neg ho]
        exact (hrises.outcome b.outcomeOf).symm
      · have hrun : dispatch n b ⟨⟨log, r⟩, ⟨k, .empty, false⟩⟩ =
            .error (.raised o) ⟨⟨log ++ mid, r⟩, ⟨k, o, true⟩⟩ := by
          simp only [dispatch, hs]
          rw [bind_error (hraises ho)]
        exact (tryCatch_error hrun).trans (setException_called ..)

/-- A receive_request that raises after the skeleton failed leaves the skeleton. -/
theorem invoke_escapes {e : Nat} (hs : b.skeleton = .fails e)
    (hb : ¬∀ i < n, b.answer .receiveRequest i = .returns) :
    ∃ o t, invoke n b ⟨⟨log, r⟩, ⟨k, .empty, false⟩⟩ = .error (.raised o) t := by
  obtain ⟨mid, o, hrises, -, hraises⟩ := serverIntermediate_first (n := n) (b := b)
    (log ++ [.body .fails]) { r with exceptionInfo := .system e } k
  have ho : o ≠ .empty := fun ho => hb fun i hi => hrises.empty_iff.1 ho i (Nat.zero_le i) hi
  refine ⟨o, ⟨⟨log ++ [.body .fails] ++ mid, { r with exceptionInfo := .system e }⟩,
    ⟨k, o, true⟩⟩, ?_⟩
  rw [invoke, tryCatch_error (dispatch_fails log r hs _), systemExceptionToAny, setException,
    bind_ok (setExceptionInfo_apply ..)]
  exact hraises ho

/-! ### All of it -/

theorem Middle.unique {o : RequestException} {mid mid' : List ServerEvent} (h : Middle n b o mid)
    (h' : Middle n b o mid') : mid' = mid := by
  cases h with
  | skipped ho =>
    cases h' with
    | skipped => rfl
    | _ => exact absurd rfl ho
  | executes hb h =>
    cases h' with
    | skipped ho => exact absurd rfl ho
    | executes _ h' => rw [(h.unique h').1]
    | raises _ ho h' => exact absurd (h.unique h').2 ho
    | fails hb' => rw [hb] at hb'; cases hb'
  | raises hb ho h =>
    cases h' with
    | skipped ho' => exact absurd rfl ho'
    | executes _ h' => exact absurd (h.unique h').2.symm ho
    | raises _ _ h' => rw [(h.unique h').1]
    | fails hb' => rw [hb] at hb'; cases hb'
  | fails hb h =>
    cases h' with
    | skipped ho => exact absurd rfl ho
    | executes hb' => rw [hb] at hb'; cases hb'
    | raises hb' => rw [hb] at hb'; cases hb'
    | fails _ h' => rw [(h.unique h').1]

theorem Middle.completed {o : RequestException} {mid : List ServerEvent} (h : Middle n b o mid) :
    FlowStack.completed b.effect (Interception.starting .receiveRequestServiceContexts) mid =
      [] := by
  have hpoints : ∀ {log : List ServerEvent} {o}, Rises b.answer .receiveRequest 0 n log o →
      ∀ e ∈ log, Interception.starting ServerPoint.receiveRequestServiceContexts e = none := by
    intro log o h e he
    obtain ⟨i, rfl⟩ := h.mem he
    rfl
  refine FlowStack.completed_of_none ?_
  cases h with
  | skipped => exact fun e he => by cases he
  | executes _ h =>
    intro e he
    rcases List.mem_append.1 he with he | he
    · exact hpoints h e he
    · rw [List.mem_singleton.1 he]
      rfl
  | raises _ _ h => exact hpoints h
  | fails _ h =>
    intro e he
    rcases List.mem_cons.1 he with rfl | he
    · rfl
    · exact hpoints h e he

theorem serverInvoke_eq (hr : r.exceptionInfo = .empty)
    (hb : (∀ i < n, b.answer .receiveRequestServiceContexts i = .returns) →
      (∃ e, b.skeleton = .fails e) → ∀ i < n, b.answer .receiveRequest i = .returns) :
    ∃ log o mid m note, Rises b.answer .receiveRequestServiceContexts 0 n log o ∧
      Middle n b o mid ∧
      FlowStack.completed b.effect (Interception.starting .receiveRequestServiceContexts)
        (log ++ mid) = List.range m ∧
      serverInvoke n b (start n r) =
        onRequest (TraversalM.callEnding b.answer serverEndingPoints m)
          ⟨⟨log ++ mid, { r with
            exceptionInfo := FlowStack.outcome b.effect .empty (log ++ mid) }⟩, note⟩ := by
  obtain ⟨log, o, m, hrises, hm, hcompleted, hrun⟩ := TraversalM.callStarting_rises
    b.answer b.outcomeOf .receiveRequestServiceContexts n 0 ⟨[], r⟩ hr
  rw [Nat.zero_add] at hrises hrun
  have houtcome : FlowStack.outcome b.effect .empty log = o := hrises.outcome b.outcomeOf
  have hstart : onRequest (TraversalM.callStarting b.answer .receiveRequestServiceContexts n 0)
      (start n r) = .ok m ⟨⟨log, { r with exceptionInfo := o }⟩, ⟨n, .empty, false⟩⟩ := by
    rw [start, onRequest_ok hrun]
    simp [Traversal.extend, hr, hrises.outcome b.outcomeOf]
  have hall : ∀ mid, Middle n b o mid →
      FlowStack.completed b.effect (Interception.starting .receiveRequestServiceContexts)
        (log ++ mid) = List.range m := by
    intro mid hmid
    rw [FlowStack.completed_append, hmid.completed, List.append_nil, List.range_eq_range']
    exact hcompleted
  rw [serverInvoke, bind_ok hstart, bind_ok (modify_apply ..)]
  by_cases ho : o = .empty
  · subst ho
    rw [onlyIf_true (hm.1 rfl)]
    have hreturns := fun hfails =>
      hb (fun i hi => hrises.empty_iff.1 rfl i (Nat.zero_le i) hi) hfails
    obtain ⟨mid, x, y, hmid, hxy, hinvoke⟩ := invoke_ok log
      { r with exceptionInfo := .empty } m rfl hreturns
    have hboth : FlowStack.outcome b.effect .empty (log ++ mid) = if y = .empty then x else y := by
      rw [FlowStack.outcome_append, houtcome, hxy]
    refine ⟨log, .empty, mid, m, ⟨m, y, true⟩, hrises, hmid, hall mid hmid, ?_⟩
    rw [bind_ok hinvoke, bind_ok (get_apply _), hboth]
    by_cases hy : y = .empty
    · rw [onlyIf_false (not_not.2 hy), bind_ok (pure_apply ..), if_pos hy]
    · rw [onlyIf_true hy, bind_ok (setExceptionInfo_apply ..), if_neg hy]
  · have hmn : m ≠ n := fun hmn => ho (hm.2 hmn)
    refine ⟨log, o, [], m, ⟨m, .empty, false⟩, hrises, .skipped ho, hall [] (.skipped ho), ?_⟩
    rw [onlyIf_false hmn, bind_ok (pure_apply ..), bind_ok (get_apply _),
      onlyIf_false (by simp), bind_ok (pure_apply ..), List.append_nil, houtcome]

/-- When the skeleton fails and then receive_request raises, no reply is sent. -/
theorem serverInvoke_escapes (hr : r.exceptionInfo = .empty) {e : Nat}
    (hstarts : ∀ i < n, b.answer .receiveRequestServiceContexts i = .returns)
    (hs : b.skeleton = .fails e) (hb : ¬∀ i < n, b.answer .receiveRequest i = .returns) :
    ∃ o t, serverInvoke n b (start n r) = .error (.raised o) t := by
  obtain ⟨log, o, m, hrises, hm, -, hrun⟩ := TraversalM.callStarting_rises
    b.answer b.outcomeOf .receiveRequestServiceContexts n 0 ⟨[], r⟩ hr
  rw [Nat.zero_add] at hrises hrun
  have ho : o = .empty := hrises.empty_iff.2 fun i _ hi => hstarts i hi
  have hstart : onRequest (TraversalM.callStarting b.answer .receiveRequestServiceContexts n 0)
      (start n r) = .ok m ⟨⟨log, { r with exceptionInfo := o }⟩, ⟨n, .empty, false⟩⟩ := by
    rw [start, onRequest_ok hrun]
    simp [Traversal.extend, hr, hrises.outcome b.outcomeOf]
  obtain ⟨o', t, hinvoke⟩ := invoke_escapes log { r with exceptionInfo := o } m hs hb
  refine ⟨o', t, ?_⟩
  rw [serverInvoke, bind_ok hstart, bind_ok (modify_apply ..), onlyIf_true (hm.1 ho),
    bind_error hinvoke]

end ServerCall

open ServerCall in
theorem server_follows_iff (n target reqFlags : Nat) (b : ServerCall) :
    Follows n b (.setup target reqFlags) ↔ Sound n b (.setup target reqFlags) := by
  by_cases hb : (∀ i < n, b.answer .receiveRequestServiceContexts i = .returns) →
      (∃ e, b.skeleton = .fails e) → ∀ i < n, b.answer .receiveRequest i = .returns
  · obtain ⟨log, o, mid, m, note, hrises, hmid, hcompleted, hrun⟩ :=
      serverInvoke_eq (.setup target reqFlags) rfl hb
    have hfalling : falling b (.setup target reqFlags) (log ++ mid) =
        endingEvents b.answer b.outcomeOf serverEndingPoints
          (InterceptedRequest.setup target reqFlags).replyExpected
          (FlowStack.outcome b.effect .empty (log ++ mid)) m := by
      rw [falling, hcompleted]
      rfl
    have hsound : Sound n b (.setup target reqFlags) ↔ NoReplyForwards b.answer serverEndingPoints
        (falling b (.setup target reqFlags) (log ++ mid)) := by
      constructor
      · exact fun hs => hs.1 log o mid hrises hmid
      · refine fun hno => ⟨fun log' o' mid' hrises' hmid' => ?_, hb⟩
        obtain ⟨rfl, rfl⟩ := hrises.unique hrises'
        rwa [hmid.unique hmid']
    rw [hsound]
    constructor
    · rintro ⟨s, hs, -⟩
      by_contra hno
      rw [hfalling] at hno
      obtain ⟨l, j, ref, r', -, herror⟩ := TraversalM.callEnding_escapes _ _ _ m
        ⟨log ++ mid, { InterceptedRequest.setup target reqFlags with
          exceptionInfo := FlowStack.outcome b.effect .empty (log ++ mid) }⟩ hno
      rw [hrun.trans (onRequest_error herror)] at hs
      cases hs
    · intro hno
      rw [hfalling] at hno
      have hok := TraversalM.callEnding_ok _ _ _ m
        ⟨log ++ mid, { InterceptedRequest.setup target reqFlags with
          exceptionInfo := FlowStack.outcome b.effect .empty (log ++ mid) }⟩ hno
      refine ⟨_, hrun.trans (onRequest_ok hok), ?_, log, o, mid, hrises, hmid, ?_⟩
      · exact (FlowStack.outcome_append RequestException.empty (log ++ mid) _).symm
      · rw [FlowStack.Unwinds, hcompleted]
        rfl
  · rw [Classical.not_imp, Classical.not_imp] at hb
    obtain ⟨hstarts, ⟨e, he⟩, hraises⟩ := hb
    obtain ⟨o, t, herror⟩ := serverInvoke_escapes (.setup target reqFlags) rfl hstarts he
      hraises
    constructor
    · rintro ⟨s, hs, -⟩
      rw [herror] at hs
      cases hs
    · exact fun hs => absurd (hs.2 hstarts ⟨e, he⟩) hraises

/-- The operation is unknown to the skeleton, and a receive_request raises: no ending point
follows. -/
theorem not_follows_unknown_operation :
    ¬∀ (n target reqFlags : Nat) (b : ServerCall), b.Follows n (.setup target reqFlags) := by
  intro h
  obtain ⟨s, hs, -⟩ := h 1 1 InterceptedRequest.syncWithTarget
    ⟨fun p _ => if p = .receiveRequest then .systemException 6 else .returns, .fails 12⟩
  cases hs

end PolyORB
