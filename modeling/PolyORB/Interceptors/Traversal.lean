import PolyORB.Lib.FlowStack
import PolyORB.Lib.Program

/-!
# Calling request interceptors

What Client_Invoke and Server_Invoke of PolyORB.CORBA_P.Interceptors have in common: the loop over
the starting points, and the loop over the ending points.  An interceptor is its position in the
list of the registered ones.
-/

namespace PolyORB

open Program

/-- The `Any` of an exception information, by its type. -/
inductive RequestException where
  | empty
  | system (exception : Nat)
  | user (exception : Nat)
  | forwardRequest (reference : Nat)
  | needsAddressingMode (mode : Nat)
  deriving DecidableEq

/-- The components of PolyORB.Requests.Request that the interceptors depend on. -/
structure InterceptedRequest where
  target : Nat
  reqFlags : Nat
  addressingMode : Option Nat
  completed : Bool
  argumentsCalled : Bool
  setResultCalled : Bool
  exceptionInfo : RequestException
  deriving DecidableEq

namespace InterceptedRequest

def syncWithServer : Nat := 4

def syncWithTarget : Nat := 8

def isSet (flagToTest inFlags : Nat) : Bool := flagToTest &&& inFlags == flagToTest

def replyExpected (r : InterceptedRequest) : Bool :=
  isSet syncWithServer r.reqFlags || isSet syncWithTarget r.reqFlags

def setup (target reqFlags : Nat) : InterceptedRequest :=
  ⟨target, reqFlags, none, false, false, false, .empty⟩

def reset (r : InterceptedRequest) : InterceptedRequest :=
  { r with completed := false, argumentsCalled := false, exceptionInfo := .empty }

end InterceptedRequest

/-- What an interceptor does when one of its points is called. -/
inductive PointAnswer where
  | returns
  | systemException (exception : Nat)
  | forwardRequest (reference : Nat)
  deriving DecidableEq

/-- An event of a traversal: interception point `p` of interceptor `j`, or something else. -/
inductive Interception (π β : Type) where
  | point (p : π) (j : Nat)
  | body (b : β)
  deriving DecidableEq

/-- An exception that a traversal does not handle. -/
inductive InterceptionFault where
  | forwardRequest (reference : Nat)
  | raised (info : RequestException)
  deriving DecidableEq

structure Traversal (π β : Type) where
  log : List (Interception π β)
  request : InterceptedRequest
  deriving DecidableEq

abbrev TraversalM (π β : Type) := EStateM InterceptionFault (Traversal π β)

/-- The ending points: those for a reply, for an exception, and for any other outcome. -/
structure EndingPoints (π : Type) where
  reply : π
  exception : π
  other : π
  reply_ne_exception : reply ≠ exception
  reply_ne_other : reply ≠ other

variable {π β : Type}

/-! ## The loops -/

/-- Call_Client_Request_Interceptor_Operation and Call_Server_Request_Interceptor_Operation: what
becomes of `Excp_Inf`. -/
def callOperation (forward : Bool) (a : PointAnswer) (excpInf : RequestException) :
    Except InterceptionFault RequestException :=
  match a with
  | .returns => .ok excpInf
  | .systemException e => .ok (.system e)
  | .forwardRequest ref =>
    if forward = true then .ok (.forwardRequest ref) else .error (.forwardRequest ref)

namespace TraversalM

variable (answer : π → Nat → PointAnswer)

def callPoint (forward : Bool) (p : π) (j : Nat) : TraversalM π β Unit := do
  modify fun s => { s with log := s.log ++ [.point p j] }
  let s ← get
  let excpInf ← evaluate (callOperation forward (answer p j) s.request.exceptionInfo)
  modify fun s => { s with request := { s.request with exceptionInfo := excpInf } }

/-- The starting points of `k` interceptors from number `j` on.  The result is the number of the
first that was not completed. -/
def callStarting (p : π) : Nat → Nat → TraversalM π β Nat
  | 0, j => pure j
  | k + 1, j => do
    callPoint answer true p j
    let s ← get
    (if s.request.exceptionInfo ≠ .empty then pure j
    else callStarting p k (j + 1))

def callEndingPoint (points : EndingPoints π) (j : Nat) : TraversalM π β Unit := do
  let s ← get
  match s.request.exceptionInfo with
  | .forwardRequest _ | .needsAddressingMode _ => callPoint answer true points.other j
  | .system _ | .user _ => callPoint answer true points.exception j
  | .empty =>
    if s.request.replyExpected = true then callPoint answer false points.reply j
    else callPoint answer true points.other j

/-- The ending points of the first interceptors, the last of them first. -/
def callEnding (points : EndingPoints π) : Nat → TraversalM π β Unit
  | 0 => pure ()
  | j + 1 => do
    callEndingPoint answer points j
    callEnding points j

end TraversalM

/-! ## The flow stack -/

/-- The exception that replaces the outcome. -/
def PointAnswer.raised : PointAnswer → Option RequestException
  | .returns => none
  | .systemException e => some (.system e)
  | .forwardRequest ref => some (.forwardRequest ref)

namespace Interception

def effect (answer : π → Nat → PointAnswer) (outcomeOf : β → RequestException) :
    Interception π β → Option RequestException
  | .point p j => (answer p j).raised
  | .body b => some (outcomeOf b)

/-- The interceptor whose starting point `start` this is. -/
def starting [DecidableEq π] (start : π) : Interception π β → Option Nat
  | .point p j => if p = start then some j else none
  | .body _ => none

end Interception

namespace EndingPoints

def matching (points : EndingPoints π) (expected : Bool) : RequestException → π
  | .empty => if expected = true then points.reply else points.other
  | .forwardRequest _ | .needsAddressingMode _ => points.other
  | .system _ | .user _ => points.exception

def ending (points : EndingPoints π) (expected : Bool) (o : RequestException) (j : Nat) :
    Interception π β := .point (points.matching expected o) j

end EndingPoints

/-- Points `p` of the interceptors from `j` to `n`, up to the first that raises; and the outcome. -/
inductive Rises (answer : π → Nat → PointAnswer) (p : π) :
    Nat → Nat → List (Interception π β) → RequestException → Prop
  | all (n : Nat) : Rises answer p n n [] .empty
  | raises {j n : Nat} {o : RequestException} (hlt : j < n) (ho : (answer p j).raised = some o) :
    Rises answer p j n [.point p j] o
  | completes {j n : Nat} {log : List (Interception π β)} {o : RequestException} (hlt : j < n)
    (hj : (answer p j).raised = none) (h : Rises answer p (j + 1) n log o) :
    Rises answer p j n (.point p j :: log) o

namespace Traversal

variable {effect : Interception π β → Option RequestException} {s : Traversal π β}

/-- More events, and the outcome after them. -/
def extend (effect : Interception π β → Option RequestException) (s : Traversal π β)
    (log : List (Interception π β)) : Traversal π β where
  log := s.log ++ log
  request :=
    { s.request with exceptionInfo := FlowStack.outcome effect s.request.exceptionInfo log }

@[simp] theorem extend_nil : s.extend effect [] = s := by
  rw [extend, List.append_nil]
  rfl

theorem extend_append (log log' : List (Interception π β)) :
    s.extend effect (log ++ log') = (s.extend effect log).extend effect log' := by
  simp [extend, FlowStack.outcome_append]

theorem extend_cons (e : Interception π β) (log : List (Interception π β)) :
    s.extend effect (e :: log) = (s.extend effect [e]).extend effect log := extend_append [e] log

@[simp] theorem extend_log (log : List (Interception π β)) :
    (s.extend effect log).log = s.log ++ log := rfl

@[simp] theorem extend_exceptionInfo (log : List (Interception π β)) :
    (s.extend effect log).request.exceptionInfo =
      FlowStack.outcome effect s.request.exceptionInfo log := rfl

end Traversal

theorem PointAnswer.raised_ne_empty (a : PointAnswer) : a.raised ≠ some .empty := by
  cases a <;> simp [raised]

theorem PointAnswer.raised_eq_none {a : PointAnswer} : a.raised = none ↔ a = .returns := by
  cases a <;> simp [raised]

namespace Rises

variable {answer : π → Nat → PointAnswer} {p : π} {j n : Nat}
  {log : List (Interception π β)} {o : RequestException}

theorem unique (h : Rises answer p j n log o) {log' : List (Interception π β)} {o' : RequestException}
    (h' : Rises answer p j n log' o') : log' = log ∧ o' = o := by
  induction h generalizing log' o' with
  | all n =>
    cases h' with
    | all => exact ⟨rfl, rfl⟩
    | raises hlt => exact absurd hlt (lt_irrefl _)
    | completes hlt => exact absurd hlt (lt_irrefl _)
  | raises hlt ho =>
    cases h' with
    | all => exact absurd hlt (lt_irrefl _)
    | raises _ ho' =>
      rw [ho] at ho'
      cases ho'
      exact ⟨rfl, rfl⟩
    | completes _ hj => rw [ho] at hj; cases hj
  | completes hlt hj _ ih =>
    cases h' with
    | all => exact absurd hlt (lt_irrefl _)
    | raises _ ho => rw [hj] at ho; cases ho
    | completes _ _ hrest =>
      obtain ⟨rfl, rfl⟩ := ih hrest
      exact ⟨rfl, rfl⟩

theorem mem (h : Rises answer p j n log o) {e : Interception π β} (he : e ∈ log) :
    ∃ i, e = .point p i := by
  induction h with
  | all => cases he
  | raises => exact ⟨_, List.mem_singleton.1 he⟩
  | completes _ _ _ ih =>
    rcases List.mem_cons.1 he with rfl | he
    · exact ⟨_, rfl⟩
    · exact ih he

theorem empty_iff (h : Rises answer p j n log o) :
    o = .empty ↔ ∀ i, j ≤ i → i < n → answer p i = .returns := by
  induction h with
  | all n =>
    refine ⟨fun _ i hle hlt => ?_, fun _ => rfl⟩
    omega
  | @raises j n o hlt ho =>
    constructor
    · rintro rfl
      exact absurd ho (PointAnswer.raised_ne_empty _)
    · intro h
      rw [PointAnswer.raised_eq_none.2 (h j le_rfl hlt)] at ho
      cases ho
  | @completes j n log o hlt hj _ ih =>
    rw [ih]
    constructor
    · intro h i hle hi
      rcases hle.eq_or_lt with rfl | hgt
      · exact PointAnswer.raised_eq_none.1 hj
      · exact h i hgt hi
    · exact fun h i hle => h i (Nat.le_of_succ_le hle)

theorem silent (h : Rises answer p j n log o) (ho : o = .empty) (outcomeOf : β → RequestException) :
    ∀ e ∈ log, Interception.effect answer outcomeOf e = none := by
  induction h with
  | all => exact fun e he => by cases he
  | raises _ hraised =>
    rw [ho] at hraised
    exact absurd hraised (PointAnswer.raised_ne_empty _)
  | completes _ hj _ ih =>
    intro e he
    rcases List.mem_cons.1 he with rfl | he
    · exact hj
    · exact ih ho e he

theorem outcome (h : Rises answer p j n log o) (outcomeOf : β → RequestException) :
    FlowStack.outcome (Interception.effect answer outcomeOf) .empty log = o := by
  induction h with
  | all => rfl
  | raises _ ho => exact FlowStack.after_some ho _
  | @completes j _ _ _ _ hj _ ih =>
    have hnone : Interception.effect answer outcomeOf (.point p j) = none := hj
    rwa [FlowStack.outcome_cons, FlowStack.after_none hnone]

end Rises

namespace TraversalM

variable (answer : π → Nat → PointAnswer) (outcomeOf : β → RequestException)
  (points : EndingPoints π) {s : Traversal π β}

theorem callPoint_true (p : π) (j : Nat) : callPoint answer true p j s =
    .ok () (s.extend (Interception.effect answer outcomeOf) [.point p j]) := by
  rw [callPoint, bind_ok (modify_apply ..), bind_ok (get_apply _)]
  cases ha : answer p j <;>
    simp [callOperation, Traversal.extend, FlowStack.after, Interception.effect, ha,
      PointAnswer.raised] <;> rfl

variable {answer}

theorem callPoint_false {p : π} {j : Nat} (h : ∀ ref, answer p j ≠ .forwardRequest ref) :
    callPoint answer false p j s =
      .ok () (s.extend (Interception.effect answer outcomeOf) [.point p j]) := by
  rw [callPoint, bind_ok (modify_apply ..), bind_ok (get_apply _)]
  cases ha : answer p j with
  | forwardRequest ref => exact absurd ha (h ref)
  | _ =>
    simp [callOperation, Traversal.extend, FlowStack.after, Interception.effect, ha,
      PointAnswer.raised]
    rfl

theorem callPoint_escapes {p : π} {j ref : Nat} (h : answer p j = .forwardRequest ref) :
    callPoint answer false p j s =
      .error (.forwardRequest ref) ⟨s.log ++ [.point p j], s.request⟩ := by
  rw [callPoint, bind_ok (modify_apply ..), bind_ok (get_apply _), h]
  rfl

theorem callStarting_rises [DecidableEq π] (answer : π → Nat → PointAnswer)
    (outcomeOf : β → RequestException) (p : π) (k : Nat) :
    ∀ (j : Nat) (s : Traversal π β), s.request.exceptionInfo = .empty →
      ∃ log o m, Rises answer p j (j + k) log o ∧ (o = .empty ↔ m = k) ∧
        FlowStack.completed (Interception.effect answer outcomeOf) (Interception.starting p) log =
          List.range' j m ∧
        callStarting answer p k j s =
          .ok (j + m) (s.extend (Interception.effect answer outcomeOf) log) := by
  induction k with
  | zero =>
    intro j s hs
    refine ⟨[], .empty, 0, .all j, by simp, rfl, ?_⟩
    rw [callStarting, pure_apply, Traversal.extend_nil]
    rfl
  | succ k ih =>
    intro j s hs
    have hpoint : callPoint answer true p j s =
      .ok () (s.extend (Interception.effect answer outcomeOf) [.point p j]) :=
      callPoint_true answer outcomeOf p j
    rw [callStarting, bind_ok hpoint, bind_ok (get_apply _), Traversal.extend_exceptionInfo, hs,
      FlowStack.outcome_cons, FlowStack.outcome_nil]
    cases ha : (answer p j).raised with
    | none =>
      have hnone : Interception.effect answer outcomeOf (.point p j) = none := ha
      rw [FlowStack.after_none hnone, if_neg (by simp)]
      obtain ⟨log, o, m, hrises, hm, hcompleted, hrun⟩ := ih (j + 1)
        (s.extend (Interception.effect answer outcomeOf) [.point p j])
        (by simp [hs, FlowStack.after_none hnone])
      rw [show j + 1 + k = j + (k + 1) by omega] at hrises
      refine ⟨.point p j :: log, o, m + 1, .completes (by omega) ha hrises, ?_, ?_, ?_⟩
      · rw [hm, Nat.succ_inj]
      · rw [FlowStack.completed] at hcompleted ⊢
        rw [List.filterMap_cons, hcompleted, List.range'_succ]
        simp [Interception.effect, Interception.starting, ha]
      · rw [hrun, ← Traversal.extend_append, show j + 1 + m = j + (m + 1) by omega]
        rfl
    | some o =>
      have hsome : Interception.effect answer outcomeOf (.point p j) = some o := ha
      have hne : o ≠ .empty := by
        rintro rfl
        exact PointAnswer.raised_ne_empty _ ha
      rw [FlowStack.after_some hsome, if_pos hne]
      refine ⟨[.point p j], o, 0, .raises (by omega) ha, by simp [hne], ?_, rfl⟩
      simp [FlowStack.completed, Interception.effect, ha]

theorem callEndingPoint_ok (j : Nat) (h : s.request.exceptionInfo = .empty →
      s.request.replyExpected = true → ∀ ref, answer points.reply j ≠ .forwardRequest ref) :
    callEndingPoint answer points j s = .ok () (s.extend (Interception.effect answer outcomeOf)
      [points.ending s.request.replyExpected s.request.exceptionInfo j]) := by
  rw [callEndingPoint, bind_ok (get_apply s)]
  cases ho : s.request.exceptionInfo with
  | empty =>
    by_cases hr : s.request.replyExpected = true
    · simp only [hr, if_true]
      exact callPoint_false outcomeOf (h ho hr)
    · simp only [hr]
      exact callPoint_true ..
  | _ => exact callPoint_true ..

/-- Only the ending point for a reply may let an exception escape. -/
theorem callEndingPoint_escapes {j ref : Nat} (ho : s.request.exceptionInfo = .empty)
    (hr : s.request.replyExpected = true) (h : answer points.reply j = .forwardRequest ref) :
    callEndingPoint answer points j s =
      .error (.forwardRequest ref) ⟨s.log ++ [.point points.reply j], s.request⟩ := by
  rw [callEndingPoint, bind_ok (get_apply s), ho]
  simp only [hr, if_true]
  exact callPoint_escapes h

end TraversalM

/-- The ending points of the first `k` interceptors after the outcome `o`. -/
def endingEvents (answer : π → Nat → PointAnswer) (outcomeOf : β → RequestException)
    (points : EndingPoints π) (expected : Bool) (o : RequestException) (k : Nat) :
    List (Interception π β) :=
  FlowStack.unwinding (Interception.effect answer outcomeOf) (points.ending expected) o
    (List.range k).reverse

/-- No interceptor raises ForwardRequest in an ending point for a reply. -/
def NoReplyForwards (answer : π → Nat → PointAnswer) (points : EndingPoints π)
    (log : List (Interception π β)) : Prop :=
  ∀ j, .point points.reply j ∈ log → ∀ ref, answer points.reply j ≠ .forwardRequest ref

theorem EndingPoints.ending_eq_reply {points : EndingPoints π} {expected : Bool}
    {o : RequestException} {i j : Nat} :
    (.point points.reply j : Interception π β) = points.ending expected o i ↔
      o = .empty ∧ expected = true ∧ j = i := by
  have hexc := points.reply_ne_exception
  have hother := points.reply_ne_other
  cases o <;> cases expected <;> simp [ending, matching, hexc, hother]

namespace TraversalM

variable (answer : π → Nat → PointAnswer) (outcomeOf : β → RequestException)
  (points : EndingPoints π)

theorem endingEvents_succ (expected : Bool) (o : RequestException) (k : Nat) :
    endingEvents answer outcomeOf points expected o (k + 1) = points.ending expected o k ::
      endingEvents answer outcomeOf points expected
        (FlowStack.after (Interception.effect answer outcomeOf) o (points.ending expected o k))
        k := by
  rw [endingEvents, List.range_succ, List.reverse_append]
  rfl

theorem callEnding_ok (k : Nat) : ∀ s : Traversal π β,
    NoReplyForwards answer points (endingEvents answer outcomeOf points s.request.replyExpected
      s.request.exceptionInfo k) →
    callEnding answer points k s = .ok () (s.extend (Interception.effect answer outcomeOf)
      (endingEvents answer outcomeOf points s.request.replyExpected s.request.exceptionInfo
        k)) := by
  induction k with
  | zero =>
    intro s _
    exact congrArg (EStateM.Result.ok ()) Traversal.extend_nil.symm
  | succ k ih =>
    intro s hs
    rw [endingEvents_succ] at hs ⊢
    have hpoint := callEndingPoint_ok (s := s) outcomeOf points k fun ho hr =>
      hs k (List.mem_cons.2 (.inl (EndingPoints.ending_eq_reply.2 ⟨ho, hr, rfl⟩)))
    rw [callEnding, bind_ok hpoint, ih _ fun j hj => hs j (List.mem_cons_of_mem _ hj)]
    exact congrArg (EStateM.Result.ok ()) (Traversal.extend_cons _ _).symm

theorem callEnding_escapes (k : Nat) : ∀ s : Traversal π β,
    ¬NoReplyForwards answer points (endingEvents answer outcomeOf points s.request.replyExpected
      s.request.exceptionInfo k) →
    ∃ log j ref r, answer points.reply j = .forwardRequest ref ∧
      callEnding answer points k s =
        .error (.forwardRequest ref) ⟨s.log ++ (log ++ [.point points.reply j]), r⟩ := by
  induction k with
  | zero =>
    intro s hs
    exact absurd (fun j hj => by cases hj) hs
  | succ k ih =>
    intro s hs
    rw [endingEvents_succ] at hs
    by_cases hk : s.request.exceptionInfo = .empty ∧ s.request.replyExpected = true ∧
      ∃ ref, answer points.reply k = .forwardRequest ref
    · obtain ⟨ho, hr, ref, href⟩ := hk
      refine ⟨[], k, ref, s.request, href, ?_⟩
      rw [callEnding, bind_error (callEndingPoint_escapes points ho hr href)]
      rfl
    · have hpoint := callEndingPoint_ok (s := s) outcomeOf points k
        fun ho hr ref href => hk ⟨ho, hr, ref, href⟩
      obtain ⟨log, j, ref, r, href, hrun⟩ := ih (s.extend (Interception.effect answer outcomeOf)
        [points.ending s.request.replyExpected s.request.exceptionInfo k])
        fun hrest => hs fun j hj => by
          rcases List.mem_cons.1 hj with hj | hj
          · obtain ⟨ho, hr, rfl⟩ := EndingPoints.ending_eq_reply.1 hj
            exact fun ref href => hk ⟨ho, hr, ref, href⟩
          · exact hrest j hj
      refine ⟨points.ending s.request.replyExpected s.request.exceptionInfo k :: log, j, ref, r,
        href, ?_⟩
      rw [callEnding, bind_ok hpoint, hrun, Traversal.extend_log, List.append_assoc]
      rfl

end TraversalM

end PolyORB
