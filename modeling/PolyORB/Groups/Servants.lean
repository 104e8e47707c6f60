import PolyORB.Requests.Arguments

/-!
# Group servants

PolyORB.Servants.Group_Servants: one servant that passes each request on to the members of a group.
A section that `Self.Mutex` protects is one step; if an exception leaves it, the mutex may stay
taken.  Members are known by the numbers of their references.
-/

namespace PolyORB

/-- An item of an NVList. -/
structure GroupArgument (α : Type) where
  name : String
  argModes : Flags
  argument : α
  deriving DecidableEq

inductive ArgumentReply (α : Type) where
  | unmarshalledArguments (args : List (GroupArgument α))
  | argumentsError (error : SysError)

inductive ProxyState where
  | notReady
  | waitFirst
  | waitOther
  deriving DecidableEq

def GroupArgument.parameter {α : Type} (a : GroupArgument α) : String × Flags :=
  (a.name, a.argModes)

/-- What the session that has received a request answers to `Unmarshall_Arguments`: it fills in the
values of the arguments that it is given. -/
structure DeferredSession (α : Type) where
  emit : List (GroupArgument α) → ArgumentReply α
  keeps : ∀ {msg args : List (GroupArgument α)}, emit msg = .unmarshalledArguments args →
    args.map GroupArgument.parameter = msg.map GroupArgument.parameter

structure SubRequest (α : Type) where
  target : Nat
  /-- The arguments that the servant of the member has asked for, by `Requests.Arguments`. -/
  asked : Option (List (GroupArgument α))
  received : Option (List (GroupArgument α))
  executed : Bool

inductive GroupPhase where
  | arrived
  /-- The group has been found not empty. -/
  | entering
  /-- Inside of `Group_Lock`. -/
  | executing
  | dispatched
  /-- Execute_Servant has returned True. -/
  | returned
  /-- It has raised Constraint_Error. -/
  | refused
  deriving DecidableEq

structure GroupRequest (α : Type) where
  syncWithTransport : Bool
  /-- `Req.Args`, of a request that is issued locally. -/
  args : Option (List (GroupArgument α))
  session : DeferredSession α
  /-- The parameters of the operation. -/
  parameters : List (String × Flags)
  phase : GroupPhase
  /-- Those of the group when the sub-requests were created. -/
  members : List Nat
  subRequests : List (SubRequest α)

structure GroupServant (α : Type) where
  targetList : List Nat
  groupLock : Bool
  /-- Taken, and not to be released any more. -/
  mutex : Bool
  state : ProxyState
  counter : Nat
  args : List (GroupArgument α)
  error : Option SysError
  /-- The request whose session it is. -/
  argsSrc : Option Nat
  requests : List (GroupRequest α)
  /-- How often the session of a request was asked for the arguments. -/
  unmarshalled : Nat → Nat

inductive GroupAction (α : Type) where
  | request (syncWithTransport : Bool) (args : Option (List (GroupArgument α)))
      (session : DeferredSession α) (parameters : List (String × Flags))
  /-- The task that executes a request goes on. -/
  | step (r : Nat)
  /-- A member calls `Arguments` on its sub-request. -/
  | ask (r i : Nat) (msg : List (GroupArgument α))
  /-- `Executed_Request` for a sub-request. -/
  | executed (r i : Nat)
  | register (ref : Nat)
  | unregister (ref : Nat)

/-- Whether no argument comes back. -/
def oneway {α : Type} (msg : List (GroupArgument α)) : Bool :=
  !msg.any fun a => a.argModes == argOut || a.argModes == argInout

/-- Some sub-request is not executed yet. -/
def GroupRequest.waiting {α : Type} (q : GroupRequest α) : Bool :=
  q.subRequests.any fun sub => !sub.executed

def GroupRequest.setSub {α : Type} (q : GroupRequest α) (i : Nat) (sub : SubRequest α) :
    GroupRequest α :=
  { q with subRequests := q.subRequests.set i sub }

namespace GroupServant

variable {α : Type}

def create : GroupServant α :=
  { targetList := []
    groupLock := false
    mutex := false
    state := .notReady
    counter := 0
    args := []
    error := none
    argsSrc := none
    requests := []
    unmarshalled := fun _ => 0 }

def setRequest (g : GroupServant α) (r : Nat) (q : GroupRequest α) : GroupServant α :=
  { g with requests := g.requests.set r q }

/-! ## Handle_Unmarshall_Arguments -/

def copyArguments (msg args : List (GroupArgument α)) : List (GroupArgument α) :=
  msg.zipWith (fun a b => { a with argument := b.argument }) args

/-- The first member asks the session. -/
def unmarshallFirst (g : GroupServant α) (r : Nat) (q : GroupRequest α)
    (msg : List (GroupArgument α)) : Except Exn (ArgumentReply α) × GroupServant α :=
  let g := { g with unmarshalled := Function.update g.unmarshalled r (g.unmarshalled r + 1) }
  match q.session.emit msg with
  | .unmarshalledArguments args =>
    (.ok (.unmarshalledArguments args), { g with args := args, state := .waitOther })
  -- `Unmarshalled_Arguments (Reply).Args` is renamed before the reply is tested
  | .argumentsError _ => (.error .constraintError, { g with mutex := true })

/-- Another member gets a copy of what the first one got. -/
def unmarshallOther (g : GroupServant α) (msg : List (GroupArgument α)) :
    Except Exn (ArgumentReply α) × GroupServant α :=
  match g.error with
  | some e => (.ok (.argumentsError e), g)
  | none =>
    if g.args.map GroupArgument.parameter = msg.map GroupArgument.parameter then
      (.ok (.unmarshalledArguments (copyArguments msg g.args)), g)
    else (.error .assertionError, { g with mutex := true })

def handleUnmarshallArguments (g : GroupServant α) (msg : List (GroupArgument α)) :
    Except Exn (ArgumentReply α) × GroupServant α :=
  match g.state with
  | .notReady => (.error .programError, g)
  | .waitFirst =>
    match g.argsSrc with
    | none => (.error .assertionError, { g with mutex := true })
    | some r =>
      match g.requests[r]? with
      | none => (.error .assertionError, { g with mutex := true })
      | some q =>
        if oneway msg = true then g.unmarshallFirst r q msg else (.error .constraintError, g)
  | .waitOther => g.unmarshallOther msg

/-- What comes of it in `Arguments`. -/
def receivedFrom : Except Exn (ArgumentReply α) → Option (List (GroupArgument α))
  | .ok (.unmarshalledArguments args) => some args
  | _ => none

/-! ## Execute_Servant -/

/-- The rest of `Execute_Servant`, inside of `Group_Lock`. -/
def execute (g : GroupServant α) (r : Nat) (q : GroupRequest α) : GroupServant α :=
  if q.syncWithTransport = true then
    { g.setRequest r { q with
        phase := .dispatched
        members := g.targetList
        subRequests := g.targetList.map fun ref => ⟨ref, none, none, false⟩ } with
      error := if g.state = .waitOther then none else g.error
      counter := 0
      state := .waitFirst
      argsSrc := if q.args.isNone = true then some r else none }
  else { g.setRequest r { q with phase := .refused } with groupLock := false }

/-- The steps of `Execute_Servant`. -/
def proceed (g : GroupServant α) (r : Nat) (q : GroupRequest α) : GroupServant α :=
  match q.phase with
  | .arrived =>
    g.setRequest r { q with phase := if g.targetList.length = 0 then .returned else .entering }
  | .entering => { g.setRequest r { q with phase := .executing } with groupLock := true }
  | .executing => g.execute r q
  | .dispatched | .returned | .refused => g

/-! ## Members -/

def ask (g : GroupServant α) (r i : Nat) (q : GroupRequest α) (sub : SubRequest α)
    (msg : List (GroupArgument α)) : GroupServant α :=
  let answer := if q.args.isNone = true then g.handleUnmarshallArguments msg
    -- both `Args` and `Deferred_Arguments_Session` are set
    else (.error .assertionError, g)
  answer.2.setRequest r
    (q.setSub i { sub with asked := some msg, received := receivedFrom answer.1 })

def handleExecutedRequest (g : GroupServant α) (r i : Nat) (q : GroupRequest α)
    (sub : SubRequest α) : GroupServant α :=
  { g.setRequest r (q.setSub i { sub with executed := true }) with
    counter := g.counter + 1
    groupLock := if g.counter + 1 = g.targetList.length then false else g.groupLock }

def subRequest (g : GroupServant α) (r i : Nat) : Option (GroupRequest α × SubRequest α) := do
  let q ← g.requests[r]?
  let sub ← q.subRequests[i]?
  return (q, sub)

def next (g : GroupServant α) : GroupAction α → GroupServant α
  | .request sync args session parameters =>
    { g with requests := g.requests ++ [⟨sync, args, session, parameters, .arrived, [], []⟩] }
  | .step r =>
    match g.requests[r]? with
    | some q => g.proceed r q
    | none => g
  | .ask r i msg =>
    match g.subRequest r i with
    | some (q, sub) => g.ask r i q sub msg
    | none => g
  | .executed r i =>
    match g.subRequest r i with
    | some (q, sub) => g.handleExecutedRequest r i q sub
    | none => g
  | .register ref => { g with targetList := g.targetList ++ [ref] }
  | .unregister ref => { g with targetList := g.targetList.filter (· ≠ ref) }

/-! ## When a step can be made -/

def canStep (g : GroupServant α) (r : Nat) : Bool :=
  match g.requests[r]? with
  | none => false
  | some q =>
    match q.phase with
    | .arrived => true
    | .entering => !g.groupLock
    | .executing => !g.mutex
    | .dispatched | .returned | .refused => false

/-- A member asks once, for the parameters of the operation, before its sub-request is executed. -/
def canAsk (g : GroupServant α) (r i : Nat) (msg : List (GroupArgument α)) : Bool :=
  match g.subRequest r i with
  | none => false
  | some (q, sub) =>
    sub.asked.isNone && !sub.executed && (!g.mutex || q.args.isSome) &&
      decide (msg.map GroupArgument.parameter = q.parameters)

def canExecuted (g : GroupServant α) (r i : Nat) : Bool :=
  match g.subRequest r i with
  | none => false
  | some (_, sub) => !sub.executed && !g.mutex

def Enabled (g : GroupServant α) : GroupAction α → Prop
  | .request _ _ _ _ => True
  | .step r => g.canStep r = true
  | .ask r i msg => g.canAsk r i msg = true
  | .executed r i => g.canExecuted r i = true
  | .register _ | .unregister _ => g.groupLock = false

/-! ## What a run has to keep to -/

/-- The group still has a member when the sub-requests are created. -/
def populated (g : GroupServant α) (r : Nat) : Bool :=
  match g.requests[r]? with
  | none => true
  | some q => q.phase != .executing || !q.syncWithTransport || !g.targetList.isEmpty

def unmarshallable (session : DeferredSession α) (msg : List (GroupArgument α)) : Bool :=
  match session.emit msg with
  | .unmarshalledArguments _ => true
  | .argumentsError _ => false

/-- No argument was set before, and the session can unmarshall them if it has to. -/
def askable (g : GroupServant α) (r i : Nat) (msg : List (GroupArgument α)) : Bool :=
  match g.subRequest r i with
  | none => true
  | some (q, _) =>
    q.args.isNone &&
      (g.state != .waitFirst || !oneway msg || unmarshallable q.session msg)

/-- No reference is registered twice. -/
def Orderly (g : GroupServant α) : GroupAction α → Prop
  | .request _ _ _ _ | .executed _ _ | .unregister _ => True
  | .step r => g.populated r = true
  | .ask r i msg => g.askable r i msg = true
  | .register ref => ref ∉ g.targetList

instance (g : GroupServant α) : ∀ a : GroupAction α, Decidable (g.Enabled a)
  | .request _ _ _ _ => inferInstanceAs (Decidable True)
  | .step r => inferInstanceAs (Decidable (g.canStep r = true))
  | .ask r i msg => inferInstanceAs (Decidable (g.canAsk r i msg = true))
  | .executed r i => inferInstanceAs (Decidable (g.canExecuted r i = true))
  | .register _ | .unregister _ => inferInstanceAs (Decidable (g.groupLock = false))

instance (g : GroupServant α) : ∀ a : GroupAction α, Decidable (g.Orderly a)
  | .request _ _ _ _ | .executed _ _ | .unregister _ => inferInstanceAs (Decidable True)
  | .step r => inferInstanceAs (Decidable (g.populated r = true))
  | .ask r i msg => inferInstanceAs (Decidable (g.askable r i msg = true))
  | .register ref => inferInstanceAs (Decidable (ref ∉ g.targetList))

end GroupServant

end PolyORB
