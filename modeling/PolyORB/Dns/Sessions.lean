import PolyORB.Naming.Names
import PolyORB.Lib.SlotTable

/-!
# DNS sessions

The sessions of PolyORB.Protocols.DNS that a process has, with the package variable that they share.
What can be read of the body of a message is given with the message.  A request is known by the
number of its invocation, and the handling of an event is atomic.
-/

namespace PolyORB

open Program

inductive DnsRole where
  | client
  | server
  deriving DecidableEq

inductive Rcode where
  | noError
  | formatError
  | serverFailure
  | nameError
  | notImplemented
  | refused
  | yxDomain
  | yxRRSet
  | nxRRSet
  | notAuth
  | notZone
  deriving DecidableEq

structure PendingQuery where
  req : Nat
  requestId : Nat
  deriving DecidableEq

/-- `rcode` is the Rcode_Flag of the message context; a session is open until its endpoint is
closed. -/
structure DnsSession where
  role : DnsRole
  isOpen : Bool
  pendingReqs : List (Option PendingQuery)
  reqIndex : Nat
  rcode : Rcode
  deriving DecidableEq

inductive DnsCompletion where
  | answered (req : Nat)
  | failed (req : Nat)
  deriving DecidableEq

structure DnsQuestion where
  name : Text
  typeCode : UInt16
  deriving DecidableEq

/-- `queued` are the requests for the responder: the opcode and the sequence of the questions. -/
structure DnsProcess where
  sessions : Nat → DnsSession
  currentQuestionNb : Nat
  invocations : Nat
  completions : List DnsCompletion
  queued : List (Text × List (Option DnsQuestion))

inductive DnsFault where
  | dnsError
  | constraintError
  | indexError
  | endOfData
  deriving DecidableEq

abbrev DnsM := EStateM DnsFault DnsProcess

/-! ## Messages -/

structure DnsHeader where
  requestId : UInt16
  flags : UInt16
  nbQuestions : UInt16
  deriving DecidableEq

/-- `questions` are those that the body has, and `hasRecords` tells whether the records that the
header announces can be unmarshalled. -/
inductive DnsMessage where
  | truncatedHeader
  | message (header : DnsHeader) (questions : List DnsQuestion) (hasRecords : Bool)
  deriving DecidableEq

namespace DnsHeader

def qrFlagPos : Nat := 15

def opcodeFlagPos : Nat := 11

def rcodeFlagPos : Nat := 0

def isSet (n : Nat) (flags : UInt16) : Bool := flags.toNat.testBit n

/-- "IQuery", "Status" or "Query" -/
def requestOpcode (h : DnsHeader) : Text :=
  if isSet (opcodeFlagPos + 3) h.flags = true then [73, 81, 117, 101, 114, 121]
  else if isSet (opcodeFlagPos + 2) h.flags = true then [83, 116, 97, 116, 117, 115]
  else [81, 117, 101, 114, 121]

/-- Only two codes are supported; any other leaves the code of the message before. -/
def rcode (h : DnsHeader) (old : Rcode) : Rcode :=
  if isSet (rcodeFlagPos + 3) h.flags = true then old
  else if isSet (rcodeFlagPos + 2) h.flags = true then old
  else if isSet (rcodeFlagPos + 1) h.flags = true then
    if isSet rcodeFlagPos h.flags = true then .nameError else old
  else if isSet rcodeFlagPos h.flags = true then old else .noError

end DnsHeader

namespace DnsQuestion

def aCode : UInt16 := 1

def ptrCode : UInt16 := 12

def txtCode : UInt16 := 16

def srvCode : UInt16 := 33

def Supported (q : DnsQuestion) : Prop :=
  q.typeCode = aCode ∨ q.typeCode = ptrCode ∨ q.typeCode = txtCode ∨ q.typeCode = srvCode

instance (q : DnsQuestion) : Decidable q.Supported := inferInstanceAs (Decidable (_ ∨ _))

end DnsQuestion

namespace DnsProcess

def setSession (p : DnsProcess) (s : Nat) (x : DnsSession) : DnsProcess :=
  { p with sessions := Function.update p.sessions s x }

def complete (c : DnsCompletion) : DnsM Unit :=
  modify fun p => { p with completions := p.completions ++ [c] }

/-! ## Pending requests -/

def getRequestId (s : Nat) : DnsM Nat := do
  let p ← get
  set (p.setSession s { p.sessions s with
    reqIndex := ((p.sessions s).reqIndex + 1) % unsignedLongModulus })
  return (p.sessions s).reqIndex

def addPendingRequest (s req : Nat) : DnsM Nat := do
  let requestId ← getRequestId s
  modify fun p => p.setSession s { p.sessions s with
    pendingReqs := SlotTable.insert ⟨req, requestId⟩ (p.sessions s).pendingReqs }
  return requestId

/-- `Get_Pending_Request`, which clears the slot, and `Remove_Pending_Request`. -/
def getPendingRequest (s id : Nat) : DnsM (Option PendingQuery) := do
  let p ← get
  match SlotTable.take (fun q => q.requestId == id) (p.sessions s).pendingReqs with
  | none => return none
  | some (q, t) => do
    set (p.setSession s { p.sessions s with pendingReqs := t })
    return some q

/-! ## Client side -/

/-- The id on the wire has 16 bits.  The result tells whether the message could not be emitted. -/
def sendRequest (s id : Nat) (emitFails : Bool) : DnsM Bool := do
  raiseIf (2 ^ 16 ≤ id) .constraintError
  modify fun p => p.setSession s { p.sessions s with rcode := .noError }
  return emitFails

def invokeRequest (s : Nat) (oneway emitFails : Bool) : DnsM Unit := do
  let p ← get
  set { p with invocations := p.invocations + 1 }
  (if oneway = true then do
    let requestId ← getRequestId s
    let _ ← sendRequest s requestId emitFails
    return ()
  else do
    let requestId ← addPendingRequest s p.invocations
    let failed ← sendRequest s requestId emitFails
    onlyIf (failed = true) do
      let _ ← getPendingRequest s requestId
      complete (.failed p.invocations))

def replyReceived (s requestId : Nat) (rc : Rcode) (hasRecords : Bool) : DnsM Unit := do
  match ← getPendingRequest s requestId with
  | none => throw .dnsError
  | some q => do
    raiseIf (rc = .noError ∧ hasRecords = false) .endOfData
    complete (.answered q.req)

/-! ## Server side -/

/-- The loop over the questions. -/
def readQuestions : Nat → List DnsQuestion → List (Option DnsQuestion) →
    DnsM (List (Option DnsQuestion))
  | 0, _, sequence => return sequence
  | _ + 1, [], _ => throw .endOfData
  | n + 1, q :: qs, sequence => do
    raiseIf (¬q.Supported) .dnsError
    modify fun p => { p with currentQuestionNb := (p.currentQuestionNb + 1) % 2 ^ 16 }
    let p ← get
    raiseIf (p.currentQuestionNb = 0 ∨ sequence.length < p.currentQuestionNb) .indexError
    readQuestions n qs (sequence.set (p.currentQuestionNb - 1) (some q))

def processRequest (h : DnsHeader) (questions : List DnsQuestion) : DnsM Unit := do
  let n := h.nbQuestions.toNat
  let sequence ← readQuestions n questions (List.replicate n none)
  modify fun p => { p with
    currentQuestionNb := 0
    queued := p.queued ++ [(h.requestOpcode, sequence)] }

/-! ## Incoming messages -/

def processMessage (s : Nat) (h : DnsHeader) (questions : List DnsQuestion) (hasRecords : Bool) :
    DnsM Unit := do
  let p ← get
  (if DnsHeader.isSet DnsHeader.qrFlagPos h.flags = true then do
    raiseIf ((p.sessions s).role ≠ .client) .dnsError
    replyReceived s h.requestId.toNat (p.sessions s).rcode hasRecords
  else do
    raiseIf ((p.sessions s).role ≠ .server) .dnsError
    processRequest h questions)

def handleDataIndication (s : Nat) : DnsMessage → DnsM Unit
  | .truncatedHeader => throw .endOfData
  | .message h questions hasRecords => do
    modify fun p => p.setSession s { p.sessions s with rcode := h.rcode (p.sessions s).rcode }
    processMessage s h questions hasRecords

/-- The endpoint is closed, and all pending requests get an exception. -/
def handleDisconnect (s : Nat) : DnsM Unit :=
  modify fun p =>
    { p.setSession s { p.sessions s with isOpen := false, pendingReqs := [] } with
      completions := p.completions ++
        (SlotTable.occupants (p.sessions s).pendingReqs).map fun q => .failed q.req }

/-- An exception of `Handle_Data_Indication` becomes an error, on which the endpoint is closed. -/
def receive (s : Nat) (m : DnsMessage) : DnsM Unit :=
  tryCatch (handleDataIndication s m) fun _ => handleDisconnect s

end DnsProcess

/-! ## Events -/

inductive DnsEvent where
  | invoke (s : Nat) (oneway emitFails : Bool)
  | receive (s : Nat) (m : DnsMessage)
  deriving DecidableEq

namespace DnsProcess

/-- Requests are invoked on client sessions; nothing arrives at or leaves from a closed endpoint. -/
def perform (p : DnsProcess) : DnsEvent → DnsProcess
  | .invoke s oneway emitFails =>
    if (p.sessions s).role = .client then
      stateAfter (invokeRequest s oneway (emitFails || !(p.sessions s).isOpen)) p
    else p
  | .receive s m => if (p.sessions s).isOpen = true then stateAfter (receive s m) p else p

def start (role : Nat → DnsRole) : DnsProcess where
  sessions s := ⟨role s, true, [], 1, .noError⟩
  currentQuestionNb := 0
  invocations := 0
  completions := []
  queued := []

end DnsProcess

end PolyORB
