import PolyORB.Giop.Message

/-!
# Reassembly of fragmented GIOP 1.2 messages

The receiving side of a session: it asks the transport for a number of octets to be put into one of
its buffers (`expected`), and `Handle_Data_Indication` is called when they are there.  A message of
which more is to come is processed in two parts, request id and payload, and is kept in a
reassembly context until its last fragment.  What the session does with a whole message is left
open: the message is recorded in `delivered`, and the session then asks for the next header.

`wire` holds the octets that have arrived and were not yet asked for.
-/

namespace PolyORB

open Buffer
open Program (onlyIf raiseIf)

/-- The buffer that data are received into. -/
inductive InBuf where
  | session
  | reassembly (requestId : Nat)
  deriving DecidableEq

structure DataExpected where
  inBuf : InBuf
  max : Nat
  deriving DecidableEq

/-- An element of `Reassembly_Contexts`.  The contexts of a session have distinct request ids: one
is only stored when there is none yet for its id. -/
structure ReassemblyContext where
  mctx : MessageContext
  fragBuf : Buffer

/-- A message handed to the normal processing: the context and the buffer of the session. -/
structure Delivered where
  mctx : MessageContext
  buffer : Buffer

structure Receiver where
  state : GiopState
  bufferIn : Buffer
  mctx : MessageContext
  contexts : List ReassemblyContext
  expected : Option DataExpected
  wire : List UInt8
  delivered : List Delivered
  error : Option SysError

abbrev ReceiverProg := EStateM Exn Receiver

def onBufferIn {α : Type} (p : BufferProg α) : ReceiverProg α :=
  Program.zoom Receiver.bufferIn (fun s b => { s with bufferIn := b }) p

namespace Receiver

def getReassemblyContext (s : Receiver) (requestId : Nat) : Option ReassemblyContext :=
  s.contexts.find? fun u => u.mctx.requestId == requestId

def storeReassemblyContext (s : Receiver) (u : ReassemblyContext) : Receiver :=
  { s with contexts := u :: s.contexts }

def updateReassemblyContext (s : Receiver) (u : ReassemblyContext) : Receiver :=
  { s with contexts := s.contexts.map fun v =>
      if v.mctx.requestId = u.mctx.requestId then u else v }

def removeReassemblyContext (s : Receiver) (requestId : Nat) : Receiver :=
  { s with contexts := s.contexts.filter fun u => u.mctx.requestId != requestId }

end Receiver

section Receive

variable (host : Endianness)

def expectGiopHeader : ReceiverProg Unit :=
  modify fun s => { s with
    bufferIn := Buffer.new host
    state := .expectHeader
    expected := some ⟨.session, giopHeaderSize⟩ }

/-- `Process_Message` for the types other than `Fragment`. -/
def processWhole : ReceiverProg Unit := do
  let s ← get
  match s.mctx.messageType with
  | .messageError => throw .giopError
  | .fragment => throw .unfinished
  | _ => do
    set { s with delivered := s.delivered ++ [(⟨s.mctx, s.bufferIn⟩ : Delivered)] }
    expectGiopHeader host

/-- `Reassembly_Completed`: the message goes through the normal circuitry. -/
def reassemblyCompleted (u : ReassemblyContext) : ReceiverProg Unit := do
  modify fun s =>
    { s.removeReassemblyContext u.mctx.requestId with
      bufferIn := u.fragBuf
      mctx := { u.mctx with messageType := u.mctx.fragType } }
  processWhole host

/-- The context of the message that the current fragment belongs to, a new one when there is
none. -/
def currentContext : ReceiverProg ReassemblyContext := do
  let s ← get
  match s.getReassemblyContext s.mctx.requestId with
  | some u => return u
  | none => do
    raiseIf (s.mctx.fragmented = false) .assertionError
    let u : ReassemblyContext :=
      ⟨{ s.mctx with messageType := s.mctx.fragType, fragState := .first }, Buffer.new host⟩
    set (s.storeReassemblyContext u)
    return u

def stealSessionBuffer (u : ReassemblyContext) : ReceiverProg ReassemblyContext := do
  let s ← get
  let u : ReassemblyContext := ⟨{ u.mctx with fragState := .req }, s.bufferIn⟩
  set { s.updateReassemblyContext u with bufferIn := Buffer.new host }
  return u

/-- What is done with a fragment of the message that `u` is the context of: ask for its payload, or
take note that the payload has been received. -/
def receiveFragment (u : ReassemblyContext) : ReceiverProg Unit := do
  let s ← get
  if u.mctx.fragState = .req then
    if 0 < s.mctx.fragSize then
      set { s.updateReassemblyContext { u with mctx.fragState := .fragment } with
        expected := some ⟨.reassembly u.mctx.requestId, s.mctx.fragSize⟩ }
    else reassemblyCompleted host u
  else
    let messageSize := (u.mctx.messageSize + s.mctx.fragSize) % unsignedLongModulus
    if s.mctx.fragmented then
      set (s.updateReassemblyContext
        { u with mctx := { u.mctx with messageSize, fragState := .req } })
      expectGiopHeader host
    else reassemblyCompleted host { u with mctx := { u.mctx with messageSize } }

/-- `Process_Message` for type `Fragment`, once the request id is known. -/
def processFragmentPart : ReceiverProg Unit := do
  let u ← currentContext host
  let u ← if u.mctx.fragState = .first then stealSessionBuffer host u else pure u
  receiveFragment host u

def processFragment : ReceiverProg Unit := do
  let s ← get
  onlyIf (s.bufferIn.cdrPosition = giopHeaderSize) do
    let requestId ← onBufferIn (unmarshallElementary host 4)
    modify fun s => { s with mctx := { s.mctx with requestId } }
  processFragmentPart host

def processMessage : ReceiverProg Unit := do
  let s ← get
  if s.mctx.messageType = .fragment then processFragment host else processWhole host

def handleDataIndication : ReceiverProg Unit :=
  tryCatch
    (do
      let s ← get
      raiseIf (s.state = .notInitialized) .assertionError
      match s.state with
      | .expectHeader => do
        let mctx ← onBufferIn do
          unmarshallGlobalGiopHeader host 2
          unmarshallGiopHeader host s.mctx
        modify fun s => { s with mctx, state := .expectBody }
        if mctx.messageSize = 0 then processMessage host
        else modify fun s => { s with expected := some ⟨.session, mctx.messageSize⟩ }
      | .expectBody => processMessage host
      | _ => modify fun s => { s with error := some ⟨.commFailureE, 0, .completedMaybe⟩ })
    (fun _ => modify fun s => { s with error := some ⟨.commFailureE, 0, .completedMaybe⟩ })

/-- The transport puts the octets that were asked for into their buffer. -/
def receiveData (e : DataExpected) (s : Receiver) : Receiver :=
  let xs := s.wire.take e.max
  let s := { s with wire := s.wire.drop e.max, expected := none }
  match e.inBuf with
  | .session => { s with bufferIn := receiveBuffer xs s.bufferIn }
  | .reassembly requestId =>
    { s with contexts := s.contexts.map fun u =>
        if u.mctx.requestId = requestId then { u with fragBuf := receiveBuffer xs u.fragBuf }
        else u }

/-- Data indications, as long as what was asked for has arrived and there was no error. -/
def serve : Nat → ReceiverProg Unit
  | 0 => return ()
  | fuel + 1 => do
    let s ← get
    match s.error, s.expected with
    | none, some e =>
      if e.max ≤ s.wire.length then
        set (receiveData e s)
        handleDataIndication host
        serve fuel
      else return ()
    | _, _ => return ()

/-- A message arrives.  Each data indication takes at least one octet. -/
def arrive (w : Message) : ReceiverProg Unit := do
  modify fun s => { s with wire := s.wire ++ w.encode }
  let s ← get
  serve host s.wire.length

def arriveAll : List Message → ReceiverProg Unit
  | [] => return ()
  | w :: ws => do
    arrive host w
    arriveAll ws

/-- A session that has just asked for its first header. -/
def Receiver.start : Receiver :=
  { state := .expectHeader
    bufferIn := Buffer.new host
    mctx := MessageContext.new host
    contexts := []
    expected := some ⟨.session, giopHeaderSize⟩
    wire := []
    delivered := []
    error := none }

/-! ## What is to be delivered -/

/-- The message as the normal processing reads it: the request id from the buffer when nothing of
the body was read before, else from the message context. -/
def Delivered.message (d : Delivered) : Except Exn Message :=
  let read : BufferProg Nat :=
    if d.buffer.cdrPosition = giopHeaderSize then unmarshallElementary host 4
    else return d.mctx.requestId
  match read d.buffer with
  | .ok requestId b =>
    .ok { order := b.endianness, messageType := d.mctx.messageType, fragmented := false,
          requestId, payload := b.rest }
  | .error e _ => .error e

end Receive

/-- The message that `parts`, a message or its successive fragments, stand for. -/
def assemble : List Message → Option Message
  | [] => none
  | w :: ws =>
    some { w with fragmented := false, payload := ((w :: ws).map Message.payload).flatten }

/-- The parts of the message with a request id, among those that have arrived. -/
def partsOf (ws : List Message) (requestId : Nat) : List Message :=
  ws.filter fun w => w.requestId = requestId

/-- A message in one piece, or its successive fragments: all but the last say that more follow, and
all but the first are of type `Fragment`. -/
structure IsSplit (parts : List Message) : Prop where
  type_eq : ∀ j w, parts[j]? = some w →
    if j = 0 then w.messageType.carriesRequestId = true else w.messageType = .fragment
  fragmented_iff : ∀ j w, parts[j]? = some w → (w.fragmented = true ↔ j + 1 < parts.length)

/-- An interleaving of messages with distinct request ids, each in one piece or in fragments. -/
structure IsInterleaving (ws : List Message) : Prop where
  split : ∀ requestId, IsSplit (partsOf ws requestId)
  requestId_lt : ∀ w ∈ ws, w.requestId < 2 ^ 32
  size_lt : ∀ w ∈ ws, w.payload.length + fragHeaderSize < 2 ^ 32

/-- What is delivered when `ws` arrives: a message at each of its last parts. -/
def deliveries : List Message → List Message → List Message
  | _, [] => []
  | before, w :: ws =>
    (if w.fragmented then [] else (assemble (partsOf before w.requestId ++ [w])).toList) ++
      deliveries (before ++ [w]) ws

/-- After each arrival, exactly the messages of which all parts have arrived were delivered, each
one once and unchanged, and nothing is left in the end. -/
def ReassemblesCorrectly (host : Endianness) (ws : List Message) : Prop :=
  ∀ n ≤ ws.length, ∃ s, arriveAll host (ws.take n) (Receiver.start host) = .ok () s ∧
    s.error = none ∧ s.delivered.map (Delivered.message host) =
      (deliveries [] (ws.take n)).map Except.ok ∧
    (n = ws.length → s.contexts = [])

end PolyORB
