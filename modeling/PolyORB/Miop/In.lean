import PolyORB.Miop.Out

/-!
# Receiving MIOP packets

The fragmenter cuts a datagram into the parts that are asked for, `MIOP_In` asks for the header of a
packet, its unique id and its payload, and a GIOP session asks `MIOP_In` for the header of a message
and then for its body.  They send each other messages; each of them ends by sending the next one, or
by waiting for the next datagram.

What the session takes the size of the body of a message to be is left open.
-/

namespace PolyORB

namespace Miop

open Buffer
open Program (raiseIf evaluate onlyIf)

/-- The buffers that the fragmenter fills. -/
inductive InBuf where
  | miop | giop
  deriving DecidableEq

structure Fragmenter where
  inBuf : Option InBuf
  socketBuf : Buffer
  dataExpected : Nat
  initialDataExpected : Nat
  deriving DecidableEq

inductive MiopState where
  | waitForGiopLayer | waitMiopHeader | waitUniqueId | waitGiopAsk | waitGiopData
  deriving DecidableEq

/-- `In_Buf` is the buffer of the session. -/
structure MiopIn where
  state : MiopState
  miopBuf : Buffer
  dataExp : Nat
  initialDataExp : Nat
  initialRemain : Nat
  header : MiopHeader
  oldHeader : MiopHeader
  fragment : Bool
  payload : Nat
  deriving DecidableEq

/-- The session, with the octets of the messages it has received. -/
structure Session where
  bufferIn : Buffer
  /-- The header of the message whose body is asked for. -/
  header : Option (List UInt8)
  messages : List (List UInt8)
  deriving DecidableEq

structure Stack where
  session : Session
  miopIn : MiopIn
  fragmenter : Fragmenter
  /-- Whether the endpoint waits for a datagram. -/
  monitored : Bool
  error : Option Exn
  deriving DecidableEq

abbrev StackProg := EStateM Exn Stack

inductive Message where
  /-- from the session to `MIOP_In`; `header` says whether the header of a message is asked for -/
  | giopDataExpected (max : Nat) (header : Bool)
  /-- from `MIOP_In` to the fragmenter -/
  | dataExpected (inBuf : InBuf) (max : Nat)
  /-- from the endpoint to the fragmenter -/
  | dataReceived
  /-- from the fragmenter to `MIOP_In` -/
  | dataIndication
  /-- from `MIOP_In` to the session -/
  | giopDataIndication
  deriving DecidableEq

def onSession {α : Type} (p : BufferProg α) : StackProg α :=
  Program.zoom (fun s : Stack => s.session.bufferIn)
    (fun s b => { s with session := { s.session with bufferIn := b } }) p

def onMiopBuf {α : Type} (p : BufferProg α) : StackProg α :=
  Program.zoom (fun s : Stack => s.miopIn.miopBuf)
    (fun s b => { s with miopIn := { s.miopIn with miopBuf := b } }) p

def onSocketBuf {α : Type} (p : BufferProg α) : StackProg α :=
  Program.zoom (fun s : Stack => s.fragmenter.socketBuf)
    (fun s b => { s with fragmenter := { s.fragmenter with socketBuf := b } }) p

namespace Stack

def inBuf (s : Stack) : InBuf → Buffer
  | .miop => s.miopIn.miopBuf
  | .giop => s.session.bufferIn

def setInBuf (s : Stack) (b : Buffer) : InBuf → Stack
  | .miop => { s with miopIn := { s.miopIn with miopBuf := b } }
  | .giop => { s with session := { s.session with bufferIn := b } }

/-- The two buffers of `Copy`. -/
def copying (t : InBuf) (s : Stack) : Copying := ⟨s.fragmenter.socketBuf, s.inBuf t⟩

def setCopying (t : InBuf) (s : Stack) (c : Copying) : Stack :=
  setInBuf { s with fragmenter := { s.fragmenter with socketBuf := c.source } } c.target t

end Stack

section Receive

variable (host : Endianness)

/-! ## The fragmenter -/

/-- `Copy (F.Socket_Buf, F.In_Buf, Len)` -/
def copyToInBuf (len : Nat) : StackProg Unit := do
  let s ← get
  match s.fragmenter.inBuf with
  | none => throw .constraintError
  | some t =>
    Program.zoom (Stack.copying t) (Stack.setCopying t) (copyKept host len)

/-- The part of `Process_Data` that copies what is there, or what is asked for. -/
def copyReady (ready dataExpected : Nat) : StackProg Unit :=
  if ready ≤ dataExpected then do
    copyToInBuf host ready
    raiseIf (ready ≠ dataExpected) .constraintError
    onSocketBuf (releaseContents host)
  else copyToInBuf host dataExpected

def processData : StackProg (Option Message) := do
  let s ← get
  let ready := s.fragmenter.socketBuf.remaining
  if ready ≠ 0 then
    copyReady host ready s.fragmenter.dataExpected
    modify fun s => { s with fragmenter := { s.fragmenter with dataExpected := 0, inBuf := none } }
    return some .dataIndication
  else
    set { s with monitored := true }
    return none

/-- `Fragmenter.Handle_Message`, for a `Data_Expected` -/
def handleDataExpected (inBuf : InBuf) (max : Nat) : StackProg (Option Message) := do
  if max = 0 then return some .dataIndication
  let s ← get
  raiseIf (¬(s.fragmenter.dataExpected = 0 ∧ s.fragmenter.inBuf = none)) .assertionError
  set { s with fragmenter :=
    { s.fragmenter with
      dataExpected := max
      initialDataExpected := max
      inBuf := some inBuf } }
  processData host

/-! ## `MIOP_In` -/

/-- A header has been received: its size, the unique id and the padding included, is a multiple of
eight. -/
def handleMiopHeader : StackProg (Option Message) := do
  let s ← get
  let header ← onMiopBuf (unmarshallMiopHeader host s.miopIn.header)
  modify fun s => { s with miopIn := { s.miopIn with header, state := .waitUniqueId } }
  let n := ((header.uniqueIdSize + miopHeaderSize) % unsignedLongModulus + 7) / 8 * 8
  let size ← evaluate (toUnsignedShort n)
  modify fun s => { s with miopIn :=
    { s.miopIn with payload := subUnsignedShort header.packetSize size } }
  raiseIf (n < miopHeaderSize) .constraintError
  return some (.dataExpected .miop (n - miopHeaderSize))

def handleUniqueId : StackProg (Option Message) := do
  let s ← get
  let uniqueId ← onMiopBuf (unmarshallUniqueId host s.miopIn.header.uniqueIdSize)
  onMiopBuf (releaseContents host)
  let header := { s.miopIn.header with uniqueId }
  modify fun s => { s with miopIn := { s.miopIn with header, state := .waitGiopData } }
  if s.miopIn.fragment = true then
    raiseIf (¬(header.collectMode = true ∧ header.uniqueId = s.miopIn.oldHeader.uniqueId ∧
      header.packetTotal = s.miopIn.oldHeader.packetTotal ∧
      header.packetNumber = (s.miopIn.oldHeader.packetNumber + 1) % unsignedLongModulus))
      .miopPacketError
    raiseIf ((header.packetNumber + 1) % unsignedLongModulus = header.packetTotal ∧
      s.miopIn.payload ≠ s.miopIn.dataExp) .assertionError
    return some (.dataExpected .giop s.miopIn.payload)
  else return some (.dataExpected .giop s.miopIn.dataExp)

def handleGiopData : StackProg (Option Message) := do
  let s ← get
  let received := s.session.bufferIn.remaining - s.miopIn.initialRemain
  if s.miopIn.fragment = false ∧ s.miopIn.initialDataExp = received then
    let dataExp ← evaluate (toUnsignedShort s.miopIn.dataExp)
    set { s with miopIn :=
      { s.miopIn with
        payload := subUnsignedShort s.miopIn.payload dataExp
        state := .waitGiopAsk } }
    return some .giopDataIndication
  else if s.miopIn.fragment = true ∧
      (s.miopIn.header.packetNumber + 1) % unsignedLongModulus = s.miopIn.header.packetTotal then
    set { s with miopIn := { s.miopIn with fragment := false, state := .waitGiopAsk } }
    return some .giopDataIndication
  else
    raiseIf (s.miopIn.header.collectMode = false) .miopPacketError
    raiseIf (s.miopIn.initialDataExp < received) .assertionError
    raiseIf (s.miopIn.dataExp < s.miopIn.payload) .miopPacketError
    set { s with miopIn :=
      { s.miopIn with
        dataExp := s.miopIn.dataExp - s.miopIn.payload
        fragment := true
        oldHeader := s.miopIn.header
        state := .waitMiopHeader } }
    return some (.dataExpected .miop miopHeaderSize)

def handleDataIndication : StackProg (Option Message) := do
  match (← get).miopIn.state with
  | .waitMiopHeader => handleMiopHeader host
  | .waitUniqueId => handleUniqueId host
  | .waitGiopData => handleGiopData
  | _ => throw .miopPacketError

/-- `MIOP_In.Handle_Message`, for a `GIOP_Data_Expected` -/
def handleGiopDataExpected (max : Nat) (header : Bool) : StackProg (Option Message) := do
  modify fun s => { s with miopIn :=
    { s.miopIn with
      dataExp := max
      initialDataExp := max
      initialRemain := s.session.bufferIn.remaining } }
  let s ← get
  match s.miopIn.state with
  | .waitForGiopLayer => do
    raiseIf (header = false) .assertionError
    set { s with miopIn := { s.miopIn with state := .waitMiopHeader } }
    return some (.dataExpected .miop miopHeaderSize)
  | .waitGiopAsk =>
    if header = true then do
      set { s with miopIn := { s.miopIn with state := .waitMiopHeader } }
      return some (.dataExpected .miop miopHeaderSize)
    else do
      set { s with miopIn := { s.miopIn with state := .waitGiopData } }
      if s.miopIn.payload < max then
        raiseIf (s.miopIn.header.collectMode = false) .miopPacketError
        return some (.dataExpected .giop s.miopIn.payload)
      else return some (.dataExpected .giop max)
  | _ => throw .miopPacketError

/-! ## The session -/

def giopHeaderSize : Nat := 12

/-- A message has been received, and the header of the next one is asked for. -/
def processMessage (message : List UInt8) : StackProg (Option Message) := do
  modify fun s => { s with session :=
    { bufferIn := Buffer.new host, header := none, messages := s.session.messages ++ [message] } }
  return some (.giopDataExpected giopHeaderSize true)

variable (bodySize : List UInt8 → Except Exn Nat)

def handleGiopDataIndication : StackProg (Option Message) := do
  let s ← get
  match s.session.header with
  | none => do
    let header ← onSession (unmarshallOctets host giopHeaderSize)
    let size ← evaluate (bodySize header)
    if size = 0 then processMessage host header
    else do
      modify fun s => { s with session := { s.session with header := some header } }
      return some (.giopDataExpected size false)
  | some header => do
    let body ← onSession (unmarshallOctets host s.session.bufferIn.remaining)
    processMessage host (header ++ body)

/-! ## Datagrams -/

def handle : Message → StackProg (Option Message)
  | .giopDataExpected max header => handleGiopDataExpected max header
  | .dataExpected inBuf max => handleDataExpected host inBuf max
  | .dataReceived => processData host
  | .dataIndication => handleDataIndication host
  | .giopDataIndication => handleGiopDataIndication host bodySize

/-- Messages are handled until a datagram is waited for. -/
def dispatch : Nat → Message → StackProg Unit
  | 0, _ => throw .unfinished
  | fuel + 1, m => do
    match ← handle host bodySize m with
    | none => return ()
    | some next => dispatch fuel next

/-- What is raised is reported; no datagram is waited for any more then. -/
def finish : EStateM.Result Exn Stack Unit → Stack
  | .ok _ s => s
  | .error e s => { s with error := some e }

def Stack.read (s : Stack) (datagram : List UInt8) : Stack :=
  { s with
    monitored := false
    fragmenter := { s.fragmenter with
      socketBuf := receiveBuffer datagram s.fragmenter.socketBuf } }

def receiveDatagram (s : Stack) (datagram : List UInt8) : Stack :=
  if s.monitored = true then
    finish (dispatch host bodySize (8 * (datagram.length + 2)) .dataReceived (s.read datagram))
  else s

def receiveDatagrams (s : Stack) (datagrams : List (List UInt8)) : Stack :=
  datagrams.foldl (receiveDatagram host bodySize) s

def start : Stack :=
  { session := { bufferIn := Buffer.new host, header := none, messages := [] }
    miopIn :=
      { state := .waitMiopHeader, miopBuf := Buffer.new host, dataExp := giopHeaderSize
        initialDataExp := giopHeaderSize, initialRemain := 0, header := MiopHeader.new host
        oldHeader := MiopHeader.new host, fragment := false, payload := 0 }
    fragmenter :=
      { inBuf := some .miop, socketBuf := Buffer.new host, dataExpected := miopHeaderSize
        initialDataExpected := miopHeaderSize }
    monitored := true
    error := none }

end Receive

end Miop

end PolyORB
