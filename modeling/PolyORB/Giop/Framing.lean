import PolyORB.Buffers.Receiving
import PolyORB.Giop.Listening

/-!
# Framing

The transport endpoint, the slicer filter and the GIOP session, which ask one another for data: the
session for a header or a body, the slicer for what is still missing of it, and the endpoint for the
octets that the network delivers.  What the session does with a message is left open, but for
whether it asks for the next one.  A fragment is not processed here.
-/

namespace PolyORB

namespace Framing

open Buffer
open Program (raiseIf stateAfter evaluate)

structure ProcessedMessage where
  version : GiopVersion
  mctx : MessageContext
  buffer : Buffer
  deriving DecidableEq

structure Session where
  state : GiopState
  bufferIn : Buffer
  implem : Option GiopVersion
  mctx : MessageContext
  processed : List ProcessedMessage
  error : Option SysError
  deriving DecidableEq

structure Slicer where
  dataExpected : Nat
  initialDataExpected : Nat
  /-- `In_Buf` is not null; it is the buffer of the session then. -/
  inBuf : Bool
  bufferLength : Nat
  deriving DecidableEq

/-- The messages between the session and the slicer. -/
inductive Exchange where
  | dataExpected (max : Nat)
  | dataIndication (dataAmount : Nat)
  deriving DecidableEq

structure Stack where
  session : Session
  slicer : Slicer
  /-- The `Max` of the endpoint while it is monitored. -/
  endpoint : Option Nat
  exchanges : List Exchange
  deriving DecidableEq

abbrev StackProg := EStateM Exn Stack

def onSession {α : Type} (p : EStateM Exn Session α) : StackProg α :=
  Program.zoom Stack.session (fun s t => { s with session := t }) p

def onBufferIn {α : Type} (p : BufferProg α) : EStateM Exn Session α :=
  Program.zoom Session.bufferIn (fun s b => { s with bufferIn := b }) p

/-- What the code around the session provides. -/
structure Environment where
  host : Endianness
  /-- The versions that `GIOP_Implems` has an implementation for. -/
  implems : GiopVersion → Bool
  /-- What the processing of the last message leads to: an exception, or whether the session asks
  for another message, at once or later. -/
  process : List ProcessedMessage → Except Exn Bool

/-! ## Data expected -/

def endpointDataExpected (max : Nat) : StackProg Unit := modify fun s => { s with endpoint := some max }

/-- `Slicers.Handle_Message`, for a `Data_Expected` -/
def slicerDataExpected (max : Nat) : StackProg Unit := do
  let s ← get
  raiseIf (¬(s.slicer.dataExpected = 0 ∧ s.slicer.inBuf = false ∧ max ≠ 0)) .assertionError
  set { s with slicer := ⟨max, max, true, s.session.bufferIn.length⟩ }
  endpointDataExpected max

def emitDataExpected (max : Nat) : StackProg Unit := do
  modify fun s => { s with exchanges := s.exchanges ++ [.dataExpected max] }
  slicerDataExpected max

/-! ## The session -/

variable (env : Environment)

def expectGiopHeader : StackProg Unit := do
  modify fun s => { s with
    session := { s.session with bufferIn := Buffer.new env.host, state := .expectHeader } }
  emitDataExpected giopHeaderSize

def toGiopVersion : Nat → Except Exn GiopVersion
  | 0 => .ok .giopV1_0
  | 1 => .ok .giopV1_1
  | 2 => .ok .giopV1_2
  | _ => .error .constraintError

/-- `Unmarshall_Global_GIOP_Header`, up to the version. -/
def unmarshallVersion : BufferProg GiopVersion := do
  let flags ← peek 6
  setEndianness (if flags.toNat % 2 = 1 then .littleEndian else .bigEndian)
  let messageMagic ← unmarshallOctets env.host 4
  raiseIf (messageMagic ≠ magic) .giopError
  let major ← unmarshallElementary env.host 1
  raiseIf (major ≠ 1) .assertionError
  evaluate (toGiopVersion (← unmarshallElementary env.host 1))

/-- The first message determines the version of the session. -/
def unmarshallGlobalGiopHeader : EStateM Exn Session Unit := do
  let version ← onBufferIn (unmarshallVersion env)
  let s ← get
  match s.implem with
  | none =>
    raiseIf (env.implems version = false) .giopError
    set { s with implem := some version, mctx := MessageContext.new env.host }
  | some implem => raiseIf (version ≠ implem) .giopError

def unmarshallGiopHeader (mctx : MessageContext) : GiopVersion → BufferProg MessageContext
  | .giopV1_2 => PolyORB.unmarshallGiopHeader env.host mctx
  | .giopV1_1 => do
    let flags ← unmarshallElementary env.host 1
    unmarshallFields (flags % 2 = 1)
  | .giopV1_0 => do unmarshallFields (← unmarshallBoolean env.host)
where
  unmarshallFields (littleEndian : Bool) : BufferProg MessageContext := do
    let order : Endianness := if littleEndian = true then .littleEndian else .bigEndian
    let b ← get
    raiseIf (order ≠ b.endianness) .assertionError
    let messageType ← evaluate (MsgType.val (← unmarshallElementary env.host 1))
    let messageSize ← unmarshallElementary env.host 4
    return { mctx with messageEndianness := order, messageType, messageSize }

def unmarshallHeader : EStateM Exn Session Unit := do
  unmarshallGlobalGiopHeader env
  let s ← get
  match s.implem with
  | none => throw .constraintError
  | some version => do
    let mctx ← onBufferIn (unmarshallGiopHeader env s.mctx version)
    modify fun s => { s with mctx, state := .expectBody }

def processMessage : StackProg Unit := do
  let s ← get
  match s.session.implem with
  | none => throw .constraintError
  | some version => do
    raiseIf (s.session.mctx.messageType = .fragment) .unfinished
    let processed := s.session.processed ++
      [(⟨version, s.session.mctx, s.session.bufferIn⟩ : ProcessedMessage)]
    set { s with session := { s.session with processed } }
    if ← evaluate (env.process processed) then expectGiopHeader env

def handleDataIndication : StackProg Unit :=
  tryCatch
    (do
      let s ← get
      raiseIf (s.session.state = .notInitialized) .assertionError
      match s.session.state with
      | .expectHeader => do
        onSession (unmarshallHeader env)
        let s ← get
        if s.session.mctx.messageSize = 0 then processMessage env
        else emitDataExpected s.session.mctx.messageSize
      | .expectBody => processMessage env
      | _ => throw .giopError)
    (fun _ => modify fun s => { s with
      session := { s.session with error := some ⟨.commFailureE, 0, .completedMaybe⟩ } })

/-! ## Data indications -/

/-- `Slicers.Handle_Message`, for a `Data_Indication` -/
def slicerDataIndication (dataReceived : Nat) : StackProg Unit := do
  let s ← get
  raiseIf (s.slicer.inBuf = false ∨ s.slicer.dataExpected < dataReceived) .programError
  raiseIf (s.slicer.bufferLength + dataReceived ≠ s.session.bufferIn.length) .assertionError
  let dataExpected := s.slicer.dataExpected - dataReceived
  let bufferLength := s.session.bufferIn.length
  if dataExpected = 0 then
    let dataAmount :=
      if s.slicer.initialDataExpected = 0 then dataReceived else s.slicer.initialDataExpected
    set { s with
      slicer := ⟨0, 0, false, bufferLength⟩
      exchanges := s.exchanges ++ [(.dataIndication dataAmount : Exchange)] }
    handleDataIndication env
  else
    set { s with slicer := { s.slicer with dataExpected, bufferLength } }
    endpointDataExpected dataExpected

/-- The endpoint reads what the network delivers, and indicates it. -/
def deliver (data : List UInt8) : StackProg Unit := do
  let s ← get
  match s.endpoint with
  | none => throw .programError
  | some max => do
    set { s with
      session := { s.session with bufferIn := receiveAtMost max data s.session.bufferIn }
      endpoint := none }
    slicerDataIndication env data.length

def receive (s : Stack) (data : List UInt8) : Stack := stateAfter (deliver env data) s

/-- What the transport may deliver: at least an octet, and at most what was asked for. -/
def MayDeliver (s : Stack) (data : List UInt8) : Prop :=
  data ≠ [] ∧ ∃ max ∈ s.endpoint, data.length ≤ max

instance (s : Stack) (data : List UInt8) : Decidable (MayDeliver s data) :=
  inferInstanceAs (Decidable (_ ∧ _))

/-- A session that has asked for its first message. -/
def start : Stack :=
  { session :=
      { state := .expectHeader, bufferIn := Buffer.new env.host, implem := none
        mctx := MessageContext.new env.host, processed := [], error := none }
    slicer := ⟨giopHeaderSize, giopHeaderSize, true, 0⟩
    endpoint := some giopHeaderSize
    exchanges := [.dataExpected giopHeaderSize] }

/-- The octets arrive in such a way that each request is answered by one delivery; those that are
left at the end do not answer one. -/
def arriveWhole : Nat → Stack → List UInt8 → Stack
  | 0, s, _ => s
  | fuel + 1, s, octets =>
    match s.endpoint with
    | none => s
    | some max =>
      if max ≤ octets.length then
        arriveWhole fuel (receive env s (octets.take max)) (octets.drop max)
      else s

/-- Each `Data_Expected` is answered by one `Data_Indication` of the same amount; the last one may
still be waiting. -/
def answered : List Exchange → Bool
  | [] | [.dataExpected _] => true
  | .dataExpected max :: .dataIndication dataAmount :: es => max == dataAmount && answered es
  | _ => false

/-! ## Requests -/

/-- Nothing is asked for. -/
structure Idle (s : Stack) : Prop where
  endpoint : s.endpoint = none
  slicer : ∃ length, s.slicer = ⟨0, 0, false, length⟩

/-- `max` octets are asked for, and none has come yet. -/
structure Waiting (max : Nat) (s : Stack) : Prop where
  pos : 0 < max
  endpoint : s.endpoint = some max
  slicer : s.slicer = ⟨max, max, true, s.session.bufferIn.length⟩

/-- From a state in which nothing is asked for, the program asks for data at most once, as the last
thing that it does. -/
def Leads (s : Stack) : EStateM.Result Exn Stack Unit → Prop
  | .ok _ s' => (Idle s' ∧ s'.exchanges = s.exchanges) ∨
      ∃ max, Waiting max s' ∧ s'.exchanges = s.exchanges ++ [.dataExpected max]
  | .error _ s' => Idle s' ∧ s'.exchanges = s.exchanges

variable {env : Environment} {s s' : Stack} {max : Nat}

theorem Idle.session (h : Idle s) (t : Session) : Idle { s with session := t } := ⟨h.endpoint, h.slicer⟩

theorem emitDataExpected_eq (h : Idle s) (hmax : 0 < max) :
    emitDataExpected max s = .ok () { s with
      slicer := ⟨max, max, true, s.session.bufferIn.length⟩
      endpoint := some max
      exchanges := s.exchanges ++ [.dataExpected max] } := by
  obtain ⟨length, hs⟩ := h.slicer
  unfold emitDataExpected slicerDataExpected
  rw [Program.bind_ok (Program.modify_apply ..), Program.bind_get, Program.bind_raiseIf]
  · rfl
  · rw [hs]
    simp only [true_and, not_not]
    omega

theorem emitDataExpected_leads (h : Idle s) (hmax : 0 < max) : Leads s (emitDataExpected max s) := by
  rw [emitDataExpected_eq h hmax]
  exact .inr ⟨max, ⟨hmax, rfl, rfl⟩, rfl⟩

theorem expectGiopHeader_leads (h : Idle s) : Leads s (expectGiopHeader env s) :=
  emitDataExpected_leads (h.session _) (by decide)

theorem processMessage_leads (h : Idle s) : Leads s (processMessage env s) := by
  unfold processMessage
  rw [Program.bind_get]
  cases hi : s.session.implem with
  | none => exact ⟨h, rfl⟩
  | some version =>
    dsimp only
    by_cases hf : s.session.mctx.messageType = .fragment
    · rw [Program.bind_error (Program.raiseIf_true hf _ _)]
      exact ⟨h, rfl⟩
    · rw [Program.bind_raiseIf hf, Program.bind_ok (Program.set_apply ..)]
      generalize s.session.processed ++ [_] = processed
      cases hp : env.process processed with
      | error e => exact ⟨h.session _, rfl⟩
      | ok next =>
        cases next with
        | false => exact .inl ⟨h.session _, rfl⟩
        | true => exact expectGiopHeader_leads (h.session _)

theorem leads_bind_onSession {α : Type} {p : EStateM Exn Session α} {f : α → StackProg Unit}
    (h : Idle s) (hf : ∀ a s', Idle s' → s'.exchanges = s.exchanges → Leads s (f a s')) :
    Leads s ((onSession p >>= f) s) := by
  cases hp : p s.session with
  | ok a t =>
    have hz : onSession p s = .ok a { s with session := t } := Program.zoom_ok hp
    rw [Program.bind_ok hz]
    exact hf a _ (h.session t) rfl
  | error e t =>
    have hz : onSession p s = .error e { s with session := t } := Program.zoom_error hp
    rw [Program.bind_error hz]
    exact ⟨h.session t, rfl⟩

theorem Leads.of_exchanges {r : EStateM.Result Exn Stack Unit} (h : Leads s' r)
    (heq : s'.exchanges = s.exchanges) : Leads s r := by
  cases r <;> simpa only [Leads, heq] using h

variable (env)

theorem handleDataIndication_leads (h : Idle s) :
    ∃ s', handleDataIndication env s = .ok () s' ∧ Leads s (.ok () s') := by
  have hbody : ∀ body : StackProg Unit, Leads s (body s) →
      ∃ s', (tryCatch body fun _ => modify fun s => { s with
        session := { s.session with error := some ⟨.commFailureE, 0, .completedMaybe⟩ } }) s =
          .ok () s' ∧ Leads s (.ok () s') := by
    intro body hl
    cases hb : body s with
    | ok _ t =>
      rw [hb] at hl
      exact ⟨t, Program.tryCatch_ok hb, hl⟩
    | error e t =>
      rw [hb] at hl
      exact ⟨_, Program.tryCatch_error hb, .inl ⟨hl.1.session _, hl.2⟩⟩
  refine hbody _ ?_
  rw [Program.bind_get]
  by_cases hstate : s.session.state = .notInitialized
  · rw [Program.bind_error (Program.raiseIf_true hstate _ _)]
    exact ⟨h, rfl⟩
  · cases hs : s.session.state with
    | expectHeader =>
      refine leads_bind_onSession h fun _ s' h' heq => ?_
      rw [Program.bind_get]
      split_ifs with hsize
      · exact (processMessage_leads h').of_exchanges heq
      · exact (emitDataExpected_leads h' (Nat.pos_of_ne_zero hsize)).of_exchanges heq
    | expectBody => exact processMessage_leads h
    | _ => exact ⟨h, rfl⟩

/-! ## Octets that answer a request only in part -/

theorem receiveAtMost_length {b : Buffer} {xs : List UInt8} (hmax : 0 < max) (hle : xs.length ≤ max) :
    (receiveAtMost max xs b).length = b.length + xs.length := by
  rcases b.grow_or_append max with ⟨init, v, hc, hroom⟩ | hnone
  · rw [receiveAtMost_grow hc hmax hroom hle]
  · rw [receiveAtMost_append hnone hle]

/-- Since `max` octets were asked for in `r`, `xs` has come. -/
structure Underway (max : Nat) (xs : List UInt8) (r s : Stack) : Prop where
  lt : xs.length < max
  endpoint : s.endpoint = some (max - xs.length)
  slicer : s.slicer = ⟨max - xs.length, max, true, s.session.bufferIn.length⟩
  session : s.session = { r.session with bufferIn := s.session.bufferIn }
  exchanges : s.exchanges = r.exchanges
  buffer : ∀ ys : List UInt8, xs.length + ys.length ≤ max →
    receiveAtMost (max - xs.length) ys s.session.bufferIn =
      receiveAtMost max (xs ++ ys) r.session.bufferIn

theorem Waiting.underway (h : Waiting max s) : Underway max [] s s :=
  ⟨h.pos, h.endpoint, h.slicer, rfl, rfl, fun _ _ => rfl⟩

/-- The request is answered. -/
def answer (max : Nat) (xs : List UInt8) (r : Stack) : Stack :=
  { session := { r.session with bufferIn := receiveAtMost max xs r.session.bufferIn }
    slicer := ⟨0, 0, false, (receiveAtMost max xs r.session.bufferIn).length⟩
    endpoint := none
    exchanges := r.exchanges ++ [.dataIndication max] }

theorem answer_idle (max : Nat) (xs : List UInt8) (r : Stack) : Idle (answer max xs r) :=
  ⟨rfl, _, rfl⟩

variable {r : Stack} {xs ys : List UInt8}

theorem Underway.deliver_eq (h : Underway max xs r s) (hle : xs.length + ys.length ≤ max) :
    deliver env ys s =
      if xs.length + ys.length = max then handleDataIndication env (answer max (xs ++ ys) r)
      else .ok () { s with
        session := { s.session with bufferIn := receiveAtMost max (xs ++ ys) r.session.bufferIn }
        slicer := ⟨max - (xs ++ ys).length, max, true,
          (receiveAtMost max (xs ++ ys) r.session.bufferIn).length⟩
        endpoint := some (max - (xs ++ ys).length) } := by
  have hlt := h.lt
  have hlength : s.session.bufferIn.length + ys.length =
      (receiveAtMost max (xs ++ ys) r.session.bufferIn).length := by
    rw [← h.buffer ys hle, receiveAtMost_length (by omega) (by omega)]
  have hrest : max - xs.length - ys.length = max - (xs ++ ys).length := by
    rw [List.length_append, Nat.sub_sub]
  unfold deliver slicerDataIndication
  rw [Program.bind_get, h.endpoint]
  dsimp only
  rw [Program.bind_ok (Program.set_apply ..), Program.bind_get, h.slicer, h.buffer ys hle]
  dsimp only
  rw [Program.bind_raiseIf, Program.bind_raiseIf]
  · by_cases hall : xs.length + ys.length = max
    · rw [if_pos hall, if_pos (by omega), Program.bind_ok (Program.set_apply ..), if_neg (by omega),
        h.session, h.exchanges]
      rfl
    · rw [if_neg hall, if_neg (by omega), Program.bind_ok (Program.set_apply ..), hrest]
      rfl
  · rw [hlength]
    exact fun hne => hne rfl
  · rintro (hfalse | hgt)
    · cases hfalse
    · omega

theorem Underway.receive_part (h : Underway max xs r s) (hlt : xs.length + ys.length < max) :
    deliver env ys s = .ok () (receive env s ys) ∧ Underway max (xs ++ ys) r (receive env s ys) := by
  have hd := h.deliver_eq env (le_of_lt hlt)
  rw [if_neg (ne_of_lt hlt)] at hd
  have hr : receive env s ys = _ := Program.stateAfter_ok hd
  have hlength : (xs ++ ys).length < max := by rwa [List.length_append]
  refine ⟨by rw [hd, hr], ?_⟩
  rw [hr]
  refine ⟨hlength, rfl, rfl, ?_, h.exchanges, ?_⟩
  · rw [h.session]
  · intro zs hzs
    rw [receiveAtMost_receiveAtMost _ (Nat.sub_pos_of_lt hlength) hzs]

theorem Underway.deliver_rest (h : Underway max xs r s) (hr : Waiting max r)
    (heq : xs.length + ys.length = max) : deliver env ys s = deliver env (xs ++ ys) r := by
  have hlength : ([] : List UInt8).length + (xs ++ ys).length = max := by
    rw [List.length_nil, Nat.zero_add, List.length_append, heq]
  rw [h.deliver_eq env (le_of_eq heq), if_pos heq, hr.underway.deliver_eq env (le_of_eq hlength),
    if_pos hlength, List.nil_append]

theorem Underway.receive_rest (h : Underway max xs r s) (hr : Waiting max r)
    (heq : xs.length + ys.length = max) : receive env s ys = receive env r (xs ++ ys) := by
  unfold receive Program.stateAfter
  rw [h.deliver_rest env hr heq]

/-- Each `Data_Expected` of `es` is answered. -/
def Settled (es : List Exchange) : Prop := ∀ rest, answered (es ++ rest) = answered rest

variable {es : List Exchange}

theorem Settled.answered (h : Settled es) : answered es = true := by
  have := h []
  rwa [List.append_nil] at this

theorem Settled.answered_asked (h : Settled es) (max : Nat) :
    Framing.answered (es ++ [.dataExpected max]) = true := h _

theorem Settled.append (h : Settled es) (max : Nat) :
    Settled (es ++ [.dataExpected max] ++ [.dataIndication max]) := by
  intro rest
  rw [List.append_assoc, List.append_assoc, h]
  show (max == max && Framing.answered rest) = _
  rw [beq_self_eq_true, Bool.true_and]

/-- A state that no delivery has been split for. -/
inductive Regular (s : Stack) : Prop where
  | idle (h : Idle s) (settled : Settled s.exchanges)
  | waiting (max : Nat) (h : Waiting max s) (es : List Exchange)
    (asked : s.exchanges = es ++ [.dataExpected max]) (settled : Settled es)

theorem Regular.answered (h : Regular s) : answered s.exchanges = true := by
  cases h with
  | idle _ hs => exact hs.answered
  | waiting max _ es ha hs => rw [ha, hs.answered_asked]

theorem Waiting.receive_regular (h : Waiting max r)
    (ha : r.exchanges = es ++ [.dataExpected max]) (hs : Settled es) (hxs : xs.length = max) :
    deliver env xs r = .ok () (receive env r xs) ∧ Regular (receive env r xs) := by
  have hlength : ([] : List UInt8).length + xs.length = max := by
    rw [List.length_nil, Nat.zero_add, hxs]
  obtain ⟨t, ht, hl⟩ := handleDataIndication_leads env (answer_idle max xs r)
  have hd := h.underway.deliver_eq env (le_of_eq hlength)
  rw [if_pos hlength, List.nil_append, ht] at hd
  have hr : receive env r xs = t := Program.stateAfter_ok hd
  have hsettled : Settled (answer max xs r).exchanges := by
    show Settled (r.exchanges ++ _)
    rw [ha]
    exact hs.append max
  rw [hr]
  refine ⟨hd, ?_⟩
  rcases hl with ⟨hidle, he⟩ | ⟨max', hw, he⟩
  · exact .idle hidle (he ▸ hsettled)
  · exact .waiting max' hw _ he hsettled

/-! ## Chunks -/

/-- The transport has delivered `xs` since `r`, without answering the request. -/
def Behind (xs : List UInt8) (r s : Stack) : Prop :=
  (Idle r ∧ s = r ∧ xs = []) ∨ ∃ max, Waiting max r ∧ Underway max xs r s

/-- The two stacks are the same for the session, but for what is in its buffer of a message that has
not been processed. -/
def Agree (s r : Stack) : Prop :=
  s.session = { r.session with bufferIn := s.session.bufferIn } ∧ s.exchanges = r.exchanges

theorem Behind.agree (h : Behind xs r s) : Agree s r := by
  rcases h with ⟨_, rfl, _⟩ | ⟨max, _, hu⟩
  · exact ⟨rfl, rfl⟩
  · exact ⟨hu.session, hu.exchanges⟩

theorem Regular.behind (h : Regular s) : Behind [] s s := by
  cases h with
  | idle h _ => exact .inl ⟨h, rfl, rfl⟩
  | waiting max h _ _ _ => exact .inr ⟨max, h, h.underway⟩

theorem Behind.deliver (h : Behind xs r s) (hr : Regular r) (hmay : MayDeliver s ys) :
    deliver env ys s = .ok () (receive env s ys) ∧
      (Behind (xs ++ ys) r (receive env s ys) ∨
        ∃ max ∈ r.endpoint, (xs ++ ys).length = max ∧
          receive env s ys = receive env r (xs ++ ys) ∧ Regular (receive env r (xs ++ ys))) := by
  obtain ⟨-, room, hroom, hle⟩ := hmay
  rcases h with ⟨hidle, rfl, -⟩ | ⟨max, hw, hu⟩
  · rw [hidle.endpoint] at hroom
    cases hroom
  · rw [hu.endpoint] at hroom
    obtain rfl := Option.mem_some.mp hroom
    have hlt := hu.lt
    by_cases hall : xs.length + ys.length = max
    · cases hr with
      | idle hidle _ =>
        have := hidle.endpoint
        rw [hw.endpoint] at this
        cases this
      | waiting max' hw' es ha hs =>
        have hmax : max' = max := Option.some.inj (hw'.endpoint.symm.trans hw.endpoint)
        subst hmax
        have hlength : (xs ++ ys).length = max' := by rw [List.length_append, hall]
        obtain ⟨hd, hreg⟩ := hw.receive_regular env ha hs hlength
        have hrest := hu.receive_rest env hw hall
        refine ⟨?_, .inr ⟨max', hw.endpoint, hlength, hrest, hreg⟩⟩
        rw [hu.deliver_rest env hw hall, hrest, hd]
    · obtain ⟨hd, hu'⟩ := hu.receive_part env (by omega : xs.length + ys.length < max)
      exact ⟨hd, .inl (.inr ⟨max, hw, hu'⟩)⟩

theorem arriveWhole_of_lt {fuel : Nat} {octets : List UInt8}
    (h : ∀ max ∈ s.endpoint, octets.length < max) : arriveWhole env fuel s octets = s := by
  cases fuel with
  | zero => rfl
  | succ fuel =>
    unfold arriveWhole
    cases he : s.endpoint with
    | none => rfl
    | some max =>
      dsimp only
      rw [if_neg (Nat.not_le.mpr (h max he))]

theorem arriveWhole_append {fuel : Nat} {octets : List UInt8} (he : max ∈ s.endpoint)
    (hxs : xs.length = max) :
    arriveWhole env (fuel + 1) s (xs ++ octets) = arriveWhole env fuel (receive env s xs) octets := by
  have hs : s.endpoint = some max := he
  rw [arriveWhole, hs]
  dsimp only
  rw [if_pos (by rw [List.length_append]; omega), ← hxs, List.take_left, List.drop_left]

theorem Behind.run (chunks : List (List UInt8)) :
    ∀ (fuel : Nat) {xs : List UInt8} {r s : Stack}, Behind xs r s → Regular r →
      (xs ++ chunks.flatten).length < fuel → Runs.Along (receive env) MayDeliver s chunks →
      Runs.Along (receive env) (fun s data => Framing.deliver env data s = .ok () (receive env s data))
          s chunks ∧
        Framing.answered (Runs.reach (receive env) s chunks).exchanges = true ∧
        Agree (Runs.reach (receive env) s chunks) (arriveWhole env fuel r (xs ++ chunks.flatten)) := by
  induction chunks with
  | nil =>
    intro fuel xs r s hb hr _ _
    refine ⟨trivial, ?_⟩
    rw [List.flatten_nil, List.append_nil, arriveWhole_of_lt]
    · exact ⟨hb.agree.2 ▸ hr.answered, hb.agree⟩
    · rcases hb with ⟨hidle, -, -⟩ | ⟨max, hw, hu⟩
      · rw [hidle.endpoint]
        rintro _ ⟨⟩
      · rw [hw.endpoint]
        rintro _ ⟨⟩
        exact hu.lt
  | cons ys chunks ih =>
    rintro fuel xs r s hb hr hfuel ⟨hmay, hrest⟩
    obtain ⟨hd, hb' | ⟨max, he, hlength, hs, hreg⟩⟩ := hb.deliver env hr hmay
    · obtain ⟨h₁, h₂⟩ := ih fuel hb' hr (by rwa [List.append_assoc]) hrest
      refine ⟨⟨hd, h₁⟩, ?_⟩
      rwa [List.append_assoc] at h₂
    · obtain ⟨fuel, rfl⟩ : ∃ n, fuel = n + 1 := ⟨fuel - 1, by omega⟩
      rw [List.flatten_cons, ← List.append_assoc, arriveWhole_append env he hlength]
      rw [hs] at hrest
      have hys : ys ≠ [] := hmay.1
      obtain ⟨h₁, h₂⟩ := ih fuel hreg.behind hreg (by
        have := List.length_pos_of_ne_nil hys
        simp only [List.flatten_cons, List.length_append, List.nil_append] at hfuel ⊢
        omega) hrest
      refine ⟨⟨hd, hs ▸ h₁⟩, ?_⟩
      have hreach : Runs.reach (receive env) s (ys :: chunks) =
          Runs.reach (receive env) (receive env r (xs ++ ys)) chunks :=
        congrArg (fun t => Runs.reach (receive env) t chunks) hs
      rw [hreach]
      exact h₂

theorem start_regular : Regular (start env) :=
  .waiting giopHeaderSize ⟨by decide, rfl, rfl⟩ [] rfl fun _ => rfl

/-- The chunks in which the transport delivers a stream make no difference. -/
theorem framing_chunks (env : Environment) (chunks : List (List UInt8))
    (h : Runs.Along (receive env) MayDeliver (start env) chunks) :
    let s := Runs.reach (receive env) (start env) chunks
    let whole := arriveWhole env (chunks.flatten.length + 1) (start env) chunks.flatten
    Runs.Along (receive env) (fun s data => deliver env data s = .ok () (receive env s data))
        (start env) chunks ∧
      answered s.exchanges = true ∧ s.exchanges = whole.exchanges ∧
      s.session.processed = whole.session.processed ∧ s.session.error = whole.session.error ∧
      s.session.state = whole.session.state := by
  obtain ⟨h₁, h₂, hsession, hexchanges⟩ :=
    (start_regular env).behind.run env chunks (chunks.flatten.length + 1) (start_regular env)
      (Nat.lt_succ_self _) h
  dsimp only
  rw [hsession]
  exact ⟨h₁, h₂, hexchanges, rfl, rfl, rfl⟩

/-- A session that asks for a message after each message. -/
def unconcerned : Environment :=
  { host := .littleEndian, implems := fun _ => true, process := fun _ => .ok true }

/-- A request with a body of three octets, and a `Close_Connection`. -/
def twoMessages : List (List UInt8) :=
  [[0x47, 0x49, 0x4f, 0x50, 1], [2, 1, 0, 3, 0, 0, 0], [10], [11, 12],
    [0x47, 0x49, 0x4f, 0x50, 1, 2, 0, 5, 0, 0, 0, 0]]

theorem framing_twoMessages :
    let s := Runs.reach (receive unconcerned) (start unconcerned) twoMessages
    let whole := arriveWhole unconcerned (twoMessages.flatten.length + 1) (start unconcerned)
      twoMessages.flatten
    s.session.processed.length = 2 ∧
      Runs.Along (receive unconcerned)
          (fun s data => deliver unconcerned data s = .ok () (receive unconcerned s data))
          (start unconcerned) twoMessages ∧
        answered s.exchanges = true ∧ s.exchanges = whole.exchanges ∧
        s.session.processed = whole.session.processed ∧ s.session.error = whole.session.error ∧
        s.session.state = whole.session.state :=
  ⟨by decide +kernel, framing_chunks unconcerned twoMessages (by decide +kernel)⟩

end Framing

end PolyORB
