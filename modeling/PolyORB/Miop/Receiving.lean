import PolyORB.Miop.In

/-!
# What one datagram leads to

Between two datagrams the stack listens: a header of a packet is asked for, and all buffers below the
session are empty.  `Fresh` says that no collection is in course, `Amid` that all of a message is
there up to some packet of its collection.
-/

namespace PolyORB

namespace Miop

open Buffer
open Program (raiseIf evaluate)

/-! ## The fragmenter -/

/-- The fragmenter, between two requests, when `xs` is left of a datagram. -/
structure Fragmenter.Holds (host : Endianness) (xs : List UInt8) (f : Fragmenter) : Prop where
  inBuf : f.inBuf = none
  dataExpected : f.dataExpected = 0
  pending : f.socketBuf.Pending xs
  released : xs = [] → f.socketBuf = Buffer.new host

variable {host : Endianness} {xs ys zs : List UInt8} {t : InBuf} {s : Stack}

/-- The octets `xs` have been put into the buffer `t`, and `ys` is left. -/
structure Filled (host : Endianness) (t : InBuf) (xs ys : List UInt8) (s s' : Stack) : Prop where
  session : s'.session = (s.setInBuf ((s.inBuf t).append xs) t).session
  miopIn : s'.miopIn = (s.setInBuf ((s.inBuf t).append xs) t).miopIn
  fragmenter : s'.fragmenter.Holds host ys
  monitored : s'.monitored = s.monitored
  error : s'.error = s.error

theorem copyToInBuf_ok (host : Endianness) {f : Fragmenter} (hs : s.fragmenter = f)
    (hin : f.inBuf = some t) (hpending : f.socketBuf.Pending (xs ++ ys)) :
    copyToInBuf host xs.length s = .ok () (Stack.setCopying t s
      ⟨f.socketBuf.advance xs.length, (s.inBuf t).append xs⟩) := by
  have hc : (Stack.copying t s).source.Pending (xs ++ ys) := by
    show s.fragmenter.socketBuf.Pending _
    rw [hs]
    exact hpending
  have hk := copyKept_ok host hc
  have hsource : (Stack.copying t s).source = f.socketBuf := by rw [← hs]; rfl
  rw [hsource] at hk
  rw [copyToInBuf, Program.bind_get, hs, hin]
  exact Program.zoom_ok hk

theorem processData_ok (host : Endianness) {f : Fragmenter} (hs : s.fragmenter = f) (hin : f.inBuf = some t)
    (hexp : f.dataExpected = xs.length) (hpending : f.socketBuf.Pending (xs ++ ys)) (hxs : xs ≠ []) :
    ∃ s', processData host s = .ok (some .dataIndication) s' ∧ Filled host t xs ys s s' := by
  have hlen : 0 < xs.length := List.length_pos_of_ne_nil hxs
  have hready : f.socketBuf.remaining = xs.length + ys.length := by
    rw [hpending.remaining_eq, List.length_append]
  have hcopy := copyToInBuf_ok host hs hin hpending
  -- what is left of the datagram is in the buffer, which is released when nothing is
  obtain ⟨b, hb, hreleased, hready⟩ : ∃ b : Buffer, b.Pending ys ∧ (ys = [] → b = Buffer.new host) ∧
      copyReady host f.socketBuf.remaining f.dataExpected s =
        .ok () (Stack.setCopying t s ⟨b, (s.inBuf t).append xs⟩) := by
    rw [hready, hexp, copyReady]
    by_cases hys : ys = []
    · subst hys
      rw [List.length_nil, Nat.add_zero, if_pos (le_refl _), Program.bind_ok hcopy,
        Program.bind_raiseIf (not_not.mpr rfl)]
      refine ⟨Buffer.new host, .new host, fun _ => rfl, ?_⟩
      cases t <;> rfl
    · have hpos : 0 < ys.length := List.length_pos_of_ne_nil hys
      rw [if_neg (by omega)]
      exact ⟨f.socketBuf.advance xs.length, hpending.advance, fun h => absurd h hys, hcopy⟩
  have hne : f.socketBuf.remaining ≠ 0 := by
    omega
  rw [processData, Program.bind_get, hs]
  rw [if_pos hne, Program.bind_ok hready]
  cases t with
  | miop => exact ⟨_, rfl, rfl, rfl, ⟨rfl, rfl, hb, hreleased⟩, rfl, rfl⟩
  | giop => exact ⟨_, rfl, rfl, rfl, ⟨rfl, rfl, hb, hreleased⟩, rfl, rfl⟩

theorem processData_short (host : Endianness) {f : Fragmenter} (hs : s.fragmenter = f)
    (hin : f.inBuf = some t) (hpending : f.socketBuf.Pending xs) (hxs : xs ≠ [])
    (hshort : xs.length < f.dataExpected) :
    ∃ s', processData host s = .error .constraintError s' ∧ s'.monitored = s.monitored ∧
      s'.session.messages = s.session.messages := by
  have hready := hpending.remaining_eq
  have hpos : xs.length ≠ 0 := fun hz => hxs (List.eq_nil_of_length_eq_zero hz)
  rw [← List.append_nil xs] at hpending
  have hcopy := copyToInBuf_ok host hs hin hpending
  rw [processData, Program.bind_get, hs]
  rw [hready, if_pos hpos, copyReady, if_pos (le_of_lt hshort)]
  have hraise : ((copyToInBuf host xs.length >>= fun _ =>
      raiseIf (xs.length ≠ f.dataExpected) .constraintError >>= fun _ =>
        onSocketBuf (releaseContents host)) : StackProg Unit) s =
      .error .constraintError (Stack.setCopying t s
        ⟨f.socketBuf.advance xs.length, (s.inBuf t).append xs⟩) := by
    rw [Program.bind_ok hcopy, Program.bind_error (Program.raiseIf_true (Nat.ne_of_lt hshort) _ _)]
  rw [Program.bind_error hraise]
  cases t with
  | miop => exact ⟨_, rfl, rfl, rfl⟩
  | giop => exact ⟨_, rfl, rfl, rfl⟩

theorem processData_wait (s : Stack) (hs : s.fragmenter.socketBuf = Buffer.new host) :
    processData host s = .ok none { s with monitored := true } := by
  have hready : s.fragmenter.socketBuf.remaining = 0 := by rw [hs]; rfl
  rw [processData, Program.bind_get]
  rw [if_neg (not_not.mpr hready)]
  rfl

theorem handleDataExpected_ok (hs : s.fragmenter.Holds host (xs ++ ys)) (hxs : xs ≠ []) :
    ∃ s', handleDataExpected host t xs.length s = .ok (some .dataIndication) s' ∧
      Filled host t xs ys s s' := by
  have hlen : 0 < xs.length := List.length_pos_of_ne_nil hxs
  obtain ⟨s', hp, hf⟩ := processData_ok host (s := { s with fragmenter :=
    ⟨some t, s.fragmenter.socketBuf, xs.length, xs.length⟩ }) rfl rfl rfl hs.pending hxs
  refine ⟨s', ?_, ?_⟩
  · rw [handleDataExpected, if_neg (Nat.ne_of_gt hlen), Program.bind_get,
      Program.bind_raiseIf (not_not.mpr ⟨hs.dataExpected, hs.inBuf⟩),
      Program.bind_ok (Program.set_apply ..), hp]
  · cases t <;> exact ⟨hf.session, hf.miopIn, hf.fragmenter, hf.monitored, hf.error⟩

theorem handleDataExpected_wait {max : Nat} (hs : s.fragmenter.Holds host []) (hmax : 0 < max) :
    handleDataExpected host t max s = .ok none { s with
      fragmenter := ⟨some t, Buffer.new host, max, max⟩, monitored := true } := by
  have hbuf := hs.released rfl
  rw [handleDataExpected, if_neg (Nat.ne_of_gt hmax), Program.bind_get,
    Program.bind_raiseIf (not_not.mpr ⟨hs.dataExpected, hs.inBuf⟩),
    Program.bind_ok (Program.set_apply ..)]
  exact (processData_wait { s with fragmenter :=
    ⟨some t, s.fragmenter.socketBuf, max, max⟩ } hbuf).trans (by rw [hbuf])

/-! ## The header and the unique id -/

/-- A header of a packet is asked for. -/
structure Listening (host : Endianness) (s : Stack) : Prop where
  monitored : s.monitored = true
  error : s.error = none
  state : s.miopIn.state = .waitMiopHeader
  miopBuf : s.miopIn.miopBuf = Buffer.new host
  fragmenter : s.fragmenter = ⟨some .miop, Buffer.new host, miopHeaderSize, miopHeaderSize⟩

/-- What a packet that has been sent may hold. -/
structure Packet.Valid (p : Packet) : Prop where
  size : p.size < unsignedShortModulus
  packetNumber : p.packetNumber < unsignedLongModulus
  packetTotal : p.packetTotal < unsignedLongModulus
  payload : p.payload ≠ []

theorem Packet.Valid.inRange {p : Packet} (h : p.Valid) (order : Endianness) :
    (p.header order).InRange := by
  have hsize := h.size
  have hbound := (headerSize_bounds p.uniqueId).1
  refine ⟨h.size, h.packetNumber, h.packetTotal, ?_⟩
  show p.uniqueId.length + 1 < 2 ^ 32
  unfold Packet.size unsignedShortModulus at hsize
  omega

variable {order : Endianness} {p : Packet}

theorem unmarshallMiopHeader_append (host : Endianness) (hv : p.Valid) (old : MiopHeader) :
    ∃ b : Buffer, b.Pending [] ∧
      unmarshallMiopHeader host old ((Buffer.new host).append (fixedOctets (p.header order))) =
        .ok { p.header order with uniqueId := old.uniqueId, uniqueIdSize := p.uniqueId.length + 1 }
          b := by
  have hlength := length_fixedOctets (p.header order)
  have hne : fixedOctets (p.header order) ≠ [] := by
    rintro h
    rw [h] at hlength
    cases hlength
  have hpending : ((Buffer.new host).append (fixedOctets (p.header order))).Pending
      (fixedOctets (p.header order)) := (Pending.new host).append _
  have hpiece : ((Buffer.new host).append (fixedOctets (p.header order))).pieceAt 0 miopHeaderSize =
      some (fixedOctets (p.header order)) := by
    have hcontents := putOctets_nil hne (by rw [hlength]; decide)
    have hnew := Chunks.piece_append_new (c := []) (List.length_pos_of_ne_nil hne)
    show Chunks.piece ((putOctets [] _).map Iovec.data) 0 miopHeaderSize = _
    rw [hcontents, ← hlength]
    exact hnew
  refine ⟨_, ?_, unmarshallMiopHeader_ok host (hv.inRange order) old hpending.readable rfl rfl hpiece⟩
  have hoctets := octets_put (Buffer.new host) (fixedOctets (p.header order))
  refine ⟨⟨hpending.readable.length_eq, Nat.zero_le _⟩, ?_, ?_⟩
  · show ((Buffer.new host).put (fixedOctets (p.header order))).octets.drop miopHeaderSize = []
    rw [hoctets, ← hlength]
    exact List.drop_length
  · show miopHeaderSize ≤ 0 + (0 + (fixedOctets (p.header order)).length)
    rw [hlength]
    decide

def MiopIn.withHeader (s : MiopIn) (order : Endianness) (p : Packet) (b : Buffer) : MiopIn :=
  { s with
    state := .waitUniqueId
    header := { p.header order with
      uniqueId := s.header.uniqueId
      uniqueIdSize := p.uniqueId.length + 1 }
    payload := p.payload.length
    miopBuf := b }

/-- The stack that has read the header of the packet `p` and the octets of its unique id. -/
structure HeaderRead (host order : Endianness) (p : Packet) (s s' : Stack) : Prop where
  session : s'.session = s.session
  monitored : s'.monitored = false
  error : s'.error = none
  miopIn : ∃ b : Buffer, b.Pending (idOctets p.uniqueId) ∧
    s'.miopIn = s.miopIn.withHeader order p b
  fragmenter : s'.fragmenter.Holds host p.payload

theorem handleMiopHeader_ok (host : Endianness) (hv : p.Valid) (hmiop : s.miopIn.miopBuf =
      (Buffer.new host).append (fixedOctets (p.header order))) :
    ∃ b : Buffer, b.Pending [] ∧ handleMiopHeader host s =
      .ok (some (.dataExpected .miop (idOctets p.uniqueId).length))
        { s with miopIn := s.miopIn.withHeader order p b } := by
  have hbound := (headerSize_bounds p.uniqueId).1
  have hsize := hv.size
  have hpsize : p.size = headerSize p.uniqueId + p.payload.length := rfl
  obtain ⟨b, hb, hread⟩ := unmarshallMiopHeader_append host hv s.miopIn.header
  rw [← hmiop] at hread
  have hn : ((p.uniqueId.length + 1 + miopHeaderSize) % unsignedLongModulus + 7) / 8 * 8 =
      headerSize p.uniqueId := by
    have hmod := headerSize_mod p.uniqueId
    have hlt := (headerSize_bounds p.uniqueId).2
    unfold unsignedShortModulus at hsize
    unfold unsignedLongModulus
    omega
  have hpayload : subUnsignedShort p.size (headerSize p.uniqueId) = p.payload.length := by
    rw [subUnsignedShort_eq (by omega) hsize, hpsize, Nat.add_sub_cancel_left]
  have hid : headerSize p.uniqueId - miopHeaderSize = (idOctets p.uniqueId).length :=
    Nat.add_sub_cancel_left ..
  have hz : onMiopBuf (unmarshallMiopHeader host s.miopIn.header) s = _ :=
    Program.zoom_ok (s := s) hread
  refine ⟨b, hb, ?_⟩
  rw [handleMiopHeader, Program.bind_get, Program.bind_ok hz, Program.bind_ok (Program.modify_apply ..)]
  rw [hn, Program.bind_evaluate (toUnsignedShort_ok (by omega)),
    Program.bind_ok (Program.modify_apply ..), Program.bind_raiseIf (by omega), hid]
  show EStateM.Result.ok _ _ = _
  rw [MiopIn.withHeader, ← hpayload]
  rfl

/-! ## Chains of messages -/

section Chain

variable {bodySize : List UInt8 → Except Exn Nat} {fuel : Nat} {m m' : Message} {s' : Stack}

theorem dispatch_next (h : handle host bodySize m s = .ok (some m') s') :
    dispatch host bodySize (fuel + 1) m s = dispatch host bodySize fuel m' s' := by
  rw [dispatch, Program.bind_ok h]

theorem dispatch_done (h : handle host bodySize m s = .ok none s') :
    dispatch host bodySize (fuel + 1) m s = .ok () s' := by
  rw [dispatch, Program.bind_ok h]
  rfl

theorem dispatch_error {e : Exn} (h : handle host bodySize m s = .error e s') :
    dispatch host bodySize (fuel + 1) m s = .error e s' := by
  rw [dispatch, Program.bind_error h]

theorem handle_waitMiopHeader (h : s.miopIn.state = .waitMiopHeader) :
    handle host bodySize .dataIndication s = handleMiopHeader host s := by
  rw [handle, handleDataIndication, Program.bind_get, h]

theorem handle_waitUniqueId (h : s.miopIn.state = .waitUniqueId) :
    handle host bodySize .dataIndication s = handleUniqueId host s := by
  rw [handle, handleDataIndication, Program.bind_get, h]

theorem handle_waitGiopData (h : s.miopIn.state = .waitGiopData) :
    handle host bodySize .dataIndication s = handleGiopData s := by
  rw [handle, handleDataIndication, Program.bind_get, h]

theorem receiveDatagram_header (bodySize : List UInt8 → Except Exn Nat) (order : Endianness)
    (hs : Listening host s) (hv : p.Valid) :
    ∃ s' k, HeaderRead host order p s s' ∧ receiveDatagram host bodySize s (p.encode order) =
      finish (dispatch host bodySize (k + 12) .dataIndication s') := by
  have hlength := length_fixedOctets (p.header order)
  have hid : (idOctets p.uniqueId).length ≠ 0 := by
    rw [length_idOctets]
    omega
  have hfixed : fixedOctets (p.header order) ≠ [] := fun h => by rw [h] at hlength; cases hlength
  have hidne : idOctets p.uniqueId ≠ [] := fun h => hid (by rw [h]; rfl)
  have hencode : p.encode order =
      fixedOctets (p.header order) ++ (idOctets p.uniqueId ++ p.payload) := by
    rw [Packet.encode, List.append_assoc]
  -- the fixed part of the header
  obtain ⟨s₁, h₁, hf₁⟩ := processData_ok host (s := s.read (p.encode order)) (t := .miop) rfl
    (by rw [Stack.read, hs.fragmenter]) (by rw [Stack.read, hs.fragmenter]; exact hlength.symm)
    (by rw [Stack.read, hs.fragmenter, ← hencode]; exact .receiveBuffer host _) hfixed
  have hmiop₁ : s₁.miopIn.miopBuf = (Buffer.new host).append (fixedOctets (p.header order)) := by
    rw [hf₁.miopIn, ← hs.miopBuf]
    rfl
  have hstate₁ : s₁.miopIn.state = .waitMiopHeader := by
    rw [hf₁.miopIn, ← hs.state]
    rfl
  -- the unique id
  obtain ⟨b₂, hb₂, h₂⟩ := handleMiopHeader_ok host hv hmiop₁
  obtain ⟨s₃, h₃, hf₃⟩ := handleDataExpected_ok (t := .miop)
    (s := { s₁ with miopIn := s₁.miopIn.withHeader order p b₂ }) hf₁.fragmenter hidne
  obtain ⟨k, hk⟩ : ∃ k, 8 * ((p.encode order).length + 2) = k + 12 + 1 + 1 + 1 :=
    ⟨8 * (p.encode order).length + 1, by omega⟩
  refine ⟨s₃, k, ⟨?_, ?_, ?_, ?_, hf₃.fragmenter⟩, ?_⟩
  · rw [hf₃.session]
    exact hf₁.session
  · rw [hf₃.monitored]
    exact hf₁.monitored
  · rw [hf₃.error]
    exact hf₁.error.trans hs.error
  · refine ⟨b₂.append (idOctets p.uniqueId), hb₂.append _, ?_⟩
    rw [hf₃.miopIn]
    show { s₁.miopIn.withHeader order p b₂ with miopBuf := b₂.append (idOctets p.uniqueId) } = _
    rw [hf₁.miopIn]
    rfl
  · rw [receiveDatagram, if_pos hs.monitored, hk, dispatch_next (m := .dataReceived) h₁,
      dispatch_next ((handle_waitMiopHeader hstate₁).trans h₂),
      dispatch_next (m := .dataExpected .miop _) h₃]

/-! ## The payload -/

def MiopIn.withId (s : MiopIn) (host order : Endianness) (p : Packet) : MiopIn :=
  { s with
    state := .waitGiopData
    miopBuf := Buffer.new host
    header := { p.header order with uniqueIdSize := p.uniqueId.length + 1 }
    payload := p.payload.length }

/-- The packet is the one that continues the collection. -/
def Continues (p : Packet) (oldHeader : MiopHeader) : Prop :=
  p.collectMode = true ∧ p.uniqueId = oldHeader.uniqueId ∧ p.packetTotal = oldHeader.packetTotal ∧
    p.packetNumber = (oldHeader.packetNumber + 1) % unsignedLongModulus

instance (p : Packet) (oldHeader : MiopHeader) : Decidable (Continues p oldHeader) :=
  inferInstanceAs (Decidable (_ ∧ _))

theorem handleUniqueId_eq (hv : p.Valid) (h : HeaderRead host order p s s') :
    handleUniqueId host s' =
      (if s.miopIn.fragment = true then do
        raiseIf (¬Continues p s.miopIn.oldHeader) .miopPacketError
        raiseIf ((p.packetNumber + 1) % unsignedLongModulus = p.packetTotal ∧
          p.payload.length ≠ s.miopIn.dataExp) .assertionError
        return some (.dataExpected .giop p.payload.length)
      else return some (.dataExpected .giop s.miopIn.dataExp) : StackProg (Option Message))
        { s' with miopIn := s.miopIn.withId host order p } := by
  obtain ⟨b, hb, hmiop⟩ := h.miopIn
  have hid : p.uniqueId.length < 2 ^ 31 := by
    have hsize := hv.size
    have hbound := (headerSize_bounds p.uniqueId).1
    unfold Packet.size unsignedShortModulus at hsize
    omega
  have hrest : b.rest = p.uniqueId ++ 0 ::
      List.replicate (Octets.padding (miopHeaderSize + (p.uniqueId.length + 1)) 8) 0 := by
    rw [hb.rest_eq, idOctets, List.append_assoc]
    rfl
  have hread : onMiopBuf (unmarshallUniqueId host s'.miopIn.header.uniqueIdSize) s' =
      .ok p.uniqueId { s' with miopIn :=
        { s'.miopIn with miopBuf := b.advance (p.uniqueId.length + 1) } } := by
    have hu := unmarshallUniqueId_ok host hid hb.readable hrest
    have hbuf : s'.miopIn.miopBuf = b := by rw [hmiop]; rfl
    have hsize : s'.miopIn.header.uniqueIdSize = p.uniqueId.length + 1 := by rw [hmiop]; rfl
    rw [← hbuf] at hu
    rw [hsize, ← hbuf]
    exact Program.zoom_ok hu
  have hrelease : onMiopBuf (releaseContents host) { s' with miopIn :=
      { s'.miopIn with miopBuf := b.advance (p.uniqueId.length + 1) } } =
      .ok () { s' with miopIn := { s'.miopIn with miopBuf := Buffer.new host } } := rfl
  rw [handleUniqueId, Program.bind_get, Program.bind_ok hread, Program.bind_ok hrelease,
    Program.bind_ok (Program.modify_apply ..), hmiop]
  rfl

/-- No collection is in course, and the header of a message is asked for. -/
structure Fresh (host : Endianness) (messages : List (List UInt8)) (s : Stack) : Prop where
  listening : Listening host s
  session : s.session = ⟨Buffer.new host, none, messages⟩
  dataExp : s.miopIn.dataExp = giopHeaderSize
  initialDataExp : s.miopIn.initialDataExp = giopHeaderSize
  initialRemain : s.miopIn.initialRemain = 0
  fragment : s.miopIn.fragment = false

/-- Packet number `number` of a collection of `total` packets is the last that has come; `header` and
`got` are what has come of the message, and `left` octets are missing. -/
structure Amid (host : Endianness) (uniqueId : List UInt8) (total number : Nat)
    (header got : List UInt8) (left : Nat) (messages : List (List UInt8)) (s : Stack) : Prop where
  listening : Listening host s
  header : s.session.header = some header
  messages : s.session.messages = messages
  pending : s.session.bufferIn.Pending got
  dataExp : s.miopIn.dataExp = left
  initialDataExp : s.miopIn.initialDataExp = got.length + left
  initialRemain : s.miopIn.initialRemain = 0
  fragment : s.miopIn.fragment = true
  uniqueId : s.miopIn.oldHeader.uniqueId = uniqueId
  packetTotal : s.miopIn.oldHeader.packetTotal = total
  packetNumber : s.miopIn.oldHeader.packetNumber = number

/-- The stack while it handles a packet whose payload is `xs` and what it has read. -/
structure Between (host : Endianness) (state : MiopState) (xs : List UInt8) (s : Stack) : Prop where
  error : s.error = none
  state : s.miopIn.state = state
  miopBuf : s.miopIn.miopBuf = Buffer.new host
  fragmenter : s.fragmenter.Holds host xs
  monitored : s.monitored = false

theorem Between.wait (host : Endianness) (bodySize : List UInt8 → Except Exn Nat) (fuel : Nat)
    (h : Between host .waitMiopHeader [] s) :
    ∃ s', dispatch host bodySize (fuel + 1) (.dataExpected .miop miopHeaderSize) s = .ok () s' ∧
      Listening host s' ∧ s'.session = s.session ∧ s'.miopIn = s.miopIn := by
  have hwait : handleDataExpected host .miop miopHeaderSize s = _ :=
    handleDataExpected_wait h.fragmenter (by decide)
  exact ⟨_, dispatch_done (m := .dataExpected _ _) hwait, ⟨rfl, h.error, h.state, h.miopBuf, rfl⟩,
    rfl, rfl⟩

variable {messages : List (List UInt8)}

theorem Between.nextMessage (bodySize : List UInt8 → Except Exn Nat) (fuel : Nat) (h : Between host .waitGiopAsk [] s)
    (hfragment : s.miopIn.fragment = false)
    (hsession : s.session = ⟨Buffer.new host, none, messages⟩) :
    ∃ s', dispatch host bodySize (fuel + 2) (.giopDataExpected giopHeaderSize true) s = .ok () s' ∧
      Fresh host messages s' := by
  have hask : handle host bodySize (.giopDataExpected giopHeaderSize true) s =
      .ok (some (.dataExpected .miop miopHeaderSize)) { s with miopIn :=
        { s.miopIn with
          dataExp := giopHeaderSize
          initialDataExp := giopHeaderSize
          initialRemain := s.session.bufferIn.remaining
          state := .waitMiopHeader } } := by
    rw [handle, handleGiopDataExpected, Program.bind_ok (Program.modify_apply ..), Program.bind_get]
    rw [h.state]
    rfl
  obtain ⟨s', hd, hl, hs, hm⟩ := Between.wait host bodySize fuel (s := { s with
    miopIn := { s.miopIn with
      dataExp := giopHeaderSize
      initialDataExp := giopHeaderSize
      initialRemain := s.session.bufferIn.remaining
      state := .waitMiopHeader } }) ⟨h.error, rfl, h.miopBuf, h.fragmenter, h.monitored⟩
  refine ⟨s', by rw [dispatch_next hask, hd], ⟨hl, hs.trans hsession, ?_, ?_, ?_, ?_⟩⟩
  · rw [hm]
  · rw [hm]
  · rw [hm]
    show s.session.bufferIn.remaining = 0
    rw [hsession]
    rfl
  · rw [hm]
    exact hfragment

theorem Between.body (bodySize : List UInt8 → Except Exn Nat) (fuel : Nat) (header body : List UInt8)
    (h : Between host .waitGiopAsk [] s)
    (hfragment : s.miopIn.fragment = false) (hheader : s.session.header = some header)
    (hbody : s.session.bufferIn.Pending body) :
    ∃ s', dispatch host bodySize (fuel + 3) .giopDataIndication s = .ok () s' ∧
      Fresh host (s.session.messages ++ [header ++ body]) s' := by
  have hread : onSession (unmarshallOctets host s.session.bufferIn.remaining) s = .ok body
      { s with session := { s.session with bufferIn := s.session.bufferIn.advance body.length } } := by
    rw [hbody.remaining_eq]
    rw [← List.append_nil body] at hbody
    exact Program.zoom_ok (unmarshallOctets_pending host hbody)
  have hprocess : handle host bodySize .giopDataIndication s =
      .ok (some (.giopDataExpected giopHeaderSize true)) { s with session :=
        ⟨Buffer.new host, none, s.session.messages ++ [header ++ body]⟩ } := by
    rw [handle, handleGiopDataIndication, Program.bind_get, hheader]
    dsimp only
    rw [Program.bind_ok hread]
    rfl
  rw [dispatch_next hprocess]
  exact Between.nextMessage bodySize fuel ⟨h.error, h.state, h.miopBuf, h.fragmenter, h.monitored⟩ hfragment rfl

theorem handle_header (host : Endianness) {header : List UInt8} {n : Nat}
    (hsession : s.session.header = none)
    (hmessages : s.session.messages = messages) (hheader : s.session.bufferIn.Pending header)
    (hlength : header.length = giopHeaderSize) (hsize : bodySize header = .ok n) :
    handle host bodySize .giopDataIndication s =
      if n = 0 then .ok (some (.giopDataExpected giopHeaderSize true)) { s with session :=
        ⟨Buffer.new host, none, messages ++ [header]⟩ }
      else .ok (some (.giopDataExpected n false)) { s with session :=
        ⟨s.session.bufferIn.advance header.length, some header, messages⟩ } := by
  have hread : onSession (unmarshallOctets host giopHeaderSize) s = .ok header
      { s with session :=
        { s.session with bufferIn := s.session.bufferIn.advance header.length } } := by
    rw [← hlength]
    rw [← List.append_nil header] at hheader
    exact Program.zoom_ok (unmarshallOctets_pending host hheader)
  rw [handle, handleGiopDataIndication, Program.bind_get, hsession]
  dsimp only
  rw [Program.bind_ok hread, hsize, Program.bind_evaluate rfl]
  split_ifs
  · rw [← hmessages]
    rfl
  · rw [← hmessages]
    rfl

theorem Between.askBody (bodySize : List UInt8 → Except Exn Nat) {more : List UInt8} {n : Nat} (h : Between host .waitGiopAsk more s)
    (hpayload : s.miopIn.payload = more.length)
    (hfits : more.length < n → s.miopIn.header.collectMode = true) :
    handle host bodySize (.giopDataExpected n false) s =
      .ok (some (.dataExpected .giop (min more.length n))) { s with miopIn :=
        { s.miopIn with
          dataExp := n
          initialDataExp := n
          initialRemain := s.session.bufferIn.remaining
          state := .waitGiopData } } := by
  rw [handle, handleGiopDataExpected, Program.bind_ok (Program.modify_apply ..), Program.bind_get]
  rw [h.state, if_neg Bool.false_ne_true]
  dsimp only
  rw [Program.bind_ok (Program.set_apply ..), hpayload]
  by_cases hlt : more.length < n
  · rw [if_pos hlt, Program.bind_raiseIf (by rw [hfits hlt]; exact Bool.noConfusion),
      Nat.min_eq_left (le_of_lt hlt)]
    rfl
  · rw [if_neg hlt, Nat.min_eq_right (Nat.not_lt.mp hlt)]
    rfl

theorem Between.fill (bodySize : List UInt8 → Except Exn Nat) (fuel : Nat)
    (h : Between host .waitGiopData (xs ++ ys) s) (hxs : xs ≠ [])
    (hpending : s.session.bufferIn.Pending zs) :
    ∃ s', dispatch host bodySize (fuel + 1) (.dataExpected .giop xs.length) s =
        dispatch host bodySize fuel .dataIndication s' ∧
      Between host .waitGiopData ys s' ∧ s'.miopIn = s.miopIn ∧
      s'.session = { s.session with bufferIn := s'.session.bufferIn } ∧
      s'.session.bufferIn.Pending (zs ++ xs) := by
  obtain ⟨s', hd, hf⟩ := handleDataExpected_ok (t := .giop) h.fragmenter hxs
  have hmiop : s'.miopIn = s.miopIn := hf.miopIn
  have hsession : s'.session = { s.session with bufferIn := s.session.bufferIn.append xs } :=
    hf.session
  refine ⟨s', dispatch_next (m := .dataExpected _ _) hd, ⟨?_, ?_, ?_, hf.fragmenter, ?_⟩, hmiop, ?_, ?_⟩
  · rw [hf.error, h.error]
  · rw [hmiop, h.state]
  · rw [hmiop, h.miopBuf]
  · rw [hf.monitored, h.monitored]
  · rw [hsession]
  · rw [hsession]
    exact hpending.append xs

theorem handleGiopData_complete (hfragment : s.miopIn.fragment = false)
    (hreceived : s.session.bufferIn.remaining - s.miopIn.initialRemain = s.miopIn.initialDataExp)
    (hexp : s.miopIn.dataExp < unsignedShortModulus) :
    handleGiopData s = .ok (some .giopDataIndication) { s with miopIn :=
      { s.miopIn with
        payload := subUnsignedShort s.miopIn.payload s.miopIn.dataExp
        state := .waitGiopAsk } } := by
  rw [handleGiopData, Program.bind_get]
  rw [if_pos ⟨hfragment, hreceived.symm⟩, Program.bind_evaluate (toUnsignedShort_ok hexp)]
  rfl

theorem handleGiopData_last (hfragment : s.miopIn.fragment = true)
    (hlast : (s.miopIn.header.packetNumber + 1) % unsignedLongModulus = s.miopIn.header.packetTotal) :
    handleGiopData s = .ok (some .giopDataIndication) { s with miopIn :=
      { s.miopIn with fragment := false, state := .waitGiopAsk } } := by
  rw [handleGiopData, Program.bind_get]
  rw [if_neg (by rw [hfragment]; exact fun h => Bool.noConfusion h.1), if_pos ⟨hfragment, hlast⟩]
  rfl

theorem handleGiopData_more
    (hmore : s.miopIn.fragment = false ∧
        s.session.bufferIn.remaining - s.miopIn.initialRemain ≠ s.miopIn.initialDataExp ∨
      s.miopIn.fragment = true ∧
        (s.miopIn.header.packetNumber + 1) % unsignedLongModulus ≠ s.miopIn.header.packetTotal)
    (hcollect : s.miopIn.header.collectMode = true)
    (hreceived : s.session.bufferIn.remaining - s.miopIn.initialRemain ≤ s.miopIn.initialDataExp)
    (hpayload : s.miopIn.payload ≤ s.miopIn.dataExp) :
    handleGiopData s = .ok (some (.dataExpected .miop miopHeaderSize)) { s with miopIn :=
      { s.miopIn with
        dataExp := s.miopIn.dataExp - s.miopIn.payload
        fragment := true
        oldHeader := s.miopIn.header
        state := .waitMiopHeader } } := by
  rw [handleGiopData, Program.bind_get]
  rw [if_neg, if_neg, Program.bind_raiseIf (by rw [hcollect]; exact Bool.noConfusion),
    Program.bind_raiseIf (Nat.not_lt.mpr hreceived), Program.bind_raiseIf (Nat.not_lt.mpr hpayload)]
  · rfl
  · rintro ⟨hf, hn⟩
    rcases hmore with ⟨hf', -⟩ | ⟨-, hn'⟩
    · rw [hf] at hf'
      cases hf'
    · exact hn' hn
  · rintro ⟨hf, hn⟩
    rcases hmore with ⟨-, hn'⟩ | ⟨hf', -⟩
    · exact hn' hn.symm
    · rw [hf] at hf'
      cases hf'

/-- The stack has the header of a message, which is at the beginning of the packet `p`. -/
structure AtHeader (host order : Endianness) (p : Packet) (header more : List UInt8)
    (messages : List (List UInt8)) (s : Stack) : Prop where
  between : Between host .waitGiopAsk more s
  noHeader : s.session.header = none
  messages : s.session.messages = messages
  pending : s.session.bufferIn.Pending header
  payload : s.miopIn.payload = more.length
  miopHeader : s.miopIn.header = { p.header order with uniqueIdSize := p.uniqueId.length + 1 }
  fragment : s.miopIn.fragment = false

theorem Fresh.receive_header (bodySize : List UInt8 → Except Exn Nat) (order : Endianness) {header more : List UInt8}
    (h : Fresh host messages s) (hv : p.Valid) (hp : p.payload = header ++ more)
    (hlength : header.length = giopHeaderSize) :
    ∃ s' k, AtHeader host order p header more messages s' ∧
      receiveDatagram host bodySize s (p.encode order) =
        finish (dispatch host bodySize (k + 9) .giopDataIndication s') := by
  obtain ⟨s₁, k, hr, hreceive⟩ := receiveDatagram_header bodySize order h.listening hv
  have hstate : s₁.miopIn.state = .waitUniqueId := by
    obtain ⟨b, -, hm⟩ := hr.miopIn
    rw [hm]
    rfl
  have hxs : header ≠ [] := fun he => by
    rw [he] at hlength
    cases hlength
  -- the unique id
  have hid := handleUniqueId_eq hv hr
  rw [if_neg (by rw [h.fragment]; exact Bool.noConfusion), h.dataExp, ← hlength] at hid
  have hbetween : Between host .waitGiopData (header ++ more)
      { s₁ with miopIn := s.miopIn.withId host order p } :=
    ⟨hr.error, rfl, rfl, hp ▸ hr.fragmenter, hr.monitored⟩
  -- the header of the message
  have hsession : s₁.session = ⟨Buffer.new host, none, messages⟩ := hr.session.trans h.session
  obtain ⟨s₃, hd₃, hb₃, hm₃, hs₃, hp₃⟩ := hbetween.fill bodySize (k + 10) hxs (by
    rw [hsession]
    exact Pending.new host)
  have hremaining : s₃.session.bufferIn.remaining = giopHeaderSize := by
    rw [hp₃.remaining_eq, List.nil_append, hlength]
  have hcomplete := handleGiopData_complete (s := s₃) (by rw [hm₃]; exact h.fragment) (by
      rw [hremaining, hm₃]
      show giopHeaderSize - s.miopIn.initialRemain = s.miopIn.initialDataExp
      rw [h.initialRemain, h.initialDataExp]
      rfl) (by
      rw [hm₃]
      show s.miopIn.dataExp < _
      rw [h.dataExp]
      decide)
  have hchain : receiveDatagram host bodySize s (p.encode order) =
      finish (dispatch host bodySize (k + 9) .giopDataIndication { s₃ with miopIn :=
        { s₃.miopIn with
          payload := subUnsignedShort s₃.miopIn.payload s₃.miopIn.dataExp
          state := .waitGiopAsk } }) := by
    rw [hreceive, dispatch_next ((handle_waitUniqueId hstate).trans hid), hd₃,
      dispatch_next ((handle_waitGiopData hb₃.state).trans hcomplete)]
  have hsize := hv.size
  have hmore : subUnsignedShort p.payload.length giopHeaderSize = more.length := by
    have hle : p.payload.length ≤ p.size := Nat.le_add_left ..
    rw [subUnsignedShort_eq (by rw [hp, List.length_append]; omega) (by omega), hp,
      List.length_append, hlength, Nat.add_sub_cancel_left]
  refine ⟨{ s₃ with miopIn := { s₃.miopIn with
      payload := subUnsignedShort s₃.miopIn.payload s₃.miopIn.dataExp
      state := .waitGiopAsk } }, k,
    ⟨⟨hb₃.error, rfl, ?_, hb₃.fragmenter, hb₃.monitored⟩, ?_, ?_, ?_, ?_, ?_, ?_⟩, hchain⟩
  · exact hb₃.miopBuf
  · show s₃.session.header = none
    rw [hs₃, hsession]
  · show s₃.session.messages = messages
    rw [hs₃, hsession]
  · exact hp₃
  · show subUnsignedShort s₃.miopIn.payload s₃.miopIn.dataExp = more.length
    rw [hm₃]
    show subUnsignedShort p.payload.length s.miopIn.dataExp = more.length
    rw [h.dataExp, hmore]
  · show s₃.miopIn.header = _
    rw [hm₃]
    rfl
  · show s₃.miopIn.fragment = false
    rw [hm₃]
    exact h.fragment

section Whole

variable (bodySize)
variable {header more got : List UInt8} {messages : List (List UInt8)} {n : Nat}

theorem AtHeader.askBody (ha : AtHeader host order p header more messages s)
    (hlength : header.length = giopHeaderSize) (hsize : bodySize header = .ok n) (hn : n ≠ 0)
    (hfits : more.length < n → p.collectMode = true) (fuel : Nat) :
    ∃ s', dispatch host bodySize (fuel + 2) .giopDataIndication s =
        dispatch host bodySize fuel (.dataExpected .giop (min more.length n)) s' ∧
      Between host .waitGiopData more s' ∧ s'.session.header = some header ∧
      s'.session.messages = messages ∧ s'.session.bufferIn.Pending [] ∧
      s'.miopIn = { s.miopIn with
        dataExp := n
        initialDataExp := n
        initialRemain := 0
        state := .waitGiopData } := by
  have hheader := handle_header host ha.noHeader ha.messages ha.pending hlength hsize
  rw [if_neg hn] at hheader
  have hadvance : (s.session.bufferIn.advance header.length).Pending [] := by
    have hpending := ha.pending
    rw [← List.append_nil header] at hpending
    exact hpending.advance
  have hb : Between host .waitGiopAsk more { s with session :=
      ⟨s.session.bufferIn.advance header.length, some header, messages⟩ } :=
    ⟨ha.between.error, ha.between.state, ha.between.miopBuf, ha.between.fragmenter, ha.between.monitored⟩
  have hask := hb.askBody bodySize (n := n) ha.payload (by
    rw [show s.miopIn.header = _ from ha.miopHeader]
    exact hfits)
  rw [dispatch_next hheader, dispatch_next hask]
  refine ⟨_, rfl, ⟨ha.between.error, rfl, ha.between.miopBuf, ha.between.fragmenter, ha.between.monitored⟩, rfl, rfl,
    hadvance, ?_⟩
  have hremaining : (s.session.bufferIn.advance header.length).remaining = 0 := hadvance.remaining_eq
  rw [hremaining]

theorem Between.goOn (h : Between host .waitGiopData [] s)
    (hmore : s.miopIn.fragment = false ∧
        s.session.bufferIn.remaining - s.miopIn.initialRemain ≠ s.miopIn.initialDataExp ∨
      s.miopIn.fragment = true ∧
        (s.miopIn.header.packetNumber + 1) % unsignedLongModulus ≠ s.miopIn.header.packetTotal)
    (hmiop : s.miopIn.header = { p.header order with uniqueIdSize := p.uniqueId.length + 1 })
    (hcollect : p.collectMode = true) (hheader : s.session.header = some header)
    (hmessages : s.session.messages = messages) (hgot : s.session.bufferIn.Pending got)
    (hremain : s.miopIn.initialRemain = 0) (hpayload : s.miopIn.payload ≤ s.miopIn.dataExp)
    (hinitial : s.miopIn.initialDataExp = got.length + (s.miopIn.dataExp - s.miopIn.payload))
    (fuel : Nat) :
    ∃ s', dispatch host bodySize (fuel + 2) .dataIndication s = .ok () s' ∧
      Amid host p.uniqueId p.packetTotal p.packetNumber header got
        (s.miopIn.dataExp - s.miopIn.payload) messages s' := by
  have hgo := handleGiopData_more hmore (by rw [hmiop]; exact hcollect) (by
    rw [hgot.remaining_eq, hinitial]
    omega) hpayload
  obtain ⟨s', hd, hl, hs, hm⟩ := Between.wait host bodySize fuel (s := { s with miopIn :=
    { s.miopIn with
      dataExp := s.miopIn.dataExp - s.miopIn.payload
      fragment := true
      oldHeader := s.miopIn.header
      state := .waitMiopHeader } }) ⟨h.error, rfl, h.miopBuf, h.fragmenter, h.monitored⟩
  have hs' : s'.session = s.session := hs
  refine ⟨s', ?_, ⟨hl, ?_, ?_, ?_, ?_, ?_, ?_, ?_, ?_, ?_, ?_⟩⟩
  · rw [dispatch_next ((handle_waitGiopData h.state).trans hgo), hd]
  · rw [hs', hheader]
  · rw [hs', hmessages]
  · rw [hs']
    exact hgot
  · rw [hm]
  · rw [hm]
    exact hinitial
  · rw [hm]
    exact hremain
  · rw [hm]
  · rw [hm]
    show s.miopIn.header.uniqueId = _
    rw [hmiop]
    rfl
  · rw [hm]
    show s.miopIn.header.packetTotal = _
    rw [hmiop]
    rfl
  · rw [hm]
    show s.miopIn.header.packetNumber = _
    rw [hmiop]
    rfl

variable (order)

theorem Fresh.receive_noBody (h : Fresh host messages s) (hv : p.Valid) (hp : p.payload = header)
    (hlength : header.length = giopHeaderSize) (hsize : bodySize header = .ok 0) :
    Fresh host (messages ++ [header]) (receiveDatagram host bodySize s (p.encode order)) := by
  rw [← List.append_nil header] at hp
  obtain ⟨s₁, k, ha, hreceive⟩ := h.receive_header bodySize order hv hp hlength
  have hheader := handle_header host ha.noHeader ha.messages ha.pending hlength hsize
  obtain ⟨s₂, hd, hf⟩ := Between.nextMessage bodySize (k + 6) (s := { s₁ with session :=
    ⟨Buffer.new host, none, messages ++ [header]⟩ })
    ⟨ha.between.error, ha.between.state, ha.between.miopBuf, ha.between.fragmenter, ha.between.monitored⟩ ha.fragment rfl
  rw [hreceive, dispatch_next hheader, hd]
  exact hf

theorem Fresh.receive_single (h : Fresh host messages s) (hv : p.Valid)
    (hp : p.payload = header ++ more) (hlength : header.length = giopHeaderSize)
    (hsize : bodySize header = .ok more.length) (hmore : more ≠ []) :
    Fresh host (messages ++ [header ++ more]) (receiveDatagram host bodySize s (p.encode order)) := by
  have hn : more.length ≠ 0 := fun h => hmore (List.eq_nil_of_length_eq_zero h)
  have hshort : more.length < unsignedShortModulus := by
    have hle : p.payload.length ≤ p.size := Nat.le_add_left ..
    have hlt := hv.size
    rw [hp, List.length_append] at hle
    omega
  obtain ⟨s₁, k, ha, hreceive⟩ := h.receive_header bodySize order hv hp hlength
  obtain ⟨s₂, hd₂, hb₂, hh₂, hms₂, hp₂, hm₂⟩ := ha.askBody bodySize hlength hsize hn
    (fun hlt => absurd hlt (lt_irrefl _)) (k + 7)
  rw [Nat.min_self] at hd₂
  rw [← List.append_nil more] at hb₂
  obtain ⟨s₃, hd₃, hb₃, hm₃, hs₃, hp₃⟩ := hb₂.fill bodySize (k + 6) hmore hp₂
  have hfragment : s₃.miopIn.fragment = false := by
    rw [hm₃, hm₂]
    exact ha.fragment
  have hcomplete := handleGiopData_complete hfragment (by
      rw [hp₃.remaining_eq, hm₃, hm₂]
      rfl) (by
      rw [hm₃, hm₂]
      exact hshort)
  obtain ⟨s₄, hd₄, hf₄⟩ := Between.body bodySize (k + 2) header more (s := { s₃ with miopIn := { s₃.miopIn with
      payload := subUnsignedShort s₃.miopIn.payload s₃.miopIn.dataExp
      state := .waitGiopAsk } })
    ⟨hb₃.error, rfl, hb₃.miopBuf, hb₃.fragmenter, hb₃.monitored⟩ hfragment (by
      show s₃.session.header = _
      rw [hs₃]
      exact hh₂) hp₃
  have hmessages : s₃.session.messages = messages := by
    rw [hs₃]
    exact hms₂
  rw [hreceive, hd₂, hd₃, dispatch_next ((handle_waitGiopData hb₃.state).trans hcomplete), hd₄,
    ← hmessages]
  exact hf₄

theorem Fresh.receive_first (h : Fresh host messages s) (hv : p.Valid)
    (hp : p.payload = header ++ more) (hlength : header.length = giopHeaderSize)
    (hsize : bodySize header = .ok n) (hmore : more.length < n) (hcollect : p.collectMode = true) :
    Amid host p.uniqueId p.packetTotal p.packetNumber header more (n - more.length) messages
      (receiveDatagram host bodySize s (p.encode order)) := by
  have hn : n ≠ 0 := Nat.ne_of_gt (Nat.zero_lt_of_lt hmore)
  obtain ⟨s₁, k, ha, hreceive⟩ := h.receive_header bodySize order hv hp hlength
  obtain ⟨s₂, hd₂, hb₂, hh₂, hms₂, hp₂, hm₂⟩ := ha.askBody bodySize hlength hsize hn
    (fun _ => hcollect) (k + 7)
  rw [Nat.min_eq_left (le_of_lt hmore)] at hd₂
  -- the rest of the packet, in which nothing may be left
  obtain ⟨s₃, hd₃, hb₃, hm₃, hs₃, hp₃⟩ : ∃ s₃,
      dispatch host bodySize (k + 7) (.dataExpected .giop more.length) s₂ =
        dispatch host bodySize (k + 6) .dataIndication s₃ ∧
      Between host .waitGiopData [] s₃ ∧ s₃.miopIn = s₂.miopIn ∧
      s₃.session = { s₂.session with bufferIn := s₃.session.bufferIn } ∧
      s₃.session.bufferIn.Pending more := by
    by_cases hnil : more = []
    · subst hnil
      exact ⟨s₂, dispatch_next rfl, hb₂, rfl, rfl, hp₂⟩
    · rw [← List.append_nil more] at hb₂
      exact hb₂.fill bodySize (k + 6) hnil hp₂
  have hheader : s₃.miopIn.header = { p.header order with uniqueIdSize := p.uniqueId.length + 1 } := by
    rw [hm₃, hm₂]
    exact ha.miopHeader
  have hpayload : s₃.miopIn.payload = more.length := by
    rw [hm₃, hm₂]
    exact ha.payload
  have hexp : s₃.miopIn.dataExp = n ∧ s₃.miopIn.initialDataExp = n ∧ s₃.miopIn.initialRemain = 0 := by
    rw [hm₃, hm₂]
    exact ⟨rfl, rfl, rfl⟩
  have hms₃ : s₃.session.messages = messages := by
    rw [hs₃]
    exact hms₂
  obtain ⟨s₄, hd₄, hamid⟩ := hb₃.goOn bodySize (.inl ⟨by rw [hm₃, hm₂]; exact ha.fragment, by
      rw [hp₃.remaining_eq, hexp.2.2, hexp.2.1]
      omega⟩) hheader hcollect (by rw [hs₃]; exact hh₂) hms₃ hp₃ hexp.2.2 (by
      omega) (by
      omega) (k + 4)
  rw [hexp.1, hpayload] at hamid
  rw [hreceive, hd₂, hd₃, hd₄]
  exact hamid

variable {total number left : Nat} {uniqueId : List UInt8}

theorem Amid.receive (h : Amid host uniqueId total number header got left messages s) (hv : p.Valid)
    (hc : Continues p s.miopIn.oldHeader)
    (hlast : (p.packetNumber + 1) % unsignedLongModulus = p.packetTotal → p.payload.length = left) :
    ∃ s' k, receiveDatagram host bodySize s (p.encode order) =
        finish (dispatch host bodySize (k + 10) .dataIndication s') ∧
      Between host .waitGiopData [] s' ∧ s'.miopIn = s.miopIn.withId host order p ∧
      s'.session = { s.session with bufferIn := s'.session.bufferIn } ∧
      s'.session.bufferIn.Pending (got ++ p.payload) := by
  obtain ⟨s₁, k, hr, hreceive⟩ := receiveDatagram_header bodySize order h.listening hv
  have hstate : s₁.miopIn.state = .waitUniqueId := by
    obtain ⟨b, -, hm⟩ := hr.miopIn
    rw [hm]
    rfl
  have hid := handleUniqueId_eq hv hr
  rw [if_pos h.fragment, Program.bind_raiseIf (not_not.mpr hc), Program.bind_raiseIf (by
    rintro ⟨hl, hne⟩
    exact hne (by rw [hlast hl, h.dataExp]))] at hid
  have hbetween : Between host .waitGiopData (p.payload ++ [])
      { s₁ with miopIn := s.miopIn.withId host order p } :=
    ⟨hr.error, rfl, rfl, by rw [List.append_nil]; exact hr.fragmenter, hr.monitored⟩
  obtain ⟨s₃, hd₃, hb₃, hm₃, hs₃, hp₃⟩ := hbetween.fill bodySize (k + 10) hv.payload (by
    rw [show s₁.session = s.session from hr.session]
    exact h.pending)
  refine ⟨s₃, k, ?_, hb₃, hm₃, ?_, hp₃⟩
  · rw [hreceive, dispatch_next ((handle_waitUniqueId hstate).trans hid), hd₃]
  · rw [hs₃, ← hr.session]

theorem Amid.receive_last
    (h : Amid host uniqueId total number header got left messages s) (hv : p.Valid)
    (hc : Continues p s.miopIn.oldHeader)
    (hlast : (p.packetNumber + 1) % unsignedLongModulus = p.packetTotal)
    (hleft : p.payload.length = left) :
    Fresh host (messages ++ [header ++ (got ++ p.payload)])
      (receiveDatagram host bodySize s (p.encode order)) := by
  obtain ⟨s₃, k, hreceive, hb₃, hm₃, hs₃, hp₃⟩ := h.receive order bodySize hv hc fun _ => hleft
  have hgo := handleGiopData_last (s := s₃) (by rw [hm₃]; exact h.fragment) (by
    rw [hm₃]
    exact hlast)
  obtain ⟨s₄, hd₄, hf₄⟩ := Between.body bodySize (k + 6) header (got ++ p.payload) (s := { s₃ with
      miopIn := { s₃.miopIn with fragment := false, state := .waitGiopAsk } })
    ⟨hb₃.error, rfl, hb₃.miopBuf, hb₃.fragmenter, hb₃.monitored⟩ rfl (by
      show s₃.session.header = _
      rw [hs₃]
      exact h.header) hp₃
  have hmessages : s₃.session.messages = messages := by
    rw [hs₃]
    exact h.messages
  rw [hreceive, dispatch_next ((handle_waitGiopData hb₃.state).trans hgo), hd₄, ← hmessages]
  exact hf₄

theorem Amid.receive_more
    (h : Amid host uniqueId total number header got left messages s) (hv : p.Valid)
    (hc : Continues p s.miopIn.oldHeader)
    (hlast : (p.packetNumber + 1) % unsignedLongModulus ≠ p.packetTotal)
    (hleft : p.payload.length ≤ left) :
    Amid host p.uniqueId p.packetTotal p.packetNumber header (got ++ p.payload)
      (left - p.payload.length) messages (receiveDatagram host bodySize s (p.encode order)) := by
  obtain ⟨s₃, k, hreceive, hb₃, hm₃, hs₃, hp₃⟩ := h.receive order bodySize hv hc fun hl =>
    absurd hl hlast
  have hinitial : s₃.miopIn.initialDataExp = got.length + left := by
    rw [hm₃]
    exact h.initialDataExp
  have hremain : s₃.miopIn.initialRemain = 0 := by
    rw [hm₃]
    exact h.initialRemain
  have hexp : s₃.miopIn.dataExp = left := by
    rw [hm₃]
    exact h.dataExp
  have hpayload : s₃.miopIn.payload = p.payload.length := by
    rw [hm₃]
    rfl
  have hms₃ : s₃.session.messages = messages := by
    rw [hs₃]
    exact h.messages
  obtain ⟨s₄, hd₄, hamid⟩ := hb₃.goOn bodySize (.inr ⟨by rw [hm₃]; exact h.fragment, by
      rw [hm₃]
      exact hlast⟩) (by rw [hm₃]; rfl) hc.1 (by rw [hs₃]; exact h.header)
    hms₃ hp₃ hremain (by rw [hpayload, hexp]; exact hleft) (by
      rw [hinitial, hpayload, hexp, List.length_append]
      omega) (k + 8)
  rw [hexp, hpayload] at hamid
  rw [hreceive, hd₄]
  exact hamid

/-! ## Packets that are out of place -/

/-- An exception has been raised, and no datagram is waited for any more. -/
structure Failed (messages : List (List UInt8)) (s : Stack) : Prop where
  monitored : s.monitored = false
  error : s.error ≠ none
  messages : s.session.messages = messages

theorem Failed.receive (h : Failed messages s) (datagram : List UInt8) :
    receiveDatagram host bodySize s datagram = s :=
  if_neg (by rw [h.monitored]; exact Bool.noConfusion)

theorem Amid.receive_wrong
    (h : Amid host uniqueId total number header got left messages s) (hv : p.Valid)
    (hc : ¬Continues p s.miopIn.oldHeader) :
    Failed messages (receiveDatagram host bodySize s (p.encode order)) := by
  obtain ⟨s₁, k, hr, hreceive⟩ := receiveDatagram_header bodySize order h.listening hv
  have hstate : s₁.miopIn.state = .waitUniqueId := by
    obtain ⟨b, -, hm⟩ := hr.miopIn
    rw [hm]
    rfl
  have hid := handleUniqueId_eq hv hr
  rw [if_pos h.fragment, Program.bind_error (Program.raiseIf_true hc _ _)] at hid
  rw [hreceive, dispatch_error ((handle_waitUniqueId hstate).trans hid)]
  exact ⟨hr.monitored, Option.some_ne_none _, by
    show s₁.session.messages = messages
    rw [hr.session, h.messages]⟩

theorem Fresh.receive_short (h : Fresh host messages s) (hv : p.Valid)
    (hshort : p.payload.length < giopHeaderSize) :
    Failed messages (receiveDatagram host bodySize s (p.encode order)) := by
  obtain ⟨s₁, k, hr, hreceive⟩ := receiveDatagram_header bodySize order h.listening hv
  have hstate : s₁.miopIn.state = .waitUniqueId := by
    obtain ⟨b, -, hm⟩ := hr.miopIn
    rw [hm]
    rfl
  have hid := handleUniqueId_eq hv hr
  rw [if_neg (by rw [h.fragment]; exact Bool.noConfusion), h.dataExp] at hid
  have hfail : ∃ t, handleDataExpected host .giop giopHeaderSize
      { s₁ with miopIn := s.miopIn.withId host order p } = .error .constraintError t ∧
      t.monitored = false ∧ t.session.messages = messages := by
    obtain ⟨t, ht, hmonitored, hmessages⟩ := processData_short host (t := .giop)
      (s := { s₁ with
        miopIn := s.miopIn.withId host order p
        fragmenter := ⟨some .giop, s₁.fragmenter.socketBuf, giopHeaderSize, giopHeaderSize⟩ })
      rfl rfl hr.fragmenter.pending hv.payload hshort
    refine ⟨t, ?_, hmonitored.trans hr.monitored, hmessages.trans ?_⟩
    · rw [handleDataExpected, if_neg (by decide), Program.bind_get, Program.bind_raiseIf (not_not.mpr
        ⟨hr.fragmenter.dataExpected, hr.fragmenter.inBuf⟩), Program.bind_ok (Program.set_apply ..),
        ht]
    · show s₁.session.messages = messages
      rw [hr.session, h.session]
  obtain ⟨t, ht, hmonitored, hmessages⟩ := hfail
  rw [hreceive, dispatch_next ((handle_waitUniqueId hstate).trans hid),
    dispatch_error (m := .dataExpected _ _) ht]
  exact ⟨hmonitored, Option.some_ne_none _, hmessages⟩

theorem Fresh.receive_refused {e : Exn} (h : Fresh host messages s) (hv : p.Valid)
    (hp : p.payload = header ++ more) (hlength : header.length = giopHeaderSize)
    (hsize : bodySize header = .error e) :
    Failed messages (receiveDatagram host bodySize s (p.encode order)) := by
  obtain ⟨s₁, k, ha, hreceive⟩ := h.receive_header bodySize order hv hp hlength
  have hread : onSession (unmarshallOctets host giopHeaderSize) s₁ = .ok header
      { s₁ with session :=
        { s₁.session with bufferIn := s₁.session.bufferIn.advance header.length } } := by
    have hpending := ha.pending
    rw [← List.append_nil header] at hpending
    rw [← hlength]
    exact Program.zoom_ok (unmarshallOctets_pending host hpending)
  have hraise : handle host bodySize .giopDataIndication s₁ = .error e
      { s₁ with session :=
        { s₁.session with bufferIn := s₁.session.bufferIn.advance header.length } } := by
    rw [handle, handleGiopDataIndication, Program.bind_get, ha.noHeader]
    dsimp only
    rw [Program.bind_ok hread, hsize, Program.bind_error (Program.evaluate_error ..)]
  rw [hreceive, dispatch_error hraise]
  exact ⟨ha.between.monitored, Option.some_ne_none _, ha.messages⟩

end Whole

end Chain

end Miop

end PolyORB
