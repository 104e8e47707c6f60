import PolyORB.Giop.IorRoundTrip
import PolyORB.Giop.PendingRequests

/-!
# LocateReply messages

What the server writes about the object that a LocateRequest is for, and what the client makes of it.
-/

namespace PolyORB

open Buffer
open Program (raiseIf evaluate onlyIf)

namespace LocateReplyType

def pos : LocateReplyType → Nat
  | unknownObject => 0
  | objectHere => 1
  | objectForward => 2
  | objectForwardPerm => 3
  | locSystemException => 4
  | locNeedsAddressingMode => 5

def val : Nat → Except Exn LocateReplyType
  | 0 => .ok unknownObject
  | 1 => .ok objectHere
  | 2 => .ok objectForward
  | 3 => .ok objectForwardPerm
  | 4 => .ok locSystemException
  | 5 => .ok locNeedsAddressingMode
  | _ => .error .constraintError

theorem val_pos (t : LocateReplyType) : val t.pos = .ok t := by
  cases t <;> rfl

theorem pos_lt (t : LocateReplyType) : t.pos < 6 := by
  cases t <;> decide

end LocateReplyType

inductive LocateResult (P : Type) where
  | unknownObject
  | objectHere
  | objectForward (ref : Ref P)
  | objectForwardPerm (ref : Ref P)
  deriving DecidableEq

namespace LocateResult

variable {P : Type}

def locType : LocateResult P → LocateReplyType
  | unknownObject => .unknownObject
  | objectHere => .objectHere
  | objectForward _ => .objectForward
  | objectForwardPerm _ => .objectForwardPerm

def reference? : LocateResult P → Option (Ref P)
  | unknownObject | objectHere => none
  | objectForward ref | objectForwardPerm ref => some ref

end LocateResult

inductive BindError (P : Type) where
  | forwardRequest (ref : Ref P)
  | forwardRequestPerm (ref : Ref P)
  | other (error : SysError)

/-- `Result` and `Target` of `Process_Locate_Request`, after `Bind`. -/
def locateResult {P : Type} (target : Ref P) : Option (BindError P) → LocateReplyType × Ref P
  | some (.forwardRequest ref) => (.objectForward, ref)
  | some (.forwardRequestPerm ref) => (.objectForwardPerm, ref)
  | some (.other _) => (.unknownObject, target)
  | none => (.objectHere, target)

/-- What `Bind` has found out about the object. -/
def located {P : Type} : Option (BindError P) → LocateResult P
  | some (.forwardRequest ref) => .objectForward ref
  | some (.forwardRequestPerm ref) => .objectForwardPerm ref
  | some (.other _) => .unknownObject
  | none => .objectHere

theorem locateResult_fst {P : Type} (target : Ref P) (error : Option (BindError P)) :
    (locateResult target error).1 = (located error).locType := by
  rcases error with _ | _ | _ | _ <;> rfl

section Server

variable {P : Type} (env : Profiles P) (assertions : Bool) (host : Endianness)

def marshallLocateBody (requestId : Nat) (locType : LocateReplyType) (forwardRef : Ref P) :
    BufferProg Unit := do
  marshallElementary host 4 requestId
  marshallElementary host 4 locType.pos
  onlyIf (locType = .objectForward) (marshallIor env host assertions forwardRef)

/-- `Common_Locate_Reply`, up to the emission of the message. -/
def commonLocateReply (requestId : Nat) (locType : LocateReplyType) (forwardRef : Ref P) :
    BufferProg Unit := do
  let headerSpace ← reserve giopHeaderSize
  marshallLocateBody env assertions host requestId locType forwardRef
  let messageSize := (← get).length - giopHeaderSize
  raiseIf (unsignedLongModulus ≤ messageSize) .constraintError
  match marshallGlobalGiopHeader host 2
      { MessageContext.new host with messageType := .locateReply, messageSize, requestId }
      (Buffer.new host) with
  | .ok _ headerBuffer => copyData assertions headerBuffer headerSpace
  | .error e _ => throw e

/-- What `Process_Locate_Request` gives to `Emit_Message` when `Bind` has bound `target`, or failed. -/
def locateReply (requestId : Nat) (target : Ref P) (error : Option (BindError P)) :
    Except Exn (List UInt8) :=
  let (result, target) := locateResult target error
  match commonLocateReply env assertions host requestId result target (Buffer.new host) with
  | .ok _ b => .ok b.octets
  | .error e _ => .error e

end Server

/-! ## The client -/

/-- A session, the header of the message and its buffer. -/
structure LocateClient where
  session : GiopSession
  mctx : MessageContext
  bufferIn : Buffer

section Client

variable {P : Type} (env : Profiles P) (host : Endianness)

abbrev LocateProg := EStateM Exn LocateClient

def onSession {α : Type} (p : SessionProg α) : LocateProg α :=
  Program.zoom LocateClient.session (fun s b => { s with session := b }) p

def onReply {α : Type} (p : BufferProg α) : LocateProg α :=
  Program.zoom LocateClient.bufferIn (fun s b => { s with bufferIn := b }) p

/-- The pending request, and what is read once there is one. -/
def withPending (requestId : Nat) (p : LocateProg (LocateResult P)) :
    LocateProg (PendingRequest × LocateResult P) := do
  match ← onSession (getPendingRequestByLocate requestId) with
  | none => throw .giopError
  | some req => return (req, ← p)

/-- `Common_Process_Locate_Reply`, up to where all of the reply has been read. -/
def readLocated (requestId : Nat) :
    LocateReplyType → LocateProg (PendingRequest × LocateResult P)
  | .unknownObject => withPending requestId (pure .unknownObject)
  | .objectHere => withPending requestId (pure .objectHere)
  | .objectForward =>
    withPending requestId do return .objectForward (← onReply (unmarshallIor env host))
  | .objectForwardPerm =>
    withPending requestId do return .objectForwardPerm (← onReply (unmarshallIor env host))
  | .locSystemException | .locNeedsAddressingMode => throw .giopError

/-- `Process_Message` on a LocateReply, up to where all of it has been read. -/
def readLocateReply : LocateProg (Nat × PendingRequest × LocateResult P) := do
  let s ← get
  raiseIf (s.session.role ≠ .client) .bidirectionnalGiopNotImplemented
  let requestId ← if s.bufferIn.cdrPosition = giopHeaderSize then
    onReply (unmarshallElementary host 4) else pure s.mctx.requestId
  let pos ← onReply (unmarshallElementary host 4)
  let locType ← evaluate (LocateReplyType.val pos)
  let result ← readLocated env host requestId locType
  return (requestId, result)

/-- A message comes in: its header is read, and its body is there. -/
def receiveMessage (octets : List UInt8) : BufferProg MessageContext := do
  modify (receiveBuffer (octets.take giopHeaderSize))
  let mctx ← unmarshallGlobalGiopHeader host 2 >>= fun _ =>
    unmarshallGiopHeader host (MessageContext.new host)
  modify (receiveBuffer ((octets.drop giopHeaderSize).take mctx.messageSize))
  return mctx

end Client

/-! ## The octets of a reply -/

theorem flatten_overwriteAt {xs zs : List UInt8} :
    ∀ {c : List Iovec} {n : Nat}, Chunks.piece (c.map Iovec.data) n xs.length = some zs →
      ((overwriteAt c n xs).map Iovec.data).flatten =
        (c.map Iovec.data).flatten.take n ++ xs ++
          (c.map Iovec.data).flatten.drop (n + xs.length) := by
  intro c
  induction c with
  | nil => intro n hp; cases hp
  | cons v c ih =>
    intro n hp
    rw [List.map_cons, Chunks.piece] at hp
    rw [overwriteAt]
    by_cases hn : n < v.data.length
    · rw [if_pos hn] at hp ⊢
      have hle : n + xs.length ≤ v.data.length := by
        by_contra hlt
        rw [if_neg hlt] at hp
        cases hp
      simp only [List.map_cons, List.flatten_cons]
      rw [List.take_append_of_le_length (by omega), List.drop_append_of_le_length hle]
      simp
    · rw [if_neg hn] at hp ⊢
      obtain ⟨m, rfl⟩ : ∃ m, n = v.data.length + m := ⟨n - v.data.length, by omega⟩
      rw [Nat.add_sub_cancel_left] at hp ⊢
      simp only [List.map_cons, List.flatten_cons]
      rw [ih hp, List.take_length_add_append, Nat.add_assoc, List.drop_length_add_append]
      simp

section Reply

variable {P : Type} {env : Profiles P} {assertions : Bool} {sender receiver : Endianness}
  {requestId : Nat} {locType : LocateReplyType} {ref : Ref P} {b r : Buffer}

/-- A buffer with space for the header. -/
def reserved (host : Endianness) : Buffer :=
  { Buffer.new host with
    contents := [⟨List.replicate giopHeaderSize 0, defaultChunkSize - giopHeaderSize⟩]
    cdrPosition := giopHeaderSize
    length := giopHeaderSize }

theorem atEnd_reserved (host : Endianness) : (reserved host).AtEnd := ⟨rfl, rfl⟩

theorem reserve_new (host : Endianness) :
    reserve giopHeaderSize (Buffer.new host) =
      .ok ⟨0, host, 0, giopHeaderSize⟩ (reserved host) := rfl

theorem commonLocateReply_ok
    (hbody : marshallLocateBody env assertions sender requestId locType ref (reserved sender) =
      .ok () b) (hw : Written (reserved sender) b)
    (hsize : b.length - giopHeaderSize < unsignedLongModulus) :
    ∃ b', commonLocateReply env assertions sender requestId locType ref (Buffer.new sender) =
        .ok () b' ∧
      b'.octets = giopHeader sender 2 false .locateReply (b.length - giopHeaderSize) ++
        b.octets.drop giopHeaderSize := by
  obtain ⟨hb, hheader, happ⟩ := marshallGlobalGiopHeader_appended sender 2 (by decide)
    { MessageContext.new sender with
      messageType := .locateReply, messageSize := b.length - giopHeaderSize, requestId }
    (b := Buffer.new sender) ⟨rfl, rfl⟩ rfl
  have hoctets : hb.octets = giopHeader sender 2 false .locateReply (b.length - giopHeaderSize) :=
    happ.octets_eq
  have hlength : hb.octets.length = giopHeaderSize := by
    rw [hoctets, length_giopHeader]
    rfl
  have hassert : ¬(assertions = true ∧ ¬(hb.endianness = sender ∧ hb.initialCdrPosition = 0 ∧
      hb.length = giopHeaderSize)) := by
    rintro ⟨-, hne⟩
    exact hne ⟨happ.written.endianness_eq, happ.written.initial_eq, by
      rw [happ.written.atEnd.length_eq, hlength]⟩
  have hcopy : copyData assertions hb ⟨0, sender, 0, giopHeaderSize⟩ b =
      .ok () { b with contents := overwriteAt b.contents 0 hb.octets } := by
    rw [copyData, Program.bind_raiseIf hassert]
    rfl
  refine ⟨{ b with contents := overwriteAt b.contents 0 hb.octets }, ?_, ?_⟩
  · rw [commonLocateReply, Program.bind_ok (reserve_new sender), Program.bind_ok hbody,
      Program.bind_get, Program.bind_raiseIf (Nat.not_le.mpr hsize), hheader]
    exact hcopy
  · have hpiece : Chunks.piece (b.contents.map Iovec.data) 0 hb.octets.length =
        some (List.replicate giopHeaderSize 0) := by
      rw [hlength]
      exact hw.covers.2 _ _ _ (by decide) rfl
    show ((overwriteAt b.contents 0 hb.octets).map Iovec.data).flatten = _
    rw [flatten_overwriteAt hpiece, List.take_zero, List.nil_append,
      Nat.zero_add, hlength, hoctets]
    rfl

theorem commonLocateReply_raises
    (hbody : marshallLocateBody env assertions sender requestId locType ref (reserved sender) =
      .ok () b) (hsize : unsignedLongModulus ≤ b.length - giopHeaderSize) :
    commonLocateReply env assertions sender requestId locType ref (Buffer.new sender) =
      .error .constraintError b := by
  rw [commonLocateReply, Program.bind_ok (reserve_new sender), Program.bind_ok hbody,
    Program.bind_get, Program.bind_error (Program.raiseIf_true hsize ..)]

/-- The buffer of a session in which a message of `size` octets has come after its header, from a
host of the byte order `order`. -/
structure ReplyArrived (order : Endianness) (body : List UInt8) (r : Buffer) : Prop where
  endianness : r.endianness = order
  initial : r.initialCdrPosition = 0
  position : r.cdrPosition = giopHeaderSize
  length : r.length = giopHeaderSize + body.length
  octets : r.octets.drop giopHeaderSize = body
  piece : Chunks.piece r.chunks giopHeaderSize body.length = some body

theorem receiveMessage_ok (receiver order : Endianness) {body : List UInt8} (hne : body ≠ [])
    (hsize : body.length < unsignedLongModulus) :
    ∃ mctx r, receiveMessage receiver
        (giopHeader order 2 false .locateReply body.length ++ body) (Buffer.new receiver) =
          .ok mctx r ∧
      mctx.messageType = .locateReply ∧ ReplyArrived order body r := by
  obtain ⟨header, hheader⟩ : ∃ h, h = giopHeader order 2 false .locateReply body.length := ⟨_, rfl⟩
  have hlength : header.length = giopHeaderSize := by
    rw [hheader, length_giopHeader]
    rfl
  obtain ⟨r₀, hr₀⟩ : ∃ r, r = receiveBuffer header (Buffer.new receiver) := ⟨_, rfl⟩
  have hoctets : r₀.octets = header := by
    rw [hr₀]
    exact List.append_nil header
  have hread : r₀.Readable := by
    refine ⟨?_, ?_⟩
    · rw [hoctets, hr₀]
      exact Nat.zero_add _
    · rw [hr₀]
      exact le_refl _
  have hpiece : r₀.pieceAt 0 12 = some (giopHeader order 2 false .locateReply body.length) := by
    rw [← hheader, hr₀]
    have hp := @piece_growOrAppend header [] (max defaultChunkSize header.length - header.length)
      (by rw [hlength]; decide)
    rw [hlength] at hp
    exact hp
  have hheaderRead := unmarshallHeader_ok receiver hread (by rw [hr₀]; rfl) (by rw [hr₀]; rfl)
    (by decide) hsize hpiece (MessageContext.new receiver)
  have hall : header ++ body = giopHeader order 2 false .locateReply body.length ++ body := by
    rw [hheader]
  have hhead : (header ++ body).take giopHeaderSize = header := List.take_left' hlength
  have hbody : ((header ++ body).drop giopHeaderSize).take body.length = body := by
    rw [List.drop_left' hlength, List.take_length]
  have hlast := @piece_growOrAppend body r₀.contents
    (max defaultChunkSize body.length - body.length) (List.length_pos_of_ne_nil hne)
  have hflat := flatten_growOrAppend r₀.contents body (max defaultChunkSize body.length - body.length)
  have hfirst : (r₀.contents.map Iovec.data).flatten = header := hoctets
  rw [hfirst, hlength] at hlast
  rw [hfirst] at hflat
  have hbase : r₀.initialCdrPosition = 0 ∧ r₀.length = giopHeaderSize := by
    rw [hr₀]
    exact ⟨rfl, (Nat.zero_add _).trans hlength⟩
  refine ⟨(MessageContext.new receiver).ofHeader order false .locateReply body.length,
    receiveBuffer body { r₀ with endianness := order, cdrPosition := 12 }, ?_, rfl,
    ⟨rfl, hbase.1, rfl, ?_, ?_, hlast⟩⟩
  · have hfirstPart : (modify (receiveBuffer header) : BufferProg Unit) (Buffer.new receiver) =
        .ok () r₀ := by rw [hr₀]; rfl
    rw [← hall, receiveMessage, hhead, Program.bind_ok hfirstPart, Program.bind_ok hheaderRead]
    show (modify (receiveBuffer (((header ++ body).drop giopHeaderSize).take body.length)) >>= fun _ =>
      pure _ : BufferProg MessageContext) _ = _
    rw [hbody]
    rfl
  · show r₀.length + body.length = _
    rw [hbase.2]
  · show ((growOrAppend r₀.contents body _).map Iovec.data).flatten.drop giopHeaderSize = body
    rw [hflat, List.drop_left' hlength]

theorem ReplyArrived.presents (hw : Written (reserved sender) b)
    (h : ReplyArrived sender (b.octets.drop giopHeaderSize) r) : Presents b r giopHeaderSize := by
  have hlen : b.length = b.octets.length := hw.atEnd.length_eq
  have hinit : b.initialCdrPosition = 0 := hw.initial_eq
  refine ⟨h.endianness.trans hw.endianness_eq.symm, ?_, fun pos n xs hpos hn hx => ?_⟩
  · rw [hinit, h.initial, h.length, List.length_drop, hlen]
    omega
  · unfold pieceAt at hx
    rw [if_neg (by omega), hinit, Nat.sub_zero] at hx
    obtain ⟨hend, rfl⟩ := Chunks.piece_eq hx
    have hend' : pos + n ≤ b.octets.length := hend
    have hsub := Chunks.piece_sub (a := pos - giopHeaderSize) h.piece hn (by
      rw [List.length_drop]
      omega)
    unfold pieceAt
    rw [h.initial, if_neg (Nat.not_lt_zero _), Nat.sub_zero]
    rw [Nat.add_sub_cancel' hpos, List.drop_drop, Nat.add_sub_cancel' hpos] at hsub
    exact hsub

variable (env assertions sender receiver locType ref) in
theorem marshallLocateBody_start (hid : requestId < unsignedLongModulus) :
    ∃ b₁ b₂, RoundTrips (marshallElementary sender 4 requestId) (unmarshallElementary receiver 4)
        requestId (reserved sender) b₁ ∧
      RoundTrips (marshallElementary sender 4 locType.pos) (unmarshallElementary receiver 4)
        locType.pos b₁ b₂ ∧
      b₂.cdrPosition = giopHeaderSize + 8 ∧
      marshallLocateBody env assertions sender requestId locType ref (reserved sender) =
        onlyIf (locType = .objectForward) (marshallIor env sender assertions ref) b₂ := by
  have hpos := locType.pos_lt
  obtain ⟨b₁, h₁, hp₁⟩ := RoundTrips.between sender receiver (atEnd_reserved sender)
    (by decide : 0 < 4) hid
  obtain ⟨b₂, h₂, hp₂⟩ := RoundTrips.between sender receiver h₁.written.atEnd
    (by decide : 0 < 4) (v := locType.pos) (by omega)
  rw [Octets.padding_eq_zero (show (reserved sender).cdrPosition % 4 = 0 from
    (by decide : giopHeaderSize % 4 = 0))] at hp₁
  have hsixteen : b₁.cdrPosition = 16 := hp₁
  rw [hsixteen, Octets.padding_eq_zero (by decide : 16 % 4 = 0)] at hp₂
  refine ⟨b₁, b₂, h₁, h₂, hp₂, ?_⟩
  rw [marshallLocateBody, Program.bind_ok h₁.marshall, Program.bind_ok h₂.marshall]

variable {c : LocateClient} {p : PendingRequest}

structure Awaits (requestId : Nat) (p : PendingRequest) (r : Buffer) (c : LocateClient) : Prop where
  role : c.session.role = .client
  pending : getPendingRequestByLocate requestId c.session = .ok (some p) c.session
  bufferIn : c.bufferIn = r

theorem readLocateReply_start {b₁ b₂ : Buffer}
    (h₁ : RoundTrips (marshallElementary sender 4 requestId) (unmarshallElementary receiver 4)
      requestId (reserved sender) b₁)
    (h₂ : RoundTrips (marshallElementary sender 4 locType.pos) (unmarshallElementary receiver 4)
      locType.pos b₁ b₂)
    (hr : Presents b₂ r giopHeaderSize) (hposition : r.cdrPosition = giopHeaderSize)
    (hc : Awaits requestId p r c) :
    readLocateReply env receiver c = (do
      let result ← readLocated env receiver requestId locType
      return (requestId, result) : LocateProg _)
        { c with bufferIn := { r with cdrPosition := b₂.cdrPosition } } := by
  have hread₁ := h₁.unmarshall r (hr.of_written h₂.written h₁.written.atEnd) hposition
  have hle := h₁.written.position_le (atEnd_reserved sender)
  have hread₂ := h₂.unmarshall { r with cdrPosition := b₁.cdrPosition }
    ((hr.mono hle).setPosition _) rfl
  have hid : onReply (unmarshallElementary receiver 4) c = .ok requestId
      { c with bufferIn := { r with cdrPosition := b₁.cdrPosition } } := by
    refine Program.zoom_ok ?_
    rw [hc.bufferIn]
    exact hread₁
  have htype : onReply (unmarshallElementary receiver 4)
      { c with bufferIn := { r with cdrPosition := b₁.cdrPosition } } = .ok locType.pos
        { c with bufferIn := { r with cdrPosition := b₂.cdrPosition } } := Program.zoom_ok hread₂
  rw [readLocateReply, Program.bind_get, Program.bind_raiseIf (not_not.mpr hc.role),
    if_pos (by rw [hc.bufferIn, hposition]), Program.bind_ok hid]
  dsimp only
  rw [Program.bind_ok htype, Program.bind_evaluate (LocateReplyType.val_pos locType)]

theorem withPending_ok {q : LocateProg (LocateResult P)} {a : LocateResult P}
    {c' : LocateClient}
    (hpending : getPendingRequestByLocate requestId c.session = .ok (some p) c.session)
    (hq : q c = .ok a c') : withPending requestId q c = .ok (p, a) c' := by
  have hsession : onSession (getPendingRequestByLocate requestId) c = .ok (some p) c :=
    Program.zoom_ok hpending
  rw [withPending, Program.bind_ok hsession]
  dsimp only
  rw [Program.bind_ok hq]
  rfl

theorem withPending_error {q : LocateProg (LocateResult P)} {e : Exn} {c' : LocateClient}
    (hpending : getPendingRequestByLocate requestId c.session = .ok (some p) c.session)
    (hq : q c = .error e c') : withPending requestId q c = .error e c' := by
  have hsession : onSession (getPendingRequestByLocate requestId) c = .ok (some p) c :=
    Program.zoom_ok hpending
  rw [withPending, Program.bind_ok hsession]
  dsimp only
  rw [Program.bind_error hq]

variable (env receiver) in
theorem unmarshallIor_empty (hr : r.octets.length ≤ r.cdrPosition - r.initialCdrPosition)
    (halign : r.cdrPosition % 4 = 0) (hle : r.cdrPosition ≤ r.initialCdrPosition + r.length) :
    ∃ r', unmarshallIor env receiver r = .error .constraintError r' := by
  have hrun : Chunks.run r.chunks (r.cdrPosition - r.initialCdrPosition) 4 = [] :=
    Chunks.run_past hr 4
  have hpad : Octets.padding r.cdrPosition 4 = 0 := Octets.padding_eq_zero halign
  have hposition : alignPosition 4 r = .ok () r := by
    rw [alignPosition_ok (by rw [hpad]; exact hle), hpad]
    rfl
  have hread : unmarshallElementary receiver 4 r = .error .constraintError r := by
    rw [unmarshallElementary, Program.onlyIf_true (by decide), Program.bind_ok hposition,
      Program.bind_error]
    rw [extractData, Program.bind_get, hrun, Program.bind_error (Program.raiseIf_true (by decide) _ _)]
  exact ⟨r, by rw [unmarshallIor, unmarshallLatin1String, Program.bind_error (Program.bind_error hread)]⟩

end Reply

/-! ## Agreement -/

section Agreement

variable {P : Type} (env : Profiles P) (assertions : Bool) (sender receiver : Endianness)
  (requestId : Nat) (target : Ref P) (error : Option (BindError P))

/-- The client learns from the reply what the server has found out, and reads all of it. -/
def LocateAgrees : Prop :=
  ∃ octets mctx r, locateReply env assertions sender requestId target error = .ok octets ∧
    receiveMessage receiver octets (Buffer.new receiver) = .ok mctx r ∧
    mctx.messageType = .locateReply ∧
    ∀ (c : LocateClient) (p : PendingRequest), c.mctx = mctx → Awaits requestId p r c →
      ∃ c', readLocateReply env receiver c = .ok (requestId, p, located error) c' ∧
        c'.bufferIn.remaining = 0 ∧ c'.session = c.session

/-- The size of the reply can be given in its header. -/
def ReplyFits : Prop :=
  ∀ b, marshallLocateBody env assertions sender requestId (located error).locType
      (locateResult target error).2 (reserved sender) = .ok () b →
    b.length - giopHeaderSize < unsignedLongModulus

end Agreement

section Agree

variable {P : Type} {env : Profiles P} {assertions : Bool} {sender receiver : Endianness}
  {requestId : Nat} {target : Ref P} {error : Option (BindError P)} {b r : Buffer}

theorem locateReply_ok
    (hbody : marshallLocateBody env assertions sender requestId (located error).locType
      (locateResult target error).2 (reserved sender) = .ok () b) (hw : Written (reserved sender) b)
    (hsize : b.length - giopHeaderSize < unsignedLongModulus) :
    locateReply env assertions sender requestId target error =
      .ok (giopHeader sender 2 false .locateReply (b.length - giopHeaderSize) ++
        b.octets.drop giopHeaderSize) := by
  obtain ⟨b', hok, hoctets⟩ := commonLocateReply_ok hbody hw hsize
  rw [← locateResult_fst target] at hok
  rw [locateReply]
  dsimp only
  rw [hok, ← hoctets]

variable (receiver) in
theorem received_ok (hw : Written (reserved sender) b) (hmore : giopHeaderSize < b.length)
    (hsize : b.length - giopHeaderSize < unsignedLongModulus) :
    ∃ mctx r, receiveMessage receiver
        (giopHeader sender 2 false .locateReply (b.length - giopHeaderSize) ++
          b.octets.drop giopHeaderSize) (Buffer.new receiver) = .ok mctx r ∧
      mctx.messageType = .locateReply ∧ ReplyArrived sender (b.octets.drop giopHeaderSize) r := by
  have hlength : (b.octets.drop giopHeaderSize).length = b.length - giopHeaderSize := by
    rw [List.length_drop, hw.atEnd.length_eq]
  have hne : b.octets.drop giopHeaderSize ≠ [] := by
    intro hnil
    rw [hnil, List.length_nil] at hlength
    omega
  have h := receiveMessage_ok receiver sender hne (by rw [hlength]; exact hsize)
  rw [hlength] at h
  exact h

theorem ReplyArrived.remaining_eq (hw : Written (reserved sender) b)
    (h : ReplyArrived sender (b.octets.drop giopHeaderSize) r) :
    ({ r with cdrPosition := b.cdrPosition } : Buffer).remaining = 0 := by
  have hle : giopHeaderSize ≤ b.octets.length := hw.covers.1
  have hlen : b.length = b.octets.length := hw.atEnd.length_eq
  have hpos : b.cdrPosition = b.initialCdrPosition + b.length := hw.atEnd.position_eq
  have hinit : b.initialCdrPosition = 0 := hw.initial_eq
  show r.initialCdrPosition + r.length - b.cdrPosition = 0
  rw [h.initial, h.length, List.length_drop, hpos, hinit, hlen]
  omega

variable (env assertions receiver requestId target) in
theorem marshallLocateBody_rest {b₂ : Buffer} (hb₂ : b₂.AtEnd) (horder : b₂.endianness = sender)
    (hp₂ : b₂.cdrPosition = giopHeaderSize + 8)
    (href : ∀ ref ∈ (located error).reference?, IorRoundTrips env assertions sender receiver ref)
    (hperm : (located error).locType ≠ .objectForwardPerm) :
    ∃ b, (onlyIf ((located error).locType = .objectForward) (marshallIor env sender assertions
        (locateResult target error).2) : BufferProg Unit) b₂ = .ok () b ∧ Written b₂ b ∧
      ∀ (r : Buffer) (c : LocateClient) (p : PendingRequest), Presents b r giopHeaderSize →
        c.bufferIn = { r with cdrPosition := b₂.cdrPosition } →
        getPendingRequestByLocate requestId c.session = .ok (some p) c.session →
        readLocated env receiver requestId (located error).locType c =
          .ok (p, located error) { c with bufferIn := { r with cdrPosition := b.cdrPosition } } := by
  rcases error with _ | ref | ref | e
  · refine ⟨b₂, rfl, .refl hb₂, fun r c p _ hbuf hpending => ?_⟩
    rw [← hbuf]
    exact withPending_ok hpending rfl
  · obtain ⟨b, h⟩ := href ref rfl b₂ hb₂ horder (by rw [hp₂]; decide)
    refine ⟨b, h.marshall, h.written, fun r c p hr hbuf hpending => ?_⟩
    have hread := h.unmarshall { r with cdrPosition := b₂.cdrPosition }
      ((hr.mono (by rw [hp₂]; exact Nat.le_add_right _ _)).setPosition _) rfl
    have hior : onReply (unmarshallIor env receiver) c =
        .ok ref { c with bufferIn := { r with cdrPosition := b.cdrPosition } } := by
      refine Program.zoom_ok ?_
      rw [hbuf]
      exact hread
    refine withPending_ok hpending ?_
    rw [Program.bind_ok hior]
    rfl
  · exact absurd rfl hperm
  · refine ⟨b₂, rfl, .refl hb₂, fun r c p _ hbuf hpending => ?_⟩
    rw [← hbuf]
    exact withPending_ok hpending rfl

def waiting (requestId : Nat) (mctx : MessageContext) (r : Buffer) : LocateClient :=
  { session := { GiopSession.start .client true with pendingReqs := [some ⟨0, false, requestId, 0⟩] }
    mctx, bufferIn := r }

theorem awaits_waiting (requestId : Nat) (mctx : MessageContext) (r : Buffer) :
    Awaits requestId ⟨0, false, requestId, 0⟩ r (waiting requestId mctx r) := by
  refine ⟨rfl, ?_, rfl⟩
  have htake : SlotTable.take (fun p : PendingRequest => p.locateReqId == requestId)
      [some ⟨0, false, requestId, 0⟩] = some (⟨0, false, requestId, 0⟩, [none]) := by
    simp [SlotTable.take]
  unfold getPendingRequestByLocate
  show EStateM.Result.ok ((SlotTable.take _ [some _]).map Prod.fst) _ = _
  rw [htake]
  rfl

theorem LocateAgrees.fits
    (h : LocateAgrees env assertions sender receiver requestId target error) :
    ReplyFits env assertions sender requestId target error := by
  obtain ⟨octets, mctx, r, hreply, -⟩ := h
  intro b hb
  by_contra hsize
  have hraise := commonLocateReply_raises hb (Nat.not_lt.mp hsize)
  rw [← locateResult_fst target] at hraise
  rw [locateReply] at hreply
  dsimp only at hreply
  rw [hraise] at hreply
  cases hreply

theorem LocateAgrees.not_perm (hid : requestId < unsignedLongModulus)
    (h : LocateAgrees env assertions sender receiver requestId target error) :
    (located error).locType ≠ .objectForwardPerm := by
  intro hperm
  have hfits := h.fits
  obtain ⟨octets, mctx, r, hreply, hreceive, -, hall⟩ := h
  obtain ⟨b₁, b₂, h₁, h₂, hp₂, hbody⟩ := marshallLocateBody_start env assertions sender
    receiver (located error).locType (locateResult target error).2 hid
  have hw₂ : Written (reserved sender) b₂ := h₁.written.trans h₂.written
  have hend : marshallLocateBody env assertions sender requestId (located error).locType
      (locateResult target error).2 (reserved sender) = .ok () b₂ := by
    rw [hbody, hperm]
    rfl
  have hlength : b₂.length = giopHeaderSize + 8 := by
    have hposition := hw₂.atEnd.position_eq
    have hinit : b₂.initialCdrPosition = 0 := hw₂.initial_eq
    rw [hinit, hp₂, Nat.zero_add] at hposition
    exact hposition.symm
  have hsize := hfits b₂ hend
  rw [locateReply_ok hend hw₂ hsize] at hreply
  injection hreply with hreply
  obtain ⟨mctx', r', hreceive', -, harrived⟩ := received_ok receiver hw₂
    (by rw [hlength]; decide) hsize
  rw [← hreply, hreceive'] at hreceive
  injection hreceive with hmctx hr
  subst hr
  have hbodyLength : (b₂.octets.drop giopHeaderSize).length = 8 := by
    rw [List.length_drop, ← hw₂.atEnd.length_eq, hlength, Nat.add_sub_cancel_left]
  have hoctets : r'.octets.length - giopHeaderSize = 8 := by
    rw [← List.length_drop, harrived.octets, hbodyLength]
  obtain ⟨r'', hraise⟩ := unmarshallIor_empty env receiver
    (r := { r' with cdrPosition := b₂.cdrPosition }) (by
      show r'.octets.length ≤ b₂.cdrPosition - r'.initialCdrPosition
      rw [harrived.initial, hp₂]
      omega) (by
      show b₂.cdrPosition % 4 = 0
      rw [hp₂]
      decide) (by
      show b₂.cdrPosition ≤ r'.initialCdrPosition + r'.length
      rw [harrived.length, hp₂, hbodyLength]
      omega)
  obtain ⟨c, hc⟩ : ∃ c : LocateClient, c = { waiting requestId mctx r' with
      bufferIn := { r' with cdrPosition := b₂.cdrPosition } } := ⟨_, rfl⟩
  have hpending : getPendingRequestByLocate requestId c.session =
      .ok (some ⟨0, false, requestId, 0⟩) c.session := by
    rw [hc]
    exact (awaits_waiting requestId mctx r').pending
  have hior : onReply (unmarshallIor env receiver) c = .error .constraintError
      { c with bufferIn := r'' } := by
    refine Program.zoom_error ?_
    rw [hc]
    exact hraise
  have hlocated : readLocated env receiver requestId .objectForwardPerm c =
      .error .constraintError { c with bufferIn := r'' } :=
    withPending_error hpending (Program.bind_error hior)
  obtain ⟨c', hread, -⟩ := hall (waiting requestId mctx r') _ rfl (awaits_waiting ..)
  rw [readLocateReply_start h₁ h₂ (harrived.presents hw₂) harrived.position
    (awaits_waiting requestId mctx r'), hperm, ← hc, Program.bind_error hlocated] at hread
  cases hread

/-- Server and client agree about an object unless it has moved for good, in a reply whose size can be
given. -/
theorem locateAgrees_iff (hid : requestId < unsignedLongModulus)
    (href : ∀ ref ∈ (located error).reference?, IorRoundTrips env assertions sender receiver ref) :
    LocateAgrees env assertions sender receiver requestId target error ↔
      (located error).locType ≠ .objectForwardPerm ∧
        ReplyFits env assertions sender requestId target error := by
  constructor
  · intro h
    exact ⟨h.not_perm hid, h.fits⟩
  · rintro ⟨hperm, hfits⟩
    obtain ⟨b₁, b₂, h₁, h₂, hp₂, hbody⟩ := marshallLocateBody_start env assertions sender
      receiver (located error).locType (locateResult target error).2 hid
    have hw₂ : Written (reserved sender) b₂ := h₁.written.trans h₂.written
    obtain ⟨b, hb, hw, hrest⟩ := marshallLocateBody_rest env assertions receiver requestId
      target hw₂.atEnd hw₂.endianness_eq hp₂ href hperm
    have hend := hbody.trans hb
    have hw' := hw₂.trans hw
    have hsize := hfits b hend
    have hmore : giopHeaderSize < b.length := by
      have hle := hw.position_le hw₂.atEnd
      have hposition := hw'.atEnd.position_eq
      have hinit : b.initialCdrPosition = 0 := hw'.initial_eq
      omega
    obtain ⟨mctx, r, hreceive, htype, harrived⟩ := received_ok receiver hw' hmore hsize
    refine ⟨_, mctx, r, locateReply_ok hend hw' hsize, hreceive, htype, fun c p _ hc => ?_⟩
    have hpresents := harrived.presents hw'
    have hread := hrest r { c with bufferIn := { r with cdrPosition := b₂.cdrPosition } } p hpresents
      rfl hc.pending
    refine ⟨{ c with bufferIn := { r with cdrPosition := b.cdrPosition } }, ?_,
      harrived.remaining_eq hw', rfl⟩
    rw [readLocateReply_start h₁ h₂ (hpresents.of_written hw hw₂.atEnd) harrived.position hc,
      Program.bind_ok hread]
    rfl

end Agree

theorem ReplyFits.of_length {P : Type} {env : Profiles P} {assertions : Bool} {sender : Endianness}
    {requestId : Nat} {target : Ref P} {error : Option (BindError P)}
    (h : (match marshallLocateBody env assertions sender requestId (located error).locType
        (locateResult target error).2 (reserved sender) with
      | .ok _ b => b.length
      | .error _ _ => 0) < unsignedLongModulus) :
    ReplyFits env assertions sender requestId target error := by
  intro b hb
  rw [hb] at h
  exact (Nat.sub_le ..).trans_lt h

/-- Profiles that are known by their octets, of a tag of their own. -/
def opaqueProfiles : Profiles (List UInt8) :=
  { getProfileTag := fun _ => 0
    callbacks := [⟨0, marshallOctetArray .bigEndian, do
      return some (← unmarshallOctetArray .bigEndian)⟩] }

theorem profileConveyed_opaque {octets : List UInt8} (h : octets.length < unsignedLongModulus) :
    ProfileConveyed opaqueProfiles .bigEndian octets :=
  ⟨_, advanceOctetArray octets.length, rfl, (by decide : 0 < unsignedLongModulus),
    (Conveys.octetArray .bigEndian .bigEndian h).map fun r => rfl⟩

/-- A reference with one profile is forwarded to. -/
theorem locateAgrees_forward :
    LocateAgrees opaqueProfiles true .bigEndian .littleEndian 7 none
      (some (.forwardRequest (some ⟨[73, 68, 76], [[1, 2]], by decide⟩))) := by
  refine (locateAgrees_iff (by decide) ?_).mpr ⟨by decide, ?_⟩
  · intro ref href
    obtain rfl := Option.some.inj href
    refine iorRoundTrips_profiles _ _ (by decide) (by decide) fun p hp => ?_
    obtain rfl := List.mem_singleton.mp hp
    exact profileConveyed_opaque (by decide)
  · exact .of_length (by decide +kernel)

theorem not_locateAgrees :
    ¬∀ {P : Type} (env : Profiles P) (assertions : Bool) (sender receiver : Endianness)
      (requestId : Nat) (target : Ref P) (error : Option (BindError P)),
      requestId < unsignedLongModulus →
      (∀ ref ∈ (located error).reference?, IorRoundTrips env assertions sender receiver ref) →
      ReplyFits env assertions sender requestId target error →
      LocateAgrees env assertions sender receiver requestId target error := by
  intro h
  refine (h opaqueProfiles true .bigEndian .littleEndian 7 none (some (.forwardRequestPerm none))
    (by decide) ?_ ?_).not_perm (by decide) rfl
  · intro ref href
    obtain rfl : none = ref := Option.some.inj href
    exact iorRoundTrips_nil _ _
  · exact .of_length (by decide +kernel)

end PolyORB
