import PolyORB.Dns.Sessions
import PolyORB.Lib.Reading

/-!
# DNS messages

How PolyORB.Protocols.DNS and PolyORB.Representations.DNS marshall the messages of the protocol, and
how they are unmarshalled.  The buffers are big-endian and nothing in them is aligned: what is
marshalled is a list of octets, and a reader takes them from the front.
-/

namespace PolyORB

open Program Reading

/-! ## Types -/

inductive Opcode where
  | query
  | iquery
  | status
  deriving DecidableEq

inductive RRType where
  | a
  | ns
  | soa
  | cname
  | ptr
  | txt
  | srv
  deriving DecidableEq

structure SrvData where
  priority : UInt16
  weight : UInt16
  port : UInt16
  target : Text
  deriving DecidableEq

/-- `RR_Data`, by the value of its discriminant. -/
inductive RRData where
  | srv (srvData : SrvData)
  | a (aAddress : List UInt8)
  | ns (rrAnswer : Text)
  | soa (rrAnswer : Text)
  | cname (rrAnswer : Text)
  | ptr (rrAnswer : Text)
  | txt (rrAnswer : Text)
  deriving DecidableEq

def RRData.rrType : RRData → RRType
  | .srv _ => .srv
  | .a _ => .a
  | .ns _ => .ns
  | .soa _ => .soa
  | .cname _ => .cname
  | .ptr _ => .ptr
  | .txt _ => .txt

/-- The `rr_type` of a record is the discriminant of its data. -/
structure RR where
  rrName : Text
  ttl : UInt32
  dataLength : UInt16
  rrData : RRData
  deriving DecidableEq

/-- Of the records of a question, only the name and the type are read. -/
structure Question where
  rrName : Text
  rrType : RRType
  deriving DecidableEq

/-- What the message context has after a header. -/
structure DnsMessageCtx where
  isReply : Bool
  requestId : Nat
  opcode : Opcode
  aaFlag : Bool
  tcFlag : Bool
  recFlag : Bool
  recDispFlag : Bool
  rcode : Rcode
  nbQuestions : Nat
  nbAnswers : Nat
  nbAuthServers : Nat
  nbAddInfos : Nat
  deriving DecidableEq

/-! ## Items -/

abbrev DnsReader := EStateM Exn (List UInt8)

def marshallShort (v : Nat) : List UInt8 := orderedOctets .bigEndian 2 v

def marshallLong (v : Nat) : List UInt8 := orderedOctets .bigEndian 4 v

def unmarshallOctet : DnsReader UInt8 := next .constraintError

def unmarshallShort : DnsReader Nat := do
  return fromOrderedOctets .bigEndian (← many .constraintError 2)

def unmarshallLong : DnsReader Nat := do
  return fromOrderedOctets .bigEndian (← many .constraintError 4)

def toUnsignedShort (n : Nat) : Except Exn Nat :=
  if n < 2 ^ 16 then .ok n else .error .constraintError

/-- `Marshall_Latin_1_String`: an octet has the length, and nothing is written of no characters. -/
def marshallCharacterString (data : Text) : Except Exn (List UInt8) :=
  if data = [] then .ok []
  else if data.length < 2 ^ 8 then .ok (UInt8.ofNat data.length :: data)
  else .error .constraintError

/-! ## Domain names -/

def fullStop : UInt8 := 46

def reverseSolidus : UInt8 := 92

/-- The loop of `Marshall_DNS_String`, on what is left of the name. -/
def marshallLabels (rest : Text) : Except Exn (List UInt8) := do
  let label := rest.takeWhile (· ≠ fullStop)
  if label = [] then return [0]
  else
    let octets ← marshallCharacterString label
    match _h : rest.dropWhile (· ≠ fullStop) with
    | [] => return octets ++ [0]
    | _ :: rest' => return octets ++ (← marshallLabels rest')
termination_by rest.length
decreasing_by
  have hle := (List.dropWhile_suffix (· ≠ fullStop) (l := rest)).length_le
  rw [_h, List.length_cons] at hle
  exact hle

/-- The loop of `Unmarshall_DNS_String`, after the length of a label. -/
def unmarshallLabels (length : UInt8) (label : Text) (input : List UInt8) :
    EStateM.Result Exn (List UInt8) Text :=
  if length = 0 then .ok label input
  else if length.toNat ≤ input.length then
    let label' := label ++ input.take length.toNat
    match _h : input.drop length.toNat with
    | [] => .error .constraintError []
    | length' :: input' =>
      unmarshallLabels length' (if length' = 0 then label' else label' ++ [fullStop]) input'
  else .error .constraintError input
termination_by input.length
decreasing_by
  have hlen := congrArg List.length _h
  rw [List.length_drop, List.length_cons] at hlen
  omega

def unmarshallDnsString : DnsReader Text := do
  let length ← unmarshallOctet
  fun input => unmarshallLabels length [] input

/-! ## TXT data -/

/-- The loop of `Marshall_TXT_String`, on what is left of the data.  When a reverse solidus ends it,
the loop goes on past the end until an index overflows. -/
def marshallTxtString (rest : Text) : Except Exn (List UInt8) := do
  let octets ← marshallCharacterString (rest.takeWhile (· ≠ reverseSolidus))
  match _h : rest.dropWhile (· ≠ reverseSolidus) with
  | [] => return octets
  | [_] => throw .constraintError
  | _ :: _ :: rest' => return octets ++ (← marshallTxtString rest')
termination_by rest.length
decreasing_by
  have hle := (List.dropWhile_suffix (· ≠ reverseSolidus) (l := rest)).length_le
  rw [_h, List.length_cons, List.length_cons] at hle
  omega

/-- The loop of `Unmarshall_TXT_String`, after the length of a string.  All of the label is added to
the current length at each round. -/
def unmarshallTxtLoop (dataLength : Nat) (length : UInt8) (currentLength : Nat) (label : Text)
    (input : List UInt8) : EStateM.Result Exn (List UInt8) Text :=
  if currentLength < dataLength then
    if length.toNat ≤ input.length then
      let label' := label ++ input.take length.toNat
      if label'.length < 2 ^ 16 then
        let currentLength' := (currentLength + label'.length) % 2 ^ 16
        if currentLength' < dataLength then
          match h : input.drop length.toNat with
          | [] => .error .constraintError []
          | length' :: input' =>
            unmarshallTxtLoop dataLength length' ((currentLength' + 2) % 2 ^ 16)
              (label' ++ [reverseSolidus, fullStop]) input'
        else .ok label' (input.drop length.toNat)
      else .error .constraintError input
    else .error .constraintError input
  else .ok label input
termination_by input.length
decreasing_by
  have hlen := congrArg List.length h
  rw [List.length_drop, List.length_cons] at hlen
  omega

/-- The strings from the first one on, whose length is given. -/
def unmarshallTxtFrom (dataLength : Nat) (length : UInt8) : DnsReader Text := fun input =>
  unmarshallTxtLoop dataLength length 0 [] input

def unmarshallTxtString (dataLength : Nat) : DnsReader Text := do
  let length ← unmarshallOctet
  if length = 0 then return []
  else unmarshallTxtFrom dataLength length

/-! ## Resource records -/

def RRType.code : RRType → Nat
  | .a => 1
  | .ns => 2
  | .soa => 6
  | .cname => 5
  | .ptr => 12
  | .txt => 16
  | .srv => 33

def defaultClassCode : Nat := 1

/-- The types that are marshalled with more than the name. -/
def RRType.supported (t : RRType) : Bool := t = .a || t = .ptr || t = .txt || t = .srv

/-- The type that has the code; `DNS_Error` for the codes not supported. -/
def unmarshallRRType : DnsReader RRType := do
  let code ← unmarshallShort
  if code = RRType.a.code then return .a
  else if code = RRType.ptr.code then return .ptr
  else if code = RRType.txt.code then return .txt
  else if code = RRType.srv.code then return .srv
  else throw .dnsError

/-- The data of a record, of which an address has four octets. -/
def marshallRRData : RRData → Except Exn (List UInt8)
  | .a (o₁ :: o₂ :: o₃ :: o₄ :: _) => .ok [o₁, o₂, o₃, o₄]
  | .a _ => .error .indexError
  | .ptr rrAnswer => marshallLabels rrAnswer
  | .txt rrAnswer => marshallTxtString rrAnswer
  | .srv d => do
    return marshallShort d.priority.toNat ++ marshallShort d.weight.toNat ++
      marshallShort d.port.toNat ++ (← marshallLabels d.target)
  | _ => .ok []

def marshallQuestion (q : Question) : Except Exn (List UInt8) := do
  let name ← marshallLabels q.rrName
  if q.rrType.supported = true then
    return name ++ marshallShort q.rrType.code ++ marshallShort defaultClassCode
  else return name

/-- One round of the loop of `Marshall_From_Any`, of a record of a reply. -/
def marshallRR (r : RR) : Except Exn (List UInt8) := do
  let name ← marshallLabels r.rrName
  if r.rrData.rrType.supported = true then
    let data ← marshallRRData r.rrData
    return name ++ marshallShort r.rrData.rrType.code ++ marshallShort defaultClassCode ++
      marshallLong r.ttl.toNat ++ marshallShort r.dataLength.toNat ++ data
  else return name

def marshallRRs (rs : List RR) : Except Exn (List UInt8) := do
  return (← rs.mapM marshallRR).flatten

/-- One round of the loop of `Process_Request`, up to the index of the question. -/
def unmarshallQuestion : DnsReader Question := do
  let rrName ← unmarshallDnsString
  let code ← unmarshallShort
  let _requestClass ← unmarshallShort
  if code = RRType.a.code then return ⟨rrName, .a⟩
  else if code = RRType.ptr.code then return ⟨rrName, .ptr⟩
  else if code = RRType.txt.code then return ⟨rrName, .txt⟩
  else if code = RRType.srv.code then return ⟨rrName, .srv⟩
  else throw .dnsError

/-- The part of `Unmarshall_To_Any` that is specific to a type. -/
def unmarshallRRData (t : RRType) (dataLength : Nat) : DnsReader RRData :=
  match t with
  | .srv => do
    let priority ← unmarshallShort
    let weight ← unmarshallShort
    let port ← unmarshallShort
    let target ← unmarshallDnsString
    return .srv ⟨UInt16.ofNat priority, UInt16.ofNat weight, UInt16.ofNat port, target⟩
  | .a => do
    let o₁ ← unmarshallOctet
    let o₂ ← unmarshallOctet
    let o₃ ← unmarshallOctet
    let o₄ ← unmarshallOctet
    return .a [o₁, o₂, o₃, o₄]
  | .txt => do return .txt (← unmarshallTxtString dataLength)
  | .ns => do return .ns (← unmarshallDnsString)
  | .soa => do return .soa (← unmarshallDnsString)
  | .cname => do return .cname (← unmarshallDnsString)
  | .ptr => do return .ptr (← unmarshallDnsString)

/-- One round of the loop of `Unmarshall_To_Any`, of a reply. -/
def unmarshallRR : DnsReader RR := do
  let rrName ← unmarshallDnsString
  let rrType ← unmarshallRRType
  let _requestClass ← unmarshallShort
  let ttl ← unmarshallLong
  let dataLength ← unmarshallShort
  let rrData ← unmarshallRRData rrType dataLength
  return ⟨rrName, UInt32.ofNat ttl, UInt16.ofNat dataLength, rrData⟩

/-! ## Headers -/

namespace DnsHeader

def aaFlagPos : Nat := 10

def tcFlagPos : Nat := 9

def recFlagPos : Nat := 8

def recDispFlagPos : Nat := 7

end DnsHeader

open DnsHeader

/-- `Unsigned_Short_Flags.Set`, with the check of the position against `Bit_Count`. -/
def setFlag (flags : UInt16) (n : Nat) (value : Bool) : Except Exn UInt16 :=
  if n < 16 then
    let m : UInt16 := 1 <<< UInt16.ofNat n
    .ok (if value = true then flags &&& ~~~m ||| m else flags &&& ~~~m)
  else .error .constraintError

/-- The flags of `Marshall_DNS_Header`. -/
def requestFlags (opcode : Opcode) (authoritative : Bool) : Except Exn UInt16 := do
  let flags ← setFlag 0 qrFlagPos false
  let flags ← match opcode with
    | .query => .ok flags
    | .iquery => setFlag flags (opcodeFlagPos + 3) true
    | .status => setFlag flags (opcodeFlagPos + 2) true
  let flags ← setFlag flags aaFlagPos authoritative
  let flags ← setFlag flags tcFlagPos false
  let flags ← setFlag flags recFlagPos false
  setFlag flags recDispFlagPos false

/-- The bits that are set for a response code. -/
def Rcode.bits : Rcode → List Nat
  | .noError => []
  | .formatError => [0]
  | .serverFailure => [1]
  | .nameError => [0, 1]
  | .notImplemented => [2]
  | .refused => [0, 2]
  | .yxDomain => [1, 2]
  | .yxRRSet => [0, 1, 2]
  | .nxRRSet => [3]
  | .notAuth => [0, 3]
  | .notZone => [3, 1]

def replyFlags (opcode : Opcode) (authoritative : Bool) (rcode : Rcode) : Except Exn UInt16 := do
  let flags ← setFlag 0 qrFlagPos true
  let flags ← match opcode with
    | .query => .ok flags
    | .iquery => setFlag flags (opcodeFlagPos + 3) true
    | .status => setFlag flags (qrFlagPos + 2) true
  let flags ← setFlag flags aaFlagPos authoritative
  let flags ← setFlag flags tcFlagPos false
  let flags ← setFlag flags recFlagPos false
  let flags ← setFlag flags recDispFlagPos false
  rcode.bits.foldlM (fun flags bit => setFlag flags (rcodeFlagPos + bit) true) flags

def marshallHeader (requestId : Nat) (flags : UInt16)
    (nbQuestions nbAnswers nbAuthServers nbAddInfos : Nat) : List UInt8 :=
  marshallShort requestId ++ marshallShort flags.toNat ++ marshallShort nbQuestions ++
    marshallShort nbAnswers ++ marshallShort nbAuthServers ++ marshallShort nbAddInfos

/-- `Unmarshall_DNS_Header`, in a message context whose code is `old`. -/
def unmarshallHeader (old : Rcode) : DnsReader DnsMessageCtx := do
  let requestId ← unmarshallShort
  let flags := UInt16.ofNat (← unmarshallShort)
  let nbQuestions ← unmarshallShort
  let nbAnswers ← unmarshallShort
  let nbAuthServers ← unmarshallShort
  let nbAddInfos ← unmarshallShort
  return {
    isReply := isSet qrFlagPos flags
    requestId := requestId
    opcode :=
      if isSet (opcodeFlagPos + 3) flags = true then .iquery
      else if isSet (opcodeFlagPos + 2) flags = true then .status
      else .query
    aaFlag := isSet aaFlagPos flags
    tcFlag := isSet tcFlagPos flags
    recFlag := isSet recFlagPos flags
    recDispFlag := isSet (rcodeFlagPos + 3) flags
    rcode := DnsHeader.rcode ⟨UInt16.ofNat requestId, flags, UInt16.ofNat nbQuestions⟩ old
    nbQuestions := nbQuestions
    nbAnswers := nbAnswers
    nbAuthServers := nbAuthServers
    nbAddInfos := nbAddInfos }

/-! ## Messages -/

structure DnsRequest where
  requestId : Nat
  opcode : Opcode
  authoritative : Bool
  questions : List Question
  deriving DecidableEq

structure DnsReply where
  requestId : Nat
  opcode : Opcode
  authoritative : Bool
  rcode : Rcode
  answers : List RR
  authority : List RR
  additional : List RR
  deriving DecidableEq

structure DnsContents where
  header : DnsMessageCtx
  questions : List Question
  answers : List RR
  authority : List RR
  additional : List RR
  deriving DecidableEq

def DnsRequest.marshall (r : DnsRequest) : Except Exn (List UInt8) := do
  let nbQuestions ← toUnsignedShort r.questions.length
  let requestId ← toUnsignedShort r.requestId
  let flags ← requestFlags r.opcode r.authoritative
  let body ← r.questions.mapM marshallQuestion
  return marshallHeader requestId flags nbQuestions 0 0 0 ++ body.flatten

def DnsReply.marshall (r : DnsReply) : Except Exn (List UInt8) := do
  let answers ← marshallRRs r.answers
  let authority ← marshallRRs r.authority
  let additional ← marshallRRs r.additional
  let requestId ← toUnsignedShort r.requestId
  let flags ← replyFlags r.opcode r.authoritative r.rcode
  let nbAnswers ← toUnsignedShort r.answers.length
  let nbAuthServers ← toUnsignedShort r.authority.length
  let nbAddInfos ← toUnsignedShort r.additional.length
  return marshallHeader requestId flags 0 nbAnswers nbAuthServers nbAddInfos ++ answers ++
    authority ++ additional

/-- A session that a message comes to: `pendingReqs` are the identifiers of its pending requests,
and `rcode` is the Rcode_Flag of its context. -/
structure DnsReceiver where
  role : DnsRole
  pendingReqs : List Nat
  rcode : Rcode
  deriving DecidableEq

/-- `Process_Message`.  The body of a reply is read when there is no error; `Current_Question_Nb` is
0 when a request comes. -/
def DnsReceiver.processMessage (s : DnsReceiver) (header : DnsMessageCtx) :
    DnsReader DnsContents :=
  if header.isReply = true then do
    raiseIf (s.role ≠ .client) .dnsError
    raiseIf (header.requestId ∉ s.pendingReqs) .dnsError
    if header.rcode = .noError then
      let answers ← times unmarshallRR header.nbAnswers
      let authority ← times unmarshallRR header.nbAuthServers
      let additional ← times unmarshallRR header.nbAddInfos
      return ⟨header, [], answers, authority, additional⟩
    else return ⟨header, [], [], [], []⟩
  else do
    raiseIf (s.role ≠ .server) .dnsError
    let questions ← times unmarshallQuestion header.nbQuestions
    return ⟨header, questions, [], [], []⟩

def DnsReceiver.unmarshall (s : DnsReceiver) : DnsReader DnsContents := do
  let header ← unmarshallHeader s.rcode
  s.processMessage header

/-- `Handle_Data_Indication`: any exception is thrown as an error. -/
def DnsReceiver.handleDataIndication (s : DnsReceiver) (data : List UInt8) :
    Except SysError DnsContents :=
  match s.unmarshall data with
  | .ok m _ => .ok m
  | .error _ _ => .error ⟨.commFailureE, 0, .completedMaybe⟩

end PolyORB
