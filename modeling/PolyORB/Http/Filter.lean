import PolyORB.Http.Words
import PolyORB.Lib.Checked

/-!
# The HTTP filter

`PolyORB.Filters.HTTP`, from the lower layer to the upper one: `Handle_Data_Indication` and what it
calls.  `In_Buf` is kept as the octets from its current position on, which are those of an
unfinished line, and as contiguous.  Strings have no upper bound on their length.

A line that raises an exception leaves nothing behind: all it can have set before is reset by
`Clear_Message_State`.
-/

namespace PolyORB.Http

open Lines

inductive EndpointRole where
  | client | server
  deriving DecidableEq

inductive HttpState where
  | startLine | header | chunkSize | entity | trailer
  deriving DecidableEq

/-- `Line_By_Line`, which the trailer is not part of. -/
def HttpState.lineByLine : HttpState → Bool
  | startLine | header | chunkSize => true
  | entity | trailer => false

abbrev Natural := {n : Nat // n ≤ 2147483647}

def naturalValue (s : Text) : Except Exn Natural :=
  match Literals.valueIn 0 2147483647 s with
  | some i => if h : i.toNat ≤ 2147483647 then .ok ⟨i.toNat, h⟩ else .error .constraintError
  | none => .error .constraintError

theorem naturalValue_decimal (n : Natural) : naturalValue (Literals.decimal n) = .ok n := by
  rw [naturalValue, Literals.valueIn_decimal (Int.natCast_nonneg _) (by omega)]
  exact dif_pos n.2

structure HttpVersion where
  major : Natural
  minor : Natural
  deriving DecidableEq

def defaultHttpVersion : HttpVersion := ⟨⟨1, by decide⟩, ⟨1, by decide⟩⟩

/-- Messages that the filter emits while it handles data: to the upper layer the target and the
arrival of a body, at which its other fields can be read, and to the lower layer octets. -/
inductive HttpOutput where
  | setTargetObject (target : Text)
  | dataIndication (body : Text) (method : Method) (status : HttpStatusCode) (soapAction : Text)
  | dataOut (octets : Text)
  deriving DecidableEq

/-- `messageBuf` tells whether the upper layer has given a buffer, and `expected` is the amount of
the last `Expect_Data`. -/
structure HttpFilter where
  role : EndpointRole
  state : HttpState
  crSeen : Bool
  inBuf : Text
  messageBuf : Bool
  version : HttpVersion
  status : HttpStatusCode
  requestMethod : Method
  requestUri : Option Text
  contentLength : Int
  /-- Applied transfer encodings, in reverse order. -/
  transferEncoding : List Text
  chunked : Bool
  transferLength : Int
  entity : Text
  soapAction : Text
  expected : Option Nat
  sent : List HttpOutput

def bufferSize : Nat := 1024

namespace HttpFilter

def clearMessageState (f : HttpFilter) : HttpFilter :=
  { f with
    version := defaultHttpVersion
    status := .unknown
    requestMethod := .extensionMethod
    requestUri := none
    contentLength := -1
    transferEncoding := []
    chunked := false
    transferLength := -1
    entity := []
    soapAction := [] }

/-- A filter whose connection has been made, when the upper layer has given its buffer. -/
def connected (role : EndpointRole) : HttpFilter where
  role := role
  state := .startLine
  crSeen := false
  inBuf := []
  messageBuf := true
  version := defaultHttpVersion
  status := .unknown
  requestMethod := .extensionMethod
  requestUri := none
  contentLength := -1
  transferEncoding := []
  chunked := false
  transferLength := -1
  entity := []
  soapAction := []
  expected := some bufferSize
  sent := []

def emit (f : HttpFilter) (o : HttpOutput) : HttpFilter := { f with sent := f.sent ++ [o] }

end HttpFilter

/-! ## Versions and status codes -/

def imageVersion (v : HttpVersion) : Text :=
  ascii "HTTP/" ++ Literals.decimal v.major ++ ascii "." ++ Literals.decimal v.minor

/-- `HTTP_Error` unless there is something on both sides of the dot, or at least after it. -/
def parseHttpVersion (s : Text) : Except Exn HttpVersion :=
  let major := (s.drop 5).takeWhile (· != 46)
  let minor := ((s.drop 5).dropWhile (· != 46)).tail
  if s.length < 5 then .error .constraintError
  else if s.take 5 ≠ ascii "HTTP/" then .error .httpError
  else if minor = [] then .error .httpError
  else do return ⟨← naturalValue major, ← naturalValue minor⟩

/-- Known codes, and for unknown codes in a valid class the other code of that class. -/
def toHttpStatusCode (status : Nat) : Except Exn HttpStatusCode :=
  match HttpStatusCode.all.find? fun s => s.code == status with
  | some s => .ok s
  | none =>
    match status / 100 with
    | 1 => .ok .s1xxOtherInformational
    | 2 => .ok .s2xxOtherSuccessful
    | 3 => .ok .s3xxOtherRedirection
    | 4 => .ok .s4xxOtherClientError
    | 5 => .ok .s5xxOtherServerError
    | _ => .error .constraintError

def statusLine (v : HttpVersion) (status : HttpStatusCode) : Text :=
  imageVersion v ++ ascii " " ++ Literals.decimal status.code ++ ascii " " ++ status.image

def line (s : Text) : Text := s ++ crlf

/-! ## Parsing -/

namespace HttpFilter

variable (W : WordSets)

/-- Empty lines received instead of a request line are ignored. -/
def parseRequestLine (f : HttpFilter) (s : Text) : Except Exn HttpFilter :=
  if s = [] then .ok f
  else
    let uri := word (afterWord s)
    let version := afterWord (afterWord s)
    if version = [] then .error .httpError
    else do
      let v ← parseHttpVersion version
      return { f with
        requestMethod := W.methods.inWordSet (word s)
        requestUri := some uri
        version := v
        state := .header }

/-- What follows the code is ignored. -/
def parseStatusLine (f : HttpFilter) (s : Text) : Except Exn HttpFilter :=
  if 32 ∉ s then .error .httpError
  else do
    let v ← parseHttpVersion (word s)
    let rest := afterWord s
    if 32 ∉ rest ∨ (word rest).length ≠ 3 then .error .httpError
    else do
      let code ← naturalValue (word rest)
      let status ← toHttpStatusCode code
      return { f with version := v, status := status, state := .header }

def toLower (c : UInt8) : UInt8 :=
  if 65 ≤ c.toNat ∧ c.toNat ≤ 90 ∨ 192 ≤ c.toNat ∧ c.toNat ≤ 222 ∧ c.toNat ≠ 215 then c + 32 else c

/-- The items of a comma-separated list; nothing after the last comma is no item.  The last position
of an item of white space is left unset by `Parse_CSL_Item`; the item is empty here. -/
def cslItems (s : Text) : List Text :=
  let items := s.splitOn 44
  (if items.getLast? = some [] then items.dropLast else items).map fun i => trimLws (skipLws i)

def encodingChunked : Text := ascii "chunked"

/-- What a header says; those that are not listed are ignored. -/
def headerReceived (f : HttpFilter) (kind : Header) (value : Text) : Except Exn HttpFilter :=
  let trimmed := trimLws (skipLws value)
  match kind with
  | .contentLength =>
    if trimmed = [] then .error .httpError
    else match Literals.valueIn 0 9223372036854775807 trimmed with
      | some n => .ok { f with contentLength := n }
      | none => .error .constraintError
  | .transferEncoding =>
    let encodings := ((cslItems value).map fun i => i.map toLower).reverse
    if f.transferEncoding ≠ [] then .error .httpError
    else if encodings.head? = some encodingChunked then
      .ok { f with transferEncoding := encodings }
    else .error .httpError
  | .soapAction =>
    if trimmed = [] then .error .httpError
    else .ok { f with soapAction := unquote trimmed }
  | _ => .ok f

/-- Headers of requests, or of responses, are not expected in this role. -/
def misplaced (role : EndpointRole) (kind : Header) : Bool :=
  match role with
  | .client => kind.isRequest
  | .server => kind.isResponse

def parseHeaderLine (f : HttpFilter) (s : Text) : Except Exn HttpFilter :=
  let kind := W.headers.inWordSet (s.takeWhile (· != 58))
  if 58 ∉ s then .error .httpError
  else if misplaced f.role kind = true then .error .httpError
  else headerReceived f kind (s.dropWhile (· != 58)).tail

def hexDigit (c : UInt8) : Except Exn Nat :=
  (Literals.digitValue c).elim (.error .constraintError) .ok

def parseHex (s : Text) : Except Exn Nat :=
  s.foldlM (fun res c => do
    let res := res * 16 + (← hexDigit c)
    if 2147483647 < res then throw .constraintError
    return res) 0

/-- The chunk data are followed by a line end; the last chunk has size 0. -/
def parseChunkSize (f : HttpFilter) (s : Text) : Except Exn HttpFilter := do
  let size ← parseHex (s.takeWhile (· != 59))
  if 0 < size then return { f with transferLength := size + 2, state := .entity }
  else return { f with transferLength := -1, state := .trailer }

/-- The end of the headers determines the transfer length of the body.  On the client side, the end
of the connection may determine it. -/
def headersComplete (f : HttpFilter) : Except Exn HttpFilter :=
  if f.transferEncoding ≠ [] then
    if f.transferEncoding.head? = some encodingChunked then
      .ok { f with chunked := true, state := .chunkSize }
    else .ok f
  else if 0 < f.contentLength then
    .ok { f with transferLength := f.contentLength, state := .entity }
  else if f.role = .server then .error .httpError
  else .ok { f with transferLength := -1, state := .entity }

def processLine (f : HttpFilter) (s : Text) : Except Exn HttpFilter :=
  match f.state with
  | .startLine => if f.role = .server then parseRequestLine W f s else parseStatusLine f s
  | .chunkSize => parseChunkSize f s
  | .header | .trailer => if 2 < s.length then parseHeaderLine W f s else headersComplete f
  | .entity => .error .programError

/-! ## Receiving -/

/-- `Error` -/
def answer (f : HttpFilter) (status : HttpStatusCode) : HttpFilter :=
  f.clearMessageState.emit (.dataOut (line (statusLine f.version status)))

/-- `Process_Line`, and what happens to its exceptions. -/
def lineReceived (f : HttpFilter) (s : Text) : Except Exn HttpFilter :=
  match processLine W f s with
  | .ok f' => .ok f'
  | .error e =>
    if f.role = .server then .ok (f.clearMessageState.answer .s400BadRequest) else .error e

/-- The contents of the buffer are released. -/
def messageComplete (f : HttpFilter) : Except Exn HttpFilter :=
  let targeted := f.requestUri.elim f fun uri => f.emit (.setTargetObject uri)
  let signalled := targeted.emit (.dataIndication f.entity f.requestMethod f.status f.soapAction)
  if f.messageBuf = false then .error .programError
  else .ok { signalled.clearMessageState with state := .startLine, inBuf := [] }

/-- The end of `Handle_Data_Indication` -/
def expectData (f : HttpFilter) : HttpFilter :=
  { f with expected :=
      if f.transferLength = -1 then some bufferSize
      else if f.transferLength = 0 then none
      else some f.transferLength.toNat }

/-- A complete chunk ends with a line end. -/
def chunkComplete (f : HttpFilter) : Except Exn HttpFilter :=
  let l := f.entity.length
  if f.entity.drop (l - 2) ≠ crlf then .error .httpError
  else .ok { f with entity := f.entity.take (l - 2), state := .chunkSize, transferLength := -1 }

/-- `n` octets of the data belong to the entity. -/
def append (f : HttpFilter) (data : Text) (n : Nat) : HttpFilter :=
  { f with entity := f.entity ++ data.take n, transferLength := f.transferLength - n }

/-- Octets of an entity, and the data that are not processed yet.  What follows the end of a message
has gone with the contents of the buffer. -/
def entityReceived (f : HttpFilter) (data : Text) : Except Exn (HttpFilter × Text) :=
  let n := min data.length f.transferLength.toNat
  if f.transferLength < 0 then .error .constraintError
  else if f.transferLength - n ≠ 0 then .ok (f.append data n, data.drop n)
  else if f.chunked = true then do
    let f' ← chunkComplete (f.append data n)
    return (f', data.drop n)
  else do
    let f' ← messageComplete (f.append data n)
    if data.drop n = [] then .ok (f', []) else .error .constraintError

/-- A line, or octets of an entity. -/
def processData (f : HttpFilter) (data : Text) : Except Exn (HttpFilter × Text) :=
  if f.state.lineByLine = true then
    match scan f.crSeen data with
    | .malformed => .error .httpError
    | .unfinished crSeen => .ok ({ f with crSeen := crSeen, inBuf := f.inBuf ++ data }, [])
    | .line n => do
      let octets := f.inBuf ++ data.take n
      let f' ← lineReceived W { f with crSeen := false, inBuf := [] }
        (octets.take (octets.length - 2))
      return (f', data.drop n)
  else entityReceived f data

def steps (f : HttpFilter) (data : Text) : Nat :=
  2 * data.length + if f.state.lineByLine = true then 0 else 1

theorem chunkComplete_state {f f' : HttpFilter} (h : chunkComplete f = .ok f') :
    f'.state = .chunkSize := by
  simp only [chunkComplete] at h
  split at h
  · cases h
  · cases h; rfl

theorem entityReceived_steps {f f' : HttpFilter} {data rest : Text}
    (h : entityReceived f data = .ok (f', rest)) (hrest : rest ≠ []) :
    f'.steps rest ≤ 2 * data.length := by
  rw [entityReceived] at h
  split_ifs at h with hneg hmore hchunked hdata
  · cases h
    exact absurd (List.drop_eq_nil_of_le (by omega)) hrest
  · obtain ⟨c, hc, h⟩ := Checked.bind_eq_ok.1 h
    cases h
    simp [steps, chunkComplete_state hc, HttpState.lineByLine]
  · obtain ⟨c, -, h⟩ := Checked.bind_eq_ok.1 h
    cases h
    exact absurd rfl hrest
  · obtain ⟨c, -, h⟩ := Checked.bind_eq_ok.1 h
    cases h

theorem processData_steps {f f' : HttpFilter} {data rest : Text}
    (h : processData W f data = .ok (f', rest)) (hrest : rest ≠ []) :
    f'.steps rest < f.steps data := by
  rw [processData] at h
  split at h
  · split at h
    · cases h
    · cases h; exact absurd rfl hrest
    · rename_i n hscan
      obtain ⟨f₁, -, h⟩ := Checked.bind_eq_ok.1 h
      cases h
      have hn := scan_pos hscan
      have hlen : n < data.length := by
        by_contra hlen
        exact hrest (List.drop_eq_nil_of_le (by omega))
      rw [steps, steps, List.length_drop]
      split <;> omega
  · rename_i hstate
    have hle := entityReceived_steps h hrest
    rw [steps.eq_def f, if_neg hstate]
    omega

/-- `Handle_Data_Indication`, where `data` has arrived. -/
def receive (f : HttpFilter) (data : Text) : Except Exn HttpFilter :=
  match _h : processData W f data with
  | .error e => .error e
  | .ok (f', rest) => if _hrest : rest = [] then .ok f'.expectData else receive f' rest
termination_by f.steps data
decreasing_by exact processData_steps W _h _hrest

variable {f f' : HttpFilter} {data rest s : Text}

theorem receive_more (h : processData W f data = .ok (f', rest)) (hrest : rest ≠ []) :
    receive W f data = receive W f' rest := by
  rw [receive]
  split
  · rename_i e he
    rw [h] at he
    cases he
  · rename_i g r hg
    rw [h] at hg
    cases hg
    exact dif_neg hrest

theorem receive_done (h : processData W f data = .ok (f', [])) :
    receive W f data = .ok f'.expectData := by
  rw [receive]
  split
  · rename_i e he
    rw [h] at he
    cases he
  · rename_i g r hg
    rw [h] at hg
    cases hg
    exact dif_pos rfl

theorem receive_error {e : Exn} (h : processData W f data = .error e) :
    receive W f data = .error e := by
  rw [receive]
  split
  · rename_i e' he
    rw [h] at he
    cases he
    rfl
  · rename_i g r hg
    rw [h] at hg
    cases hg

/-- The filter waits for a line, of which nothing has arrived. -/
structure AtLine (f : HttpFilter) : Prop where
  lineByLine : f.state.lineByLine = true
  crSeen : f.crSeen = false
  inBuf : f.inBuf = []

theorem processData_line (hf : f.AtLine) (hs : IsLine s) :
    processData W f (line s ++ rest) =
      (lineReceived W f s >>= fun f' => .ok (f', rest)) := by
  have hscan : scan f.crSeen (line s ++ rest) = .line (s.length + 2) := by
    rw [hf.crSeen]
    exact scan_line hs
  have hlen : (line s).length = s.length + 2 := by simp [line, crlf]
  have htake : (line s ++ rest).take (s.length + 2) = line s := by
    rw [← hlen, List.take_left]
  have hdrop : (line s ++ rest).drop (s.length + 2) = rest := by
    rw [← hlen, List.drop_left]
  have hsame : { f with crSeen := false, inBuf := [] } = f := by
    rcases f with ⟨⟩
    obtain ⟨-, hcr, hbuf⟩ := hf
    cases hcr
    cases hbuf
    rfl
  rw [processData, if_pos hf.lineByLine, hscan]
  simp only [htake, hdrop, hsame, hf.inBuf, List.nil_append, hlen, Nat.add_sub_cancel]
  rw [line, List.take_left]
  rfl

theorem receive_line (hf : f.AtLine) (hs : IsLine s) (hok : lineReceived W f s = .ok f')
    (hrest : rest ≠ []) : receive W f (line s ++ rest) = receive W f' rest :=
  receive_more W (by rw [processData_line W hf hs, hok]; rfl) hrest

theorem receive_lastLine (hf : f.AtLine) (hs : IsLine s) (hok : lineReceived W f s = .ok f') :
    receive W f (line s) = .ok f'.expectData := by
  have hdata : processData W f (line s ++ []) = _ := processData_line W hf hs
  rw [hok, List.append_nil] at hdata
  exact receive_done W hdata

end HttpFilter
end PolyORB.Http
