import PolyORB.Http.RequestReading

/-!
# Requests and responses read back

What the filter of a client makes of the octets that `Prepare_Header_Only` and `Prepare_Message`
write, and when what is read is what was written, on both sides.
-/

namespace PolyORB.Http

open Lines HttpFilter

variable {W : WordSets} {f f' : HttpFilter} {rest : Text} {v : HttpVersion}

def ResponseData.body (rd : ResponseData) : Text := rd.elements.getD rd.messageBody

/-- The texts that are written in headers. -/
structure ResponseData.HeaderLines (rd : ResponseData) : Prop where
  location : IsLine rd.location
  contentType : IsLine rd.contentType
  realm : IsLine rd.realm

/-- A response whose header texts have no line ends. -/
structure SoapResponse where
  response : Response
  lines : response.data.HeaderLines
  length_le : response.data.contentLength ≤ 2147483647

abbrev SoapResponse.data (r : SoapResponse) : ResponseData := r.response.data

/-- The filter of a client that gets the octets written for the response signals exactly its body,
with its status. -/
def ResponseReadsBack (W : WordSets) (v : HttpVersion) (rd : ResponseData) : Prop :=
  ∃ f', receive W (connected .client) (prepareResponse v rd) = .ok f' ∧
    f'.sent = [.dataIndication rd.body .extensionMethod rd.statusCode []]

/-! ## The status line -/

/-- After the status line. -/
def answered (status : HttpStatusCode) (v : HttpVersion) : HttpFilter :=
  { connected .client with version := v, status := status, state := .header }

theorem isLine_statusLine (status : HttpStatusCode) : IsLine (statusLine v status) :=
  ((((isLine_imageVersion v).append (by decide)).append (isLine_decimal _)).append
    (by decide)).append status.isLine_image

theorem processLine_statusLine (status : HttpStatusCode) :
    processLine W (connected .client) (statusLine v status) =
      if status = .unknown then .error .httpError else .ok (answered status v) := by
  have hsplit : statusLine v status =
      imageVersion v ++ 32 :: (Literals.decimal status.code ++ 32 :: status.image) := by
    simp [statusLine, show ascii " " = [32] from rfl]
  have hdigits : 32 ∉ Literals.decimal status.code := not_mem_decimal (by decide)
  have hmem : 32 ∈ statusLine v status := by simp [hsplit]
  have hword : word (statusLine v status) = imageVersion v := by
    rw [hsplit, word_append (blank_not_mem_imageVersion v)]
  have hafter : afterWord (statusLine v status) =
      Literals.decimal status.code ++ 32 :: status.image := by
    rw [hsplit, afterWord_append (blank_not_mem_imageVersion v)]
    intro h
    rw [List.head?_append_of_ne_nil _ (decimal_ne_nil _)] at h
    exact hdigits (List.mem_of_head? h)
  have hcode : word (Literals.decimal status.code ++ 32 :: status.image) = _ := word_append hdigits
  simp only [processLine, connected, parseStatusLine, hword, hafter, hcode, parseHttpVersion_image]
  by_cases hunknown : status = .unknown
  · subst hunknown
    simp [hmem, HttpStatusCode.code, Literals.decimal]
  · obtain ⟨hlow, hhigh⟩ := HttpStatusCode.code_range hunknown
    have hvalue := naturalValue_decimal ⟨status.code, by omega⟩
    simp [hmem, Literals.length_decimal hlow hhigh, hvalue, toHttpStatusCode_code, hunknown,
      answered, connected]

/-! ## The headers -/

variable {rd : ResponseData}

theorem receive_locationLine (hf : f.InHeader) (hrole : f.role = .client)
    (hlines : rd.HeaderLines) (hrest : rest ≠ []) :
    receive W f (locationLine rd ++ rest) = receive W f rest := by
  rw [locationLine]
  split
  · exact receive_header hf rfl hlines.location (by rw [hrole]; rfl) rfl hrest
  · rw [List.nil_append]

theorem receive_realmLine (hf : f.InHeader) (hrole : f.role = .client)
    (hlines : rd.HeaderLines) (hrest : rest ≠ []) :
    receive W f (realmLine rd ++ rest) = receive W f rest := by
  have hvalue : IsLine (ascii "Basic realm=\"" ++ rd.realm ++ ascii "\"") :=
    ((by decide : IsLine (ascii "Basic realm=\"")).append hlines.realm).append (by decide)
  rw [realmLine]
  split
  · exact receive_header hf rfl hvalue (by rw [hrole]; rfl) rfl hrest
  · rw [List.nil_append]

/-- After the headers of a response. -/
def measured (status : HttpStatusCode) (v : HttpVersion) (n : Nat) : HttpFilter :=
  { answered status v with contentLength := n }

theorem receive_statusLine {status : HttpStatusCode} (hstatus : status ≠ .unknown)
    (hrest : rest ≠ []) :
    receive W (connected .client) (line (statusLine v status) ++ rest) =
      receive W (answered status v) rest := by
  have hline := processLine_statusLine (W := W) (v := v) status
  rw [if_neg hstatus] at hline
  exact receive_line W ⟨rfl, rfl, rfl⟩ (isLine_statusLine status) (lineReceived_ok hline) hrest

theorem inHeader_answered (status : HttpStatusCode) (v : HttpVersion) :
    (answered status v).InHeader := ⟨⟨rfl, rfl, rfl⟩, rfl⟩

theorem inHeader_measured (status : HttpStatusCode) (v : HttpVersion) (n : Nat) :
    (measured status v n).InHeader := ⟨⟨rfl, rfl, rfl⟩, rfl⟩

theorem receive_contentLength {status : HttpStatusCode} {n : Nat} (hn : n ≤ 2147483647)
    (hrest : rest ≠ []) :
    receive W (answered status v) (line (header .contentLength (Literals.decimal n)) ++ rest) =
      receive W (measured status v n) rest :=
  receive_header (inHeader_answered _ _) rfl (isLine_decimal _) rfl
    (headerReceived_contentLength (by omega)) hrest

theorem receive_prepareMessage (hlines : rd.HeaderLines)
    (hlen : rd.contentLength ≤ 2147483647) (hstatus : rd.statusCode ≠ .unknown) :
    receive W (connected .client) (prepareMessage v rd) =
      receive W (measured rd.statusCode v rd.contentLength) (line [] ++ rd.messageBody) := by
  simp only [prepareMessage, generalHeader, List.append_assoc]
  rw [receive_statusLine hstatus (by simp [line, crlf]),
    receive_locationLine (inHeader_answered _ _) rfl hlines (by simp [line, crlf]),
    receive_header (inHeader_answered _ _) rfl (by decide) rfl rfl (by simp [line, crlf]),
    receive_contentLength hlen (by simp [line, crlf]),
    receive_header (inHeader_measured _ _ _) rfl hlines.contentType rfl rfl (by simp [crlf]),
    receive_realmLine (inHeader_measured _ _ _) rfl hlines (by simp [crlf])]
  rfl

theorem receive_prepareHeaderOnly (hlines : rd.HeaderLines) (hstatus : rd.statusCode ≠ .unknown) :
    receive W (connected .client) (prepareHeaderOnly v rd) =
      receive W (measured rd.statusCode v 0) (line []) := by
  have hzero : ascii "0" = Literals.decimal 0 := rfl
  simp only [prepareHeaderOnly, generalHeader, List.append_assoc, hzero]
  rw [receive_statusLine hstatus (by simp [line, crlf]),
    receive_header (inHeader_answered _ _) rfl (by decide) rfl rfl (by simp [line, crlf]),
    receive_contentLength (by decide) (by simp [crlf]),
    receive_realmLine (inHeader_measured _ _ _) rfl hlines (by simp [crlf])]
  rfl

/-! ## Whole responses -/

theorem headersComplete_measured (status : HttpStatusCode) (v : HttpVersion) (n : Nat) :
    ∃ f', headersComplete (measured status v n) = .ok f' ∧ f'.sent = [] ∧
      (0 < n → f' = { measured status v n with transferLength := n, state := .entity }) := by
  rw [headersComplete, if_neg (by simp [measured, answered, connected])]
  by_cases hn : 0 < n
  · exact ⟨_, if_pos (by simpa [measured] using hn), rfl, fun _ => rfl⟩
  · exact ⟨_, (if_neg (by simpa [measured] using hn)).trans (if_neg (by rintro ⟨⟩)), rfl,
      fun h => absurd h hn⟩

theorem receive_measured_empty (status : HttpStatusCode) (v : HttpVersion) (n : Nat) :
    ∃ f', receive W (measured status v n) (line []) = .ok f' ∧ f'.sent = [] := by
  obtain ⟨f', hok, hsent, -⟩ := headersComplete_measured status v n
  exact ⟨_, receive_lastLine W (inHeader_measured _ _ _).toAtLine (by decide)
    (lineReceived_ok ((processLine_empty rfl).trans hok)), hsent⟩

theorem receive_measured (status : HttpStatusCode) {body : Text} (hbody : body ≠ []) :
    ∃ f', receive W (measured status v body.length) (line [] ++ body) = .ok f' ∧
      f'.sent = [.dataIndication body .extensionMethod status []] := by
  obtain ⟨g, hok, -, hg⟩ := headersComplete_measured status v body.length
  rw [hg (List.length_pos_iff.2 hbody)] at hok
  rw [receive_line W (inHeader_measured _ _ _).toAtLine (by decide)
    (lineReceived_ok ((processLine_empty rfl).trans hok)) hbody]
  obtain ⟨f', hread, hsent⟩ := receive_body (W := W) body
    (f := { measured status v body.length with transferLength := body.length, state := .entity })
    rfl rfl rfl rfl
  exact ⟨f', hread, hsent⟩

theorem not_readsBack_of_unknown (h : rd.statusCode = .unknown) :
    ¬ ResponseReadsBack W v rd := by
  rintro ⟨f', hread, -⟩
  have hline := processLine_statusLine (W := W) (v := v) rd.statusCode
  rw [if_pos h] at hline
  have hrejected : lineReceived W (connected .client) (statusLine v rd.statusCode) =
      .error .httpError := by
    rw [lineReceived, hline]
    exact if_neg (by decide)
  have herror : ∀ rest, receive W (connected .client) (line (statusLine v rd.statusCode) ++ rest) =
      .error .httpError := fun rest => receive_error W (by
    rw [processData_line W ⟨rfl, rfl, rfl⟩ (isLine_statusLine _), hrejected]
    rfl)
  rw [prepareResponse] at hread
  split at hread
  · simp only [prepareHeaderOnly, List.append_assoc, herror] at hread
    cases hread
  · simp only [prepareMessage, List.append_assoc, herror] at hread
    cases hread

/-- Only messages have a body, which their content length counts. -/
theorem Response.data_body (r : Response) (h : r.data.messageBody ≠ []) :
    r.data.mode = .message ∧ r.data.contentLength = r.data.messageBody.length ∧
      r.data.body = r.data.messageBody := by
  cases r with
  | acknowledge status body contentType =>
    by_cases hbody : body = []
    · rw [data, if_pos hbody] at h
      exact absurd rfl h
    · rw [data, if_neg hbody]
      exact ⟨rfl, rfl, rfl⟩
  | buildBinary => exact absurd rfl h
  | url => exact absurd rfl h
  | _ => exact ⟨rfl, rfl, rfl⟩

theorem responseReadsBack_iff {r : SoapResponse} :
    ResponseReadsBack W v r.data ↔ r.data.statusCode ≠ .unknown ∧ r.data.messageBody ≠ [] := by
  constructor
  · intro h
    have hstatus : r.data.statusCode ≠ .unknown := fun hu => not_readsBack_of_unknown hu h
    refine ⟨hstatus, fun hbody => ?_⟩
    obtain ⟨f', hread, hsent⟩ := h
    have hempty : ∃ g n, receive W (measured r.data.statusCode v n) (line []) = .ok g ∧
        g.sent = [] ∧ receive W (connected .client) (prepareResponse v r.data) = .ok g := by
      rw [prepareResponse]
      split
      · obtain ⟨g, hg, hsent⟩ := receive_measured_empty (W := W) r.data.statusCode v 0
        exact ⟨g, 0, hg, hsent, by rw [receive_prepareHeaderOnly r.lines hstatus]; exact hg⟩
      · obtain ⟨g, hg, hsent⟩ :=
          receive_measured_empty (W := W) r.data.statusCode v r.data.contentLength
        refine ⟨g, _, hg, hsent, ?_⟩
        rw [receive_prepareMessage r.lines r.length_le hstatus, hbody, List.append_nil]
        exact hg
    obtain ⟨g, n, -, hg, hread'⟩ := hempty
    rw [hread] at hread'
    cases hread'
    rw [hg] at hsent
    cases hsent
  · rintro ⟨hstatus, hbody⟩
    obtain ⟨hmode, hlength, hsame⟩ := r.response.data_body hbody
    obtain ⟨f', hread, hsent⟩ :=
      receive_measured (W := W) (v := v) r.data.statusCode hbody
    refine ⟨f', ?_, ?_⟩
    · rw [prepareResponse]
      have hm : r.data.mode = .message := hmode
      rw [hm]
      refine (receive_prepareMessage r.lines r.length_le hstatus).trans ?_
      rw [show r.response.data.contentLength = _ from hlength]
      exact hread
    · rw [hsent]
      exact congrArg (fun b => [HttpOutput.dataIndication b .extensionMethod r.data.statusCode []])
        hsame.symm

/-! ## Both sides -/

/-- Requests and responses read back exactly when there is a body to read, the method, the status
and the URI can be told, and the action is not altered. -/
theorem exchange_readsBack_iff (W : WordSets) (v : HttpVersion) (request : SoapRequest)
    (response : SoapResponse) :
    (RequestReadsBack W v request.toAwsRequestOut ↔ Faithful request.toAwsRequestOut) ∧
      (ResponseReadsBack W v response.data ↔
        response.data.statusCode ≠ .unknown ∧ response.data.messageBody ≠ []) :=
  ⟨requestReadsBack_iff, responseReadsBack_iff⟩

/-- A request without a body. -/
def emptyPost : SoapRequest where
  requestMethod := .post
  relativeUri := ascii "/"
  data := []
  soapAction := ascii "echo"
  uri_plain := by decide
  action_plain := by decide
  data_length := by decide

/-- A response in header mode. -/
def acknowledged : SoapResponse where
  response := .acknowledge .s200Ok [] textHtml
  lines := ⟨by decide, by decide, by decide⟩
  length_le := by decide

/-- Neither of them reads back. -/
theorem not_exchange_readsBack_empty :
    ¬ RequestReadsBack .search defaultHttpVersion emptyPost.toAwsRequestOut ∧
      ¬ ResponseReadsBack .search defaultHttpVersion acknowledged.data :=
  ⟨fun h => (requestReadsBack_iff.1 h).data rfl, fun h => (responseReadsBack_iff.1 h).2 rfl⟩

def greeting : SoapRequest :=
  { emptyPost with data := ascii "Hello", data_length := by decide }

def answer : SoapResponse where
  response := .acknowledge .s200Ok (ascii "Hi") textHtml
  lines := ⟨by decide, by decide, by decide⟩
  length_le := by decide

/-- With a body both read back. -/
theorem exchange_readsBack_iff_greeting :
    RequestReadsBack .search defaultHttpVersion greeting.toAwsRequestOut ∧
      ResponseReadsBack .search defaultHttpVersion answer.data := by
  obtain ⟨hrequest, hresponse⟩ := exchange_readsBack_iff .search defaultHttpVersion greeting answer
  refine ⟨hrequest.2 ⟨rfl, by decide, by decide, ?_, ?_⟩, hresponse.2 ⟨by decide, by decide⟩⟩
  · exact trim_eq_self_iff.1 (by decide)
  · rintro ⟨h, -⟩
    exact absurd h (by decide)

end PolyORB.Http
