import PolyORB.Http.HeaderLines

/-!
# Requests read back

What the filter of a server makes of the octets that `Prepare_Request` writes.
-/

namespace PolyORB.Http

open Lines HttpFilter

variable {W : WordSets} {f f' : HttpFilter} {rest s : Text} {v : HttpVersion}

/-- A request as the SOAP layer makes it: its URI has neither blanks nor line ends, its action no
line ends, and its body is a string. -/
structure SoapRequest extends AwsRequestOut where
  uri_plain : 32 ∉ relativeUri ∧ IsLine relativeUri
  action_plain : IsLine soapAction
  data_length : data.length ≤ 2147483647

/-- The filter of a server that gets the octets written for the request signals exactly the request,
and nothing else happens. -/
def RequestReadsBack (W : WordSets) (v : HttpVersion) (ro : AwsRequestOut) : Prop :=
  ∃ octets f', prepareRequest v ro = .ok octets ∧ receive W (connected .server) octets = .ok f' ∧
    f'.sent = [.setTargetObject ro.relativeUri,
      .dataIndication ro.data ro.requestMethod .unknown ro.soapAction]

/-! ## The request line -/

/-- After the request line. -/
def requested (method : Method) (uri : Text) (v : HttpVersion) : HttpFilter :=
  { connected .server with
    requestMethod := method
    requestUri := some uri
    version := v
    state := .header }

theorem head?_imageVersion (v : HttpVersion) : (imageVersion v).head? ≠ some 32 :=
  fun h => blank_not_mem_imageVersion v (List.mem_of_head? h)

theorem afterWord_imageVersion (v : HttpVersion) : afterWord (imageVersion v) = [] :=
  afterWord_eq_nil (blank_not_mem_imageVersion v)

variable {m : Method} {w : Text}

theorem processLine_requestLine {uri : Text} (hm : m.word = some w) (huri : 32 ∉ uri) :
    processLine W (connected .server) (requestLine w uri v) =
      if uri = [] then .error .httpError else .ok (requested m uri v) := by
  have hw : 32 ∉ w := by cases m <;> cases hm <;> decide
  have hsplit : requestLine w uri v = w ++ 32 :: (uri ++ 32 :: imageVersion v) := by
    simp [requestLine, show ascii " " = [32] from rfl]
  have hne : requestLine w uri v ≠ [] := by simp [hsplit]
  have hword : word (requestLine w uri v) = w := by rw [hsplit, word_append hw]
  have hmethod : W.methods.inWordSet w = m := W.methods.inWordSet_word (by rw [W.methods_table, hm])
  by_cases huri0 : uri = []
  · have hafter : afterWord (requestLine w uri v) = imageVersion v := by
      rw [hsplit, huri0, List.nil_append, afterWord_blank hw,
        afterWord_append hw (head?_imageVersion v)]
    simp [processLine, connected, parseRequestLine, hafter, afterWord_imageVersion, hne, if_pos huri0]
  · have hafter : afterWord (requestLine w uri v) = uri ++ 32 :: imageVersion v := by
      rw [hsplit, afterWord_append hw]
      cases uri with
      | nil => exact absurd rfl huri0
      | cons c cs =>
        intro h
        cases h
        exact huri (List.mem_cons_self ..)
    have hversion : afterWord (uri ++ 32 :: imageVersion v) = imageVersion v :=
      afterWord_append huri (head?_imageVersion v)
    simp only [processLine, connected, parseRequestLine, hafter, hversion, hne, hword, hmethod,
      word_append huri, imageVersion_ne_nil, parseHttpVersion_image, if_false, if_true,
      if_neg huri0]
    rfl

theorem isLine_requestLine {uri : Text} (hm : m.word = some w) (huri : IsLine uri) :
    IsLine (requestLine w uri v) := by
  have hw : IsLine w := by cases m <;> cases hm <;> decide
  exact (((hw.append (by decide)).append huri).append (by decide)).append (isLine_imageVersion v)

/-! ## The headers -/

/-- What is left of the action. -/
def readAction (action : Text) : Text := unquote (trimLws (skipLws action))

theorem receive_soapAction {action : Text} (hf : f.InHeader) (hrole : f.role = .server)
    (hline : IsLine action) (hfresh : f.soapAction = [])
    (haction : action = [] ∨ trimLws (skipLws action) ≠ []) (hrest : rest ≠ []) :
    receive W f (soapActionLine action ++ rest) =
      receive W { f with soapAction := readAction action } rest := by
  rw [soapActionLine]
  split
  · rename_i hnil
    have hread : readAction action = f.soapAction := by rw [hnil, hfresh]; rfl
    rw [List.nil_append, hread]
  · rename_i hne
    refine receive_header hf rfl hline (by rw [hrole]; rfl) ?_ hrest
    rw [headerReceived_soapAction, if_neg (haction.resolve_left hne)]
    rfl

theorem receive_requestStart {ro : AwsRequestOut} (hm : m.word = some w)
    (huri : 32 ∉ ro.relativeUri ∧ IsLine ro.relativeUri) (hline : IsLine ro.soapAction)
    (huri0 : ro.relativeUri ≠ [])
    (haction : ro.soapAction = [] ∨ trimLws (skipLws ro.soapAction) ≠ []) (hrest : rest ≠ []) :
    receive W (connected .server) (requestStart v w ro ++ rest) =
      receive W { requested m ro.relativeUri v with soapAction := readAction ro.soapAction }
        rest := by
  have hstart := processLine_requestLine (W := W) (v := v) hm huri.1
  rw [if_neg huri0] at hstart
  have hf : (requested m ro.relativeUri v).InHeader := ⟨⟨rfl, rfl, rfl⟩, rfl⟩
  simp only [requestStart, List.append_assoc]
  rw [receive_line W ⟨rfl, rfl, rfl⟩ (isLine_requestLine hm huri.2) (lineReceived_ok hstart)
      (by simp [line, crlf]),
    receive_header hf rfl (by decide) rfl rfl (by simp [line, crlf]),
    receive_header hf rfl (by decide) rfl rfl (by simp [line, crlf]),
    receive_header hf rfl (by decide) rfl rfl (by simp [hrest]),
    receive_soapAction hf rfl hline rfl haction hrest]

/-! ## Whole requests -/

/-- After the headers of a request with a body. -/
def described (r : AwsRequestOut) (v : HttpVersion) : HttpFilter :=
  { requested r.requestMethod r.relativeUri v with
    soapAction := readAction r.soapAction
    contentLength := r.data.length }

theorem prepareRequest_post {r : AwsRequestOut} (hpost : r.requestMethod = .post) :
    prepareRequest v r = .ok (requestStart v (ascii "POST") r ++
      line (header .contentType (requestContentType r.soapAction)) ++
      line (header .contentLength (Literals.decimal r.data.length)) ++ crlf ++ r.data) := by
  rw [prepareRequest, hpost]
  rfl

theorem isLine_requestContentType (action : Text) : IsLine (requestContentType action) := by
  rw [requestContentType]
  split <;> decide

variable {r : SoapRequest}

theorem receive_post (hpost : r.requestMethod = .post) (huri : r.relativeUri ≠ [])
    (haction : r.soapAction = [] ∨ trimLws (skipLws r.soapAction) ≠ []) :
    receive W (connected .server) (requestStart v (ascii "POST") r.toAwsRequestOut ++
      line (header .contentType (requestContentType r.soapAction)) ++
      line (header .contentLength (Literals.decimal r.data.length)) ++ crlf ++ r.data) =
      receive W (described r.toAwsRequestOut v) (line [] ++ r.data) := by
  have hlen := r.data_length
  have hf : ({ requested r.requestMethod r.relativeUri v with
      soapAction := readAction r.soapAction } : HttpFilter).InHeader := ⟨⟨rfl, rfl, rfl⟩, rfl⟩
  simp only [List.append_assoc]
  rw [← List.append_assoc (requestStart _ _ _),
    List.append_assoc,
    receive_requestStart (m := r.requestMethod) (by rw [hpost]; rfl) r.uri_plain r.action_plain huri
      haction (by simp [line, crlf]),
    receive_header hf rfl (isLine_requestContentType _) rfl rfl (by simp [line, crlf]),
    receive_header hf rfl (isLine_decimal _) rfl (headerReceived_contentLength (by omega))
      (by simp [crlf])]
  rfl

theorem headersComplete_described (r : AwsRequestOut) (v : HttpVersion) :
    headersComplete (described r v) =
      if r.data = [] then .error .httpError
      else .ok { described r v with transferLength := r.data.length, state := .entity } := by
  rw [headersComplete, if_neg (by simp [described, requested, connected])]
  by_cases hdata : r.data = []
  · rw [if_pos hdata, if_neg (by simp [described, hdata])]
    exact if_pos rfl
  · rw [if_neg hdata, if_pos (by simpa [described, List.length_pos_iff] using hdata)]
    rfl

theorem receive_described {r : AwsRequestOut} (hdata : r.data ≠ []) :
    ∃ f', receive W (described r v) (line [] ++ r.data) = .ok f' ∧
      f'.sent = [.setTargetObject r.relativeUri,
        .dataIndication r.data r.requestMethod .unknown (readAction r.soapAction)] := by
  have hcomplete := headersComplete_described r v
  rw [if_neg hdata] at hcomplete
  rw [receive_line W ⟨rfl, rfl, rfl⟩ (by decide)
    (lineReceived_ok ((processLine_empty rfl).trans hcomplete)) hdata]
  obtain ⟨f', hok, hsent⟩ := receive_body (W := W) r.data
    (f := { described r v with transferLength := r.data.length, state := .entity })
    rfl rfl rfl rfl
  exact ⟨f', hok, hsent⟩

/-- The request is a `POST` with a URI and a body, and its action keeps what it has at its ends. -/
structure Faithful (r : AwsRequestOut) : Prop where
  post : r.requestMethod = .post
  uri : r.relativeUri ≠ []
  data : r.data ≠ []
  action : Trimmed r.soapAction ∧ ¬ Quoted r.soapAction

theorem trim_ne_nil {s : Text} (hs : s ≠ []) (h : Trimmed s) : trimLws (skipLws s) ≠ [] := by
  rwa [trim_eq_self_iff.2 h]

theorem Faithful.readsBack (h : Faithful r.toAwsRequestOut) :
    RequestReadsBack W v r.toAwsRequestOut := by
  have haction : r.soapAction = [] ∨ trimLws (skipLws r.soapAction) ≠ [] := by
    by_cases hnil : r.soapAction = []
    · exact .inl hnil
    · exact .inr (trim_ne_nil hnil h.action.1)
  obtain ⟨f', hok, hsent⟩ := receive_described (W := W) (v := v) h.data
  refine ⟨_, f', prepareRequest_post h.post, ?_, ?_⟩
  · rw [receive_post h.post h.uri haction, hok]
  · rw [hsent, readAction, unquote_trim_eq_self_iff.2 h.action]

theorem not_readsBack_of_head {r : AwsRequestOut}
    (h : ∀ octets f', prepareRequest v r = .ok octets →
      receive W (connected .server) octets = .ok f' →
        ∃ answer, f'.sent.head? = some (.dataOut answer)) : ¬ RequestReadsBack W v r := by
  rintro ⟨octets, f', hwrite, hread, hsent⟩
  obtain ⟨answer, hanswer⟩ := h octets f' hwrite hread
  rw [hsent] at hanswer
  cases hanswer

theorem head?_sent_of_uri {ro : AwsRequestOut} (hm : m.word = some w) (huri : ro.relativeUri = [])
    (h : receive W (connected .server) (requestStart v w ro ++ rest) = .ok f') :
    ∃ answer, f'.sent.head? = some (.dataOut answer) := by
  have hstart := processLine_requestLine (W := W) (v := v) hm (List.not_mem_nil (a := 32))
  simp only [requestStart, List.append_assoc, huri] at h
  exact head?_sent_of_rejected ⟨rfl, rfl, rfl⟩ (isLine_requestLine hm (by decide)) rfl rfl hstart h

theorem head?_sent_of_action {ro : AwsRequestOut} (hm : m.word = some w)
    (huri : 32 ∉ ro.relativeUri ∧ IsLine ro.relativeUri) (hline : IsLine ro.soapAction)
    (huri0 : ro.relativeUri ≠ []) (haction : ro.soapAction ≠ [])
    (hblank : trimLws (skipLws ro.soapAction) = [])
    (h : receive W (connected .server) (requestStart v w ro ++ rest) = .ok f') :
    ∃ answer, f'.sent.head? = some (.dataOut answer) := by
  have hstart := processLine_requestLine (W := W) (v := v) hm huri.1
  rw [if_neg huri0] at hstart
  have hf : (requested m ro.relativeUri v).InHeader := ⟨⟨rfl, rfl, rfl⟩, rfl⟩
  simp only [requestStart, List.append_assoc, soapActionLine, if_neg haction] at h
  rw [receive_line W ⟨rfl, rfl, rfl⟩ (isLine_requestLine hm huri.2) (lineReceived_ok hstart)
      (by simp [line, crlf]),
    receive_header hf rfl (by decide) rfl rfl (by simp [line, crlf]),
    receive_header hf rfl (by decide) rfl rfl (by simp [line, crlf]),
    receive_header hf rfl (by decide) rfl rfl (by simp [line, crlf])] at h
  refine head?_sent_of_rejected (e := .httpError) hf.toAtLine (isLine_header _ hline) rfl rfl ?_ h
  rw [processLine_header rfl rfl, headerReceived_soapAction, if_pos hblank]
  rfl

theorem head?_sent_of_start (hm : m.word = some w)
    (h : receive W (connected .server) (requestStart v w r.toAwsRequestOut ++ rest) = .ok f')
    (hrest : r.relativeUri ≠ [] → (r.soapAction = [] ∨ trimLws (skipLws r.soapAction) ≠ []) →
      ∃ answer, f'.sent.head? = some (.dataOut answer)) :
    ∃ answer, f'.sent.head? = some (.dataOut answer) := by
  by_cases huri : r.relativeUri = []
  · exact head?_sent_of_uri hm huri h
  by_cases haction : r.soapAction = [] ∨ trimLws (skipLws r.soapAction) ≠ []
  · exact hrest huri haction
  · rw [not_or, not_not] at haction
    exact head?_sent_of_action hm r.uri_plain r.action_plain huri haction.1 haction.2 h

/-- A `GET` request has no body, and is rejected for it. -/
theorem not_readsBack_get (hget : r.requestMethod = .get) :
    ¬ RequestReadsBack W v r.toAwsRequestOut := by
  refine not_readsBack_of_head fun octets f' hwrite hread => ?_
  have hm : r.requestMethod.word = some (ascii "GET") := by rw [hget]; rfl
  have hoctets : octets = requestStart v (ascii "GET") r.toAwsRequestOut ++ crlf := by
    rw [prepareRequest, hget] at hwrite
    exact (Except.ok.inj hwrite).symm
  rw [hoctets] at hread
  refine head?_sent_of_start hm hread fun huri haction => ?_
  rw [receive_requestStart hm r.uri_plain r.action_plain huri haction (by decide),
    ← List.append_nil crlf] at hread
  exact head?_sent_of_rejected (s := []) (e := .httpError) ⟨rfl, rfl, rfl⟩ (by decide) rfl rfl
    rfl hread

theorem RequestReadsBack.post (h : RequestReadsBack W v r.toAwsRequestOut) :
    r.requestMethod = .post := by
  obtain ⟨octets, f', hwrite, -⟩ := id h
  rw [prepareRequest] at hwrite
  cases hm : r.requestMethod with
  | post => rfl
  | get => exact absurd h (not_readsBack_get hm)
  | _ => rw [hm] at hwrite; cases hwrite

theorem RequestReadsBack.faithful (h : RequestReadsBack W v r.toAwsRequestOut) :
    Faithful r.toAwsRequestOut := by
  have hpost := h.post
  have hm : r.requestMethod.word = some (ascii "POST") := by rw [hpost]; rfl
  obtain ⟨octets, f', hwrite, hread, hsent⟩ := h
  rw [prepareRequest_post hpost] at hwrite
  cases hwrite
  have hnot : ¬ ∃ answer, f'.sent.head? = some (.dataOut answer) := by
    rintro ⟨answer, hanswer⟩
    rw [hsent] at hanswer
    cases hanswer
  have hstart := hread
  simp only [List.append_assoc] at hstart
  have huri : r.relativeUri ≠ [] := fun huri => hnot (head?_sent_of_uri hm huri hstart)
  have haction : r.soapAction = [] ∨ trimLws (skipLws r.soapAction) ≠ [] := by
    by_contra haction
    rw [not_or, not_not] at haction
    exact hnot (head?_sent_of_action hm r.uri_plain r.action_plain huri haction.1 haction.2 hstart)
  rw [receive_post hpost huri haction] at hread
  have hdata : r.data ≠ [] := by
    intro hdata
    have hcomplete := headersComplete_described r.toAwsRequestOut v
    rw [if_pos hdata] at hcomplete
    exact hnot (head?_sent_of_rejected ⟨rfl, rfl, rfl⟩ (by decide) rfl rfl
      ((processLine_empty rfl).trans hcomplete) hread)
  obtain ⟨g, hok, hg⟩ := receive_described (W := W) (v := v) hdata
  rw [hok] at hread
  cases hread
  rw [hg] at hsent
  have hread : readAction r.soapAction = r.soapAction := by simpa using hsent
  exact ⟨hpost, huri, hdata, unquote_trim_eq_self_iff.1 hread⟩

theorem requestReadsBack_iff :
    RequestReadsBack W v r.toAwsRequestOut ↔ Faithful r.toAwsRequestOut :=
  ⟨RequestReadsBack.faithful, Faithful.readsBack⟩

end PolyORB.Http
