import PolyORB.Http.Outputs
import PolyORB.Http.Writing

/-!
# The lines that are written, read

The start lines and headers of `Prepare_Request`, `Prepare_Header_Only` and `Prepare_Message` as the
parsers of the filter take them.
-/

namespace PolyORB.Http

open Lines

variable {W : WordSets} {f f' : HttpFilter} {rest s : Text} {v : HttpVersion}

/-! ## Numbers, versions, status codes -/

theorem isLine_decimal (n : Nat) : IsLine (Literals.decimal n) := by
  refine ⟨fun h => ?_, fun h => ?_⟩
  · have := Literals.mem_decimal h; simp at this
  · have := Literals.mem_decimal h; simp at this

theorem decimal_ne_nil (n : Nat) : Literals.decimal n ≠ [] := by
  obtain ⟨d, ds, hdec, -⟩ := Literals.decimal_eq n
  simp [hdec]

theorem not_mem_decimal {n : Nat} {c : UInt8} (hc : c.toNat < 48) : c ∉ Literals.decimal n :=
  fun h => by have := Literals.mem_decimal h; omega

theorem trimmed_decimal (n : Nat) : Trimmed (Literals.decimal n) := by
  have hdigit : ∀ c ∈ Literals.decimal n, isLws c = false := by
    intro c hc
    have hrange := Literals.mem_decimal hc
    have hblank : c ≠ 32 := fun h => by simp [h] at hrange
    have htab : c ≠ 9 := fun h => by simp [h] at hrange
    simp [isLws, hblank, htab]
  exact ⟨fun c hc => hdigit c (List.mem_of_mem_head? hc),
    fun c hc => hdigit c (List.mem_of_mem_getLast? hc)⟩

theorem isLine_imageVersion (v : HttpVersion) : IsLine (imageVersion v) :=
  (((by decide : IsLine (ascii "HTTP/")).append (isLine_decimal _)).append
    (by decide : IsLine (ascii "."))).append (isLine_decimal _)

theorem blank_not_mem_imageVersion (v : HttpVersion) : 32 ∉ imageVersion v := by
  have hslash : (32 : UInt8) ∉ ascii "HTTP/" := by decide
  have hdot : (32 : UInt8) ∉ ascii "." := by decide
  simp [imageVersion, hslash, hdot, not_mem_decimal (n := v.major) (c := 32) (by decide),
    not_mem_decimal (n := v.minor) (c := 32) (by decide)]

theorem imageVersion_ne_nil (v : HttpVersion) : imageVersion v ≠ [] := by
  simp [imageVersion, decimal_ne_nil]

theorem parseHttpVersion_image (v : HttpVersion) : parseHttpVersion (imageVersion v) = .ok v := by
  have hsplit : imageVersion v =
      ascii "HTTP/" ++ (Literals.decimal v.major ++ 46 :: Literals.decimal v.minor) := by
    simp [imageVersion, show ascii "." = [46] from rfl]
  have hmajor : ∀ c ∈ Literals.decimal v.major, (c != 46) = true := fun c hc => by
    simpa using fun he : c = 46 => not_mem_decimal (c := 46) (by decide) (he ▸ hc)
  have hdrop : (imageVersion v).drop 5 =
      Literals.decimal v.major ++ 46 :: Literals.decimal v.minor := by
    rw [hsplit]; rfl
  have htake : (imageVersion v).take 5 = ascii "HTTP/" := by rfl
  have hlen : ¬ (imageVersion v).length < 5 := by
    rw [hsplit, List.length_append, show (ascii "HTTP/").length = 5 from rfl]
    omega
  have htakeWhile : ((imageVersion v).drop 5).takeWhile (· != 46) = Literals.decimal v.major := by
    rw [hdrop, List.takeWhile_append_of_pos hmajor]
    simp
  have hdropWhile :
      (((imageVersion v).drop 5).dropWhile (· != 46)).tail = Literals.decimal v.minor := by
    rw [hdrop, List.dropWhile_append_of_pos hmajor]
    simp
  simp only [parseHttpVersion, htakeWhile, hdropWhile, htake]
  rw [if_neg hlen, if_neg (by simp), if_neg (decimal_ne_nil _), naturalValue_decimal,
    naturalValue_decimal]
  rfl

theorem toHttpStatusCode_code (status : HttpStatusCode) :
    toHttpStatusCode status.code = .ok status := by
  have hfind : HttpStatusCode.all.find? (fun s => s.code == status.code) = some status := by
    have hsome : (HttpStatusCode.all.find? fun s => s.code == status.code).isSome :=
      List.find?_isSome.2 ⟨status, status.mem_all, by simp⟩
    obtain ⟨t, ht⟩ := Option.isSome_iff_exists.1 hsome
    have hcode : t.code = status.code := by simpa using List.find?_some ht
    rw [ht, HttpStatusCode.code_injective hcode]
  simp [toHttpStatusCode, hfind]

/-! ## Headers -/

theorem word_spec {h : Header} {w : Text} (hw : h.word = some w) : w ≠ [] ∧ 58 ∉ w ∧ IsLine w := by
  cases h <;> cases hw <;> decide

theorem isLine_header (h : Header) {value : Text} (hvalue : IsLine value) :
    IsLine (header h value) := by
  have hword : IsLine (h.word.getD []) := by
    cases hw : h.word with
    | none => decide
    | some w => exact (word_spec hw).2.2
  exact (hword.append (by decide)).append hvalue

namespace HttpFilter

theorem processLine_header {h : Header} {w value : Text} (hstate : f.state = .header)
    (hw : h.word = some w) :
    processLine W f (header h value) =
      if misplaced f.role h = true then .error .httpError
      else headerReceived f h (32 :: value) := by
  obtain ⟨hne, hcolon, -⟩ := word_spec hw
  have hsplit : header h value = w ++ 58 :: 32 :: value := by
    simp [header, hw, show ascii ": " = [58, 32] from rfl]
  have hlen : 2 < (header h value).length := by
    have hpos := List.length_pos_iff.2 hne
    rw [hsplit]
    simp
    omega
  have hall : ∀ c ∈ w, (c != 58) = true := fun c hc => by
    simpa using fun he : c = 58 => hcolon (he ▸ hc)
  have htake : (header h value).takeWhile (· != 58) = w := by
    rw [hsplit, List.takeWhile_append_of_pos hall]
    simp
  have hdrop : ((header h value).dropWhile (· != 58)).tail = 32 :: value := by
    rw [hsplit, List.dropWhile_append_of_pos hall]
    simp
  have hmem : 58 ∈ header h value := by rw [hsplit]; simp
  have hkind : W.headers.inWordSet w = h := W.headers.inWordSet_word (by rw [W.headers_table, hw])
  simp only [processLine, hstate, if_pos hlen, parseHeaderLine, htake, hdrop, hkind]
  rw [if_neg (not_not.2 hmem)]

theorem headerReceived_contentLength {n : Nat} (hn : n ≤ 9223372036854775807) :
    headerReceived f .contentLength (32 :: Literals.decimal n) =
      .ok { f with contentLength := n } := by
  have htrim : trimLws (skipLws (32 :: Literals.decimal n)) = Literals.decimal n := by
    rw [skipLws_blank, trim_eq_self_iff.2 (trimmed_decimal n)]
  simp only [headerReceived, htrim, Literals.valueIn_decimal (Int.natCast_nonneg n)
    (show (n : Int) ≤ 9223372036854775807 by omega)]
  exact if_neg (decimal_ne_nil n)

theorem headerReceived_soapAction {action : Text} :
    headerReceived f .soapAction (32 :: action) =
      if trimLws (skipLws action) = [] then .error .httpError
      else .ok { f with soapAction := unquote (trimLws (skipLws action)) } := by
  rw [headerReceived, skipLws_blank]

theorem lineReceived_ok (h : processLine W f s = .ok f') : lineReceived W f s = .ok f' := by
  rw [lineReceived, h]

structure InHeader (f : HttpFilter) : Prop extends f.AtLine where
  state : f.state = .header

theorem receive_header {h : Header} {w value : Text} (hf : f.InHeader) (hw : h.word = some w)
    (hvalue : IsLine value) (hplace : misplaced f.role h = false)
    (hok : headerReceived f h (32 :: value) = .ok f') (hrest : rest ≠ []) :
    receive W f (line (header h value) ++ rest) = receive W f' rest := by
  refine receive_line W hf.toAtLine (isLine_header h hvalue) (lineReceived_ok ?_) hrest
  rw [processLine_header hf.state hw, hplace, hok]
  rfl

theorem processLine_empty (hstate : f.state = .header) :
    processLine W f [] = headersComplete f := by
  simp [processLine, hstate]

theorem receive_body (body : Text) (hstate : f.state = .entity)
    (hlength : f.transferLength = body.length) (hchunked : f.chunked = false)
    (hbuf : f.messageBuf = true) :
    ∃ f', receive W f body = .ok f' ∧ f'.sent = (f.requestUri.elim f.sent fun uri =>
      f.sent ++ [.setTargetObject uri]) ++
        [.dataIndication (f.entity ++ body) f.requestMethod f.status f.soapAction] := by
  have hcomplete : ∃ f', messageComplete (f.append body body.length) = .ok f' ∧
      f'.sent = (f.requestUri.elim f.sent fun uri => f.sent ++ [.setTargetObject uri]) ++
        [.dataIndication (f.entity ++ body) f.requestMethod f.status f.soapAction] := by
    refine ⟨_, if_neg (by simp [append, hbuf]), ?_⟩
    cases huri : f.requestUri with
    | none => simp [append, emit, clearMessageState, huri]
    | some uri => simp [append, emit, clearMessageState, huri]
  obtain ⟨g, hg, hsent⟩ := hcomplete
  refine ⟨g.expectData, receive_done W ?_, hsent⟩
  rw [processData, hstate, if_neg (by decide), entityReceived]
  simp only [hchunked, hlength]
  simp [hg]

/-- A server that has rejected a line has answered, for good. -/
theorem head?_sent_of_rejected {e : Exn} (hf : f.AtLine) (hs : IsLine s) (hrole : f.role = .server)
    (hsent : f.sent = []) (herr : processLine W f s = .error e)
    (h : receive W f (line s ++ rest) = .ok f') :
    ∃ octets, f'.sent.head? = some (.dataOut octets) := by
  have hline : lineReceived W f s = .ok (f.clearMessageState.answer .s400BadRequest) := by
    rw [lineReceived, herr]
    exact if_pos hrole
  have hanswer : ∃ octets, (f.clearMessageState.answer .s400BadRequest).sent = [.dataOut octets] :=
    ⟨_, by rw [answer, emit, clearMessageState, clearMessageState, hsent]; rfl⟩
  obtain ⟨octets, hoctets⟩ := hanswer
  refine ⟨octets, ?_⟩
  by_cases hrest : rest = []
  · rw [hrest, List.append_nil, receive_lastLine W hf hs hline] at h
    cases h
    exact congrArg List.head? hoctets
  · rw [receive_line W hf hs hline hrest] at h
    obtain ⟨more, hmore⟩ := receive_sent h
    rw [hoctets] at hmore
    rw [← hmore]
    rfl

end HttpFilter
end PolyORB.Http
