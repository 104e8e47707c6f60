import PolyORB.Http.Filter

/-!
# What the filter has emitted

Parsing emits nothing, and what has been emitted stays.
-/

namespace PolyORB.Http

open Lines

namespace HttpFilter

variable {W : WordSets} {f f' : HttpFilter} {data rest s : Text}

theorem headerReceived_sent {kind : Header} (h : headerReceived f kind s = .ok f') :
    f'.sent = f.sent := by
  cases kind with
  | contentLength =>
    simp only [headerReceived] at h
    split_ifs at h
    split at h
    · cases h; rfl
    · cases h
  | transferEncoding =>
    simp only [headerReceived] at h
    split_ifs at h
    cases h; rfl
  | soapAction =>
    simp only [headerReceived] at h
    split_ifs at h
    cases h; rfl
  | _ => cases h; rfl

theorem parseHeaderLine_sent (h : parseHeaderLine W f s = .ok f') : f'.sent = f.sent := by
  rw [parseHeaderLine] at h
  split_ifs at h
  exact headerReceived_sent h

theorem parseRequestLine_sent (h : parseRequestLine W f s = .ok f') : f'.sent = f.sent := by
  simp only [parseRequestLine] at h
  split_ifs at h
  · cases h; rfl
  · obtain ⟨v, -, h⟩ := Checked.bind_eq_ok.1 h
    cases h; rfl

theorem parseStatusLine_sent (h : parseStatusLine f s = .ok f') : f'.sent = f.sent := by
  simp only [parseStatusLine] at h
  split_ifs at h <;> obtain ⟨v, -, h⟩ := Checked.bind_eq_ok.1 h
  · cases h
  obtain ⟨code, -, h⟩ := Checked.bind_eq_ok.1 h
  obtain ⟨status, -, h⟩ := Checked.bind_eq_ok.1 h
  cases h; rfl

theorem parseChunkSize_sent (h : parseChunkSize f s = .ok f') : f'.sent = f.sent := by
  obtain ⟨size, -, h⟩ := Checked.bind_eq_ok.1 h
  split at h <;> cases h <;> rfl

theorem headersComplete_sent (h : headersComplete f = .ok f') : f'.sent = f.sent := by
  rw [headersComplete] at h
  split_ifs at h <;> cases h <;> rfl

theorem processLine_sent (h : processLine W f s = .ok f') : f'.sent = f.sent := by
  rw [processLine] at h
  split at h
  · split_ifs at h
    · exact parseRequestLine_sent h
    · exact parseStatusLine_sent h
  · exact parseChunkSize_sent h
  · split_ifs at h
    · exact parseHeaderLine_sent h
    · exact headersComplete_sent h
  · split_ifs at h
    · exact parseHeaderLine_sent h
    · exact headersComplete_sent h
  · cases h

theorem lineReceived_sent (h : lineReceived W f s = .ok f') : f.sent <+: f'.sent := by
  rw [lineReceived] at h
  split at h
  · rename_i g hg
    cases h
    rw [processLine_sent hg]
  · split_ifs at h
    cases h
    exact List.prefix_append _ _

theorem messageComplete_sent (h : messageComplete f = .ok f') : f.sent <+: f'.sent := by
  rw [messageComplete] at h
  split_ifs at h
  cases h
  cases f.requestUri with
  | none => exact List.prefix_append _ _
  | some uri =>
    exact (List.prefix_append f.sent [.setTargetObject uri]).trans (List.prefix_append _ _)

theorem entityReceived_sent (h : entityReceived f data = .ok (f', rest)) :
    f.sent <+: f'.sent := by
  rw [entityReceived] at h
  split_ifs at h
  · cases h; exact List.prefix_rfl
  · obtain ⟨c, hc, h⟩ := Checked.bind_eq_ok.1 h
    cases h
    rw [chunkComplete] at hc
    split_ifs at hc
    cases hc; exact List.prefix_rfl
  · obtain ⟨c, hc, h⟩ := Checked.bind_eq_ok.1 h
    cases h
    exact messageComplete_sent (f := f.append data _) hc
  · obtain ⟨c, hc, h⟩ := Checked.bind_eq_ok.1 h
    cases h

theorem processData_sent (h : processData W f data = .ok (f', rest)) : f.sent <+: f'.sent := by
  rw [processData] at h
  split_ifs at h
  · split at h
    · cases h
    · cases h; exact List.prefix_rfl
    · obtain ⟨g, hg, h⟩ := Checked.bind_eq_ok.1 h
      cases h
      exact lineReceived_sent (f := { f with crSeen := false, inBuf := [] }) hg
  · exact entityReceived_sent h

theorem receive_sent (h : receive W f data = .ok f') : f.sent <+: f'.sent := by
  induction hn : f.steps data using Nat.strong_induction_on generalizing f data with
  | _ n ih =>
    cases hstep : processData W f data with
    | error e => rw [receive_error W hstep] at h; cases h
    | ok r =>
      obtain ⟨g, rest⟩ := r
      by_cases hrest : rest = []
      · subst hrest
        rw [receive_done W hstep] at h
        cases h
        have hsent : f.sent <+: g.sent := processData_sent hstep
        exact hsent
      · rw [receive_more W hstep hrest] at h
        exact (processData_sent hstep).trans
          (ih _ (hn ▸ processData_steps W hstep hrest) h rfl)

end HttpFilter
end PolyORB.Http
