import PolyORB.Giop.Listening

/-!
# Runs of a listening session

Messages arrive one at a time, each after its header was asked for; in between, the ORB reads the
deferred arguments of a request and signals that requests are executed, and other tasks change the
table of pending requests.  An exception in the processing of a message closes the connection.
-/

namespace PolyORB

open Program (stateAfter)

structure ListeningSystem where
  version : GiopVersion
  session : GiopSession
  /-- How many messages have arrived. -/
  received : Nat
  /-- The request whose deferred arguments were neither unmarshalled nor refused so far. -/
  waiting : Option Nat
  connected : Bool

inductive ListeningAction where
  | receive (m : Incoming)
  | readArguments (reader : ArgumentsReader) (req : Nat) (args : Outcome)
  | executed (req : Nat)
  | invocations (pendingReqs : List (Option PendingRequest))

namespace ListeningSystem

/-- A session that has just been connected. -/
def start (version : GiopVersion) (role : Role) : ListeningSystem :=
  { version
    session := .start role false
    received := 0
    waiting := none
    connected := true }

def perform (s : ListeningSystem) : ListeningAction → ListeningSystem
  | .receive m =>
    match GiopSession.receive s.version m s.session with
    | .ok _ t =>
      { s with
        session := t
        received := s.received + 1
        waiting :=
          if t.deferredArguments = s.session.deferredArguments then s.waiting
          else t.deferredArguments.head? }
    | .error _ t => { s with session := t, received := s.received + 1, connected := false }
  | .readArguments reader req args =>
    match readDeferredArguments reader req args s.session with
    | .ok _ t => { s with session := t, waiting := none }
    | .error _ t => { s with session := t }
  | .executed req =>
    { s with
      session := stateAfter (requestExecuted req) s.session
      waiting := if s.waiting = some req then none else s.waiting }
  | .invocations pendingReqs => { s with session := { s.session with pendingReqs } }

/-- What an action needs to be possible; a message arrives when a header was asked for. -/
def Possible (s : ListeningSystem) (a : ListeningAction) : Prop :=
  s.connected = true ∧
    match a with
    | .receive _ => s.received < s.session.asked
    | .readArguments _ req _ => s.waiting = some req
    | .executed _ | .invocations _ => True

instance (s : ListeningSystem) : (a : ListeningAction) → Decidable (s.Possible a)
  | .receive _ => inferInstanceAs (Decidable (_ ∧ s.received < s.session.asked))
  | .readArguments _ req _ => inferInstanceAs (Decidable (_ ∧ s.waiting = some req))
  | .executed _ | .invocations _ => inferInstanceAs (Decidable (_ ∧ True))

/-- As long as the connection is open, the session has asked for one header more than it has
received, or for as many while the arguments of a request are waited for. -/
def Listens (s : ListeningSystem) : Prop :=
  s.connected = true → s.session.asked = s.received + if s.waiting = none then 1 else 0

/-- The session listens after the step, and arguments that are unmarshalled, or refused by an error,
are not waited for any more. -/
def Correct (s : ListeningSystem) (a : ListeningAction) : Prop :=
  (s.perform a).Listens ∧
    ∀ reader req error, a = .readArguments reader req (.ok error) → (s.perform a).waiting = none

/-- The message is not a `Fragment` of GIOP 1.1, and a request that is executed with its
`Deferred_Arguments_Session` still set is one whose arguments were not read: a proxy leaves it set
when the arguments were refused. -/
def Harmless (s : ListeningSystem) : ListeningAction → Prop
  | .receive (.fragment ..) => s.version ≠ .giopV1_1
  | .executed req => req ∈ s.session.deferredArguments → s.waiting = some req
  | _ => True

instance (s : ListeningSystem) : (a : ListeningAction) → Decidable (s.Harmless a)
  | .receive (.fragment ..) => inferInstanceAs (Decidable (s.version ≠ .giopV1_1))
  | .receive (.whole _) | .readArguments .. | .invocations _ => inferInstanceAs (Decidable True)
  | .executed req =>
    inferInstanceAs (Decidable (req ∈ s.session.deferredArguments → s.waiting = some req))

/-! ## The invariant -/

structure ListeningInv (s : ListeningSystem) : Prop where
  listens : s.Listens
  waits : ∀ req, s.connected = true → s.waiting = some req →
    req ∈ s.session.deferredArguments ∧ s.session.state = .waitingUnmarshalling

theorem listeningInv_start (version : GiopVersion) (role : Role) :
    (start version role).ListeningInv where
  listens := fun _ => rfl
  waits := by
    rintro req - ⟨⟩

namespace ListeningInv

variable {s : ListeningSystem}

theorem asked_eq (h : s.ListeningInv) (hc : s.connected = true) (hw : s.waiting = none) :
    s.session.asked = s.received + 1 := by
  have := h.listens hc
  rwa [if_pos hw] at this

theorem asked_eq_waiting (h : s.ListeningInv) (hc : s.connected = true) {req : Nat}
    (hw : s.waiting = some req) : s.session.asked = s.received := by
  have := h.listens hc
  rwa [hw, if_neg (by simp), Nat.add_zero] at this

theorem waiting_eq_none (h : s.ListeningInv) (hc : s.connected = true)
    (hr : s.received < s.session.asked) : s.waiting = none := by
  cases hw : s.waiting with
  | none => rfl
  | some req =>
    have := h.asked_eq_waiting hc hw
    omega

/-! ## Messages -/

theorem receive_cases {version : GiopVersion} {m : Incoming} {s t : GiopSession}
    (h : GiopSession.receive version m s = .ok () t) :
    Answered s t ∨ version = .giopV1_1 ∧ (∃ id b n w, m = .fragment id b n w) ∧
      t.asked = s.asked ∧ t.deferredArguments = s.deferredArguments := by
  let s₁ : GiopSession := { s with state := .expectBody }
  replace h : (GiopSession.processMessage version m >>= fun b =>
      if b = true then GiopSession.processMessage version m >>= fun _ => pure ()
      else pure ()) s₁ = .ok () t := h
  obtain ⟨b, s₂, h₂, h⟩ := Program.bind_eq_ok.mp h
  have hfirst {t : GiopSession} (ht : Answered s₁ t) : Answered s t := ht
  cases m with
  | whole m =>
    obtain ⟨_, s₃, h₃, hb⟩ := Program.bind_eq_ok.mp h₂
    cases hb
    cases h
    exact .inl (hfirst (GiopSession.answered_processWhole h₃))
  | fragment id fragmented fragSize whole =>
    cases version with
    | giopV1_0 => cases h₂
    | giopV1_1 =>
      cases h₂
      obtain rfl : s₁ = t := by injection h
      exact .inr ⟨rfl, ⟨_, _, _, _, rfl⟩, rfl, rfl⟩
    | giopV1_2 =>
      refine .inl (hfirst ?_)
      rcases GiopSession.processFragment_cases h₂ with ⟨rfl, hans⟩ | ⟨rfl, hasked, hdef, hctx⟩
      · cases h
        exact hans
      · -- the payload has arrived
        obtain ⟨b, s₃, h₃, h⟩ := Program.bind_eq_ok.mp h
        cases h
        have hans := (GiopSession.answered_payload hctx h₃).2
        unfold Answered at hans ⊢
        rwa [hasked, hdef] at hans

/-! ## One step -/

def Step (s : ListeningSystem) (a : ListeningAction) : Prop :=
  (s.Correct a → s.Harmless a) ∧ (s.Harmless a → s.Correct a ∧ (s.perform a).ListeningInv)

theorem step_of_inv {a : ListeningAction} (ht : (s.perform a).ListeningInv) (hharm : s.Harmless a)
    (hread : ∀ reader req error, a = .readArguments reader req (.ok error) →
      (s.perform a).waiting = none) : Step s a :=
  ⟨fun _ => hharm, fun _ => ⟨⟨ht.listens, hread⟩, ht⟩⟩

theorem receive_answered (h : s.ListeningInv) {m : Incoming} (hA : s.Possible (.receive m))
    {t : GiopSession} (heq : GiopSession.receive s.version m s.session = .ok () t)
    (hans : Answered s.session t) : (s.perform (.receive m)).ListeningInv := by
  have hw := h.waiting_eq_none hA.1 hA.2
  have hasked := h.asked_eq hA.1 hw
  have hperf : s.perform (.receive m) = { s with
      session := t
      received := s.received + 1
      waiting := if t.deferredArguments = s.session.deferredArguments then s.waiting
        else t.deferredArguments.head? } := by
    rw [perform, heq]
  rw [hperf]
  rcases hans with ⟨ht, hdef⟩ | ⟨ht, ⟨req, hdef⟩, hstate⟩
  · rw [if_pos hdef, hw]
    exact ⟨fun _ => by show t.asked = s.received + 1 + 1; omega, by rintro _ _ ⟨⟩⟩
  · have hne : t.deferredArguments ≠ s.session.deferredArguments := by
      rw [hdef]
      exact List.cons_ne_self _ _
    rw [if_neg hne, hdef, List.head?_cons]
    refine ⟨fun _ => ?_, ?_⟩
    · show t.asked = s.received + 1 + if some req = none then 1 else 0
      rw [if_neg (by simp)]
      omega
    · rintro r - hr
      obtain rfl := Option.some.inj hr
      exact ⟨hdef ▸ List.mem_cons_self .., hstate⟩

/-- A fragment of GIOP 1.1 leaves the session without any request for a header. -/
theorem not_listens_fragment (h : s.ListeningInv) (hv : s.version = .giopV1_1) {id n : Nat} {b : Bool}
    {w : WholeMessage} (hA : s.Possible (.receive (.fragment id b n w))) :
    ¬(s.perform (.receive (.fragment id b n w))).Listens := by
  intro hlis
  have hw := h.waiting_eq_none hA.1 hA.2
  have hasked := h.asked_eq hA.1 hw
  have heq : GiopSession.receive s.version (.fragment id b n w) s.session =
      .ok () { s.session with state := .expectBody } := by
    rw [hv]
    rfl
  have hlis := hlis (by simp only [perform, heq]; exact hA.1)
  simp only [perform, heq, if_true, hw] at hlis
  omega

theorem step_receive (h : s.ListeningInv) (m : Incoming) (hA : s.Possible (.receive m)) :
    Step s (.receive m) := by
  by_cases hharm : s.Harmless (.receive m)
  · refine step_of_inv ?_ hharm (by rintro _ _ _ ⟨⟩)
    cases heq : GiopSession.receive s.version m s.session with
    | ok u t =>
      rcases receive_cases heq with hans | ⟨hv, ⟨id, b, n, w, rfl⟩, -, -⟩
      · exact h.receive_answered hA heq hans
      · exact absurd hv hharm
    | error e t =>
      simp only [perform, heq]
      exact ⟨by rintro ⟨⟩, by rintro _ ⟨⟩⟩
  · constructor
    · rintro ⟨hlis, -⟩
      cases m with
      | whole m => exact trivial
      | fragment id b n w => exact absurd hlis (h.not_listens_fragment (not_not.mp hharm) hA)
    · exact fun habs => absurd habs hharm

theorem step_readArguments (h : s.ListeningInv) (reader : ArgumentsReader) (req : Nat)
    (args : Outcome) (hA : s.Possible (.readArguments reader req args)) :
    Step s (.readArguments reader req args) := by
  obtain ⟨hc, hw⟩ := hA
  obtain ⟨-, hstate⟩ := h.waits req hc hw
  have hasked := h.asked_eq_waiting hc hw
  cases args with
  | error e =>
    have heq : readDeferredArguments reader req (.error e) s.session = .error e s.session := by
      unfold readDeferredArguments handleUnmarshallArguments
      rw [Program.bind_error]
      rw [Program.bind_get, Program.bind_raiseIf (not_not.mpr hstate)]
      rfl
    have hkeep : s.perform (.readArguments reader req (.error e)) = s := by
      simp [perform, heq]
    refine step_of_inv ?_ trivial (by rintro _ _ _ ⟨⟩)
    rw [hkeep]
    exact h
  | ok error =>
    have heq : ∃ t, readDeferredArguments reader req (.ok error) s.session = .ok () t ∧
        t.asked = s.session.asked + 1 := by
      have hargs : handleUnmarshallArguments (.ok error) s.session =
          .ok error s.session.listening := by
        unfold handleUnmarshallArguments
        rw [Program.bind_get, Program.bind_raiseIf (not_not.mpr hstate)]
        rfl
      unfold readDeferredArguments
      rw [Program.bind_ok hargs]
      by_cases hcl : reader = .servant ∨ error = none
      · rw [Program.onlyIf_true hcl]
        exact ⟨_, rfl, rfl⟩
      · rw [Program.onlyIf_false hcl]
        exact ⟨_, rfl, rfl⟩
    obtain ⟨t, heq, ht⟩ := heq
    have hperf : s.perform (.readArguments reader req (.ok error)) =
        { s with session := t, waiting := none } := by
      simp [perform, heq]
    refine step_of_inv ?_ trivial fun _ _ _ _ => hperf ▸ rfl
    rw [hperf]
    refine ⟨fun _ => ?_, by rintro _ _ ⟨⟩⟩
    show t.asked = s.received + 1
    omega

theorem requestExecuted_eq (t : GiopSession) (req : Nat) :
    stateAfter (requestExecuted req) t =
      { (if req ∈ t.deferredArguments then t.listening else t) with
        deferredArguments := t.deferredArguments.erase req } := by
  refine Program.stateAfter_ok (a := ()) ?_
  unfold requestExecuted
  rw [Program.bind_get]
  by_cases hd : req ∈ t.deferredArguments
  · rw [Program.onlyIf_true hd, if_pos hd]
    rfl
  · rw [Program.onlyIf_false hd, if_neg hd]
    rfl

theorem step_executed (h : s.ListeningInv) (req : Nat) (hA : s.Possible (.executed req)) :
    Step s (.executed req) := by
  have hc : s.connected = true := hA.1
  by_cases hd : req ∈ s.session.deferredArguments
  · have hperf : s.perform (.executed req) = { s with
        session := { s.session.listening with
          deferredArguments := s.session.deferredArguments.erase req }
        waiting := if s.waiting = some req then none else s.waiting } := by
      rw [perform, requestExecuted_eq, if_pos hd]
    by_cases hw : s.waiting = some req
    · have hasked := h.asked_eq_waiting hc hw
      refine step_of_inv ?_ (fun _ => hw) (by rintro _ _ _ ⟨⟩)
      rw [hperf, if_pos hw]
      refine ⟨fun _ => ?_, by rintro _ _ ⟨⟩⟩
      show s.session.asked + 1 = s.received + 1
      omega
    · constructor
      · -- the header that was asked for when the arguments were refused is asked for again
        rintro ⟨hlis, -⟩
        exfalso
        rw [hperf, if_neg hw] at hlis
        have h1 : s.session.asked + 1 = s.received + if s.waiting = none then 1 else 0 := hlis hc
        have h2 := h.listens hc
        omega
      · exact fun hharm => absurd (hharm hd) hw
  · have hw : s.waiting ≠ some req := fun hw => hd (h.waits req hc hw).1
    have hperf : s.perform (.executed req) = s := by
      rw [perform, requestExecuted_eq, if_neg hd, if_neg hw, List.erase_of_not_mem hd]
    exact step_of_inv (hperf.symm ▸ h) (fun habs => absurd habs hd) (by rintro _ _ _ ⟨⟩)

theorem step (h : s.ListeningInv) {a : ListeningAction} (hA : s.Possible a) : Step s a := by
  cases a with
  | receive m => exact h.step_receive m hA
  | readArguments reader req args => exact h.step_readArguments reader req args hA
  | executed req => exact h.step_executed req hA
  | invocations pendingReqs =>
    exact step_of_inv ⟨h.listens, h.waits⟩ trivial (by rintro _ _ _ ⟨⟩)

end ListeningInv

/-! ## Runs -/

/-- A session of any version and role never goes deaf and never asks twice, if and only if every
step of the run is harmless. -/
theorem listeningRun_correct_iff (version : GiopVersion) (role : Role) (run : List ListeningAction)
    (hA : Runs.Along perform Possible (start version role) run) :
    Runs.Along perform Correct (start version role) run ↔
      Runs.Along perform Harmless (start version role) run := by
  have hstep (s : ListeningSystem) (a : ListeningAction) (h : s.ListeningInv) (ha : s.Possible a) :
      ListeningInv.Step s a := h.step ha
  exact Runs.along_iff hstep run _ (listeningInv_start version role) hA

/-- A LocateRequest, a request with deferred arguments that the servant reads, and two fragments. -/
def servedRun : List ListeningAction :=
  [.receive (.whole ⟨.locateRequest (.ok none), .ok ()⟩),
    .receive (.whole ⟨.request 5 7 false (.keyAddr none) (.ok ()), .ok ()⟩),
    .readArguments .servant 5 (.ok none), .executed 5,
    .receive (.fragment 8 true 4 ⟨.locateRequest (.ok none), .ok ()⟩),
    .receive (.fragment 8 false 4 ⟨.locateRequest (.ok none), .ok ()⟩)]

theorem listeningRun_correct_servedRun :
    Runs.Along perform Correct (start .giopV1_2 .server) servedRun :=
  (listeningRun_correct_iff .giopV1_2 .server servedRun (by decide)).mpr (by decide)

/-- The session of GIOP 1.1 discards a fragment and asks for nothing. -/
theorem not_correct_fragment :
    Runs.Along perform Possible (start .giopV1_1 .client)
        [.receive (.fragment 0 false 4 ⟨.reply 1 (.ok ()), .ok ()⟩)] ∧
      ¬Runs.Along perform Correct (start .giopV1_1 .client)
        [.receive (.fragment 0 false 4 ⟨.reply 1 (.ok ()), .ok ()⟩)] := by
  refine ⟨by decide, ?_⟩
  rintro ⟨⟨hlis, -⟩, -⟩
  have habs : (1 : Nat) = 2 := hlis rfl
  cases habs

end ListeningSystem

end PolyORB
