import Mathlib.Logic.Function.Basic
import PolyORB.Lib.Runs
import PolyORB.Lib.Tally

/-!
# The engines of the proxy pull consumers

CosEventChannelAdmin.ProxyPullConsumer.Impl: `Connect_Pull_Supplier` starts a task that pulls from
the peer of the consumer and posts to its admin.  What is done under a mutex is one step, and so is
what a task does between two of them.  Consumers and suppliers are known by numbers.
-/

namespace PolyORB.PullEngines

open Tally

abbrev ConsumerId := Nat

abbrev SupplierId := Nat

/-- Where a `Proxy_Pull_Consumer_Engine` is. -/
inductive Engine where
  /-- Created, before `This := A_S`. -/
  | created
  /-- Before `Signal (Session_Taken)`. -/
  | initialized (this : ConsumerId)
  /-- Before `Peer := This.X.Peer`. -/
  | looping (this : ConsumerId)
  | pulling (this : ConsumerId) (peer : SupplierId)
  | posting (this : ConsumerId) (peer : SupplierId) (event : Nat)
  /-- Before `This.X.Engin_Launched := False`. -/
  | exiting (this : ConsumerId)
  | ended
  deriving DecidableEq

/-- A call of `Connect_Pull_Supplier`. -/
inductive Call where
  /-- In `Wait (Session_Taken, Session_Mutex)`. -/
  | waiting
  | woken
  | returned
  | alreadyConnected
  deriving DecidableEq

structure Consumer where
  peer : Option SupplierId
  enginLaunched : Bool
  deriving DecidableEq

/-- An event that was posted to the admin of a consumer, and where it was pulled from. -/
structure Posted where
  consumer : ConsumerId
  peer : SupplierId
  event : Nat
  deriving DecidableEq

structure System where
  consumers : ConsumerId → Consumer
  aS : Option ConsumerId
  engines : List Engine
  calls : List Call
  posted : List Posted

inductive Action where
  | connectPullSupplier (c : ConsumerId) (supplier : Option SupplierId)
  | leaveConnect (k : Nat)
  | disconnectPullConsumer (c : ConsumerId)
  | readArgument (e : Nat)
  | signal (e : Nat)
  | readPeer (e : Nat)
  /-- `none` when the pull raises. -/
  | pull (e : Nat) (event : Option Nat)
  | post (e : Nat)
  | endEngine (e : Nat)

namespace System

def initial : System where
  consumers := fun _ => { peer := none, enginLaunched := false }
  aS := none
  engines := []
  calls := []
  posted := []

def setConsumer (s : System) (c : ConsumerId) (x : Consumer) : System :=
  { s with consumers := Function.update s.consumers c x }

def setEngine (s : System) (e : Nat) (x : Engine) : System :=
  { s with engines := s.engines.set e x }

/-- `Connect_Pull_Supplier`, up to `Wait`. -/
def connect (s : System) (c : ConsumerId) (supplier : Option SupplierId) : System :=
  if (s.consumers c).peer.isSome = true then { s with calls := s.calls ++ [.alreadyConnected] }
  else
    let engines := if (s.consumers c).enginLaunched = true then s.engines
      else s.engines ++ [.created]
    { s.setConsumer c { peer := supplier, enginLaunched := true } with
      aS := some c
      engines := engines
      calls := s.calls ++ [.waiting] }

/-- `Signal (Session_Taken)`, which wakes one of the waiting tasks. -/
def signalTaken (calls : List Call) : List Call :=
  match calls.findIdx? (· = .waiting) with
  | none => calls
  | some k => calls.set k .woken

def step (s : System) : Action → System
  | .connectPullSupplier c supplier => s.connect c supplier
  | .leaveConnect k => { s with calls := s.calls.set k .returned }
  | .disconnectPullConsumer c => s.setConsumer c { s.consumers c with peer := none }
  | .readArgument e =>
    match s.aS with
    | none => s
    | some c => s.setEngine e (.initialized c)
  | .signal e =>
    match s.engines[e]? with
    | some (.initialized c) => { s.setEngine e (.looping c) with calls := signalTaken s.calls }
    | _ => s
  | .readPeer e =>
    match s.engines[e]? with
    | some (.looping c) =>
      match (s.consumers c).peer with
      | none => s.setEngine e (.exiting c)
      | some p => s.setEngine e (.pulling c p)
    | _ => s
  | .pull e event =>
    match s.engines[e]? with
    | some (.pulling c p) =>
      match event with
      | none => s.setEngine e (.exiting c)
      | some ev => s.setEngine e (.posting c p ev)
    | _ => s
  | .post e =>
    match s.engines[e]? with
    | some (.posting c p ev) =>
      { s.setEngine e (.looping c) with posted := s.posted ++ [⟨c, p, ev⟩] }
    | _ => s
  | .endEngine e =>
    match s.engines[e]? with
    | some (.exiting c) =>
      (s.setEngine e .ended).setConsumer c { s.consumers c with enginLaunched := false }
    | _ => s

/-- The task is where it can make the step. -/
def Possible (s : System) : Action → Prop
  | .connectPullSupplier _ _ | .disconnectPullConsumer _ => True
  | .leaveConnect k => s.calls[k]? = some .woken
  | .readArgument e => s.engines[e]? = some .created
  | .signal e => ∃ c, s.engines[e]? = some (.initialized c)
  | .readPeer e => ∃ c, s.engines[e]? = some (.looping c)
  | .pull e _ => ∃ c p, s.engines[e]? = some (.pulling c p)
  | .post e => ∃ c p ev, s.engines[e]? = some (.posting c p ev)
  | .endEngine e => ∃ c, s.engines[e]? = some (.exiting c)

/-! ## What the engines have to do -/

/-- The engine is the one of the consumer; one that was just created is that of `A_S`. -/
def owns (aS : Option ConsumerId) (c : ConsumerId) : Engine → Bool
  | .created => aS = some c
  | .initialized c' | .looping c' | .pulling c' _ | .posting c' _ _ | .exiting c' => c' = c
  | .ended => false

/-- The engine is in its loop, or will come to it. -/
def serves (aS : Option ConsumerId) (c : ConsumerId) (x : Engine) : Bool :=
  owns aS c x && x ≠ .exiting c

def signals : Engine → Bool
  | .created | .initialized _ => true
  | _ => false

/-- Each connected consumer has one engine, which pulls from the peer of the consumer (the former
one once it is disconnected), and no call of `Connect_Pull_Supplier` waits in vain. -/
structure Sound (s : System) : Prop where
  served : ∀ c, (s.consumers c).peer.isSome = true → s.engines.countP (serves s.aS c) = 1
  pulls : ∀ c p, Engine.pulling c p ∈ s.engines →
    (s.consumers c).peer = none ∨ (s.consumers c).peer = some p
  posts : ∀ c p ev, Engine.posting c p ev ∈ s.engines →
    (s.consumers c).peer = none ∨ (s.consumers c).peer = some p
  signalled : s.calls.count .waiting ≤ s.engines.countP signals

/-- What each step does: a connected consumer is not connected again, and what an engine posts
comes from where it was pulled and goes to the admin of its consumer. -/
def Correct (s : System) : Action → Prop
  | .connectPullSupplier c supplier => (s.consumers c).peer.isSome = true →
    s.step (.connectPullSupplier c supplier) = { s with calls := s.calls ++ [.alreadyConnected] }
  | .post e => ∃ c p ev, s.engines[e]? = some (.posting c p ev) ∧
    ((s.consumers c).peer = none ∨ (s.consumers c).peer = some p) ∧
    (s.step (.post e)).posted = s.posted ++ [⟨c, p, ev⟩]
  | a => (s.step a).posted = s.posted

def Proper (s : System) (a : Action) : Prop := s.Correct a ∧ (s.step a).Sound

/-- A consumer is connected when it has no engine and no engine has still to read `A_S`, and a pull
fails for disconnected consumers only. -/
def Orderly (s : System) : Action → Prop
  | .connectPullSupplier c _ => (s.consumers c).peer.isSome = true ∨
    (s.consumers c).enginLaunched = false ∧ Engine.created ∉ s.engines
  | .pull e none => ∀ c p, s.engines[e]? = some (.pulling c p) → (s.consumers c).peer = none
  | _ => True

/-! ## The invariant -/

/-- A consumer whose engine was launched owns one engine, and a connected one owns an engine that
does not end. -/
structure Inv (s : System) : Prop where
  owned : ∀ c, s.engines.countP (owns s.aS c) =
    if (s.consumers c).enginLaunched = true then 1 else 0
  launched : ∀ c, (s.consumers c).peer.isSome = true →
    (s.consumers c).enginLaunched = true ∧ Engine.exiting c ∉ s.engines
  pulls : ∀ c p, Engine.pulling c p ∈ s.engines →
    (s.consumers c).peer = none ∨ (s.consumers c).peer = some p
  posts : ∀ c p ev, Engine.posting c p ev ∈ s.engines →
    (s.consumers c).peer = none ∨ (s.consumers c).peer = some p
  argument : Engine.created ∈ s.engines → s.aS.isSome = true
  signalled : s.calls.count .waiting = s.engines.countP signals

variable {s : System}

theorem inv_initial : initial.Inv where
  owned := fun _ => rfl
  launched := nofun
  pulls := nofun
  posts := nofun
  argument := nofun
  signalled := rfl

theorem Inv.sound (h : s.Inv) : s.Sound := by
  refine ⟨fun c hc => ?_, h.pulls, h.posts, h.signalled.le⟩
  obtain ⟨hlaunched, hexiting⟩ := h.launched c hc
  have hcongr : s.engines.countP (serves s.aS c) = s.engines.countP (owns s.aS c) := by
    refine List.countP_congr fun x hx => ?_
    have : x ≠ .exiting c := fun heq => hexiting (heq ▸ hx)
    simp [serves, this]
  rw [hcongr, h.owned c, if_pos hlaunched]

theorem Inv.not_owns (h : s.Inv) {c : ConsumerId} (hc : (s.consumers c).enginLaunched = false)
    {x : Engine} (hx : x ∈ s.engines) : owns s.aS c x = false := by
  have hzero := h.owned c
  rw [if_neg (by rw [hc]; exact Bool.false_ne_true), List.countP_eq_zero] at hzero
  simpa using hzero x hx

theorem Inv.move (h : s.Inv) {e : Nat} {x : Engine} (hx : s.engines[e]? = some x) (y : Engine)
    (howns : ∀ c, owns s.aS c y = owns s.aS c x) (calls : List Call) (posted : List Posted)
    (hcalls : calls.count .waiting + weight signals x = s.calls.count .waiting + weight signals y)
    (hcreated : y ≠ .created) (hexiting : ∀ c, y = .exiting c → (s.consumers c).peer = none)
    (hpulling : ∀ c p, y = .pulling c p →
      (s.consumers c).peer = none ∨ (s.consumers c).peer = some p)
    (hposting : ∀ c p ev, y = .posting c p ev →
      (s.consumers c).peer = none ∨ (s.consumers c).peer = some p) :
    Inv { s.setEngine e y with calls := calls, posted := posted } where
  owned := fun c => by
    have := countP_set_add (owns s.aS c) y hx
    unfold weight at this
    rw [howns c] at this
    exact (Nat.add_right_cancel this).trans (h.owned c)
  launched := fun c hc => ⟨(h.launched c hc).1, fun hmem => by
    rcases List.mem_or_eq_of_mem_set hmem with hmem | hy
    · exact (h.launched c hc).2 hmem
    · have hnone : (s.consumers c).peer = none := hexiting c hy.symm
      have hc : (s.consumers c).peer.isSome = true := hc
      rw [hnone] at hc
      cases hc⟩
  pulls := fun c p hmem => by
    rcases List.mem_or_eq_of_mem_set hmem with hmem | hy
    · exact h.pulls c p hmem
    · exact hpulling c p hy.symm
  posts := fun c p ev hmem => by
    rcases List.mem_or_eq_of_mem_set hmem with hmem | hy
    · exact h.posts c p ev hmem
    · exact hposting c p ev hy.symm
  argument := fun hmem => by
    rcases List.mem_or_eq_of_mem_set hmem with hmem | hy
    · exact h.argument hmem
    · exact absurd hy.symm hcreated
  signalled := by
    have := countP_set_add signals y hx
    rw [← h.signalled] at this
    show calls.count .waiting = (s.engines.set e y).countP signals
    omega

theorem count_signalTaken {calls : List Call} (h : 0 < calls.count .waiting) :
    (signalTaken calls).count .waiting + 1 = calls.count .waiting := by
  unfold signalTaken
  cases hk : calls.findIdx? (· = .waiting) with
  | none =>
    rw [List.findIdx?_eq_none_iff] at hk
    have := List.count_pos_iff.mp h
    simpa using hk _ this
  | some k =>
    obtain ⟨hlt, hwaiting, -⟩ := List.findIdx?_eq_some_iff_getElem.mp hk
    have hget : calls[k]? = some .waiting := by
      rw [List.getElem?_eq_getElem hlt, decide_eq_true_iff.mp hwaiting]
    exact countP_set_add (· == Call.waiting) .woken hget

theorem connect_inv {c : ConsumerId} {supplier : Option SupplierId} (h : s.Inv)
    (ho : s.Orderly (.connectPullSupplier c supplier)) : (s.connect c supplier).Inv := by
  unfold connect
  split_ifs with hpeer hl
  · refine ⟨h.owned, h.launched, h.pulls, h.posts, h.argument, ?_⟩
    show (s.calls ++ [_]).count _ = _
    rw [List.count_append, h.signalled]
    rfl
  · exact absurd hl (by rw [(ho.resolve_left hpeer).1]; exact Bool.false_ne_true)
  obtain ⟨hlaunched, hcreated⟩ := ho.resolve_left hpeer
  have howns : ∀ (aS : Option ConsumerId) (c' : ConsumerId) (x : Engine), x ∈ s.engines →
      owns aS c' x = owns s.aS c' x := by
    intro aS c' x hx
    cases x with
    | created => exact absurd hx hcreated
    | _ => rfl
  have hmem : ∀ {x : Engine}, x ∈ s.engines ++ [.created] → x ≠ .created → x ∈ s.engines := by
    intro x hx hne
    exact (List.mem_append.mp hx).resolve_right fun h => hne (List.mem_singleton.mp h)
  have hpeer_ne : ∀ {c' : ConsumerId} {x : Engine}, x ∈ s.engines → owns s.aS c' x = true →
      c' ≠ c := by
    intro c' x hx hown heq
    rw [heq, h.not_owns hlaunched hx] at hown
    cases hown
  constructor
  · intro c'
    show (s.engines ++ [Engine.created]).countP (owns (some c) c') = _
    rw [countP_append_singleton, List.countP_congr fun x hx => by rw [howns (some c) c' x hx],
      h.owned c']
    by_cases hc : c' = c
    · subst hc
      simp [weight, owns, setConsumer, hlaunched]
    · simp [weight, owns, setConsumer, hc, Ne.symm hc]
  · intro c' hc'
    by_cases hc : c' = c
    · subst hc
      refine ⟨by simp [setConsumer], fun hx => ?_⟩
      exact hpeer_ne (hmem hx (by simp)) (by simp [owns]) rfl
    · simp only [setConsumer, Function.update_of_ne hc] at hc' ⊢
      exact ⟨(h.launched c' hc').1, fun hx => (h.launched c' hc').2 (hmem hx (by simp))⟩
  · intro c' p hx
    have hx := hmem hx (by simp)
    have hc := hpeer_ne hx (by simp [owns] : owns s.aS c' (.pulling c' p) = true)
    simp only [setConsumer, Function.update_of_ne hc]
    exact h.pulls c' p hx
  · intro c' p ev hx
    have hx := hmem hx (by simp)
    have hc := hpeer_ne hx (by simp [owns] : owns s.aS c' (.posting c' p ev) = true)
    simp only [setConsumer, Function.update_of_ne hc]
    exact h.posts c' p ev hx
  · exact fun _ => rfl
  · show (s.calls ++ [Call.waiting]).count Call.waiting =
      (s.engines ++ [Engine.created]).countP signals
    rw [List.count_append, countP_append_singleton, h.signalled]
    rfl

theorem disconnect_inv (h : s.Inv) (c : ConsumerId) :
    (s.step (.disconnectPullConsumer c)).Inv := by
  have hpeer : ∀ c', ((s.step (.disconnectPullConsumer c)).consumers c').peer = none ∨
      ((s.step (.disconnectPullConsumer c)).consumers c').peer = (s.consumers c').peer := by
    intro c'
    by_cases hc : c' = c
    · subst hc
      exact .inl (by simp [step, setConsumer])
    · exact .inr (by simp [step, setConsumer, hc])
  have hlaunched : ∀ c', ((s.step (.disconnectPullConsumer c)).consumers c').enginLaunched =
      (s.consumers c').enginLaunched := by
    intro c'
    by_cases hc : c' = c
    · subst hc
      simp [step, setConsumer]
    · simp [step, setConsumer, hc]
  refine ⟨fun c' => ?_, fun c' hc' => ?_, fun c' p hx => ?_, fun c' p ev hx => ?_, h.argument,
    h.signalled⟩
  · rw [hlaunched]
    exact h.owned c'
  · rcases hpeer c' with hnone | hsame
    · rw [hnone] at hc'
      cases hc'
    · rw [hlaunched]
      exact h.launched c' (hsame ▸ hc')
  · exact (hpeer c').elim .inl fun hsame => by rw [hsame]; exact h.pulls c' p hx
  · exact (hpeer c').elim .inl fun hsame => by rw [hsame]; exact h.posts c' p ev hx

theorem endEngine_inv (h : s.Inv) {e : Nat} {c : ConsumerId}
    (hx : s.engines[e]? = some (.exiting c)) : (s.step (.endEngine e)).Inv := by
  have hmem := List.mem_of_getElem? hx
  have hnone : (s.consumers c).peer = none := by
    cases hp : (s.consumers c).peer with
    | none => rfl
    | some p => exact absurd hmem (h.launched c (by rw [hp]; rfl)).2
  have hlaunched : (s.consumers c).enginLaunched = true := by
    by_contra hc
    have := h.not_owns (Bool.eq_false_of_not_eq_true hc) hmem
    simp [owns] at this
  have hpeer : ∀ c', ((s.step (.endEngine e)).consumers c').peer = (s.consumers c').peer := by
    intro c'
    by_cases hc : c' = c
    · subst hc
      simp [step, hx, setConsumer]
    · simp [step, hx, setConsumer, setEngine, hc]
  have hengines : (s.step (.endEngine e)).engines = s.engines.set e .ended := by
    simp [step, hx, setConsumer, setEngine]
  have hstill : ∀ {x : Engine}, x ∈ s.engines.set e .ended → x ≠ .ended → x ∈ s.engines :=
    fun hx hne => (List.mem_or_eq_of_mem_set hx).resolve_right hne
  have haS : (s.step (.endEngine e)).aS = s.aS := by simp [step, hx, setConsumer, setEngine]
  have hcalls : (s.step (.endEngine e)).calls = s.calls := by
    simp [step, hx, setConsumer, setEngine]
  constructor
  · intro c'
    have hcount := countP_set_add (owns s.aS c') .ended hx
    rw [haS, hengines]
    rw [h.owned c'] at hcount
    by_cases hc : c' = c
    · subst hc
      have hzero : (s.engines.set e .ended).countP (owns s.aS c') = 0 := by
        simpa [weight, owns, hlaunched] using hcount
      rw [hzero]
      simp [step, hx, setConsumer]
    · simp only [weight, owns, Ne.symm hc] at hcount
      simp [step, hx, setConsumer, setEngine, hc]
      simpa using hcount
  · intro c' hc'
    rw [hpeer] at hc'
    rw [hengines]
    have hc : c' ≠ c := by
      rintro rfl
      rw [hnone] at hc'
      cases hc'
    have : (s.step (.endEngine e)).consumers c' = s.consumers c' := by
      simp [step, hx, setConsumer, setEngine, hc]
    rw [this]
    exact ⟨(h.launched c' hc').1, fun hx => (h.launched c' hc').2 (hstill hx (by simp))⟩
  · intro c' p hx'
    rw [hpeer]
    exact h.pulls c' p (hstill (hengines ▸ hx') (by simp))
  · intro c' p ev hx'
    rw [hpeer]
    exact h.posts c' p ev (hstill (hengines ▸ hx') (by simp))
  · intro hx'
    rw [haS]
    exact h.argument (hstill (hengines ▸ hx') (by simp))
  · rw [hcalls, hengines, h.signalled]
    simpa [weight, signals] using (countP_set_add signals .ended hx).symm

theorem Inv.go (h : s.Inv) {e : Nat} {x : Engine} (hx : s.engines[e]? = some x) (y : Engine)
    (howns : ∀ c, owns s.aS c y = owns s.aS c x) (hsignals : signals y = signals x)
    (posted : List Posted) (hcreated : y ≠ .created)
    (hexiting : ∀ c, y = .exiting c → (s.consumers c).peer = none)
    (hpulling : ∀ c p, y = .pulling c p →
      (s.consumers c).peer = none ∨ (s.consumers c).peer = some p)
    (hposting : ∀ c p ev, y = .posting c p ev →
      (s.consumers c).peer = none ∨ (s.consumers c).peer = some p) :
    Inv { s.setEngine e y with posted := posted } :=
  h.move hx y howns s.calls posted (by rw [weight, weight, hsignals]) hcreated hexiting hpulling
    hposting

theorem step_inv {a : Action} (h : s.Inv) (hp : s.Possible a) (ho : s.Orderly a) :
    (s.step a).Inv := by
  cases a with
  | connectPullSupplier c supplier => exact connect_inv h ho
  | leaveConnect k =>
    refine ⟨h.owned, h.launched, h.pulls, h.posts, h.argument, ?_⟩
    have := countP_set_add (· == Call.waiting) .returned hp
    exact this.trans h.signalled
  | disconnectPullConsumer c => exact disconnect_inv h c
  | readArgument e =>
    obtain ⟨c, hc⟩ := Option.isSome_iff_exists.mp (h.argument (List.mem_of_getElem? hp))
    simp only [step, hc]
    refine h.go hp (.initialized c) (fun c' => ?_) rfl s.posted nofun nofun nofun nofun
    rw [hc]
    simp [owns]
  | signal e =>
    obtain ⟨c, hx⟩ := hp
    simp only [step, hx]
    have hpos : 0 < s.calls.count .waiting := by
      rw [h.signalled]
      exact countP_pos_of_getElem? hx rfl
    exact h.move hx (.looping c) (fun _ => rfl) (signalTaken s.calls) s.posted
      (count_signalTaken hpos) nofun nofun nofun nofun
  | readPeer e =>
    obtain ⟨c, hx⟩ := hp
    simp only [step, hx]
    cases hpeer : (s.consumers c).peer with
    | none =>
      refine h.go hx (.exiting c) (fun _ => rfl) rfl s.posted nofun (fun c' hc' => ?_) nofun nofun
      cases hc'
      exact hpeer
    | some p =>
      refine h.go hx (.pulling c p) (fun _ => rfl) rfl s.posted nofun nofun (fun c' p' hc' => ?_)
        nofun
      cases hc'
      exact .inr hpeer
  | pull e event =>
    obtain ⟨c, p, hx⟩ := hp
    simp only [step, hx]
    cases event with
    | none =>
      refine h.go hx (.exiting c) (fun _ => rfl) rfl s.posted nofun (fun c' hc' => ?_) nofun nofun
      cases hc'
      exact ho c p hx
    | some ev =>
      refine h.go hx (.posting c p ev) (fun _ => rfl) rfl s.posted nofun nofun nofun
        fun c' p' ev' hc' => ?_
      cases hc'
      exact h.pulls c p (List.mem_of_getElem? hx)
  | post e =>
    obtain ⟨c, p, ev, hx⟩ := hp
    simp only [step, hx]
    exact h.go hx (.looping c) (fun _ => rfl) rfl _ nofun nofun nofun nofun
  | endEngine e =>
    obtain ⟨c, hx⟩ := hp
    exact endEngine_inv h hx

theorem step_correct {a : Action} (h : s.Inv) (hp : s.Possible a) : s.Correct a := by
  cases a with
  | connectPullSupplier c supplier => exact fun hc => by simp [step, connect, if_pos hc]
  | post e =>
    obtain ⟨c, p, ev, hx⟩ := hp
    refine ⟨c, p, ev, hx, h.posts c p ev (List.mem_of_getElem? hx), ?_⟩
    simp [step, hx]
  | readArgument e =>
    simp only [Correct, step]
    split <;> rfl
  | pull e event =>
    obtain ⟨c, p, hx⟩ := hp
    cases event <;> simp only [Correct, step, hx] <;> rfl
  | readPeer e =>
    obtain ⟨c, hx⟩ := hp
    simp only [Correct, step, hx]
    split <;> rfl
  | signal e =>
    obtain ⟨c, hx⟩ := hp
    simp only [Correct, step, hx]
    rfl
  | endEngine e =>
    obtain ⟨c, hx⟩ := hp
    simp only [Correct, step, hx]
    rfl
  | _ => rfl

/-- In a run whose steps are orderly each connected consumer has its engine, and each connection is
acknowledged. -/
theorem proper_run (as : List Action) (hpossible : Runs.Along step Possible initial as)
    (horderly : Runs.Along step Orderly initial as) : Runs.Along step Proper initial as :=
  have hstep : ∀ s a, Inv s → s.Possible a ∧ s.Orderly a → s.Proper a ∧ Inv (s.step a) :=
    fun _ _ h ha =>
      have hs := step_inv h ha.1 ha.2
      ⟨⟨step_correct h ha.1, hs.sound⟩, hs⟩
  Runs.along_of_inv hstep as initial inv_initial (Runs.along_and as hpossible horderly)

/-- Two consumers are connected one after the other, and the first one is disconnected and connected
again after its engine has ended. -/
def orderlyRun : List Action :=
  [.connectPullSupplier 0 (some 7), .readArgument 0, .signal 0, .leaveConnect 0,
    .connectPullSupplier 1 (some 8), .readPeer 0, .readArgument 1, .pull 0 (some 5), .signal 1,
    .post 0, .leaveConnect 1, .readPeer 0, .disconnectPullConsumer 0, .pull 0 none, .endEngine 0,
    .connectPullSupplier 0 (some 9), .readArgument 2, .signal 2, .leaveConnect 2]

theorem proper_orderlyRun : Runs.Along step Proper initial orderlyRun := by
  refine proper_run orderlyRun ?_ ?_
  · refine ⟨trivial, rfl, ⟨_, rfl⟩, rfl, trivial, ⟨_, rfl⟩, rfl, ⟨_, _, rfl⟩, ⟨_, rfl⟩,
      ⟨_, _, _, rfl⟩, rfl, ⟨_, rfl⟩, trivial, ⟨_, _, rfl⟩, ⟨_, rfl⟩, trivial, rfl, ⟨_, rfl⟩, rfl,
      trivial⟩
  · refine ⟨.inr ⟨rfl, by decide⟩, trivial, trivial, trivial, .inr ⟨rfl, by decide⟩, trivial,
      trivial, trivial, trivial, trivial, trivial, trivial, trivial, fun c p h => ?_, trivial,
      .inr ⟨rfl, by decide⟩, trivial, trivial, trivial, trivial⟩
    cases h
    rfl

/-- Both engines read `A_S` after the second connection: the first consumer is not served. -/
theorem not_proper_overwritten :
    Runs.Along step Possible initial
        [.connectPullSupplier 0 (some 7), .connectPullSupplier 1 (some 8)] ∧
      ¬Runs.Along step Proper initial
        [.connectPullSupplier 0 (some 7), .connectPullSupplier 1 (some 8)] := by
  refine ⟨⟨trivial, trivial, trivial⟩, fun ⟨_, ⟨_, hsound⟩, _⟩ => ?_⟩
  exact absurd (hsound.served 0 rfl) (by decide)

end System

end PolyORB.PullEngines
