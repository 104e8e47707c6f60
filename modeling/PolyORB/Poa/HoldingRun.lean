import PolyORB.Poa.BasicManager
import PolyORB.Lib.Runs

/-!
# Requests that are held

Tasks that execute requests interleave with those that change the state of the manager.  A task
tests the state, gets the hold servant and queues its request in three critical sections.  The
system records which requests the hold servant was given, in order, and what became of them.
-/

namespace PolyORB

/-- What becomes of a request that was held. -/
inductive Fate where
  | reemitted
  | refused
  deriving DecidableEq

structure HoldingSystem where
  manager : BasicPoaManager
  /-- Requests that found the manager holding. -/
  tested : List Nat
  /-- Requests that have got the hold servant, and are not queued yet. -/
  dispatched : List Nat
  given : List Nat
  settled : List (Nat × Fate)

inductive HoldingAction where
  | findServant (req : Nat)
  | getHoldServant (req : Nat)
  | executeServant (req : Nat)
  | activate
  | holdRequests
  | discardRequests
  | deactivate
  deriving DecidableEq

namespace HoldingSystem

def start : HoldingSystem :=
  { manager := .create, tested := [], dispatched := [], given := [], settled := [] }

def perform (s : HoldingSystem) : HoldingAction → HoldingSystem
  | .findServant req =>
    match s.manager.findServant with
    | .holdServant => { s with tested := s.tested ++ [req] }
    | .failure _ | .ofAdapter => s
  | .getHoldServant req =>
    { s with
      manager := s.manager.getHoldServant
      tested := s.tested.erase req
      dispatched := s.dispatched ++ [req] }
  | .executeServant req =>
    { s with
      manager := s.manager.executeServant req
      dispatched := s.dispatched.erase req
      given := s.given ++ [req] }
  | .activate =>
    { s with
      manager := s.manager.activate.1
      settled := s.settled ++ s.manager.activate.2.1.map (·, .reemitted) }
  | .holdRequests => { s with manager := s.manager.holdRequests.1 }
  | .discardRequests => { s with manager := s.manager.discardRequests.1 }
  | .deactivate => { s with manager := s.manager.deactivate }

/-- A task gets the hold servant after its test, and queues its request after that. -/
def Possible (s : HoldingSystem) : HoldingAction → Prop
  | .getHoldServant req => req ∈ s.tested
  | .executeServant req => req ∈ s.dispatched
  | _ => True

instance (s : HoldingSystem) : (a : HoldingAction) → Decidable (s.Possible a)
  | .getHoldServant req => inferInstanceAs (Decidable (req ∈ s.tested))
  | .executeServant req => inferInstanceAs (Decidable (req ∈ s.dispatched))
  | .findServant _ | .activate | .holdRequests | .discardRequests | .deactivate =>
    inferInstanceAs (Decidable True)

/-- No task is about to queue a request. -/
def Quiescent (s : HoldingSystem) : Prop := s.tested = [] ∧ s.dispatched = []

/-- The requests that were held are settled as the state of the manager asks for. -/
structure Orderly (s : HoldingSystem) (a : HoldingAction) : Prop where
  /-- Each request given to the hold servant is settled once, in order, or still held. -/
  ledger : (s.perform a).given =
    (s.perform a).settled.map Prod.fst ++ (s.perform a).manager.heldRequests
  activates : a = .activate → s.manager.currentState ≠ .inactive →
    (s.perform a).settled = s.settled ++ s.manager.heldRequests.map (·, .reemitted) ∧
      (s.perform a).manager.heldRequests = []
  leaves : s.manager.currentState = .holding →
    (s.perform a).manager.currentState = .discarding ∨
      (s.perform a).manager.currentState = .inactive →
    (s.perform a).settled = s.settled ++ s.manager.heldRequests.map (·, .refused) ∧
      (s.perform a).manager.heldRequests = []
  quiet : (s.perform a).Quiescent → (s.perform a).manager.currentState ≠ .holding →
    (s.perform a).manager.heldRequests = []
  inactive : s.manager.currentState = .inactive → (s.perform a).manager.currentState = .inactive

/-- A manager that is not holding any more is given no request by the last task that tested its
state, and it leaves the holding state for another than the active one without held requests. -/
def Kept (s : HoldingSystem) : HoldingAction → Prop
  | .executeServant req =>
    s.manager.currentState = .holding ∨ ¬(s.tested = [] ∧ s.dispatched = [req])
  | .discardRequests | .deactivate =>
    s.manager.currentState = .holding → s.manager.heldRequests = []
  | _ => True

instance (s : HoldingSystem) : (a : HoldingAction) → Decidable (s.Kept a)
  | .executeServant req =>
    inferInstanceAs (Decidable (_ ∨ ¬(s.tested = [] ∧ s.dispatched = [req])))
  | .discardRequests | .deactivate =>
    inferInstanceAs (Decidable (s.manager.currentState = .holding → s.manager.heldRequests = []))
  | .findServant _ | .getHoldServant _ | .activate | .holdRequests =>
    inferInstanceAs (Decidable True)

/-! ## The invariant -/

structure HoldingInv (s : HoldingSystem) : Prop where
  ledger : s.given = s.settled.map Prod.fst ++ s.manager.heldRequests
  servant : s.dispatched ≠ [] ∨ s.manager.heldRequests ≠ [] → s.manager.pmHoldServant = true
  quiet : s.Quiescent → s.manager.currentState ≠ .holding → s.manager.heldRequests = []

theorem holdingInv_start : start.HoldingInv where
  ledger := rfl
  servant := by
    rintro (h | h)
    · exact absurd rfl h
    · exact absurd rfl h
  quiet := fun _ h => absurd rfl h

variable {a : HoldingAction}

namespace HoldingInv

variable {s : HoldingSystem}

theorem orderly_of_quiet (hinv : (s.perform a).HoldingInv)
    (ha : a ≠ .activate) (hleave : s.manager.currentState = .holding →
      (s.perform a).manager.currentState = .discarding ∨
        (s.perform a).manager.currentState = .inactive →
      (s.perform a).settled = s.settled ∧ s.manager.heldRequests = [] ∧
        (s.perform a).manager.heldRequests = []) (hin : s.manager.currentState = .inactive →
      (s.perform a).manager.currentState = .inactive) : s.Orderly a where
  ledger := hinv.ledger
  activates := fun h => absurd h ha
  leaves := by
    intro hs hs'
    obtain ⟨hset, hnil, hnil'⟩ := hleave hs hs'
    refine ⟨?_, hnil'⟩
    rw [hset, hnil, List.map_nil, List.append_nil]
  quiet := hinv.quiet
  inactive := hin

theorem findServant (h : s.HoldingInv) (req : Nat) : (s.perform (.findServant req)).HoldingInv := by
  rw [perform]
  cases hf : s.manager.findServant with
  | failure e => exact h
  | ofAdapter => exact h
  | holdServant =>
    refine ⟨h.ledger, h.servant, fun hq => ?_⟩
    exact absurd hq.1 (List.append_ne_nil_of_right_ne_nil _ (List.cons_ne_nil _ _))

theorem getHoldServant (h : s.HoldingInv) (req : Nat) :
    (s.perform (.getHoldServant req)).HoldingInv where
  ledger := h.ledger
  servant := fun _ => rfl
  quiet := fun hq =>
    absurd hq.2 (List.append_ne_nil_of_right_ne_nil _ (List.cons_ne_nil _ _))

theorem executeServant (h : s.HoldingInv) {req : Nat} (hmem : req ∈ s.dispatched)
    (hkept : s.Kept (.executeServant req)) : (s.perform (.executeServant req)).HoldingInv where
  ledger := by
    show s.given ++ [req] = s.settled.map Prod.fst ++ (s.manager.heldRequests ++ [req])
    rw [h.ledger, List.append_assoc]
  servant := fun _ => h.servant (.inl (List.ne_nil_of_mem hmem))
  quiet := by
    rintro ⟨ht, hd⟩ hs
    rcases hkept with hk | hk
    · exact absurd hk hs
    · refine absurd ⟨ht, ?_⟩ hk
      have hlen := List.length_erase_of_mem hmem
      have hpos := List.length_pos_of_mem hmem
      have hone : s.dispatched.length = 1 := by
        have hnil := congrArg List.length hd
        simp only [perform, List.length_nil] at hnil
        omega
      obtain ⟨r, hr⟩ := List.length_eq_one_iff.mp hone
      rw [hr] at hmem ⊢
      rw [List.mem_singleton.mp hmem]

theorem activate (h : s.HoldingInv) : (s.perform .activate).HoldingInv ∧ s.Orderly .activate := by
  by_cases hi : s.manager.currentState = .inactive
  · have hp : s.perform .activate = s := by
      simp [perform, BasicPoaManager.activate_of_inactive hi]
    have hinv : (s.perform .activate).HoldingInv := by
      rw [hp]
      exact h
    refine ⟨hinv, hinv.ledger, fun _ hn => absurd hi hn, fun hs => ?_, hinv.quiet, fun _ => ?_⟩
    · rw [hi] at hs
      cases hs
    · rw [hp, hi]
  · have hact := BasicPoaManager.activate_of_not_inactive hi fun hq => h.servant (.inr hq)
    have hp : s.perform .activate =
        { s with
          manager := { s.manager with currentState := .active, heldRequests := [] }
          settled := s.settled ++ s.manager.heldRequests.map (·, .reemitted) } := by
      simp [perform, hact]
    have hinv : (s.perform .activate).HoldingInv := by
      rw [hp]
      refine ⟨?_, fun hd => ?_, fun _ _ => rfl⟩
      · show s.given = (s.settled ++ s.manager.heldRequests.map (·, Fate.reemitted)).map Prod.fst ++ []
        rw [List.map_append, List.map_map, List.append_nil, h.ledger]
        congr 1
        exact (List.map_id _).symm
      · rcases hd with hd | hd
        · exact h.servant (.inl hd)
        · exact absurd rfl hd
    refine ⟨hinv, hinv.ledger, fun _ _ => ?_, fun _ hs' => ?_, hinv.quiet, fun hs => absurd hs hi⟩
    · rw [hp]
      exact ⟨rfl, rfl⟩
    · rw [hp] at hs'
      rcases hs' with hs' | hs' <;> cases hs'

theorem setState (h : s.HoldingInv) {state : PoaState}
    (hq : s.Quiescent → state ≠ .holding → s.manager.heldRequests = []) :
    ({ s with manager := { s.manager with currentState := state } } : HoldingSystem).HoldingInv :=
  ⟨h.ledger, h.servant, hq⟩

theorem held_of_kept (h : s.HoldingInv)
    (hkept : s.manager.currentState = .holding → s.manager.heldRequests = []) (hq : s.Quiescent) :
    s.manager.heldRequests = [] := by
  by_cases hs : s.manager.currentState = .holding
  · exact hkept hs
  · exact h.quiet hq hs

end HoldingInv

/-! ## One step -/

theorem orderly_leadTo {s : HoldingSystem} (h : s.HoldingInv) {state : PoaState}
    (ha : a ≠ .activate) (hp : s.perform a = { s with manager := (s.manager.leadTo state).1 })
    (hs : state ≠ .active) (hkept : state ≠ .holding → s.manager.currentState = .holding →
      s.manager.heldRequests = []) : s.Orderly a ∧ (s.perform a).HoldingInv := by
  by_cases hi : s.manager.currentState = .inactive
  · have hp' : s.perform a = s := by rw [hp, BasicPoaManager.leadTo_of_inactive hi]
    have hinv : (s.perform a).HoldingInv := by
      rw [hp']
      exact h
    refine ⟨HoldingInv.orderly_of_quiet hinv ha (fun hh => ?_) fun _ => by rw [hp', hi], hinv⟩
    rw [hi] at hh
    cases hh
  · have hp' : s.perform a = { s with manager := { s.manager with currentState := state } } := by
      rw [hp, BasicPoaManager.leadTo_of_not_inactive hi]
    have hinv : (s.perform a).HoldingInv := by
      rw [hp']
      exact h.setState fun hq hns => h.held_of_kept (hkept hns) hq
    refine ⟨HoldingInv.orderly_of_quiet hinv ha (fun hh hs' => ?_) fun hi' => absurd hi' hi, hinv⟩
    rw [hp'] at hs' ⊢
    have hns : state ≠ .holding := by
      rintro rfl
      rcases hs' with hs' | hs' <;> cases hs'
    exact ⟨rfl, hkept hns hh, hkept hns hh⟩

theorem orderly_of_kept {s : HoldingSystem} (h : s.HoldingInv)
    (hpos : s.Possible a) (hkept : s.Kept a) : s.Orderly a ∧ (s.perform a).HoldingInv := by
  have hstay : ∀ {a : HoldingAction}, (s.perform a).HoldingInv → a ≠ .activate →
      (s.perform a).manager.currentState = s.manager.currentState →
      s.Orderly a ∧ (s.perform a).HoldingInv := by
    intro a hinv ha hsame
    refine ⟨HoldingInv.orderly_of_quiet hinv ha (fun hh hs' => ?_) fun hi => by rw [hsame, hi], hinv⟩
    rw [hsame, hh] at hs'
    rcases hs' with hs' | hs' <;> cases hs'
  cases a with
  | findServant req =>
    refine hstay (h.findServant req) (by rintro ⟨⟩) ?_
    rw [perform]
    cases s.manager.findServant <;> rfl
  | getHoldServant req => exact hstay (h.getHoldServant req) (by rintro ⟨⟩) rfl
  | executeServant req => exact hstay (h.executeServant hpos hkept) (by rintro ⟨⟩) rfl
  | activate => exact ⟨h.activate.2, h.activate.1⟩
  | holdRequests =>
    exact orderly_leadTo h (by rintro ⟨⟩) rfl (by rintro ⟨⟩) fun hn => absurd rfl hn
  | discardRequests =>
    exact orderly_leadTo h (by rintro ⟨⟩) rfl (by rintro ⟨⟩) fun _ => hkept
  | deactivate =>
    have hinv : (s.perform .deactivate).HoldingInv :=
      h.setState fun hq _ => h.held_of_kept hkept hq
    exact ⟨HoldingInv.orderly_of_quiet hinv (by rintro ⟨⟩) (fun hh _ => ⟨rfl, hkept hh, hkept hh⟩)
      fun _ => rfl, hinv⟩

theorem kept_of_orderly {s : HoldingSystem} (ho : s.Orderly a) : s.Kept a := by
  cases a with
  | findServant _ | getHoldServant _ | activate | holdRequests => trivial
  | executeServant req =>
    by_contra hk
    obtain ⟨hs, hq⟩ := not_or.mp hk
    obtain ⟨ht, hd⟩ := not_not.mp hq
    have hnil := ho.quiet ⟨ht, by simp [perform, hd]⟩ hs
    exact absurd hnil (List.append_ne_nil_of_right_ne_nil _ (List.cons_ne_nil _ _))
  | discardRequests =>
    intro hs
    have hi : s.manager.currentState ≠ .inactive := by
      rw [hs]
      rintro ⟨⟩
    have hp : s.perform .discardRequests =
        { s with manager := { s.manager with currentState := .discarding } } := by
      rw [perform, BasicPoaManager.discardRequests, BasicPoaManager.leadTo_of_not_inactive hi]
    have hnil := (ho.leaves hs (.inl (by rw [hp]))).2
    rw [hp] at hnil
    exact hnil
  | deactivate =>
    intro hs
    exact (ho.leaves hs (.inr rfl)).2

/-! ## Runs -/

/-- A run treats the held requests as it should exactly when its steps are `Kept`. -/
theorem holdingRun_orderly_iff (as : List HoldingAction)
    (h : Runs.Along perform Possible start as) :
    Runs.Along perform Orderly start as ↔ Runs.Along perform Kept start as := by
  have hstep : ∀ s a, HoldingInv s → Possible s a →
      (Orderly s a → Kept s a) ∧ (Kept s a → Orderly s a ∧ HoldingInv (s.perform a)) :=
    fun s a hinv hpos => ⟨kept_of_orderly, orderly_of_kept hinv hpos⟩
  exact Runs.along_iff hstep as start holdingInv_start h

/-- Two requests are held, and emitted again when the manager becomes active. -/
def reemittedRun : List HoldingAction :=
  [.findServant 1, .getHoldServant 1, .findServant 2, .executeServant 1, .getHoldServant 2,
    .executeServant 2, .activate, .discardRequests, .deactivate]

theorem holdingRun_orderly_reemittedRun : Runs.Along perform Orderly start reemittedRun :=
  (holdingRun_orderly_iff reemittedRun (by decide)).mpr (by decide)

/-- A request that is held when the manager starts to discard requests gets no answer. -/
theorem not_orderly_discardedRun :
    ¬∀ as, Runs.Along perform Possible start as → Runs.Along perform Orderly start as := by
  intro hall
  have h := hall [.findServant 1, .getHoldServant 1, .executeServant 1, .discardRequests]
    (by decide)
  have hnil := (h.2.2.2.1.leaves rfl (.inl rfl)).2
  exact absurd hnil (by decide)

end HoldingSystem

end PolyORB
