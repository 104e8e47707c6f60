import PolyORB.Types

/-!
# The basic POA manager

PolyORB.POA_Manager.Basic_Manager: the four states of a manager, and the requests that its hold
servant has queued.  Each operation runs under the lock of the manager.  Waiting for completion and
etherealization do nothing in the source and are left out.
-/

namespace PolyORB

inductive PoaState where
  | holding
  | active
  | discarding
  | inactive
  deriving DecidableEq

/-- `Basic_POA_Manager`; `pmHoldServant` tells whether the hold servant was created. -/
structure BasicPoaManager where
  currentState : PoaState
  pmHoldServant : Bool
  heldRequests : List Nat
  deriving DecidableEq

/-- What `Find_Servant` makes of a request, according to the state of the manager. -/
inductive FoundServant where
  | failure (error : ErrorId)
  | holdServant
  /-- The object adapter looks the servant up. -/
  | ofAdapter
  deriving DecidableEq

namespace BasicPoaManager

def create : BasicPoaManager :=
  { currentState := .holding, pmHoldServant := false, heldRequests := [] }

/-- The loop of `Reemit_Requests`: what is queued on the ORB, after `emitted`. -/
def reemitRequests (emitted : List Nat) : List Nat → List Nat
  | [] => emitted
  | r :: rs => reemitRequests (emitted ++ [r]) rs

theorem reemitRequests_eq (emitted held : List Nat) :
    reemitRequests emitted held = emitted ++ held := by
  induction held generalizing emitted with
  | nil => rw [reemitRequests, List.append_nil]
  | cons r rs ih => rw [reemitRequests, ih, List.append_assoc, List.singleton_append]

/-- `Activate`: the manager, the requests it emits again, and the error it throws. -/
def activate (pm : BasicPoaManager) : BasicPoaManager × List Nat × Option ErrorId :=
  if pm.currentState = .inactive then (pm, [], some .adapterInactiveE)
  else
    let pm := { pm with currentState := .active }
    if pm.pmHoldServant = true ∧ pm.heldRequests ≠ [] then
      ({ pm with heldRequests := [] }, reemitRequests [] pm.heldRequests, none)
    else (pm, [], none)

/-- `Hold_Requests` and `Discard_Requests`, which lead to the given state. -/
def leadTo (state : PoaState) (pm : BasicPoaManager) : BasicPoaManager × Option ErrorId :=
  if pm.currentState = .inactive then (pm, some .adapterInactiveE)
  else ({ pm with currentState := state }, none)

def holdRequests (pm : BasicPoaManager) : BasicPoaManager × Option ErrorId := pm.leadTo .holding

def discardRequests (pm : BasicPoaManager) : BasicPoaManager × Option ErrorId :=
  pm.leadTo .discarding

def deactivate (pm : BasicPoaManager) : BasicPoaManager := { pm with currentState := .inactive }

def getHoldServant (pm : BasicPoaManager) : BasicPoaManager := { pm with pmHoldServant := true }

def executeServant (pm : BasicPoaManager) (req : Nat) : BasicPoaManager :=
  { pm with heldRequests := pm.heldRequests ++ [req] }

def findServant (pm : BasicPoaManager) : FoundServant :=
  match pm.currentState with
  | .discarding | .inactive => .failure .transientE
  | .holding => .holdServant
  | .active => .ofAdapter

/-! ## What the operations do -/

variable {pm : BasicPoaManager}

theorem activate_of_not_inactive (h : pm.currentState ≠ .inactive)
    (hs : pm.heldRequests ≠ [] → pm.pmHoldServant = true) :
    pm.activate = ({ pm with currentState := .active, heldRequests := [] }, pm.heldRequests, none) := by
  unfold activate
  rw [if_neg h]
  by_cases hq : pm.heldRequests = []
  · rw [if_neg (by simp [hq]), hq]
  · rw [if_pos ⟨hs hq, hq⟩, reemitRequests_eq, List.nil_append]

theorem activate_of_inactive (h : pm.currentState = .inactive) :
    pm.activate = (pm, [], some .adapterInactiveE) := if_pos h

theorem leadTo_of_not_inactive (h : pm.currentState ≠ .inactive)
    (state : PoaState) : pm.leadTo state = ({ pm with currentState := state }, none) := if_neg h

theorem leadTo_of_inactive (h : pm.currentState = .inactive)
    (state : PoaState) : pm.leadTo state = (pm, some .adapterInactiveE) := if_pos h

end BasicPoaManager

end PolyORB
