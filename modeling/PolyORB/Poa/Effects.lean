import PolyORB.Poa.Activation

/-!
# What the operations of a POA leave alone

A lookup leaves the POA as it was, except that an exception may leave the lock of the map taken.
The operations that write change the map and its lock only.
-/

namespace PolyORB

open Program

/-! ## Programs that only look -/

/-- The program returns in the state it started from; if it raises, only the lock may differ. -/
def Quiet {α : Type} (p : PoaM α) : Prop :=
  ∀ a : Adapter,
    match p a with
    | .ok _ a' => a' = a
    | .error _ a' => ∃ lock, a' = { a with mapLock := lock }

section Quiet

variable {α β : Type}

theorem quiet_pure (x : α) : Quiet (pure x : PoaM α) := fun _ => rfl

theorem quiet_throw (e : Exn) : Quiet (throw e : PoaM α) := fun a => ⟨a.mapLock, rfl⟩

theorem quiet_evaluate (x : Except Exn α) : Quiet (evaluate x : PoaM α) := by
  cases x with
  | error e => exact quiet_throw e
  | ok x => exact quiet_pure x

theorem quiet_get : Quiet (get : PoaM Adapter) := fun _ => rfl

theorem quiet_bind {p : PoaM α} {f : α → PoaM β} (hp : Quiet p) (hf : ∀ x, Quiet (f x)) :
    Quiet (p >>= f) := by
  intro a
  have h := hp a
  rw [bind_apply]
  cases hres : p a with
  | error e a' =>
    rw [hres] at h
    exact h
  | ok x a' =>
    rw [hres] at h
    obtain rfl : a' = a := h
    exact hf x _

theorem quiet_locked (x : Except Exn α) (f : α → β) :
    Quiet (do
      enterMap
      let e ← evaluate x
      leaveMap
      return f e : PoaM β) := by
  intro a
  cases hl : a.mapLock with
  | true =>
    rw [bind_error (enterMap_locked hl)]
    exact ⟨a.mapLock, rfl⟩
  | false =>
    rw [bind_ok (enterMap_apply hl)]
    cases x with
    | error e => exact ⟨true, rfl⟩
    | ok y =>
      show ({ a with mapLock := false } : Adapter) = a
      rw [← hl]

theorem quiet_retainedIdToServant (uOid : UnmarshalledOid) : Quiet (retainedIdToServant uOid) := by
  refine quiet_bind quiet_get fun a => ?_
  cases a.servantRetention with
  | nonRetain => exact quiet_pure _
  | retain =>
    cases a.ensureLifespan uOid with
    | some e => exact quiet_pure _
    | none =>
      cases a.activeObjectMap with
      | none => exact quiet_pure _
      | some m =>
        exact quiet_locked (m.getById uOid) fun e =>
          (Except.ok (e.bind MapEntry.servant) : PoaOutcome (Option Servant))

theorem quiet_processingIdToServant (uOid : UnmarshalledOid) :
    Quiet (processingIdToServant uOid) := by
  refine quiet_bind (quiet_retainedIdToServant uOid) fun r => ?_
  cases r with
  | error e => exact quiet_pure _
  | ok servant =>
    refine quiet_bind quiet_get fun a => ?_
    cases a.requestProcessing <;> cases servant <;> exact quiet_pure _

theorem quiet_idToServant (host : Endianness) (oid : ObjectId) : Quiet (idToServant host oid) := by
  refine quiet_bind (quiet_evaluate _) fun r => ?_
  obtain ⟨uOid, error⟩ := r
  cases error with
  | some e => exact quiet_pure _
  | none =>
    refine quiet_bind quiet_get fun a => ?_
    cases a.ensureLifespan uOid with
    | some e => exact quiet_pure _
    | none => exact quiet_processingIdToServant uOid

theorem quiet_etherealize (host : Endianness) (uOid : UnmarshalledOid) :
    Quiet (etherealize host uOid) := by
  refine quiet_bind quiet_get fun a => ?_
  rcases a.servantManager with _ | ⟨i, _ | _ | _⟩
  · exact quiet_pure _
  · refine quiet_bind (quiet_idToServant host _) fun r => ?_
    cases r <;> exact quiet_pure _
  · exact quiet_pure _
  · exact quiet_pure _

theorem quiet_reconstructObjectIdentifier (host : Endianness) (oid : ObjectId) :
    Quiet (reconstructObjectIdentifier host oid) := by
  refine quiet_bind quiet_get fun a => ?_
  cases a.idAssignment with
  | systemId => exact quiet_bind (quiet_evaluate _) fun r => quiet_pure _
  | userId =>
    exact quiet_bind (quiet_evaluate _) fun _ => quiet_bind quiet_get fun _ => quiet_pure _

theorem quiet_ensureServantUniqueness (p : Servant) : Quiet (ensureServantUniqueness p) := by
  refine quiet_bind quiet_get fun a => ?_
  cases a.idUniqueness with
  | multipleId => exact quiet_pure _
  | uniqueId =>
    cases a.activeObjectMap with
    | none => exact quiet_pure _
    | some m => exact quiet_locked (.ok ()) fun _ =>
        if (m.getByServant p).isSome = true then some ErrorId.servantAlreadyActiveE else none

theorem quiet_objectIdentifier (oid : Option ObjectId) (error : Option ErrorId) :
    Quiet (objectIdentifier host oid error) := by
  refine quiet_bind (quiet_evaluate _) fun x => quiet_bind quiet_get fun a => ?_
  cases a.idAssignment with
  | systemId => exact quiet_pure _
  | userId =>
    refine quiet_bind (quiet_evaluate _) fun r => ?_
    obtain ⟨u, error⟩ := r
    cases error with
    | some e => exact quiet_pure _
    | none => exact quiet_bind (quiet_evaluate _) fun _ => quiet_pure _

end Quiet

/-! ## What an operation writes -/

/-- Nothing but the map and its lock changes. -/
def Frame {α : Type} (p : PoaM α) : Prop :=
  ∀ a : Adapter, ∃ om lock, stateAfter p a = { a with activeObjectMap := om, mapLock := lock }

section Frame

variable {α β : Type}

theorem frame_of_quiet {p : PoaM α} (hp : Quiet p) : Frame p := by
  intro a
  have hq := hp a
  rw [stateAfter]
  cases hres : p a with
  | ok x a' =>
    rw [hres] at hq
    obtain rfl : a' = a := hq
    exact ⟨a'.activeObjectMap, a'.mapLock, rfl⟩
  | error e a' =>
    rw [hres] at hq
    obtain ⟨lock, rfl⟩ := hq
    exact ⟨a.activeObjectMap, lock, rfl⟩

theorem frame_bind {p : PoaM α} {f : α → PoaM β} (hp : Frame p) (hf : ∀ x, Frame (f x)) :
    Frame (p >>= f) := by
  intro a
  obtain ⟨om, lock, h⟩ := hp a
  rw [stateAfter, bind_apply]
  cases hres : p a with
  | error e a' =>
    rw [stateAfter_error hres] at h
    exact ⟨om, lock, h⟩
  | ok x a' =>
    rw [stateAfter_ok hres] at h
    subst h
    obtain ⟨om', lock', h'⟩ := hf x { a with activeObjectMap := om, mapLock := lock }
    exact ⟨om', lock', h'⟩

theorem frame_pure (x : α) : Frame (pure x : PoaM α) := frame_of_quiet (quiet_pure x)

theorem frame_evaluate (x : Except Exn α) : Frame (evaluate x : PoaM α) :=
  frame_of_quiet (quiet_evaluate x)

theorem frame_get : Frame (get : PoaM Adapter) := frame_of_quiet quiet_get

theorem frame_enterMap : Frame enterMap := by
  intro a
  cases hl : a.mapLock with
  | true => exact ⟨a.activeObjectMap, a.mapLock, stateAfter_error (enterMap_locked hl)⟩
  | false => exact ⟨a.activeObjectMap, true, stateAfter_ok (enterMap_apply hl)⟩

theorem frame_leaveMap : Frame leaveMap := fun a => ⟨a.activeObjectMap, false, rfl⟩

theorem frame_createMapIfNull : Frame createMapIfNull := fun a => ⟨some a.map, a.mapLock, rfl⟩

theorem frame_setMap (om : ObjectMap) : Frame (setMap om) := fun a => ⟨some om, a.mapLock, rfl⟩

theorem frame_leaveWith (x : α) : Frame (do leaveMap; return x : PoaM α) :=
  frame_bind frame_leaveMap fun _ => frame_pure x

theorem frame_assignSystemId (host : Endianness) (hint : Option ObjectId) :
    Frame (assignSystemId host hint) := by
  refine frame_bind frame_enterMap fun _ => frame_bind frame_createMapIfNull fun _ =>
    frame_bind frame_get fun a => ?_
  rcases a.activeObjectMap with _ | m | m
  · exact frame_leaveWith _
  · cases hint with
    | none =>
      refine frame_bind frame_get fun b => frame_bind (frame_evaluate _) fun r => ?_
      exact frame_bind (frame_setMap _) fun _ => frame_leaveWith _
    | some hint =>
      refine frame_bind (frame_evaluate _) fun r => ?_
      dsimp only
      split_ifs
      · exact frame_leaveWith _
      · exact frame_bind (frame_evaluate _) fun _ => frame_bind frame_get fun _ =>
          frame_bind (frame_evaluate _) fun _ => frame_bind (frame_setMap _) fun _ =>
            frame_leaveWith _
  · exact frame_leaveWith _

theorem frame_assignObjectIdentifier (host : Endianness) (hint : Option ObjectId) :
    Frame (assignObjectIdentifier host hint) := by
  refine frame_bind frame_get fun a => ?_
  cases a.idAssignment with
  | systemId => exact frame_assignSystemId host hint
  | userId =>
    cases hint with
    | none => exact frame_pure _
    | some hint =>
      exact frame_bind (frame_evaluate _) fun _ => frame_bind frame_get fun _ => frame_pure _

theorem frame_retainServantAssociation (p : Servant) (uOid : UnmarshalledOid) :
    Frame (retainServantAssociation p uOid) := by
  refine frame_bind frame_get fun a => ?_
  cases a.servantRetention with
  | nonRetain => exact frame_pure _
  | retain =>
    refine frame_bind (frame_of_quiet (quiet_ensureServantUniqueness p)) fun error => ?_
    split_ifs
    · exact frame_pure _
    · refine frame_bind frame_enterMap fun _ => frame_bind frame_createMapIfNull fun _ =>
        frame_bind frame_get fun b => ?_
      cases b.activeObjectMap with
      | none => exact frame_of_quiet (quiet_throw _)
      | some m =>
        dsimp only
        split_ifs
        · exact frame_leaveWith _
        · refine frame_bind (frame_evaluate _) fun r => ?_
          cases r with
          | error e => exact frame_leaveWith _
          | ok m => exact frame_bind (frame_setMap _) fun _ => frame_leaveWith _

theorem frame_activateObject (host : Endianness) (p : Servant) (hint : Option ObjectId) :
    Frame (activateObject host p hint) := by
  refine frame_bind (frame_assignObjectIdentifier host hint) fun r => ?_
  cases r with
  | error e => exact frame_pure _
  | ok uOid =>
    refine frame_bind (frame_retainServantAssociation p uOid) fun error => ?_
    cases error <;> exact frame_pure _

end Frame

end PolyORB
