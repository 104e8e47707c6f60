import PolyORB.Giop.PendingRequests
import PolyORB.Lib.Runs

/-!
# Runs of a server session

Requests arrive, are cancelled and are completed, by tasks that interleave at the critical sections
of the session.  A completion is one call of `Send_Reply`: a first attempt and, when it fails, a
second one with `Recovery`.
-/

namespace PolyORB

open Program (stateAfter)

/-- Where a call of `Send_Reply` stands. -/
inductive ReplyPhase where
  | firstAttempt | failed | recovery
  deriving DecidableEq

structure ServerSystem where
  session : GiopSession
  arrived : List Nat
  completed : List Nat
  /-- Ids whose CancelRequest was processed between their arrival and their completion. -/
  cancelled : List Nat
  /-- The calls of `Send_Reply` that have not returned. -/
  replies : List (Nat × ReplyPhase)
  /-- Ids that have left the table, in this order. -/
  removals : List Nat

inductive ServerAction where
  | arrive (req id : Nat)
  | cancel (id : Nat) (hasSurrogate : Nat → Bool)
  | complete (id : Nat)
  | finish (id : Nat) (outcome : Except Exn (Option SysError))
  | recover (id : Nat)
  | finishRecovery (id : Nat) (outcome : Except Exn (Option SysError))
  | disconnect (hasSurrogate : Nat → Bool)

namespace GiopSession

/-- The ids of the entries of the table. -/
def pendingIds (s : GiopSession) : List Nat := s.occupants.map PendingRequest.requestId

def repliedId? : Output → Option Nat
  | .replySent id => some id
  | _ => none

/-- The ids for which a reply was emitted. -/
def replied (s : GiopSession) : List Nat := s.outputs.filterMap repliedId?

end GiopSession

namespace ServerSystem

def start : ServerSystem :=
  { session := .start .server false
    arrived := []
    completed := []
    cancelled := []
    replies := []
    removals := [] }

def become (s : ServerSystem) (t : GiopSession) : ServerSystem :=
  { s with session := t, removals := s.removals ++ s.session.pendingIds.diff t.pendingIds }

def perform (s : ServerSystem) : ServerAction → ServerSystem
  | .arrive req id =>
    { s.become (stateAfter (queueRequest req id false) s.session) with arrived := id :: s.arrived }
  | .cancel id hasSurrogate =>
    { s.become (stateAfter (commonProcessCancelRequest id hasSurrogate) s.session) with
      cancelled := if id ∈ s.arrived ∧ id ∉ s.completed then id :: s.cancelled else s.cancelled }
  | .complete id =>
    match beginReply id false s.session with
    | .ok true t =>
      { s.become t with
        completed := id :: s.completed
        replies := (id, .firstAttempt) :: s.replies }
    | .ok false t | .error _ t => { s.become t with completed := id :: s.completed }
  | .finish id outcome =>
    match finishReply id outcome s.session with
    | .ok (some _) t =>
      { s.become t with replies := (id, .failed) :: s.replies.erase (id, .firstAttempt) }
    | .ok none t | .error _ t => { s.become t with replies := s.replies.erase (id, .firstAttempt) }
  | .recover id =>
    match beginReply id true s.session with
    | .ok true t => { s.become t with replies := (id, .recovery) :: s.replies.erase (id, .failed) }
    | .ok false t | .error _ t => { s.become t with replies := s.replies.erase (id, .failed) }
  | .finishRecovery id outcome =>
    { s.become (stateAfter (finishReply id outcome) s.session) with
      replies := s.replies.erase (id, .recovery) }
  | .disconnect hasSurrogate => s.become (stateAfter (handleDisconnect hasSurrogate) s.session)

/-- What an action needs to be possible: ids are distinct, and `Send_Reply` is called once for each
request. -/
def Possible (s : ServerSystem) : ServerAction → Prop
  | .arrive _ id => id ∉ s.arrived
  | .complete id => id ∈ s.arrived ∧ id ∉ s.completed
  | .finish id _ => (id, .firstAttempt) ∈ s.replies
  | .recover id => (id, .failed) ∈ s.replies
  | .finishRecovery id _ => (id, .recovery) ∈ s.replies
  | .cancel .. | .disconnect _ => True

instance (s : ServerSystem) : (a : ServerAction) → Decidable (s.Possible a)
  | .arrive _ id => inferInstanceAs (Decidable (id ∉ s.arrived))
  | .complete id => inferInstanceAs (Decidable (id ∈ s.arrived ∧ id ∉ s.completed))
  | .finish id _ => inferInstanceAs (Decidable ((id, ReplyPhase.firstAttempt) ∈ s.replies))
  | .recover id => inferInstanceAs (Decidable ((id, ReplyPhase.failed) ∈ s.replies))
  | .finishRecovery id _ => inferInstanceAs (Decidable ((id, ReplyPhase.recovery) ∈ s.replies))
  | .cancel .. | .disconnect _ => inferInstanceAs (Decidable True)

/-- At most one reply for each id, none for a cancelled one, and what was completed was removed from
the table once. -/
structure Disciplined (s : ServerSystem) : Prop where
  replied_once : s.session.replied.Nodup
  cancelled_silent : ∀ id ∈ s.cancelled, id ∉ s.session.replied
  removed_once : ∀ id ∈ s.completed, id ∉ s.session.pendingIds ∧ s.removals.count id = 1

/-! ## The invariant -/

structure ServerInv (s : ServerSystem) : Prop where
  /-- An id that has arrived is in the table, or was removed from it once. -/
  arrived_perm : (s.session.pendingIds ++ s.removals).Perm s.arrived
  arrived_nodup : s.arrived.Nodup
  completed_removed : ∀ id ∈ s.completed, id ∈ s.removals
  cancelled_removed : ∀ id ∈ s.cancelled, id ∈ s.removals
  /-- Each id is replied to, or has one call of `Send_Reply` in progress. -/
  replies_nodup : (s.replies.map Prod.fst ++ s.session.replied).Nodup
  replies_completed : ∀ id ∈ s.replies.map Prod.fst ++ s.session.replied,
    id ∈ s.completed ∧ id ∉ s.cancelled

namespace ServerInv

variable {s : ServerSystem}

theorem start : ServerSystem.start.ServerInv where
  arrived_perm := .refl _
  arrived_nodup := .nil
  completed_removed := fun _ h => absurd h List.not_mem_nil
  cancelled_removed := fun _ h => absurd h List.not_mem_nil
  replies_nodup := .nil
  replies_completed := fun _ h => absurd h List.not_mem_nil

theorem table_nodup (h : s.ServerInv) : (s.session.pendingIds ++ s.removals).Nodup :=
  h.arrived_perm.nodup_iff.mpr h.arrived_nodup

theorem disciplined (h : s.ServerInv) : s.Disciplined where
  replied_once := (List.nodup_append.mp h.replies_nodup).2.1
  cancelled_silent := fun id hc hr => (h.replies_completed id (List.mem_append_right _ hr)).2 hc
  removed_once := by
    intro id hid
    have hrem := h.completed_removed id hid
    obtain ⟨-, hnodup, hdisj⟩ := List.nodup_append.mp h.table_nodup
    exact ⟨fun hp => hdisj id hp id hrem rfl, List.count_eq_one_of_mem hnodup hrem⟩

/-! ## What the steps keep -/

variable {id : Nat}

theorem removed_of_arrived (h : s.ServerInv) (harr : id ∈ s.arrived)
    (hid : id ∉ s.session.pendingIds) : id ∈ s.removals :=
  (List.mem_append.mp (h.arrived_perm.mem_iff.mpr harr)).resolve_left hid

variable {t : GiopSession}

theorem become_perm (hsub : t.pendingIds.Subperm s.session.pendingIds) :
    (t.pendingIds ++ (s.become t).removals).Perm (s.session.pendingIds ++ s.removals) := by
  have hdiff : (t.pendingIds ++ s.session.pendingIds.diff t.pendingIds).Perm
      s.session.pendingIds :=
    List.subperm_append_diff_self_of_count_le fun id _ => hsub.count_le id
  calc t.pendingIds ++ (s.removals ++ s.session.pendingIds.diff t.pendingIds)
    _ |>.Perm (t.pendingIds ++ (s.session.pendingIds.diff t.pendingIds ++ s.removals)) :=
      List.perm_append_comm.append_left _
    _ |>.Perm (s.session.pendingIds ++ s.removals) := by
      rw [← List.append_assoc]
      exact hdiff.append_right _

theorem become (h : s.ServerInv) (hsub : t.pendingIds.Subperm s.session.pendingIds)
    (hrep : t.replied = s.session.replied) : (s.become t).ServerInv where
  arrived_perm := (become_perm hsub).trans h.arrived_perm
  arrived_nodup := h.arrived_nodup
  completed_removed := fun id hid => List.mem_append_left _ (h.completed_removed id hid)
  cancelled_removed := fun id hid => List.mem_append_left _ (h.cancelled_removed id hid)
  replies_nodup := by
    show (s.replies.map Prod.fst ++ t.replied).Nodup
    rw [hrep]
    exact h.replies_nodup
  replies_completed := by
    show ∀ id ∈ s.replies.map Prod.fst ++ t.replied, _
    rw [hrep]
    exact h.replies_completed

theorem arrive (h : s.ServerInv) (hid : id ∉ s.arrived)
    (hperm : t.pendingIds.Perm (id :: s.session.pendingIds))
    (hrep : t.replied = s.session.replied) :
    ServerInv { s.become t with arrived := id :: s.arrived } where
  arrived_perm := by
    have hnot : id ∉ s.session.pendingIds := fun hm =>
      hid (h.arrived_perm.mem_iff.mp (List.mem_append_left _ hm))
    have hdiff : s.session.pendingIds.diff t.pendingIds = [] := by
      rw [hperm.diff_left, List.diff_cons, List.erase_of_not_mem hnot]
      have hlen := (List.subperm_append_diff_self_of_count_le
        fun id (_ : id ∈ s.session.pendingIds) => Nat.le_refl (s.session.pendingIds.count id)).length_eq
      rw [List.length_append] at hlen
      exact List.eq_nil_of_length_eq_zero (by omega)
    show (t.pendingIds ++ (s.removals ++ s.session.pendingIds.diff t.pendingIds)).Perm _
    rw [hdiff, List.append_nil]
    exact (hperm.append_right _).trans (h.arrived_perm.cons id)
  arrived_nodup := List.nodup_cons.mpr ⟨hid, h.arrived_nodup⟩
  completed_removed := fun id hid => List.mem_append_left _ (h.completed_removed id hid)
  cancelled_removed := fun id hid => List.mem_append_left _ (h.cancelled_removed id hid)
  replies_nodup := by
    show (s.replies.map Prod.fst ++ t.replied).Nodup
    rw [hrep]
    exact h.replies_nodup
  replies_completed := by
    show ∀ id ∈ s.replies.map Prod.fst ++ t.replied, _
    rw [hrep]
    exact h.replies_completed

theorem cancel (h : s.ServerInv) (harr : id ∈ s.arrived) (hcomp : id ∉ s.completed)
    (hid : id ∉ s.session.pendingIds) : ServerInv { s with cancelled := id :: s.cancelled } where
  arrived_perm := h.arrived_perm
  arrived_nodup := h.arrived_nodup
  completed_removed := h.completed_removed
  cancelled_removed := by
    intro q hq
    rcases List.mem_cons.mp hq with rfl | hq
    · exact h.removed_of_arrived harr hid
    · exact h.cancelled_removed q hq
  replies_nodup := h.replies_nodup
  replies_completed := by
    intro q hq
    obtain ⟨hqc, hqn⟩ := h.replies_completed q hq
    refine ⟨hqc, fun hm => ?_⟩
    rcases List.mem_cons.mp hm with rfl | hm
    · exact hcomp hqc
    · exact hqn hm

theorem complete (h : s.ServerInv) (hrem : id ∈ s.removals) :
    ServerInv { s with completed := id :: s.completed } where
  arrived_perm := h.arrived_perm
  arrived_nodup := h.arrived_nodup
  completed_removed := by
    intro q hq
    rcases List.mem_cons.mp hq with rfl | hq
    · exact hrem
    · exact h.completed_removed q hq
  cancelled_removed := h.cancelled_removed
  replies_nodup := h.replies_nodup
  replies_completed := by
    intro q hq
    obtain ⟨hqc, hqn⟩ := h.replies_completed q hq
    exact ⟨List.mem_cons_of_mem _ hqc, hqn⟩

theorem reply (h : s.ServerInv) (hcomp : id ∈ s.completed) (hcanc : id ∉ s.cancelled)
    (hnew : id ∉ s.replies.map Prod.fst ++ s.session.replied) (phase : ReplyPhase) :
    ServerInv { s with replies := (id, phase) :: s.replies } where
  arrived_perm := h.arrived_perm
  arrived_nodup := h.arrived_nodup
  completed_removed := h.completed_removed
  cancelled_removed := h.cancelled_removed
  replies_nodup := List.nodup_cons.mpr ⟨hnew, h.replies_nodup⟩
  replies_completed := by
    intro q hq
    rcases List.mem_cons.mp hq with rfl | hq
    · exact ⟨hcomp, hcanc⟩
    · exact h.replies_completed q hq

variable {phase : ReplyPhase}

theorem replies_perm (hin : (id, phase) ∈ s.replies) :
    (s.replies.map Prod.fst ++ s.session.replied).Perm
      (id :: ((s.replies.erase (id, phase)).map Prod.fst ++ s.session.replied)) :=
  ((List.perm_cons_erase hin).map Prod.fst).append_right _

theorem move (h : s.ServerInv) (hin : (id, phase) ∈ s.replies)
    (t : GiopSession) (rs : List (Nat × ReplyPhase))
    (hsub : t.pendingIds.Subperm s.session.pendingIds) (hrs : (rs.map Prod.fst ++ t.replied).Subperm
      (id :: ((s.replies.erase (id, phase)).map Prod.fst ++ s.session.replied))) :
    ServerInv { s.become t with replies := rs } where
  arrived_perm := (become_perm hsub).trans h.arrived_perm
  arrived_nodup := h.arrived_nodup
  completed_removed := fun id hid => List.mem_append_left _ (h.completed_removed id hid)
  cancelled_removed := fun id hid => List.mem_append_left _ (h.cancelled_removed id hid)
  replies_nodup := by
    obtain ⟨l, hl, hls⟩ := hrs.trans (replies_perm hin).symm.subperm
    exact hl.nodup_iff.mp (h.replies_nodup.sublist hls)
  replies_completed := fun q hq =>
    h.replies_completed q ((replies_perm hin).mem_iff.mpr (hrs.subset hq))

/-! ## One step -/

variable {t : GiopSession}

theorem step_arrive (h : s.ServerInv) {req : Nat} (hid : id ∉ s.arrived) :
    (s.perform (.arrive req id)).ServerInv := by
  have heq : stateAfter (queueRequest req id false) s.session = { s.session with
      pendingReqs := SlotTable.insert ⟨req, false, 0, id⟩ s.session.pendingReqs
      outputs := s.session.outputs ++ [.queueRequest req] } := rfl
  have hins := SlotTable.insert_perm ⟨req, false, 0, id⟩ s.session.pendingReqs
  simp only [perform, heq]
  refine h.arrive hid (hins.map PendingRequest.requestId) ?_
  simp [GiopSession.replied, GiopSession.repliedId?]

theorem getPendingRequest_gone (h : s.ServerInv) (id : Nat) :
    ∃ o t, getPendingRequest id s.session = .ok o t ∧ t.outputs = s.session.outputs ∧
      t.pendingIds.Subperm s.session.pendingIds ∧ id ∉ t.pendingIds ∧
      (o.isSome = true → id ∈ s.session.pendingIds) := by
  rcases getPendingRequest_cases s.session id with ⟨hno, heq⟩ | ⟨p, u, hp, hid, hperm, heq⟩
  · refine ⟨none, s.session, heq, rfl, .refl _, fun hm => ?_, fun habs => by cases habs⟩
    obtain ⟨p, hp, hpid⟩ := List.mem_map.mp hm
    exact hno p hp hpid
  · have hids : s.session.pendingIds.Perm
        (id :: GiopSession.pendingIds { s.session with pendingReqs := u }) :=
      hid ▸ hperm.map PendingRequest.requestId
    have hnodup := hids.nodup_iff.mp (List.nodup_append.mp h.table_nodup).1
    refine ⟨some p, _, heq, rfl, ?_, (List.nodup_cons.mp hnodup).1, fun _ => ?_⟩
    · exact (List.sublist_cons_self ..).subperm.trans hids.symm.subperm
    · exact hids.mem_iff.mpr (List.mem_cons_self ..)

theorem replied_eq {s : GiopSession} {o : List Output} (h : t.outputs = s.outputs ++ o)
    (ho : ∀ x ∈ o, GiopSession.repliedId? x = none) : t.replied = s.replied := by
  rw [GiopSession.replied, h, List.filterMap_append, List.filterMap_eq_nil_iff.mpr ho,
    List.append_nil, GiopSession.replied]

theorem step_cancel (h : s.ServerInv) (id : Nat) (hasSurrogate : Nat → Bool) :
    (s.perform (.cancel id hasSurrogate)).ServerInv := by
  obtain ⟨o, t, hget, hout, hsub, hgone, -⟩ := h.getPendingRequest_gone id
  have hcancel : ∃ new, stateAfter (commonProcessCancelRequest id hasSurrogate) s.session =
      { t.listening with outputs := t.outputs ++ new } ∧ ∀ x ∈ new, GiopSession.repliedId? x = none := by
    cases o with
    | none =>
      refine ⟨[], ?_, by simp⟩
      rw [List.append_nil]
      refine Program.stateAfter_ok (a := ()) ?_
      unfold commonProcessCancelRequest
      rw [Program.bind_ok hget]
      rfl
    | some p =>
      have hrest : commonProcessCancelRequest id hasSurrogate s.session = (do
          Program.onlyIf (hasSurrogate p.req = true) (emit (.abortRequest p.req))
          GiopSession.expectGiopHeader) t := by
        unfold commonProcessCancelRequest
        rw [Program.bind_ok hget]
      by_cases hs : hasSurrogate p.req = true
      · rw [Program.onlyIf_true hs] at hrest
        exact ⟨[.abortRequest p.req], Program.stateAfter_ok (a := ()) hrest,
          by simp [GiopSession.repliedId?]⟩
      · rw [Program.onlyIf_false hs] at hrest
        refine ⟨[], ?_, by simp⟩
        rw [List.append_nil]
        exact Program.stateAfter_ok (a := ()) hrest
  obtain ⟨new, heq, hnew⟩ := hcancel
  have hbecome : (s.become { t.listening with outputs := t.outputs ++ new }).ServerInv :=
    h.become hsub (replied_eq (congrArg (· ++ new) hout) hnew)
  simp only [perform, heq]
  split_ifs with hc
  · exact hbecome.cancel hc.1 hc.2 hgone
  · exact hbecome

theorem beginReply_eq {o : Option PendingRequest}
    (h : getPendingRequest id s.session = .ok o t) (recovery : Bool) :
    beginReply id recovery s.session = .ok (o.isSome || recovery) t := by
  unfold beginReply
  rw [Program.bind_ok (removePendingRequest_eq h)]
  rfl

theorem step_complete (h : s.ServerInv) (harr : id ∈ s.arrived)
    (hcomp : id ∉ s.completed) : (s.perform (.complete id)).ServerInv := by
  obtain ⟨o, t, hget, hout, hsub, hgone, hsome⟩ := h.getPendingRequest_gone id
  have heq := beginReply_eq hget false
  have hbecome : (s.become t).ServerInv :=
    h.become hsub (by rw [GiopSession.replied, hout, GiopSession.replied])
  have hdone := hbecome.complete (hbecome.removed_of_arrived harr hgone)
  cases ho : o.isSome with
  | false =>
    rw [ho] at heq
    simp only [perform, heq]
    exact hdone
  | true =>
    rw [ho] at heq
    have hcanc : id ∉ s.cancelled := fun hm =>
      (List.nodup_append.mp h.table_nodup).2.2 id (hsome ho) id (h.cancelled_removed id hm) rfl
    have hnew : id ∉ (s.become t).replies.map Prod.fst ++ (s.become t).session.replied :=
      fun hm => hcomp (hbecome.replies_completed id hm).1
    have hopen := hdone.reply (List.mem_cons_self ..) hcanc hnew .firstAttempt
    simp only [perform, heq]
    exact hopen

theorem emitted (h : s.ServerInv) (hin : (id, phase) ∈ s.replies) :
    ServerInv { s.become { s.session with outputs := s.session.outputs ++ [.replySent id] } with
      replies := s.replies.erase (id, phase) } := by
  refine h.move hin _ _ (.refl _) (List.Perm.subperm ?_)
  have hrep : GiopSession.replied { s.session with
      outputs := s.session.outputs ++ [.replySent id] } = s.session.replied ++ [id] :=
    List.filterMap_append
  rw [hrep, ← List.append_assoc]
  exact List.perm_append_singleton ..

theorem unanswered (h : s.ServerInv) (hin : (id, phase) ∈ s.replies) :
    ServerInv { s.become s.session with replies := s.replies.erase (id, phase) } :=
  h.move hin _ _ (.refl _) (List.sublist_cons_self ..).subperm

theorem step_finish (h : s.ServerInv) (outcome : Except Exn (Option SysError))
    (hin : (id, ReplyPhase.firstAttempt) ∈ s.replies) :
    (s.perform (.finish id outcome)).ServerInv := by
  rcases outcome with e | (_ | e)
  · exact h.unanswered hin
  · exact h.emitted hin
  · exact h.move hin s.session ((id, .failed) :: s.replies.erase _) (.refl _) (.refl _)

theorem step_finishRecovery (h : s.ServerInv) (outcome : Except Exn (Option SysError))
    (hin : (id, ReplyPhase.recovery) ∈ s.replies) :
    (s.perform (.finishRecovery id outcome)).ServerInv := by
  rcases outcome with e | (_ | e)
  · exact h.unanswered hin
  · exact h.emitted hin
  · exact h.unanswered hin

theorem step_recover (h : s.ServerInv) (hin : (id, ReplyPhase.failed) ∈ s.replies) :
    (s.perform (.recover id)).ServerInv := by
  obtain ⟨o, t, hget, hout, hsub, -, -⟩ := h.getPendingRequest_gone id
  have heq := beginReply_eq hget true
  rw [Bool.or_true] at heq
  simp only [perform, heq]
  refine h.move hin t _ hsub ?_
  have hrep : t.replied = s.session.replied := by
    rw [GiopSession.replied, hout, GiopSession.replied]
  rw [hrep]
  exact .refl _

theorem step_disconnect (h : s.ServerInv) (hasSurrogate : Nat → Bool) :
    (s.perform (.disconnect hasSurrogate)).ServerInv := by
  refine h.become (List.nil_subperm) (replied_eq rfl fun o ho => ?_)
  obtain ⟨p, -, hp⟩ := List.mem_filterMap.mp ho
  split_ifs at hp
  · exact Option.some.inj hp ▸ rfl
  · exact Option.some.inj hp ▸ rfl

theorem step (h : s.ServerInv) {a : ServerAction} (ha : s.Possible a) : (s.perform a).ServerInv := by
  cases a with
  | arrive req id => exact h.step_arrive ha
  | cancel id hasSurrogate => exact h.step_cancel id hasSurrogate
  | complete id => exact h.step_complete ha.1 ha.2
  | finish id outcome => exact h.step_finish outcome ha
  | recover id => exact h.step_recover ha
  | finishRecovery id outcome => exact h.step_finishRecovery outcome ha
  | disconnect hasSurrogate => exact h.step_disconnect hasSurrogate

end ServerInv

/-! ## Runs -/

/-- Whatever the order of arrivals, cancellations, completions and disconnection, every state is
disciplined. -/
theorem serverRun_disciplined (run : List ServerAction)
    (hA : Runs.Along perform Possible start run) :
    Runs.Along perform (fun s a => (s.perform a).Disciplined) start run :=
  Runs.along_of_inv (fun _ _ (h : ServerInv _) ha => ⟨(h.step ha).disciplined, h.step ha⟩) run _
    .start hA

/-- The first attempt of a completion fails, a cancellation comes too late for it. -/
theorem serverRun_disciplined_recovery :
    Runs.Along perform (fun s a => (s.perform a).Disciplined) start
      [.arrive 5 7, .arrive 6 8, .complete 7, .finish 7 (.ok (some ⟨.marshalE, 0, .completedYes⟩)),
        .cancel 7 fun _ => true, .cancel 8 fun _ => true, .recover 7, .finishRecovery 7 (.ok none),
        .complete 8] :=
  serverRun_disciplined _ (by decide)

end ServerSystem

end PolyORB
