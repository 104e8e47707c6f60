import PolyORB.Tasking.RavenscarSynchros

/-!
# Mutexes and conditions of the threads

The queue in a protected object is that of the synchro objects of the threads that wait, and a mutex
is owned by the one thread that has it or is about to get it.
-/

namespace PolyORB

namespace ThreadPhase

/-- The mutex that a thread waits for, and its synchro object. -/
def enters : ThreadPhase → Option (Nat × Nat)
  | .suspended (.enter m) i => some (m, i)
  | _ => none

def leaves : ThreadPhase → Option Nat
  | .getting (.wait _ m) | .preparing (.wait _ m) _ | .prepared (.wait _ m) _ | .leaving m _ => some m
  | _ => none

def waits : ThreadPhase → Option (Nat × Nat)
  | .suspended (.wait c _) i | .leaving _ (some (c, i)) | .resuming _ (some (c, _, i)) =>
    some (c, i)
  | _ => none

end ThreadPhase

/-! ## Queues of threads and of their places -/

theorem forall₂_exists {α β : Type} {R : α → β → Prop} {xs : List α} {ys : List β}
    (h : List.Forall₂ R xs ys) {x : α} (hx : x ∈ xs) : ∃ y ∈ ys, R x y := by
  induction h with
  | nil => cases hx
  | cons hr _ ih =>
    rcases List.mem_cons.mp hx with rfl | hx
    · exact ⟨_, List.mem_cons_self, hr⟩
    · obtain ⟨y, hy, hr⟩ := ih hx
      exact ⟨y, List.mem_cons_of_mem _ hy, hr⟩

theorem forall₂_exists_right {α β : Type} {R : α → β → Prop} {xs : List α} {ys : List β}
    (h : List.Forall₂ R xs ys) {y : β} (hy : y ∈ ys) : ∃ x ∈ xs, R x y := by
  obtain ⟨x, hx, hr⟩ := forall₂_exists (R := fun b a => R a b) (List.Forall₂.flip h) hy
  exact ⟨x, hx, hr⟩

theorem forall₂_nodup {α β : Type} {R : α → β → Prop} {xs : List α} {ys : List β}
    (h : List.Forall₂ R xs ys) (hfun : ∀ x y y', R x y → R x y' → y = y') (hnd : ys.Nodup) :
    xs.Nodup := by
  induction h with
  | nil => exact List.nodup_nil
  | cons hr hrest ih =>
    obtain ⟨hy, hnd⟩ := List.nodup_cons.mp hnd
    refine List.nodup_cons.mpr ⟨fun hx => ?_, ih hnd⟩
    obtain ⟨y, hmem, hr'⟩ := forall₂_exists hrest hx
    exact hy (hfun _ _ _ hr hr' ▸ hmem)

theorem forall₂_congr {α β : Type} {R R' : α → β → Prop} {xs : List α} {ys : List β}
    (h : List.Forall₂ R xs ys) (hr : ∀ x ∈ xs, ∀ y, R x y → R' x y) : List.Forall₂ R' xs ys := by
  induction h with
  | nil => exact .nil
  | cons hxy _ ih =>
    exact .cons (hr _ List.mem_cons_self _ hxy) (ih fun x hx => hr x (List.mem_cons_of_mem _ hx))

namespace Ravenscar

def EntersAt (s : Ravenscar) (m u i : Nat) : Prop :=
  ∃ th, s.threads[u]? = some th ∧ th.phase.enters = some (m, i)

def WaitsAt (s : Ravenscar) (c u i : Nat) : Prop :=
  ∃ th, s.threads[u]? = some th ∧ th.phase.waits = some (c, i)

/-- The thread has got the mutex, but `Enter` has not returned. -/
def claim (s : Ravenscar) (t : Nat) (phase : ThreadPhase) (m : Nat) : Nat :=
  match phase with
  | .aborting m' _ => if m' = m then 1 else 0
  | .suspended (.enter m') _ | .checkSignaled (.enter m') _ | .checkWaiting (.enter m') _
  | .releasing (.enter m') _ => if m' = m ∧ t ∉ s.entering m then 1 else 0
  | _ => 0

structure MonitorInv (s : Ravenscar) : Prop where
  mutex : ∀ m, ∃ l, (s.mutexes m).Holds s.synchros.numberOfIndices (s.owner m).isSome l ∧
    List.Forall₂ (s.EntersAt m) (s.entering m) l
  condition : ∀ c, ∃ l, (s.conditions c).Holds s.synchros.numberOfIndices l ∧
    List.Forall₂ (s.WaitsAt c) (s.waiting c) l
  owner : ∀ (t : Nat) (th : RavenscarThread), s.threads[t]? = some th → ∀ m,
    th.owned.count m + s.claim t th.phase m = if s.owner m = some t then 1 else 0
  leaves : ∀ (t : Nat) (th : RavenscarThread), s.threads[t]? = some th →
    ∀ m ∈ th.phase.leaves, m ∈ th.owned

variable {s s' : Ravenscar} {t u i j m c : Nat} {th th' thu : RavenscarThread}

theorem EntersAt.unique (h : s.EntersAt m u i) (h' : s.EntersAt m u j) : i = j := by
  obtain ⟨th, hu, hp⟩ := h
  obtain ⟨th', hu', hp'⟩ := h'
  rw [hu] at hu'
  obtain rfl := Option.some.inj hu'
  rw [hp] at hp'
  exact (Prod.mk.inj (Option.some.inj hp')).2

theorem WaitsAt.unique (h : s.WaitsAt c u i) (h' : s.WaitsAt c u j) : i = j := by
  obtain ⟨th, hu, hp⟩ := h
  obtain ⟨th', hu', hp'⟩ := h'
  rw [hu] at hu'
  obtain rfl := Option.some.inj hu'
  rw [hp] at hp'
  exact (Prod.mk.inj (Option.some.inj hp')).2

theorem MonitorInv.entering_nodup (h : s.MonitorInv) (m : Nat) : (s.entering m).Nodup := by
  obtain ⟨l, hl, hq⟩ := h.mutex m
  exact forall₂_nodup hq (fun _ _ _ hr hr' => hr.unique hr') hl.waiters.nodup

theorem MonitorInv.waiting_nodup (h : s.MonitorInv) (c : Nat) : (s.waiting c).Nodup := by
  obtain ⟨l, hl, hq⟩ := h.condition c
  exact forall₂_nodup hq (fun _ _ _ hr hr' => hr.unique hr') hl.waiters.nodup

theorem MonitorInv.enters (h : s.MonitorInv) (ht : s.threads[t]? = some th)
    (hm : t ∈ s.entering m) : ∃ i, th.phase.enters = some (m, i) := by
  obtain ⟨l, -, hq⟩ := h.mutex m
  obtain ⟨i, -, th', ht', hp⟩ := forall₂_exists hq hm
  rw [ht] at ht'
  obtain rfl := Option.some.inj ht'
  exact ⟨i, hp⟩

theorem MonitorInv.waits (h : s.MonitorInv) (ht : s.threads[t]? = some th)
    (hc : t ∈ s.waiting c) : ∃ i, th.phase.waits = some (c, i) := by
  obtain ⟨l, -, hq⟩ := h.condition c
  obtain ⟨i, -, th', ht', hp⟩ := forall₂_exists hq hc
  rw [ht] at ht'
  obtain rfl := Option.some.inj ht'
  exact ⟨i, hp⟩

theorem MonitorInv.not_mem_entering (h : s.MonitorInv) (ht : s.threads[t]? = some th)
    (hp : th.phase.enters = none) (m : Nat) : t ∉ s.entering m := by
  intro hm
  obtain ⟨i, hi⟩ := h.enters ht hm
  rw [hp] at hi
  cases hi

theorem MonitorInv.not_mem_waiting (h : s.MonitorInv) (ht : s.threads[t]? = some th)
    (hp : th.phase.waits = none) (c : Nat) : t ∉ s.waiting c := by
  intro hc
  obtain ⟨i, hi⟩ := h.waits ht hc
  rw [hp] at hi
  cases hi

theorem EntersAt.set (h : s.EntersAt m u i) (hs : s'.threads = s.threads.set t th')
    (hut : u ≠ t) : s'.EntersAt m u i := by
  obtain ⟨th, hu, hp⟩ := h
  exact ⟨th, by rw [hs, List.getElem?_set_ne (Ne.symm hut)]; exact hu, hp⟩

theorem WaitsAt.set (h : s.WaitsAt c u i) (ht : s.threads[t]? = some th)
    (hs : s'.threads = s.threads.set t th')
    (hut : u ≠ t ∨ th'.phase.waits = th.phase.waits) : s'.WaitsAt c u i := by
  obtain ⟨thu, hu, hp⟩ := h
  by_cases heq : u = t
  · subst heq
    rw [ht] at hu
    obtain rfl := Option.some.inj hu
    refine ⟨th', ?_, (hut.resolve_left fun hne => hne rfl).trans hp⟩
    rw [hs, List.getElem?_set_self (List.getElem?_eq_some_iff.mp ht).1]
  · exact ⟨thu, by rw [hs, List.getElem?_set_ne (Ne.symm heq)]; exact hu, hp⟩

variable {phase : ThreadPhase}

theorem claim_congr (h : t ∈ s'.entering m ↔ t ∈ s.entering m) :
    s'.claim t phase m = s.claim t phase m := by
  unfold claim
  split <;> simp only [h]

theorem MonitorInv.move (h : s.MonitorInv) (ht : s.threads[t]? = some th)
    (hs : s'.threads = s.threads.set t th')
    (hn : s'.synchros.numberOfIndices = s.synchros.numberOfIndices)
    (hmutexes : s'.mutexes = s.mutexes) (hconditions : s'.conditions = s.conditions)
    (howner : s'.owner = s.owner) (hentering : s'.entering = s.entering)
    (hwaiting : s'.waiting = s.waiting)
    (hown : ∀ m, th'.owned.count m + s.claim t th'.phase m =
      th.owned.count m + s.claim t th.phase m)
    (henters : ∀ m, t ∉ s.entering m)
    (hwaits : th'.phase.waits = th.phase.waits ∨ ∀ c, t ∉ s.waiting c)
    (hleaves : ∀ m ∈ th'.phase.leaves, m ∈ th'.owned) : s'.MonitorInv where
  mutex m := by
    obtain ⟨l, hl, hq⟩ := h.mutex m
    rw [hmutexes, howner, hentering, hn]
    refine ⟨l, hl, forall₂_congr hq fun u hu i hr => hr.set hs ?_⟩
    rintro rfl
    exact henters m hu
  condition c := by
    obtain ⟨l, hl, hq⟩ := h.condition c
    rw [hconditions, hwaiting, hn]
    refine ⟨l, hl, forall₂_congr hq fun u hu i hr => hr.set ht hs ?_⟩
    rcases hwaits with hwaits | hwaits
    · exact .inr hwaits
    · refine .inl ?_
      rintro rfl
      exact hwaits c hu
  owner u thu hu m := by
    rw [howner, claim_congr (s := s) (by rw [hentering])]
    rcases getElem?_set_cases ht hs hu with ⟨rfl, rfl⟩ | ⟨-, hu⟩
    · rw [hown]
      exact h.owner u th ht m
    · exact h.owner u thu hu m
  leaves u thu hu m hm := by
    rcases getElem?_set_cases ht hs hu with ⟨rfl, rfl⟩ | ⟨-, hu⟩
    · exact hleaves m hm
    · exact h.leaves u thu hu m hm

theorem MonitorInv.mutex_set (h : s.MonitorInv) (ht : s.threads[t]? = some th)
    (hs : s'.threads = s.threads.set t th')
    (hn : s'.synchros.numberOfIndices = s.synchros.numberOfIndices)
    (hconditions : s'.conditions = s.conditions) (hwaiting : s'.waiting = s.waiting)
    (hothers : ∀ m' ≠ m, s'.mutexes m' = s.mutexes m' ∧ s'.owner m' = s.owner m' ∧
      s'.entering m' = s.entering m')
    (hmutex : ∃ l, (s'.mutexes m).Holds s.synchros.numberOfIndices (s'.owner m).isSome l ∧
      List.Forall₂ (s'.EntersAt m) (s'.entering m) l)
    (howner : ∀ (u : Nat) (thu : RavenscarThread), s'.threads[u]? = some thu →
      thu.owned.count m + s'.claim u thu.phase m = if s'.owner m = some u then 1 else 0)
    (hown : ∀ m' ≠ m, th'.owned.count m' + s.claim t th'.phase m' =
      th.owned.count m' + s.claim t th.phase m')
    (henters : th.phase.enters = none) (hwaits : th'.phase.waits = th.phase.waits)
    (hleaves : ∀ m ∈ th'.phase.leaves, m ∈ th'.owned) : s'.MonitorInv where
  mutex m' := by
    rw [hn]
    by_cases hm : m' = m
    · rw [hm]
      exact hmutex
    · obtain ⟨l, hl, hq⟩ := h.mutex m'
      obtain ⟨hmutexes, howner, hentering⟩ := hothers m' hm
      rw [hmutexes, howner, hentering]
      refine ⟨l, hl, forall₂_congr hq fun u hu i hr => hr.set hs ?_⟩
      rintro rfl
      exact h.not_mem_entering ht henters m' hu
  condition c := by
    obtain ⟨l, hl, hq⟩ := h.condition c
    rw [hconditions, hwaiting, hn]
    exact ⟨l, hl, forall₂_congr hq fun u _ i hr => hr.set ht hs (.inr hwaits)⟩
  owner u thu hu m' := by
    by_cases hm : m' = m
    · rw [hm]
      exact howner u thu hu
    · obtain ⟨-, howner, hentering⟩ := hothers m' hm
      rw [howner, claim_congr (s := s) (by rw [hentering])]
      rcases getElem?_set_cases ht hs hu with ⟨rfl, rfl⟩ | ⟨-, hu⟩
      · rw [hown m' hm]
        exact h.owner u th ht m'
      · exact h.owner u thu hu m'
  leaves u thu hu m hm := by
    rcases getElem?_set_cases ht hs hu with ⟨rfl, rfl⟩ | ⟨-, hu⟩
    · exact hleaves m hm
    · exact h.leaves u thu hu m hm

theorem MonitorInv.condition_set (h : s.MonitorInv) (ht : s.threads[t]? = some th)
    (hs : s'.threads = s.threads.set t th')
    (hn : s'.synchros.numberOfIndices = s.synchros.numberOfIndices)
    (hmutexes : s'.mutexes = s.mutexes) (howner : s'.owner = s.owner)
    (hentering : s'.entering = s.entering)
    (hothers : ∀ c' ≠ c, s'.conditions c' = s.conditions c' ∧ s'.waiting c' = s.waiting c')
    (hcondition : ∃ l, (s'.conditions c).Holds s.synchros.numberOfIndices l ∧
      List.Forall₂ (s'.WaitsAt c) (s'.waiting c) l)
    (howned : th'.owned = th.owned)
    (hclaim : ∀ m, s.claim t th'.phase m = s.claim t th.phase m)
    (henters : th.phase.enters = none) (hwaits : th.phase.waits = none)
    (hleaves : ∀ m ∈ th'.phase.leaves, m ∈ th.owned) : s'.MonitorInv where
  mutex m := by
    obtain ⟨l, hl, hq⟩ := h.mutex m
    rw [hmutexes, howner, hentering, hn]
    refine ⟨l, hl, forall₂_congr hq fun u hu i hr => hr.set hs ?_⟩
    rintro rfl
    exact h.not_mem_entering ht henters m hu
  condition c' := by
    rw [hn]
    by_cases hc : c' = c
    · rw [hc]
      exact hcondition
    · obtain ⟨l, hl, hq⟩ := h.condition c'
      obtain ⟨hconditions, hwaiting⟩ := hothers c' hc
      rw [hconditions, hwaiting]
      refine ⟨l, hl, forall₂_congr hq fun u hu i hr => hr.set ht hs (.inl ?_)⟩
      rintro rfl
      exact h.not_mem_waiting ht hwaits c' hu
  owner u thu hu m := by
    rw [howner, claim_congr (s := s) (by rw [hentering])]
    rcases getElem?_set_cases ht hs hu with ⟨rfl, rfl⟩ | ⟨-, hu⟩
    · rw [howned, hclaim]
      exact h.owner u th ht m
    · exact h.owner u thu hu m
  leaves u thu hu m hm := by
    rcases getElem?_set_cases ht hs hu with ⟨rfl, rfl⟩ | ⟨-, hu⟩
    · rw [howned]
      exact hleaves m hm
    · exact h.leaves u thu hu m hm

/-! ## The places of a queue -/

theorem synchro_of_enters (h : phase.enters = some (m, i)) :
    phase.synchro = some i := by
  cases phase with
  | suspended p j =>
    cases p with
    | enter m' => exact congrArg some (Prod.mk.inj (Option.some.inj h)).2
    | _ => cases h
  | _ => cases h

theorem synchro_of_waits (h : phase.waits = some (c, i)) :
    phase.synchro = some i := by
  cases phase with
  | suspended p j =>
    cases p with
    | wait c' m' => exact congrArg some (Prod.mk.inj (Option.some.inj h)).2
    | _ => cases h
  | leaving m w | resuming l w =>
    cases w with
    | none => cases h
    | some w => exact congrArg some (Prod.mk.inj (Option.some.inj h)).2
  | _ => cases h

theorem due_of_enters (h : phase.enters = some (m, i)) :
    s.due t phase = !(s.entering m).contains t := by
  cases phase with
  | suspended p j =>
    cases p with
    | enter m' =>
      obtain rfl := (Prod.mk.inj (Option.some.inj h)).1
      rfl
    | _ => cases h
  | _ => cases h

theorem due_of_waits (h : phase.waits = some (c, i)) :
    s.due t phase = !(s.waiting c).contains t := by
  cases phase with
  | suspended p j =>
    cases p with
    | wait c' m' =>
      obtain rfl := (Prod.mk.inj (Option.some.inj h)).1
      rfl
    | _ => cases h
  | leaving m w | resuming l w =>
    cases w with
    | none => cases h
    | some w =>
      obtain rfl := (Prod.mk.inj (Option.some.inj h)).1
      rfl
  | _ => cases h

theorem claim_of_enters (h : phase.enters = some (m, i)) :
    s.claim t phase m = if t ∈ s.entering m then 0 else 1 := by
  cases phase with
  | suspended p j =>
    cases p with
    | enter m' =>
      obtain rfl := (Prod.mk.inj (Option.some.inj h)).1
      by_cases ht : t ∈ s.entering m' <;> simp [claim, ht]
    | _ => cases h
  | _ => cases h

theorem SynchroInv.lt (h : s.SynchroInv) (ht : s.threads[t]? = some th)
    (hi : i ∈ th.phase.synchro) : i < s.synchros.numberOfIndices := by
  have hused := h.used t th ht i hi
  cases hinit : s.synchros.initialized with
  | false =>
    rw [h.fresh hinit i] at hused
    cases hused
  | true =>
    obtain ⟨free, hfree⟩ := h.ready hinit
    exact hfree.used i hused

theorem SynchroInv.not_mem_enters (h : s.SynchroInv) (ht : s.threads[t]? = some th)
    (hi : i ∈ th.phase.synchro) (hnone : th.phase.enters = none) {queue places : List Nat}
    (hq : List.Forall₂ (s.EntersAt m) queue places) : i ∉ places := by
  intro hmem
  obtain ⟨u, -, thu, hu, hp⟩ := forall₂_exists_right hq hmem
  obtain rfl := h.distinct t u th thu ht hu i hi (synchro_of_enters hp)
  rw [ht] at hu
  obtain rfl := Option.some.inj hu
  rw [hnone] at hp
  cases hp

theorem SynchroInv.not_mem_waits (h : s.SynchroInv) (ht : s.threads[t]? = some th)
    (hi : i ∈ th.phase.synchro) (hnone : th.phase.waits = none) {queue places : List Nat}
    (hq : List.Forall₂ (s.WaitsAt c) queue places) : i ∉ places := by
  intro hmem
  obtain ⟨u, -, thu, hu, hp⟩ := forall₂_exists_right hq hmem
  obtain rfl := h.distinct t u th thu ht hu i hi (synchro_of_waits hp)
  rw [ht] at hu
  obtain rfl := Option.some.inj hu
  rw [hnone] at hp
  cases hp

/-- The thread at the place is to go on. -/
def WokenAt (s s' : Ravenscar) (u i : Nat) : Prop :=
  ∃ thu, s.threads[u]? = some thu ∧ i ∈ thu.phase.synchro ∧ s.due u thu.phase = false ∧
    s'.due u thu.phase = true

theorem SynchroInv.wake (h : s.SynchroInv) (ht : s.threads[t]? = some th)
    (hs : s'.threads = s.threads.set t th') (hsyn : s'.synchros = s.synchros)
    (hbar : s'.barriers = s.barriers) (hsynchro : th'.phase.synchro = th.phase.synchro)
    (hpast : th'.phase.past = true → th.phase.past = true)
    (harmed : th'.phase.armed = th.phase.armed) (hres : th.phase.resumes = [])
    {woken places : List Nat} (hwoken : List.Forall₂ (WokenAt s s') woken places)
    (hnodup : woken.Nodup) (hperm : th'.phase.resumes.Perm places) (hnot : t ∉ woken)
    (hdue : ∀ u, u ∉ woken → u ≠ t → ∀ phase, s'.due u phase = s.due u phase)
    (hself : th.phase.synchro = none ∨ s'.due t th'.phase = s.due t th.phase) : s'.SynchroInv := by
  have hpending (i : Nat) : s'.pending i = s.pending i + places.count i := by
    have := pending_set ht hs i
    rw [hres, hperm.count_eq] at this
    exact this
  have hwake (i : Nat) : s'.wakeUps i = s.wakeUps i + places.count i := by
    rw [Ravenscar.wakeUps, hpending, hbar, Ravenscar.wakeUps]
    omega
  have hplaces : places.Nodup := by
    refine forall₂_nodup hwoken.flip (fun i u u' hu hu' => ?_) hnodup
    obtain ⟨thu, hu, hi, -⟩ := hu
    obtain ⟨thu', hu', hi', -⟩ := hu'
    exact h.distinct u u' thu thu' hu hu' i hi hi'
  -- the synchro object of a thread that was not woken is no place
  have hzero (u : Nat) (thu : RavenscarThread) (hu : s.threads[u]? = some thu) (i : Nat)
      (hi : i ∈ thu.phase.synchro) (hnw : u ∉ woken) : places.count i = 0 := by
    rw [List.count_eq_zero]
    intro hmem
    obtain ⟨u', hu', thu', hget, hi', -⟩ := forall₂_exists_right hwoken hmem
    exact hnw (h.distinct u u' thu thu' hu hget i hi hi' ▸ hu')
  refine h.set ht hs ?_ ?_ ?_ ?_ ?_ ?_ ?_ ?_ ?_ ?_ ?_
  · rw [hsyn]
    exact h.fresh
  · rw [hsyn]
    exact h.ready
  · rw [hsyn]
    exact id
  · rw [hsyn]
    exact fun hp => h.past t th ht (hpast hp)
  · rw [hsyn, hsynchro]
  · rw [hsyn]
    exact fun i _ hi => hi
  · intro i hi
    rw [hsynchro] at hi
    rw [hsyn, hbar, harmed, hwake, hzero t th ht i hi hnot]
    refine ⟨h.used t th ht i hi, h.waiting t th ht i hi, ?_⟩
    rcases hself with hnone | hself
    · rw [hnone] at hi
      cases hi
    · rw [hself]
      exact h.wakeUps t th ht i hi
  · intro i hi
    rw [hsynchro] at hi
    exact .inl hi
  · intro u hut thu hu i hi
    rw [hbar, hwake]
    refine ⟨rfl, ?_⟩
    by_cases hw : u ∈ woken
    · obtain ⟨j, hj, thu', hu', hi', hd, hd'⟩ := forall₂_exists hwoken hw
      rw [hu] at hu'
      obtain rfl := Option.some.inj hu'
      rw [hi] at hi'
      obtain rfl := Option.some.inj hi'
      rw [hd, hd', List.count_eq_one_of_mem hplaces hj]
      rfl
    · rw [hdue u hw hut, hzero u thu hu i hi hw]
      rfl
  · intro i hi hi'
    rw [hsynchro] at hi'
    exact absurd hi hi'
  · intro i hheld _
    have hmem : places.count i = 0 := by
      rw [List.count_eq_zero]
      intro hmem
      obtain ⟨u, -, thu, hu, hi, -⟩ := forall₂_exists_right hwoken hmem
      exact hheld ⟨u, thu, hu, hi⟩
    rw [hbar, hwake, hmem]
    exact ⟨rfl, rfl⟩

end Ravenscar

end PolyORB
