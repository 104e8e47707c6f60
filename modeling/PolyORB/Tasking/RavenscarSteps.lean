import PolyORB.Tasking.RavenscarMonitors
import PolyORB.Tasking.RavenscarPool

/-!
# Steps of the threads

What each operation does under the invariant, and that it keeps it.
-/

namespace PolyORB

namespace Ravenscar

structure Inv (s : Ravenscar) : Prop where
  synchros : s.SynchroInv
  monitors : s.MonitorInv
  pool : s.PoolInv

variable {s s' : Ravenscar} {t u i j m c : Nat} {th th' thu : RavenscarThread} {owned : List Nat}
  {p : Purpose}

theorem due_congr (hassigned : s'.assignedTo u = s.assignedTo u)
    (hentering : ∀ m, u ∈ s'.entering m ↔ u ∈ s.entering m)
    (hwaiting : ∀ c, u ∈ s'.waiting c ↔ u ∈ s.waiting c) (phase : ThreadPhase) :
    s'.due u phase = s.due u phase := by
  have he (m : Nat) : (s'.entering m).contains u = (s.entering m).contains u := by
    rw [Bool.eq_iff_iff, List.contains_iff_mem, List.contains_iff_mem]
    exact hentering m
  have hw (c : Nat) : (s'.waiting c).contains u = (s.waiting c).contains u := by
    rw [Bool.eq_iff_iff, List.contains_iff_mem, List.contains_iff_mem]
    exact hwaiting c
  unfold due
  split <;> simp only [hassigned, he, hw]

/-! ## A step of a thread with the same synchro object -/

theorem Inv.pass (h : s.Inv) (ht : s.threads[t]? = some th)
    (hs : s' = { s with threads := s.threads.set t th', my := s'.my })
    (hphase : SamePhase th.phase th'.phase) (hpast : th'.phase.past = true → th.phase.past = true)
    (howned : th'.owned = th.owned)
    (hsynchro : th'.phase.synchro = th.phase.synchro) (harmed : th'.phase.armed = th.phase.armed)
    (hres : th'.phase.resumes = th.phase.resumes)
    (hdue : s.due t th'.phase = s.due t th.phase)
    (hclaim : ∀ m, s.claim t th'.phase m = s.claim t th.phase m)
    (henters : th.phase.enters = none) (hwaits : th'.phase.waits = th.phase.waits)
    (hleaves : ∀ m ∈ th'.phase.leaves, m ∈ th.owned) : s'.Inv := by
  rw [hs]
  refine ⟨?_, ?_, ?_⟩
  · refine h.synchros.move ht rfl rfl hsynchro hpast hres (fun _ _ => rfl)
      (fun u _ => due_congr rfl (fun _ => Iff.rfl) fun _ => Iff.rfl) fun i hi => ?_
    rw [harmed]
    refine ⟨h.synchros.waiting t th ht i hi, ?_⟩
    have hwake := h.synchros.wakeUps t th ht i hi
    rw [← hdue] at hwake
    exact hwake.trans (congrArg Bool.toNat
      (due_congr rfl (fun _ => Iff.rfl) (fun _ => Iff.rfl) _).symm)
  · refine h.monitors.move ht rfl rfl rfl rfl rfl rfl rfl (fun m => ?_)
      (h.monitors.not_mem_entering ht henters) (.inl hwaits) fun m hm => ?_
    · rw [howned, hclaim]
    · rw [howned]
      exact hleaves m hm
  · exact h.pool.same ht rfl ⟨rfl, rfl, rfl, rfl, rfl, rfl, rfl, rfl, rfl⟩ rfl hphase

theorem Inv.call (h : s.Inv) (ht : s.threads[t]? = some ⟨.running, owned⟩) {phase : ThreadPhase}
    (hphase : SamePhase .running phase) (hsynchro : phase.synchro = none)
    (harmed : phase.armed = false) (hres : phase.resumes = []) (hdue : s.due t phase = false)
    (hclaim : ∀ m, s.claim t phase m = 0) (hwaits : phase.waits = none)
    (hleaves : ∀ m ∈ phase.leaves, m ∈ owned) : (s.call t phase).Inv := by
  have hcall : s.call t phase = s.setPhase t ⟨.running, owned⟩ phase := by rw [Ravenscar.call, ht]
  rw [hcall]
  exact h.pass ht rfl hphase (fun _ => rfl) rfl hsynchro harmed hres hdue hclaim rfl hwaits hleaves

theorem checkSignaled_step (h : s.Inv) (ht : s.threads[t]? = some ⟨.checkSignaled p i, owned⟩) :
    s.perform t ⟨.checkSignaled p i, owned⟩ =
      .ok (s.setPhase t ⟨.checkSignaled p i, owned⟩ (.checkWaiting p i)) ∧
    (s.setPhase t ⟨.checkSignaled p i, owned⟩ (.checkWaiting p i)).Inv := by
  have hwake : s.wakeUps i = 0 := h.synchros.wakeUps t _ ht i rfl
  have hsignaled : ¬(s.barriers i).signaled = true := fun hs => by
    rw [wakeUps, hs] at hwake
    cases hwake
  refine ⟨if_neg hsignaled, ?_⟩
  exact h.pass ht rfl
    ⟨⟨rfl, rfl, ⟨rfl, rfl⟩, rfl, ⟨by simp, by simp, by simp⟩, fun _ => rfl⟩, rfl, rfl⟩
    (fun _ => rfl) rfl rfl rfl rfl rfl (fun m => by cases p <;> rfl) rfl rfl (by rintro _ ⟨⟩)

theorem checkWaiting_step (h : s.Inv) (ht : s.threads[t]? = some ⟨.checkWaiting p i, owned⟩) :
    s.perform t ⟨.checkWaiting p i, owned⟩ =
      .ok (s.setPhase t ⟨.checkWaiting p i, owned⟩ (.releasing p i)) ∧
    (s.setPhase t ⟨.checkWaiting p i, owned⟩ (.releasing p i)).Inv := by
  have hwaiting : (s.barriers i).waiting = false := h.synchros.waiting t _ ht i rfl
  refine ⟨if_neg (by rw [hwaiting]; decide), ?_⟩
  exact h.pass ht rfl ⟨⟨rfl, rfl, ⟨rfl, rfl⟩, rfl, ⟨nofun, nofun, nofun⟩, fun _ => rfl⟩, rfl, rfl⟩
    (fun _ => rfl) rfl rfl rfl rfl rfl (fun m => by cases p <;> rfl) rfl rfl nofun

/-! ## Prepare_Suspend and Suspend -/

theorem SynchroInv.barrier_idle (h : s.SynchroInv) (ht : s.threads[t]? = some th)
    (hi : i ∈ th.phase.synchro) (harmed : th.phase.armed = false)
    (hdue : s.due t th.phase = false) : s.barriers i = ⟨false, false⟩ ∧ s.pending i = 0 := by
  have hwaiting := h.waiting t th ht i hi
  have hwake := h.wakeUps t th ht i hi
  rw [harmed] at hwaiting
  rw [hdue, Ravenscar.wakeUps] at hwake
  cases hb : s.barriers i with
  | mk signaled waiting =>
    rw [hb] at hwaiting hwake
    obtain rfl : waiting = false := hwaiting
    cases signaled with
    | true => cases hwake
    | false => exact ⟨rfl, hwake⟩

theorem getting_step (h : s.Inv) (ht : s.threads[t]? = some ⟨.getting p, owned⟩)
    (hfree : s.synchros.numberOfUsed < s.synchros.numberOfIndices) :
    ∃ s', s.perform t ⟨.getting p, owned⟩ = .ok s' ∧ s'.Inv := by
  have hvalid := h.synchros.ready (h.synchros.past t _ ht rfl)
  obtain ⟨i, hget, hpop, -, hun, hused⟩ := IndexManager.get_ok hvalid hfree
  refine ⟨{ s.setPhase t ⟨.getting p, owned⟩ (.preparing p i) with synchros := s.synchros.pop }, ?_,
    ?_, ?_, ?_⟩
  · show s.getSynchro t _ p = _
    rw [getSynchro, hget]
    rfl
  · have hidle := (h.synchros.idle i).resolve_left (h.synchros.not_held hun)
    have hpending (j : Nat) :
        Ravenscar.pending { s.setPhase t ⟨.getting p, owned⟩ (.preparing p i) with
          synchros := s.synchros.pop } j = s.pending j :=
      pending_move ⟨.preparing p i, owned⟩ ht rfl rfl j
    refine h.synchros.set ht rfl (fun hno => absurd hno (by
      rw [show s.synchros.pop.initialized = true from hpop.initialized]; decide)) (fun _ => hpop)
      (fun _ => hpop.initialized)
      (fun _ => hpop.initialized) rfl ?_ ?_ ?_ ?_ (by rintro _ ⟨⟩) ?_
    · intro j _ hj
      show s.synchros.pop.used j = true
      rw [hused]
      by_cases hji : j = i
      · rw [hji, Function.update_self]
      · rw [Function.update_of_ne hji, hj]
    · intro j hj
      obtain rfl := Option.some.inj hj
      refine ⟨?_, ?_, ?_⟩
      · show s.synchros.pop.used i = true
        rw [hused, Function.update_self]
      · show (s.barriers i).waiting = false
        rw [hidle.1]
      · rw [Ravenscar.wakeUps, hpending]
        exact hidle.2
    · intro j hj
      obtain rfl := Option.some.inj hj
      exact .inr hun
    · intro u _ thu _ j _
      rw [Ravenscar.wakeUps, hpending]
      refine ⟨rfl, ?_⟩
      have hdue : due { s.setPhase t ⟨.getting p, owned⟩ (.preparing p i) with
          synchros := s.synchros.pop } u thu.phase = s.due u thu.phase :=
        due_congr rfl (fun _ => Iff.rfl) (fun _ => Iff.rfl) thu.phase
      rfl
    · intro j _ _
      rw [Ravenscar.wakeUps, hpending]
      exact ⟨rfl, rfl⟩
  · exact h.monitors.move ht rfl rfl rfl rfl rfl rfl rfl (fun _ => rfl)
      (h.monitors.not_mem_entering ht rfl) (.inl rfl) fun m hm =>
        h.monitors.leaves t _ ht m (by cases p <;> exact hm)
  · refine h.pool.same ht rfl ⟨rfl, rfl, rfl, rfl, rfl, rfl, rfl, rfl, rfl⟩ rfl ?_
    exact ⟨⟨by cases p <;> rfl, rfl, ⟨rfl, rfl⟩, rfl, ⟨by simp, by simp, by simp⟩,
      by cases p <;> exact id⟩, rfl, rfl⟩

theorem releasing_step (h : s.Inv) (ht : s.threads[t]? = some ⟨.releasing p i, owned⟩) :
    ∃ s', s.perform t ⟨.releasing p i, owned⟩ = .ok s' ∧ s'.Inv := by
  have hvalid := h.synchros.ready (h.synchros.past t _ ht rfl)
  have hused := h.synchros.used t _ ht i rfl
  obtain ⟨hrelease, hpush, hpos⟩ := IndexManager.release_ok hvalid hused
  obtain ⟨hbarrier, hzero⟩ := h.synchros.barrier_idle ht rfl rfl rfl
  have hsynchro : (resumed ⟨.releasing p i, owned⟩ p).phase.synchro = none := by cases p <;> rfl
  have hres : (resumed ⟨.releasing p i, owned⟩ p).phase.resumes = [] := by cases p <;> rfl
  refine ⟨{ s.setThread t (resumed ⟨.releasing p i, owned⟩ p) with
    synchros := s.synchros.push i }, ?_, ?_, ?_, ?_⟩
  · show s.releaseSynchro t _ p i = _
    rw [releaseSynchro, hrelease]
    rfl
  · have hpending (j : Nat) :
        Ravenscar.pending { s.setThread t (resumed ⟨.releasing p i, owned⟩ p) with
          synchros := s.synchros.push i } j = s.pending j :=
      pending_move (resumed ⟨.releasing p i, owned⟩ p) ht rfl hres j
    refine h.synchros.set ht rfl (fun hno => absurd hno (by
      rw [show (s.synchros.push i).initialized = true from hpush.initialized]; decide))
      (fun _ => hpush) (fun _ => hpush.initialized)
      (fun _ => hpush.initialized) ?_ ?_ ?_ ?_ ?_ ?_ ?_
    · rw [hsynchro]
      show s.synchros.numberOfUsed - 1 + 1 = s.synchros.numberOfUsed
      omega
    · intro j hj hu
      have hji : j ≠ i := by
        rintro rfl
        exact hj rfl
      show Function.update s.synchros.used i false j = true
      rw [Function.update_of_ne hji, hu]
    · rw [hsynchro]
      simp
    · rw [hsynchro]
      simp
    · intro u _ thu _ j _
      rw [Ravenscar.wakeUps, hpending]
      refine ⟨rfl, ?_⟩
      have hdue : due { s.setThread t (resumed ⟨.releasing p i, owned⟩ p) with
          synchros := s.synchros.push i } u thu.phase = s.due u thu.phase :=
        due_congr rfl (fun _ => Iff.rfl) (fun _ => Iff.rfl) thu.phase
      rfl
    · intro j hj _
      obtain rfl := Option.some.inj hj
      rw [Ravenscar.wakeUps, hpending]
      refine ⟨hbarrier, ?_⟩
      show s.pending i + (s.barriers i).signaled.toNat = 0
      rw [hbarrier, hzero]
      rfl
    · intro j _ _
      rw [Ravenscar.wakeUps, hpending]
      exact ⟨rfl, rfl⟩
  · have henters := h.monitors.not_mem_entering ht rfl
    refine h.monitors.move ht rfl rfl rfl rfl rfl rfl rfl (fun m => ?_) henters
      (.inl (by cases p <;> rfl)) (by cases p <;> rintro _ ⟨⟩)
    cases p with
    | initial | next | wait => rfl
    | enter m' =>
      simp only [resumed, claim, List.count_cons, beq_iff_eq]
      by_cases hm : m' = m
      · simp [hm, henters m]
      · simp [hm]
  · refine h.pool.same ht rfl ⟨rfl, rfl, rfl, rfl, rfl, rfl, rfl, rfl, rfl⟩ rfl ?_
    cases p <;> exact ⟨⟨rfl, rfl, ⟨rfl, rfl⟩, rfl,
      ⟨by simp, by simp [resumed], by simp [resumed]⟩, fun _ => rfl⟩, rfl, rfl⟩

theorem preparing_step (h : s.Inv) (ht : s.threads[t]? = some ⟨.preparing p i, owned⟩) :
    ∃ s', s.perform t ⟨.preparing p i, owned⟩ = .ok s' ∧ s'.Inv := by
  obtain ⟨hbarrier, hzero⟩ := h.synchros.barrier_idle ht rfl rfl rfl
  have hnone : s.assignedTo t = none := (h.pool.threads t _ ht).not_assigned rfl rfl
  obtain ⟨s', hs'⟩ : ∃ s', s' = ((s.setPhase t ⟨.preparing p i, owned⟩ (.prepared p i)).setBarrier i
    ⟨false, true⟩).setSyncId t p i := ⟨_, rfl⟩
  have hthreads : s'.threads = s.threads.set t ⟨.prepared p i, owned⟩ := by
    rw [hs']
    cases p <;> rfl
  have hsame : SamePool s s' := by
    rw [hs']
    cases p <;> exact ⟨rfl, rfl, rfl, rfl, rfl, rfl, rfl, rfl, rfl⟩
  refine ⟨s', ?_, ?_, ?_, ?_⟩
  · show s.prepareWait t _ p i = _
    rw [prepareWait, hbarrier, hs']
    rfl
  · have hbarriers : s'.barriers = Function.update s.barriers i ⟨false, true⟩ := by
      rw [hs']
      cases p <;> rfl
    refine h.synchros.move ht hthreads (by rw [hs']; cases p <;> rfl) rfl (fun _ => rfl) rfl ?_ ?_ ?_
    · intro j hj
      have hji : j ≠ i := by
        rintro rfl
        exact hj rfl
      rw [hbarriers, Function.update_of_ne hji]
    · intro u _ phase
      rw [hs']
      cases p <;> exact due_congr rfl (fun _ => Iff.rfl) (fun _ => Iff.rfl) phase
    · intro j hj
      obtain rfl := Option.some.inj hj
      have hdue : s'.due t (.prepared p i) = false := by
        cases p with
        | initial | next => simp [due, hsame.assignedTo, hnone]
        | enter | wait => rfl
      rw [hbarriers, Function.update_self, hzero, hdue]
      exact ⟨rfl, rfl⟩
  · rw [hs']
    have hleaves : ∀ m ∈ (ThreadPhase.prepared p i).leaves, m ∈ owned := fun m hm =>
      h.monitors.leaves t _ ht m (by cases p <;> exact hm)
    cases p <;>
      exact h.monitors.move ht rfl rfl rfl rfl rfl rfl rfl (fun _ => rfl)
        (h.monitors.not_mem_entering ht rfl) (.inl rfl) hleaves
  · refine h.pool.work ht hthreads hsame ?_ ?_ nofun ?_ ?_
    · intro u hut
      rw [hs']
      cases p with
      | initial | next => exact Function.update_of_ne hut _ _
      | enter | wait => rfl
    · exact ⟨by cases p <;> rfl, rfl, ⟨rfl, rfl⟩, rfl, ⟨nofun, nofun, nofun⟩, fun _ => rfl⟩
    · rw [hnone]
      nofun
    · intro j hj
      rw [hs']
      cases p with
      | initial | next =>
        obtain rfl := Option.some.inj hj
        exact Function.update_self _ _ _
      | enter | wait => cases hj

theorem aborting_step (h : s.Inv) (ht : s.threads[t]? = some ⟨.aborting m i, owned⟩) :
    ∃ s', s.perform t ⟨.aborting m i, owned⟩ = .ok s' ∧ s'.Inv := by
  have hwaiting : (s.barriers i).waiting = true := h.synchros.waiting t _ ht i rfl
  have hwake : s.pending i + (s.barriers i).signaled.toNat = 0 := h.synchros.wakeUps t _ ht i rfl
  refine ⟨(s.setPhase t ⟨.aborting m i, owned⟩ (.releasing (.enter m) i)).setBarrier i
    { s.barriers i with waiting := false }, ?_, ?_, ?_, ?_⟩
  · show s.abortWait t _ m i = _
    rw [abortWait, Barrier.abortWait, hwaiting]
    rfl
  · refine h.synchros.move ht rfl rfl rfl (fun _ => rfl) rfl ?_ ?_ ?_
    · intro j hj
      have hji : j ≠ i := by
        rintro rfl
        exact hj rfl
      exact Function.update_of_ne hji _ _
    · exact fun u _ phase => due_congr rfl (fun _ => Iff.rfl) (fun _ => Iff.rfl) phase
    · intro j hj
      obtain rfl := Option.some.inj hj
      have hself : Function.update s.barriers i { s.barriers i with waiting := false } i =
        { s.barriers i with waiting := false } := Function.update_self _ _ _
      refine ⟨congrArg Barrier.waiting hself, ?_⟩
      exact (congrArg (fun b : Barrier => s.pending i + b.signaled.toNat) hself).trans hwake
  · have henters := h.monitors.not_mem_entering ht rfl
    refine h.monitors.move ht rfl rfl rfl rfl rfl rfl rfl (fun m' => ?_) henters (.inl rfl)
      (by rintro _ ⟨⟩)
    simp [claim, henters m']
  · exact h.pool.same ht rfl ⟨rfl, rfl, rfl, rfl, rfl, rfl, rfl, rfl, rfl⟩ rfl
      ⟨⟨rfl, rfl, ⟨rfl, rfl⟩, rfl, ⟨by simp, by simp, by simp⟩, fun _ => rfl⟩, rfl, rfl⟩

theorem suspended_step (h : s.Inv) (ht : s.threads[t]? = some ⟨.suspended p i, owned⟩)
    (hsignaled : (s.barriers i).signaled = true) :
    ∃ s', s.perform t ⟨.suspended p i, owned⟩ = .ok s' ∧ s'.Inv := by
  have hwaiting : (s.barriers i).waiting = true := h.synchros.waiting t _ ht i rfl
  have hwake : s.pending i + (s.barriers i).signaled.toNat = (s.due t (.suspended p i)).toNat :=
    h.synchros.wakeUps t _ ht i rfl
  have hle := Bool.toNat_le (s.due t (.suspended p i))
  have hzero : s.pending i = 0 := by
    rw [hsignaled] at hwake
    have : true.toNat = 1 := rfl
    omega
  have hdue : s.due t (.suspended p i) = true := by
    rw [hsignaled, hzero] at hwake
    cases hd : s.due t (.suspended p i) with
    | true => rfl
    | false =>
      rw [hd] at hwake
      cases hwake
  refine ⟨(s.setPhase t ⟨.suspended p i, owned⟩ (.checkSignaled p i)).setBarrier i ⟨false, false⟩,
    ?_, ?_, ?_, ?_⟩
  · show s.waitBarrier t _ p i = _
    rw [waitBarrier, Barrier.wait, hwaiting]
    rfl
  · refine h.synchros.move ht rfl rfl rfl (fun _ => rfl) rfl ?_ ?_ ?_
    · intro j hj
      have hji : j ≠ i := by
        rintro rfl
        exact hj rfl
      exact Function.update_of_ne hji _ _
    · exact fun u _ phase => due_congr rfl (fun _ => Iff.rfl) (fun _ => Iff.rfl) phase
    · intro j hj
      obtain rfl := Option.some.inj hj
      have hself : Function.update s.barriers i ⟨false, false⟩ i = ⟨false, false⟩ :=
        Function.update_self _ _ _
      refine ⟨congrArg Barrier.waiting hself, ?_⟩
      refine (congrArg (fun b : Barrier => s.pending i + b.signaled.toNat) hself).trans ?_
      exact hzero
  · refine h.monitors.move ht rfl rfl rfl rfl rfl rfl rfl (fun m' => ?_) ?_ (.inr ?_) nofun
    · cases p <;> rfl
    · intro m' hm
      obtain ⟨j, hj⟩ := h.monitors.enters ht hm
      cases p with
      | initial | next | wait => cases hj
      | enter m =>
        obtain rfl : m = m' := (Prod.mk.inj (Option.some.inj hj)).1
        have hc : (!(s.entering m).contains t) = true := hdue
        rw [List.contains_iff_mem.mpr hm] at hc
        cases hc
    · intro c hc
      obtain ⟨j, hj⟩ := h.monitors.waits ht hc
      cases p with
      | initial | next | enter => cases hj
      | wait c' m =>
        obtain rfl : c' = c := (Prod.mk.inj (Option.some.inj hj)).1
        have hd : (!(s.waiting c').contains t) = true := hdue
        rw [List.contains_iff_mem.mpr hc] at hd
        cases hd
  · refine h.pool.work ht rfl ⟨rfl, rfl, rfl, rfl, rfl, rfl, rfl, rfl, rfl⟩ (fun _ _ => rfl)
      ⟨rfl, rfl, ⟨rfl, rfl⟩, rfl, ⟨nofun, nofun, nofun⟩, fun _ => rfl⟩ ?_ ?_ nofun
    · cases p with
      | initial | next => exact fun _ => hdue
      | enter | wait => nofun
    · intro hassigned
      refine .inl ?_
      rcases (h.pool.threads t _ ht).dormant hassigned with hw | hi
      · cases hw
      · cases p with
        | initial | next => rfl
        | enter | wait => cases hi

end Ravenscar

end PolyORB
