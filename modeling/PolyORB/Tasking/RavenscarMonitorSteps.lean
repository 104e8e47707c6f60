import PolyORB.Tasking.RavenscarSteps

/-!
# Steps of Enter, Leave, Wait, Signal and Broadcast
-/

namespace PolyORB

namespace Ravenscar

variable {s s' : Ravenscar} {t u i j m c : Nat} {th th' thu : RavenscarThread} {owned : List Nat}

/-! ## Enter -/

theorem arrive_of_free (h : s.owner m = none) :
    s.arrive t m = { s with owner := Function.update s.owner m (some t) } := by
  rw [arrive]
  simp [h]

theorem arrive_of_taken (h : s.owner m = some u) : s.arrive t m =
    { s with entering := Function.update s.entering m (s.entering m ++ [t]) } := by
  rw [arrive]
  simp [h]

theorem testAndSetEntry_free (h : s.Inv)
    (ht : s.threads[t]? = some ⟨.prepared (.enter m) i, owned⟩) (hfree : s.owner m = none) :
    ∃ s', s.perform t ⟨.prepared (.enter m) i, owned⟩ = .ok s' ∧ s'.Inv := by
  obtain ⟨l, hl, hq⟩ := h.monitors.mutex m
  rw [hfree] at hl
  obtain ⟨hset, hnew⟩ := MutexPO.testAndSetEntry_free i hl
  obtain ⟨s', hs'⟩ : ∃ s', s' = { s.setPhase t ⟨.prepared (.enter m) i, owned⟩ (.aborting m i) with
      owner := Function.update s.owner m (some t)
      mutexes := Function.update s.mutexes m
        ((s.mutexes m).testAndSet s.synchros.numberOfIndices i) } := ⟨_, rfl⟩
  have hthreads : s'.threads = s.threads.set t ⟨.aborting m i, owned⟩ := by
    rw [hs']
    rfl
  have hentering : s'.entering = s.entering := by
    rw [hs']
    rfl
  have howner : s'.owner = Function.update s.owner m (some t) := by rw [hs']
  refine ⟨s', ?_, ?_, ?_, ?_⟩
  · show s.testAndSetEntry t _ m i = _
    rw [testAndSetEntry, hset, hs']
    exact congrArg (fun x : Ravenscar => Except.ok { x with
      mutexes := Function.update s.mutexes m
        ((s.mutexes m).testAndSet s.synchros.numberOfIndices i) })
      (arrive_of_free (s := s.setPhase t ⟨.prepared (.enter m) i, owned⟩ (.aborting m i)) hfree)
  · refine h.synchros.move ht hthreads (by rw [hs']; rfl) rfl (fun _ => rfl) rfl ?_ ?_ ?_
    · rw [hs']
      exact fun _ _ => rfl
    · rw [hs']
      exact fun u _ phase => due_congr rfl (fun _ => Iff.rfl) (fun _ => Iff.rfl) phase
    · intro j hj
      rw [hs']
      exact ⟨h.synchros.waiting t _ ht j hj, h.synchros.wakeUps t _ ht j hj⟩
  · refine h.monitors.mutex_set (m := m) ht hthreads (by rw [hs']; rfl) (by rw [hs']; rfl)
      (by rw [hs']; rfl) ?_ ?_ ?_ ?_ rfl rfl (by rintro _ ⟨⟩)
    · intro m' hm
      rw [hs']
      exact ⟨Function.update_of_ne hm _ _, Function.update_of_ne hm _ _, rfl⟩
    · refine ⟨l, ?_, ?_⟩
      · rw [howner, hs']
        simp only [Function.update_self]
        exact hnew
      · rw [hentering]
        refine forall₂_congr hq fun u hu i hr => hr.set hthreads ?_
        rintro rfl
        exact h.monitors.not_mem_entering ht rfl m hu
    · intro u thu hu
      rw [howner, Function.update_self]
      rcases getElem?_set_cases ht hthreads hu with ⟨rfl, rfl⟩ | ⟨hut, hu⟩
      · have hzero := h.monitors.owner u _ ht m
        rw [hfree] at hzero
        have hzero : owned.count m = 0 := hzero
        simp [claim, hzero]
      · have hold := h.monitors.owner u thu hu m
        rw [hfree] at hold
        rw [claim_congr (s := s) (by rw [hentering]), hold, if_neg (by simp),
          if_neg fun hs => hut (Option.some.inj hs).symm]
    · intro m' hm
      simp only [claim]
      rw [if_neg (Ne.symm hm)]
  · rw [hs']
    exact h.pool.same ht rfl ⟨rfl, rfl, rfl, rfl, rfl, rfl, rfl, rfl, rfl⟩ rfl
      ⟨⟨rfl, rfl, ⟨rfl, rfl⟩, rfl, ⟨by simp, by simp, by simp⟩, fun _ => rfl⟩, rfl, rfl⟩

theorem testAndSetEntry_taken (h : s.Inv)
    (ht : s.threads[t]? = some ⟨.prepared (.enter m) i, owned⟩) (htaken : s.owner m = some u) :
    ∃ s', s.perform t ⟨.prepared (.enter m) i, owned⟩ = .ok s' ∧ s'.Inv := by
  obtain ⟨l, hl, hq⟩ := h.monitors.mutex m
  rw [htaken] at hl
  have hplace : i ∉ l := h.synchros.not_mem_enters ht rfl rfl hq
  obtain ⟨hset, hnew⟩ := MutexPO.testAndSetEntry_taken hl hplace (h.synchros.lt ht rfl)
  have hnot := h.monitors.not_mem_entering ht rfl
  obtain ⟨s', hs'⟩ : ∃ s', s' = { s.setPhase t ⟨.prepared (.enter m) i, owned⟩
      (.suspended (.enter m) i) with
      entering := Function.update s.entering m (s.entering m ++ [t])
      mutexes := Function.update s.mutexes m
        ((s.mutexes m).testAndSet s.synchros.numberOfIndices i) } := ⟨_, rfl⟩
  have hthreads : s'.threads = s.threads.set t ⟨.suspended (.enter m) i, owned⟩ := by
    rw [hs']
    rfl
  have hentering : s'.entering m = s.entering m ++ [t] := by
    rw [hs']
    exact Function.update_self _ _ _
  have hentering' (m' : Nat) (hm : m' ≠ m) : s'.entering m' = s.entering m' := by
    rw [hs']
    exact Function.update_of_ne hm _ _
  have howner : s'.owner = s.owner := by
    rw [hs']
    rfl
  -- for the others the queue is what it was
  have hmem (v : Nat) (hv : v ≠ t) (m' : Nat) : v ∈ s'.entering m' ↔ v ∈ s.entering m' := by
    by_cases hm : m' = m
    · subst hm
      rw [hentering, List.mem_append, List.mem_singleton]
      exact ⟨fun ho => ho.resolve_right hv, .inl⟩
    · rw [hentering' m' hm]
  refine ⟨s', ?_, ?_, ?_, ?_⟩
  · show s.testAndSetEntry t _ m i = _
    rw [testAndSetEntry, hset, hs']
    exact congrArg (fun x : Ravenscar => Except.ok { x with
      mutexes := Function.update s.mutexes m
        ((s.mutexes m).testAndSet s.synchros.numberOfIndices i) })
      (arrive_of_taken (s := s.setPhase t ⟨.prepared (.enter m) i, owned⟩ (.suspended (.enter m) i))
        htaken)
  · refine h.synchros.move ht hthreads (by rw [hs']; rfl) rfl (fun _ => rfl) rfl ?_ ?_ ?_
    · rw [hs']
      exact fun _ _ => rfl
    · intro v hv phase
      refine due_congr (by rw [hs']; rfl) (hmem v hv) (fun c => ?_) phase
      rw [hs']
      rfl
    · intro j hj
      have hdue : s'.due t (.suspended (.enter m) i) = false := by
        simp only [due, hentering]
        simp
      rw [hdue, hs']
      exact ⟨h.synchros.waiting t _ ht j hj, h.synchros.wakeUps t _ ht j hj⟩
  · refine h.monitors.mutex_set (m := m) ht hthreads (by rw [hs']; rfl) (by rw [hs']; rfl)
      (by rw [hs']; rfl) ?_ ?_ ?_ ?_ rfl rfl (by rintro _ ⟨⟩)
    · intro m' hm
      refine ⟨?_, by rw [howner], hentering' m' hm⟩
      rw [hs']
      exact Function.update_of_ne hm _ _
    · refine ⟨l ++ [i], ?_, ?_⟩
      · rw [howner, htaken, hs']
        simp only [Function.update_self]
        exact hnew
      · rw [hentering]
        refine List.rel_append (forall₂_congr hq fun u hu i hr => hr.set hthreads ?_) (.cons ?_ .nil)
        · rintro rfl
          exact hnot m hu
        · refine ⟨⟨.suspended (.enter m) i, owned⟩, ?_, rfl⟩
          rw [hthreads, List.getElem?_set_self (List.getElem?_eq_some_iff.mp ht).1]
    · intro v thu hv
      rw [howner]
      rcases getElem?_set_cases ht hthreads hv with ⟨rfl, rfl⟩ | ⟨hvt, hv⟩
      · have hold := h.monitors.owner v _ ht m
        rw [← hold]
        simp [claim, hentering]
      · rw [claim_congr (s := s) (hmem v hvt m)]
        exact h.monitors.owner v thu hv m
    · intro m' hm
      simp only [claim]
      rw [if_neg fun hc => hm hc.1.symm]
  · rw [hs']
    exact h.pool.same ht rfl ⟨rfl, rfl, rfl, rfl, rfl, rfl, rfl, rfl, rfl⟩ rfl
      ⟨⟨rfl, rfl, ⟨rfl, rfl⟩, rfl, ⟨by simp, by simp, by simp⟩, fun _ => rfl⟩, rfl, rfl⟩

/-! ## Wait -/

theorem prepareCondition_step (h : s.Inv)
    (ht : s.threads[t]? = some ⟨.prepared (.wait c m) i, owned⟩) :
    ∃ s', s.perform t ⟨.prepared (.wait c m) i, owned⟩ = .ok s' ∧ s'.Inv := by
  obtain ⟨l, hl, hq⟩ := h.monitors.condition c
  have hplace : i ∉ l := h.synchros.not_mem_waits ht rfl rfl hq
  obtain ⟨hprepare, hnew⟩ := ConditionPO.prepareWait_ok hl hplace (h.synchros.lt ht rfl)
  have hnot := h.monitors.not_mem_waiting ht rfl
  obtain ⟨s', hs'⟩ : ∃ s', s' = { s.setPhase t ⟨.prepared (.wait c m) i, owned⟩
      (.leaving m (some (c, i))) with
      conditions := Function.update s.conditions c
        ((s.conditions c).enqueue s.synchros.numberOfIndices i)
      waiting := Function.update s.waiting c (s.waiting c ++ [t]) } := ⟨_, rfl⟩
  have hthreads : s'.threads = s.threads.set t ⟨.leaving m (some (c, i)), owned⟩ := by
    rw [hs']
    rfl
  have hwaiting : s'.waiting c = s.waiting c ++ [t] := by
    rw [hs']
    exact Function.update_self _ _ _
  have hwaiting' (c' : Nat) (hc : c' ≠ c) : s'.waiting c' = s.waiting c' := by
    rw [hs']
    exact Function.update_of_ne hc _ _
  have hmem (v : Nat) (hv : v ≠ t) (c' : Nat) : v ∈ s'.waiting c' ↔ v ∈ s.waiting c' := by
    by_cases hc : c' = c
    · subst hc
      rw [hwaiting, List.mem_append, List.mem_singleton]
      exact ⟨fun ho => ho.resolve_right hv, .inl⟩
    · rw [hwaiting' c' hc]
  refine ⟨s', ?_, ?_, ?_, ?_⟩
  · show s.prepareCondition t _ c m i = _
    rw [prepareCondition, hprepare, hs']
    rfl
  · refine h.synchros.move ht hthreads (by rw [hs']; rfl) rfl (fun _ => rfl) rfl ?_ ?_ ?_
    · rw [hs']
      exact fun _ _ => rfl
    · intro v hv phase
      refine due_congr (by rw [hs']; rfl) (fun m' => ?_) (hmem v hv) phase
      rw [hs']
      rfl
    · intro j hj
      have hdue : s'.due t (.leaving m (some (c, i))) = false := by
        simp only [due, hwaiting]
        simp
      rw [hdue, hs']
      exact ⟨h.synchros.waiting t _ ht j hj, h.synchros.wakeUps t _ ht j hj⟩
  · refine h.monitors.condition_set (c := c) ht hthreads (by rw [hs']; rfl) (by rw [hs']; rfl)
      (by rw [hs']; rfl) (by rw [hs']; rfl) ?_ ?_ rfl (fun _ => rfl) rfl rfl
      (fun m' hm => h.monitors.leaves t _ ht m' hm)
    · intro c' hc
      refine ⟨?_, hwaiting' c' hc⟩
      rw [hs']
      exact Function.update_of_ne hc _ _
    · refine ⟨l ++ [i], ?_, ?_⟩
      · rw [hs']
        simp only [Function.update_self]
        exact hnew
      · rw [hwaiting]
        refine List.rel_append (forall₂_congr hq fun u hu j hr => hr.set ht hthreads (.inl ?_))
          (.cons ?_ .nil)
        · rintro rfl
          exact hnot c hu
        · refine ⟨⟨.leaving m (some (c, i)), owned⟩, ?_, rfl⟩
          rw [hthreads, List.getElem?_set_self (List.getElem?_eq_some_iff.mp ht).1]
  · rw [hs']
    exact h.pool.same ht rfl ⟨rfl, rfl, rfl, rfl, rfl, rfl, rfl, rfl, rfl⟩ rfl
      ⟨⟨rfl, rfl, ⟨rfl, rfl⟩, rfl, ⟨by simp, by simp, by simp⟩, fun _ => rfl⟩, rfl, rfl⟩

/-! ## Leave -/

theorem MonitorInv.owner_of_mem (h : s.MonitorInv) (ht : s.threads[t]? = some th)
    (hm : m ∈ th.owned) : s.owner m = some t ∧ th.owned.count m = 1 := by
  have hown := h.owner t th ht m
  have hpos := List.count_pos_iff.mpr hm
  split at hown
  · rename_i hs
    exact ⟨hs, by omega⟩
  · omega

/-- The phase after `Leave` in which `barriers` are to be resumed. -/
theorem leaveMutex_phase (barriers : List Nat) (inWait : Option (Nat × Nat)) :
    let before : ThreadPhase := .leaving m inWait
    let after := resume barriers (inWait.map fun w => (w.1, m, w.2))
    after.resumes = barriers ∧ after.synchro = before.synchro ∧ after.armed = before.armed ∧
      after.waits = before.waits ∧ after.leaves = none ∧ after.past = true ∧
      (∀ u m', s.claim u after m' = 0) ∧ s.due t after = s.due t before ∧
      SamePhase before after := by
  have hphase {phase : ThreadPhase} (hbusy : phase.busy = true) (hpool : phase.ofPool = false)
      (hcreates : phase.creates = none) (hne : phase ≠ .elaborated)
      (hne' : phase ≠ .waitForPackageInitialization) (hprepared : isPrepared phase = true)
      (hwoken : phase.woken = false) (hidle : phase.idleAt = none) :
      SamePhase (.leaving m inWait) phase :=
    ⟨⟨hbusy, hpool, ⟨hcreates, rfl⟩, rfl, ⟨nofun, hne, hne'⟩, fun _ => hprepared⟩, hwoken, hidle⟩
  cases barriers <;> cases inWait <;>
    exact ⟨rfl, rfl, rfl, rfl, rfl, rfl, fun _ _ => rfl, rfl,
      hphase rfl rfl rfl nofun nofun rfl rfl rfl⟩

theorem leaveMutex_step (h : s.Inv) {inWait : Option (Nat × Nat)}
    (ht : s.threads[t]? = some ⟨.leaving m inWait, owned⟩) :
    ∃ s', s.perform t ⟨.leaving m inWait, owned⟩ = .ok s' ∧ s'.Inv := by
  have hmem : m ∈ owned := h.monitors.leaves t _ ht m rfl
  obtain ⟨howner, hone⟩ := h.monitors.owner_of_mem ht hmem
  obtain ⟨l, hl, hq⟩ := h.monitors.mutex m
  rw [howner] at hl
  have hnot := h.monitors.not_mem_entering ht rfl m
  have hnodup := h.monitors.entering_nodup m
  -- the mutex goes to the first thread of the queue, if there is one
  obtain ⟨x, hleave, hx, htail⟩ : ∃ x, (s.mutexes m).leave s.synchros.numberOfIndices =
      .ok (l.head?, x) ∧ x.Holds s.synchros.numberOfIndices (s.entering m).head?.isSome l.tail ∧
      List.Forall₂ (s.EntersAt m) (s.entering m).tail l.tail := by
    cases hentering : s.entering m with
    | nil =>
      rw [hentering] at hq
      cases hq
      obtain ⟨hleave, hx⟩ := MutexPO.leave_nil hl
      exact ⟨_, hleave, hx, .nil⟩
    | cons w ws =>
      rw [hentering] at hq
      cases hq with
      | cons _ hrest =>
        obtain ⟨hleave, hx⟩ := MutexPO.leave_cons hl
        exact ⟨_, hleave, hx, hrest⟩
  obtain ⟨phase, hphase⟩ : ∃ phase, phase =
    resume l.head?.toList (inWait.map fun w => (w.1, m, w.2)) := ⟨_, rfl⟩
  obtain ⟨s', hs'⟩ : ∃ s', s' = { s.setThread t ⟨phase, owned.erase m⟩ with
      owner := Function.update s.owner m (s.entering m).head?
      entering := Function.update s.entering m (s.entering m).tail
      mutexes := Function.update s.mutexes m x } := ⟨_, rfl⟩
  have hthreads : s'.threads = s.threads.set t ⟨phase, owned.erase m⟩ := by
    rw [hs']
    rfl
  have hentering : s'.entering m = (s.entering m).tail := by
    rw [hs']
    exact Function.update_self _ _ _
  have hentering' (m' : Nat) (hm : m' ≠ m) : s'.entering m' = s.entering m' := by
    rw [hs']
    exact Function.update_of_ne hm _ _
  have howner' : s'.owner m = (s.entering m).head? := by
    rw [hs']
    exact Function.update_self _ _ _
  have hkept (u : Nat) (hu : u ∉ (s.entering m).head?.toList) (m' : Nat) :
      u ∈ s'.entering m' ↔ u ∈ s.entering m' := by
    by_cases hm : m' = m
    · subst hm
      rw [hentering]
      cases hc : s.entering m' with
      | nil => exact Iff.rfl
      | cons w ws =>
        rw [hc] at hu
        have hu : u ∉ [w] := hu
        rw [List.mem_singleton] at hu
        exact ⟨List.mem_cons_of_mem w, fun ho => (List.mem_cons.mp ho).resolve_left hu⟩
    · rw [hentering' m' hm]
  obtain ⟨hresumes, hsynchro, harmed, hwaits, hleaves, hpast, hclaim, -, hsame⟩ :=
    leaveMutex_phase (s := s) (t := t) (m := m) l.head?.toList inWait
  obtain ⟨-, -, -, -, -, -, hclaim', hdue', -⟩ :=
    leaveMutex_phase (s := s') (t := t) (m := m) l.head?.toList inWait
  rw [← hphase] at hresumes hsynchro harmed hwaits hleaves hpast hclaim hsame hclaim' hdue'
  have hdue (u : Nat) (hu : u ∉ (s.entering m).head?.toList) (phase : ThreadPhase) :
      s'.due u phase = s.due u phase := by
    refine due_congr (by rw [hs']; rfl) (hkept u hu) (fun c => ?_) phase
    rw [hs']
    rfl
  have hself : t ∉ (s.entering m).head?.toList := by
    intro ht
    rw [Option.mem_toList] at ht
    exact hnot (List.mem_of_mem_head? ht)
  have hwoken : List.Forall₂ (WokenAt s s') (s.entering m).head?.toList l.head?.toList := by
    cases hc : s.entering m with
    | nil =>
      rw [hc] at hq
      cases hq
      exact .nil
    | cons w ws =>
      rw [hc] at hq hnodup hentering
      cases hq with
      | cons hr _ =>
        obtain ⟨thw, hw, hp⟩ := hr
        refine .cons ⟨thw, hw, synchro_of_enters hp, ?_, ?_⟩ .nil
        · rw [due_of_enters hp, hc]
          simp
        · rw [due_of_enters hp, hentering]
          simpa using (List.nodup_cons.mp hnodup).1
  refine ⟨s', ?_, ?_, ?_, ?_⟩
  · show s.leaveMutex t _ m inWait = _
    rw [leaveMutex, hleave, hs', hphase]
    rfl
  · refine h.synchros.wake ht hthreads (by rw [hs']; rfl) (by rw [hs']; rfl) hsynchro (fun _ => rfl)
      harmed rfl hwoken ?_ (by rw [hresumes]) hself
      (fun u hu _ phase => hdue u hu phase) (.inr (hdue'.trans (hdue t hself _)))
    cases (s.entering m).head? <;> simp
  · refine h.monitors.mutex_set (m := m) ht hthreads (by rw [hs']; rfl) (by rw [hs']; rfl)
      (by rw [hs']; rfl) ?_ ?_ ?_ ?_ rfl hwaits (by rw [hleaves]; nofun)
    · intro m' hm
      refine ⟨?_, ?_, hentering' m' hm⟩ <;>
      · rw [hs']
        exact Function.update_of_ne hm _ _
    · refine ⟨l.tail, ?_, ?_⟩
      · rw [howner', hs']
        simp only [Function.update_self]
        exact hx
      · rw [hentering]
        refine forall₂_congr htail fun u hu j hr => hr.set hthreads ?_
        rintro rfl
        exact hnot (List.mem_of_mem_tail hu)
    · intro u thu hu
      rw [howner']
      rcases getElem?_set_cases ht hthreads hu with ⟨rfl, rfl⟩ | ⟨hut, hu⟩
      · rw [hclaim', List.count_erase_self, hone, if_neg]
        exact fun hh => hnot (List.mem_of_mem_head? hh)
      · have hold := h.monitors.owner u thu hu m
        rw [howner, if_neg fun hs => hut (Option.some.inj hs).symm] at hold
        cases hc : s.entering m with
        | nil =>
          rw [claim_congr (s := s) (by rw [hentering, hc]; exact Iff.rfl), hold, if_neg nofun]
        | cons w ws =>
          by_cases huw : u = w
          · subst huw
            rw [hc] at hq hnodup hentering
            cases hq with
            | cons hr _ =>
              obtain ⟨thw, hw, hp⟩ := hr
              rw [hu] at hw
              obtain rfl := Option.some.inj hw
              have hclaimed : s'.claim u thu.phase m = 1 := by
                rw [claim_of_enters hp, if_neg]
                rw [hentering]
                exact (List.nodup_cons.mp hnodup).1
              rw [hclaimed, List.head?_cons, if_pos rfl]
              omega
          · have hu' : u ∉ (s.entering m).head?.toList := by
              rw [hc]
              simpa using huw
            rw [claim_congr (s := s) (hkept u hu' m), hold, if_neg]
            exact fun hs => huw (Option.some.inj hs).symm
    · intro m' hm
      rw [hclaim, List.count_erase_of_ne hm]
      rfl
  · rw [hs']
    exact h.pool.same ht rfl ⟨rfl, rfl, rfl, rfl, rfl, rfl, rfl, rfl, rfl⟩ rfl hsame

/-! ## Signal and Broadcast -/

theorem condition_wake (h : s.Inv) (ht : s.threads[t]? = some th) (hsynchro : th.phase.synchro = none)
    (harmed : th.phase.armed = false) (hres : th.phase.resumes = []) (hwaits : th.phase.waits = none)
    (henters : th.phase.enters = none) (hclaim : ∀ m, s.claim t th.phase m = 0)
    (hphase : SamePhase th.phase .running) (hpast : th.phase.past = true) {x : ConditionPO}
    {woken rest places places' resumed : List Nat} (hqueue : s.waiting c = woken ++ rest)
    (hq : List.Forall₂ (s.WaitsAt c) woken places) (hrest : List.Forall₂ (s.WaitsAt c) rest places')
    (hx : x.Holds s.synchros.numberOfIndices places') (hperm : resumed.Perm places) :
    Inv { s.setPhase t th (resume resumed none) with
      conditions := Function.update s.conditions c x
      waiting := Function.update s.waiting c rest } := by
  obtain ⟨phase, hresume⟩ : ∃ phase, phase = resume resumed none := ⟨_, rfl⟩
  rw [← hresume]
  obtain ⟨s', hs'⟩ : ∃ s', s' = { s.setPhase t th phase with
      conditions := Function.update s.conditions c x
      waiting := Function.update s.waiting c rest } := ⟨_, rfl⟩
  rw [← hs']
  have hthreads : s'.threads = s.threads.set t { th with phase := phase } := by
    rw [hs']
    rfl
  have hwaiting : s'.waiting c = rest := by
    rw [hs']
    exact Function.update_self _ _ _
  have hwaiting' (c' : Nat) (hc : c' ≠ c) : s'.waiting c' = s.waiting c' := by
    rw [hs']
    exact Function.update_of_ne hc _ _
  obtain ⟨hresumes, hsynchro', harmed', hwaits', hleaves, hclaim', hsame⟩ :
      phase.resumes = resumed ∧ phase.synchro = none ∧ phase.armed = false ∧
        phase.waits = none ∧ phase.leaves = none ∧ (∀ m, s.claim t phase m = 0) ∧
        SamePhase th.phase phase := by
    rw [hresume]
    cases resumed with
    | nil => exact ⟨rfl, rfl, rfl, rfl, rfl, fun _ => rfl, hphase⟩
    | cons i l =>
      refine ⟨rfl, rfl, rfl, rfl, rfl, fun _ => rfl, ?_⟩
      exact ⟨⟨hphase.busy, hphase.ofPool, ⟨rfl, hphase.creates.2⟩, hphase.past,
        ⟨hphase.begun.1, nofun, nofun⟩, fun _ => rfl⟩, hphase.woken, hphase.idleAt⟩
  have hnodup := h.monitors.waiting_nodup c
  rw [hqueue, List.nodup_append] at hnodup
  obtain ⟨hnodup, -, hdisjoint⟩ := hnodup
  rw [← hresumes] at hperm
  have hnot : t ∉ woken := fun hm => h.monitors.not_mem_waiting ht hwaits c (by
    rw [hqueue]
    exact List.mem_append_left rest hm)
  refine ⟨?_, ?_, ?_⟩
  · refine h.synchros.wake ht hthreads (by rw [hs']; rfl) (by rw [hs']; rfl)
      (hsynchro'.trans hsynchro.symm) (fun _ => hpast) (harmed'.trans harmed.symm) hres ?_ hnodup
      hperm hnot ?_ (.inl hsynchro)
    · refine forall₂_congr hq ?_
      rintro u hu i ⟨thu, hget, hp⟩
      refine ⟨thu, hget, synchro_of_waits hp, ?_, ?_⟩
      · rw [due_of_waits hp, hqueue]
        simp [hu]
      · rw [due_of_waits hp, hwaiting]
        simpa using fun hr => hdisjoint u hu u hr rfl
    · intro u hu _ phase
      refine due_congr (by rw [hs']; rfl) (fun m => ?_) (fun c' => ?_) phase
      · rw [hs']
        rfl
      · by_cases hc : c' = c
        · subst hc
          rw [hwaiting, hqueue, List.mem_append]
          exact ⟨.inr, fun ho => ho.resolve_left hu⟩
        · rw [hwaiting' c' hc]
  · refine h.monitors.condition_set (c := c) ht hthreads (by rw [hs']; rfl) (by rw [hs']; rfl)
      (by rw [hs']; rfl) (by rw [hs']; rfl) ?_ ?_ rfl (fun m => (hclaim' m).trans (hclaim m).symm)
      henters hwaits (by rw [hleaves]; nofun)
    · intro c' hc
      refine ⟨?_, hwaiting' c' hc⟩
      rw [hs']
      exact Function.update_of_ne hc _ _
    · refine ⟨places', ?_, ?_⟩
      · rw [hs']
        simp only [Function.update_self]
        exact hx
      · rw [hwaiting]
        refine forall₂_congr hrest fun u hu i hr => hr.set ht hthreads (.inl ?_)
        rintro rfl
        refine h.monitors.not_mem_waiting ht hwaits c ?_
        rw [hqueue]
        exact List.mem_append_right woken hu
  · rw [hs']
    exact h.pool.same ht rfl ⟨rfl, rfl, rfl, rfl, rfl, rfl, rfl, rfl, rfl⟩ rfl hsame

theorem signalCondition_step (h : s.Inv) (ht : s.threads[t]? = some ⟨.signalling c, owned⟩) :
    ∃ s', s.perform t ⟨.signalling c, owned⟩ = .ok s' ∧ s'.Inv := by
  obtain ⟨l, hl, hq⟩ := h.monitors.condition c
  have hphase : SamePhase (.signalling c) .running :=
    ⟨⟨rfl, rfl, ⟨rfl, rfl⟩, rfl, ⟨nofun, nofun, nofun⟩, fun _ => rfl⟩, rfl, rfl⟩
  obtain ⟨x, hsignal, hx⟩ : ∃ x, (s.conditions c).signal s.synchros.numberOfIndices =
      .ok (l.head?, x) ∧ x.Holds s.synchros.numberOfIndices l.tail := by
    cases l with
    | nil => exact ⟨_, ConditionPO.signal_nil hl, hl⟩
    | cons a l => exact ⟨_, ConditionPO.signal_cons hl⟩
  refine ⟨{ s.setPhase t ⟨.signalling c, owned⟩ (resume l.head?.toList none) with
    conditions := Function.update s.conditions c x
    waiting := Function.update s.waiting c (s.waiting c).tail }, ?_, ?_⟩
  · show s.signalCondition t _ c = _
    rw [signalCondition, hsignal]
    rfl
  · have hsplit : s.waiting c = (s.waiting c).head?.toList ++ (s.waiting c).tail := by
      cases s.waiting c <;> rfl
    refine condition_wake h ht rfl rfl rfl rfl rfl (fun _ => rfl) hphase rfl hsplit ?_ ?_ hx (.refl _)
    · generalize s.waiting c = queue at hq
      cases hq with
      | nil => exact .nil
      | cons hr _ => exact .cons hr .nil
    · generalize s.waiting c = queue at hq
      cases hq with
      | nil => exact .nil
      | cons _ hrest => exact hrest

theorem broadcastCondition_step (h : s.Inv)
    (ht : s.threads[t]? = some ⟨.broadcasting c, owned⟩) :
    ∃ s', s.perform t ⟨.broadcasting c, owned⟩ = .ok s' ∧ s'.Inv := by
  obtain ⟨l, hl, hq⟩ := h.monitors.condition c
  have hphase : SamePhase (.broadcasting c) .running :=
    ⟨⟨rfl, rfl, ⟨rfl, rfl⟩, rfl, ⟨nofun, nofun, nofun⟩, fun _ => rfl⟩, rfl, rfl⟩
  obtain ⟨hbroadcast, hx, hperm⟩ := ConditionPO.broadcast_ok hl
  refine ⟨_, ?_, condition_wake h ht rfl rfl rfl rfl rfl (fun _ => rfl) hphase rfl
    (List.append_nil _).symm hq .nil hx hperm⟩
  show s.broadcastCondition t _ c = _
  rw [broadcastCondition, hbroadcast]
  rfl

theorem SynchroInv.pending_pos (h : s.SynchroInv) (hpos : 0 < s.pending i) :
    s.Held i ∧ s.barriers i = ⟨false, true⟩ := by
  have hwake : s.wakeUps i = s.pending i + (s.barriers i).signaled.toNat := rfl
  rcases h.idle i with hheld | ⟨-, hzero⟩
  · refine ⟨hheld, ?_⟩
    obtain ⟨u, thu, hu, hi⟩ := hheld
    have hdue := h.wakeUps u thu hu i hi
    have hwaiting := h.waiting u thu hu i hi
    have hle := Bool.toNat_le (s.due u thu.phase)
    have harmed : thu.phase.armed = true := by
      refine armed_of_due (s := s) (t := u) ?_
      cases hd : s.due u thu.phase with
      | true => rfl
      | false =>
        rw [hd] at hdue
        have hdue : s.wakeUps i = 0 := hdue
        omega
    rw [harmed] at hwaiting
    cases hb : s.barriers i with
    | mk signaled waiting =>
      rw [hb] at hwaiting hwake
      cases signaled with
      | true =>
        have hwake : s.wakeUps i = s.pending i + 1 := hwake
        omega
      | false => rw [show waiting = true from hwaiting]
  · omega

theorem resumeNext_step (h : s.Inv) {barriers : List Nat} {inWait : Option (Nat × Nat × Nat)}
    (ht : s.threads[t]? = some ⟨.resuming (i :: barriers) inWait, owned⟩) :
    ∃ s', s.perform t ⟨.resuming (i :: barriers) inWait, owned⟩ = .ok s' ∧ s'.Inv := by
  obtain ⟨phase, hphase⟩ : ∃ phase, phase = resume barriers inWait := ⟨_, rfl⟩
  obtain ⟨hresumes, hsynchro, harmed, hwaits, hleaves, hpast, hclaim, hdue, hsame⟩ :
      phase.resumes = barriers ∧
        phase.synchro = (ThreadPhase.resuming (i :: barriers) inWait).synchro ∧
        phase.armed = (ThreadPhase.resuming (i :: barriers) inWait).armed ∧
        phase.waits = (ThreadPhase.resuming (i :: barriers) inWait).waits ∧
        phase.leaves = none ∧ phase.past = true ∧ (∀ m, s.claim t phase m = 0) ∧
        (∀ s' : Ravenscar, s'.due t phase = s'.due t (.resuming (i :: barriers) inWait)) ∧
        SamePhase (.resuming (i :: barriers) inWait) phase := by
    rw [hphase]
    cases barriers <;> cases inWait <;>
      exact ⟨rfl, rfl, rfl, rfl, rfl, rfl, fun _ => rfl, fun _ => rfl,
        ⟨⟨rfl, rfl, ⟨rfl, rfl⟩, rfl, ⟨nofun, nofun, nofun⟩, fun _ => rfl⟩, rfl, rfl⟩⟩
  obtain ⟨s', hs'⟩ : ∃ s', s' =
    (s.setPhase t ⟨.resuming (i :: barriers) inWait, owned⟩ phase).setBarrier i ⟨true, true⟩ :=
      ⟨_, rfl⟩
  have hthreads : s'.threads = s.threads.set t ⟨phase, owned⟩ := by
    rw [hs']
    rfl
  have hpending (j : Nat) : s'.pending j + [i].count j = s.pending j := by
    have hset := pending_set ht hthreads j
    have hcons : (ThreadPhase.resuming (i :: barriers) inWait).resumes.count j =
        barriers.count j + [i].count j := by
      show (i :: barriers).count j = _
      rw [← List.singleton_append, List.count_append, Nat.add_comm]
    rw [hcons, hresumes] at hset
    omega
  have hpos : 0 < s.pending i := by
    have := hpending i
    rw [List.count_singleton_self] at this
    omega
  obtain ⟨hheld, hbarrier⟩ := h.synchros.pending_pos hpos
  have hself : s'.barriers i = ⟨true, true⟩ := by
    rw [hs']
    exact Function.update_self _ _ _
  have hothers (j : Nat) (hj : j ≠ i) : s'.barriers j = s.barriers j := by
    rw [hs']
    exact Function.update_of_ne hj _ _
  have hwaiting (j : Nat) : (s'.barriers j).waiting = (s.barriers j).waiting := by
    by_cases hj : j = i
    · rw [hj, hself, hbarrier]
    · rw [hothers j hj]
  have hwake (j : Nat) : s'.wakeUps j = s.wakeUps j := by
    have := hpending j
    rw [wakeUps, wakeUps]
    by_cases hj : j = i
    · subst hj
      rw [List.count_singleton_self] at this
      rw [hself, hbarrier]
      show s'.pending j + 1 = s.pending j + 0
      omega
    · rw [List.count_singleton, beq_eq_false_iff_ne.mpr (Ne.symm hj)] at this
      rw [hothers j hj, ← this]
      rfl
  have hdues (u : Nat) (phase : ThreadPhase) : s'.due u phase = s.due u phase := by
    rw [hs']
    exact due_congr rfl (fun _ => Iff.rfl) (fun _ => Iff.rfl) phase
  have hsyn : s'.synchros = s.synchros := by
    rw [hs']
    rfl
  refine ⟨s', ?_, ?_, ?_, ?_⟩
  · show s.resumeNext t _ i barriers inWait = _
    rw [resumeNext, hbarrier, hs', hphase]
    rfl
  · refine h.synchros.set ht hthreads ?_ ?_ ?_ ?_ ?_ ?_ ?_ ?_ ?_ ?_ ?_
    · rw [hsyn]
      exact h.synchros.fresh
    · rw [hsyn]
      exact h.synchros.ready
    · rw [hsyn]
      exact fun hi => hi
    · rw [hsyn]
      exact fun _ => h.synchros.past t _ ht rfl
    · rw [hsyn, hsynchro]
    · rw [hsyn]
      exact fun _ _ hj => hj
    · intro j hj
      rw [hsynchro] at hj
      rw [hsyn, hwaiting, hwake, hdues, hdue, harmed]
      exact ⟨h.synchros.used t _ ht j hj, h.synchros.waiting t _ ht j hj,
        h.synchros.wakeUps t _ ht j hj⟩
    · intro j hj
      rw [hsynchro] at hj
      exact .inl hj
    · intro u _ thu _ j _
      rw [hwaiting, hwake, hdues]
      exact ⟨rfl, rfl⟩
    · intro j hj hj'
      rw [hsynchro] at hj'
      exact absurd hj hj'
    · intro j hj _
      have hji : j ≠ i := by
        rintro rfl
        exact hj hheld
      exact ⟨hothers j hji, hwake j⟩
  · rw [hs']
    refine h.monitors.move ht rfl rfl rfl rfl rfl rfl rfl (fun m => ?_)
      (h.monitors.not_mem_entering ht rfl) (.inl hwaits) (by rw [hleaves]; simp)
    rw [hclaim]
    rfl
  · rw [hs']
    exact h.pool.same ht rfl ⟨rfl, rfl, rfl, rfl, rfl, rfl, rfl, rfl, rfl⟩ rfl hsame

theorem resumeNone_step (h : s.Inv) {inWait : Option (Nat × Nat × Nat)}
    (ht : s.threads[t]? = some ⟨.resuming [] inWait, owned⟩) :
    ∃ s', s.perform t ⟨.resuming [] inWait, owned⟩ = .ok s' ∧ s'.Inv := by
  refine ⟨_, rfl, ?_⟩
  cases inWait <;>
    exact h.pass ht rfl
      ⟨⟨rfl, rfl, ⟨rfl, rfl⟩, rfl, ⟨nofun, nofun, nofun⟩, fun _ => rfl⟩, rfl, rfl⟩ (fun _ => rfl) rfl
      rfl rfl rfl rfl (fun _ => rfl) rfl rfl nofun

end Ravenscar

end PolyORB
