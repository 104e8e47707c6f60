import PolyORB.Tasking.RavenscarPoolSteps

/-!
# Jobs of the pool

How a thread of the pool is obtained and given a job, and how it starts and ends it.
-/

namespace PolyORB

namespace Ravenscar

variable {s s' : Ravenscar} {t u i j id : Nat} {th th' thu : RavenscarThread} {owned : List Nat}
  {job : PoolJob}

theorem creators_pos (ht : s.threads[t]? = some th) (hid : th.phase.creates = some id) :
    0 < s.creators id := by
  refine Tally.countP_pos_of_getElem? (p := fun th => th.phase.creates == some id) ht ?_
  show (th.phase.creates == some id) = true
  rw [hid]
  exact beq_self_eq_true _

theorem creators_unique (hle : s.creators id ≤ 1) (ht : s.threads[t]? = some th)
    (hu : s.threads[u]? = some thu) (hid : th.phase.creates = some id)
    (hid' : thu.phase.creates = some id) : u = t := by
  by_contra hut
  let th₀ : RavenscarThread := ⟨.running, []⟩
  have hc := creators_set (s.setThread t th₀) th₀ ht rfl id
  have hpos : 0 < (s.setThread t th₀).creators id :=
    creators_pos (t := u) (by
      show (s.threads.set t th₀)[u]? = some thu
      rw [List.getElem?_set_ne (Ne.symm hut)]
      exact hu) hid'
  rw [hid, beq_self_eq_true] at hc
  have hone : true.toNat = 1 := rfl
  have hzero : ((th₀.phase.creates == some id).toNat) = 0 := rfl
  omega

theorem PoolInv.creators_le (h : s.PoolInv) (hlt : id < s.mainTaskIndex) : s.creators id ≤ 1 := by
  have hlen : id < s.threads.length := by
    rw [h.length]
    omega
  have hcount := (h.threads id _ (List.getElem?_eq_getElem hlen)).count hlt
  have hle := Bool.toNat_le (s.threadIndices.used id)
  omega

theorem PoolInv.created (h : s.PoolInv) (ht : s.threads[t]? = some th)
    (hid : th.phase.creates = some id) (hbusy : th.phase.busy = true) :
    id < s.mainTaskIndex ∧ id ≠ t ∧ s.creators id = 1 ∧ s.assignedTo id = none ∧
      ∃ thid, s.threads[id]? = some thid ∧ thid.phase.busy = false ∧
        thid.phase.idleAt = some (s.syncId id) := by
  have hok := h.threads t th ht
  have hlt : id < s.mainTaskIndex := hok.creates id hid
  have hlen : id < s.threads.length := by
    rw [h.length]
    omega
  obtain ⟨thid, hget⟩ : ∃ thid, s.threads[id]? = some thid := ⟨_, List.getElem?_eq_getElem hlen⟩
  have hokid := h.threads id thid hget
  have hcount := hokid.count hlt
  have hpos := creators_pos ht hid
  have hle := Bool.toNat_le (s.threadIndices.used id)
  have hone : true.toNat = 1 := rfl
  have hfree : thid.phase.busy = false := by
    cases hb : thid.phase.busy with
    | false => rfl
    | true =>
      rw [hb] at hcount
      omega
  have hnone : s.assignedTo id = none := by
    cases ha : s.assignedTo id with
    | none => rfl
    | some j =>
      rw [ha] at hcount
      have : (some j).isSome.toNat = 1 := rfl
      omega
  have hne : id ≠ t := by
    rintro rfl
    rw [ht] at hget
    obtain rfl := Option.some.inj hget
    rw [hbusy] at hfree
    cases hfree
  refine ⟨hlt, hne, by omega, hnone, thid, hget, hfree, ?_⟩
  have hprepared := hokid.prepared hlt (hok.engaged (.inr hbusy)).1
  have hwoken : thid.phase.woken = false := by
    by_contra hw
    have := hokid.woken (by simpa using hw)
    rw [hnone] at this
    cases this
  have hidle : thid.phase.idleAt.isSome = true := by
    obtain ⟨phase, owned⟩ := thid
    cases phase with
    | waitForPackageInitialization => exact absurd rfl (hokid.pool hlt)
    | getting p | preparing p | stopped p =>
      cases p <;> first | (cases hprepared; done) | cases hfree
    | prepared p i | suspended p i =>
      cases p <;> first | rfl | cases hfree
    | checkSignaled p i | checkWaiting p i | releasing p i =>
      cases p <;> first | (cases hwoken; done) | cases hfree
    | elaborated | initializing | failed => cases hprepared
    | starting => cases hwoken
    | aborting | leaving | resuming | running | signalling | broadcasting | obtaining | creating
    | looking => cases hfree
  obtain ⟨i, hi⟩ := Option.isSome_iff_exists.mp hidle
  rw [hi, hokid.syncId i hi]

theorem assignedTo_set_self (hlt : t < s.assigned.length) (a : Option PoolJob) :
    ((s.assigned.set t a)[t]?).join = a := by
  rw [List.getElem?_set_self hlt]
  rfl

theorem assignedTo_set_of_ne (hut : u ≠ t) (a : Option PoolJob) :
    ((s.assigned.set t a)[u]?).join = s.assignedTo u := by
  rw [List.getElem?_set_ne (Ne.symm hut)]
  rfl

theorem count_set_assigned (hlt : t < s.assigned.length) (a : Option PoolJob) (j : PoolJob) :
    (s.assigned.set t a).count (some j) + (if s.assignedTo t = some j then 1 else 0) =
      s.assigned.count (some j) + if a = some j then 1 else 0 := by
  have hget : s.assigned[t]? = some (s.assignedTo t) := by
    rw [assignedTo, List.getElem?_eq_getElem hlt]
    rfl
  have := Tally.countP_set_add (· == some j) a hget
  simpa [Tally.weight, List.count] using this

theorem starting_step (h : s.Inv) (ht : s.threads[t]? = some ⟨.starting, owned⟩) :
    ∃ s', s.perform t ⟨.starting, owned⟩ = .ok s' ∧ s'.Inv := by
  have hok := h.pool.threads t _ ht
  have hlt : t < s.mainTaskIndex :=
    lt_of_le_of_ne (h.pool.lt ht) fun hm => Bool.noConfusion (hok.main hm)
  have hlen : t < s.assigned.length := by
    rw [h.pool.assignedLength]
    exact hlt
  obtain ⟨job, hjob⟩ := Option.isSome_iff_exists.mp (hok.woken rfl)
  obtain ⟨hopen, hinit⟩ := hok.engaged (.inl (hok.woken rfl))
  refine ⟨{ s.setPhase t ⟨.starting, owned⟩ .running with
    assigned := s.assigned.set t none
    started := s.started ++ [job] }, ?_, ?_⟩
  · show s.startJob t _ = _
    rw [startJob, hok.job job hjob]
  · have hcreators (u : Nat) : creators { s.setPhase t ⟨.starting, owned⟩ .running with
        assigned := s.assigned.set t none
        started := s.started ++ [job] } u = s.creators u :=
      creators_set _ ⟨.running, owned⟩ ht rfl u
    refine h.relay ht rfl rfl rfl rfl rfl rfl rfl rfl rfl rfl (fun _ => rfl) rfl rfl
      (fun u hut => assignedTo_set_of_ne hut none) (.inl rfl) (fun _ => rfl) rfl rfl rfl ?_
    refine h.pool.set ht rfl rfl List.length_set h.pool.current h.pool.opened h.pool.fresh
      h.pool.ready ?_ ?_ fun j => ?_
    · refine PoolOk.of_none (assignedTo_set_self hlen none) rfl (fun hm => absurd hm hlt.ne) nofun
        (fun hm => absurd hm hlt.ne) nofun (fun hlt hle => nomatch (hok.order hlt).mpr hle)
        (fun _ => ⟨hopen, hinit⟩) nofun nofun nofun (fun _ => ?_) fun _ _ => rfl
      have hcount := hok.count hlt
      rw [hjob] at hcount
      exact (congrArg (· + 1) (hcreators t)).trans hcount
    · intro u hut thu hu hok
      exact hok.frame rfl id (fun _ => rfl) (.inl rfl) (fun _ => Iff.rfl)
        (assignedTo_set_of_ne hut none) rfl (fun _ _ => rfl) (fun _ _ _ => rfl)
        fun _ => congrArg (· + _) (hcreators u)
    · have hset := count_set_assigned hlen none j
      rw [hjob, if_neg (show ¬none = some j from nofun)] at hset
      show s.accepted.count j + (s.started.count j + s.assigned.count (some j)) =
        s.accepted.count j + ((s.started ++ [job]).count j + (s.assigned.set t none).count (some j))
      rw [List.count_append, List.count_singleton]
      by_cases hj : job = j
      · subst hj
        rw [if_pos rfl] at hset
        rw [beq_self_eq_true, if_pos rfl]
        omega
      · rw [if_neg fun hs => hj (Option.some.inj hs)] at hset
        rw [beq_eq_false_iff_ne.mpr hj, if_neg (by decide)]
        omega

theorem finish_step (h : s.Inv) (ht : s.threads[t]? = some ⟨.running, owned⟩)
    (hlt : t < s.mainTaskIndex) : (s.next (.finish t)).Inv := by
  have hok := h.pool.threads t _ ht
  have hnone : s.assignedTo t = none := hok.not_assigned rfl rfl
  have hcall : s.call t (.getting .next) = s.setPhase t ⟨.running, owned⟩ (.getting .next) := by
    rw [call, ht]
  have hnext : s.next (.finish t) = { s.setPhase t ⟨.running, owned⟩ (.getting .next) with
      runnables := Function.update s.runnables t none } := by
    show { s.call t (.getting .next) with
      runnables := Function.update s.runnables t none } = _
    rw [hcall]
  have hcount : s.creators t + (s.assignedTo t).isSome.toNat + 1 =
    (s.threadIndices.used t).toNat := hok.count hlt
  have hle := Bool.toNat_le (s.threadIndices.used t)
  have hcreators (u : Nat) : creators { s.setPhase t ⟨.running, owned⟩ (.getting .next) with
      runnables := Function.update s.runnables t none } u = s.creators u :=
    creators_set _ ⟨.getting .next, owned⟩ ht rfl u
  have hjob (u : Nat) (hut : u ≠ t) : jobOf { s.setPhase t ⟨.running, owned⟩ (.getting .next) with
      runnables := Function.update s.runnables t none } u = s.jobOf u := by
    simp only [jobOf, Function.update_of_ne hut]
    rfl
  rw [hnext]
  refine h.relay ht rfl rfl rfl rfl rfl rfl rfl rfl rfl rfl (fun _ => rfl) rfl rfl (fun _ _ => rfl)
    (.inl rfl) (fun _ => rfl) rfl rfl rfl ?_
  refine h.pool.set ht rfl rfl rfl h.pool.current h.pool.opened h.pool.fresh h.pool.ready ?_ ?_
    (fun _ => rfl)
  · refine PoolOk.of_none hnone rfl (fun hm => absurd hm hlt.ne) (by simp)
      (fun hm => absurd hm hlt.ne) (by simp) (fun hlt hle => ?_) (fun _ => hok.engaged (.inr rfl))
      (by rintro _ ⟨⟩) (by rintro _ ⟨⟩) (by simp) (fun _ => ?_) fun _ _ => rfl
    · cases (hok.order hlt).mpr hle
    rw [hnone] at hcount
    exact (congrArg (· + 1) (hcreators t)).trans hcount
  · intro u hut thu hu hoku
    refine hoku.frame rfl id (fun _ => rfl) (.inl rfl) (fun _ => Iff.rfl) rfl rfl
      (fun _ _ => hjob u hut) (fun id j hp => hjob id ?_) fun _ => congrArg (· + _) (hcreators u)
    rintro rfl
    have : 0 < s.creators id := creators_pos hu (by rw [hp]; rfl)
    omega

theorem obtaining_step (h : s.Inv) (ht : s.threads[t]? = some ⟨.obtaining job, owned⟩)
    (hfree : s.threadIndices.numberOfUsed < s.threadIndices.numberOfIndices) :
    ∃ s', s.perform t ⟨.obtaining job, owned⟩ = .ok s' ∧ s'.Inv := by
  have hok := h.pool.threads t _ ht
  obtain ⟨hopen, hinit⟩ := hok.engaged (.inr rfl)
  have hnone : s.assignedTo t = none := hok.not_assigned rfl rfl
  obtain ⟨id, hget, hpop, hlt, hun, hused⟩ := IndexManager.get_ok (h.pool.ready hinit) hfree
  have hne (hlt' : t < s.mainTaskIndex) : t ≠ id := by
    rintro rfl
    have hcount : s.creators t + (s.assignedTo t).isSome.toNat + 1 =
      (s.threadIndices.used t).toNat := hok.count hlt'
    rw [hun] at hcount
    cases hcount
  have hcreators (u : Nat) : creators { s.setPhase t ⟨.obtaining job, owned⟩ (.creating id job) with
      threadIndices := s.threadIndices.pop } u = s.creators u + (some id == some u).toNat :=
    creators_set _ ⟨.creating id job, owned⟩ ht rfl u
  refine ⟨{ s.setPhase t ⟨.obtaining job, owned⟩ (.creating id job) with
    threadIndices := s.threadIndices.pop }, ?_, ?_⟩
  · show s.obtainThread t _ job = _
    rw [obtainThread, hget]
    rfl
  · refine h.relay ht rfl rfl rfl rfl rfl rfl rfl rfl rfl rfl (fun _ => rfl) rfl rfl (fun _ _ => rfl)
      (.inl rfl) (fun _ => rfl) rfl rfl rfl ?_
    refine h.pool.set ht rfl rfl rfl h.pool.current h.pool.opened (fun hno => ?_) (fun _ => hpop) ?_
      ?_ (fun _ => rfl)
    · rw [hpop.initialized] at hno
      cases hno
    · refine PoolOk.of_none hnone rfl (fun _ => rfl) nofun (fun _ _ => hpop.initialized) nofun
        (fun hlt hle => nomatch (hok.order hlt).mpr hle) (fun _ => ⟨hopen, hpop.initialized⟩) nofun ?_
        nofun (fun hlt' => ?_) fun _ _ => rfl
      · intro id' hid'
        obtain rfl := Option.some.inj hid'
        exact hlt
      · have hother : s.threadIndices.pop.used t = s.threadIndices.used t := by
          rw [hused, Function.update_of_ne (hne hlt')]
        have hcount := hok.count hlt'
        rw [hnone] at hcount
        rw [hcreators, beq_eq_false_iff_ne.mpr fun hs => hne hlt' (Option.some.inj hs).symm]
        show _ = (s.threadIndices.pop.used t).toNat
        rw [hother]
        exact hcount
    · intro u hut thu hu hoku
      refine hoku.frame_threadIndices rfl rfl (fun _ => hpop.initialized)
        (fun _ => hpop.initialized.trans hinit.symm) fun _ => ?_
      rw [hcreators, hused]
      by_cases hui : u = id
      · subst hui
        rw [Function.update_self, hun, beq_self_eq_true]
        rfl
      · rw [Function.update_of_ne hui, beq_eq_false_iff_ne.mpr fun hs => hui (Option.some.inj hs).symm]
        rfl

theorem creating_step (h : s.Inv) (ht : s.threads[t]? = some ⟨.creating id job, owned⟩) :
    ∃ s', s.perform t ⟨.creating id job, owned⟩ = .ok s' ∧ s'.Inv := by
  have hok := h.pool.threads t _ ht
  obtain ⟨hlt, hne, hone, hnone, -⟩ := h.pool.created ht rfl rfl
  obtain ⟨hopen, hinit⟩ := hok.engaged (.inr rfl)
  have hnonet : s.assignedTo t = none := hok.not_assigned rfl rfl
  obtain ⟨s', hperform, hthreads, hsyn, hbar, hmon, hidx, hpkg, hcur, hsync, hassigned, hlog,
    hjob, hjobs⟩ : ∃ s', s.perform t ⟨.creating id job, owned⟩ = .ok s' ∧
      s'.threads = s.threads.set t ⟨.looking id job, owned⟩ ∧ s'.synchros = s.synchros ∧
      s'.barriers = s.barriers ∧ (s'.mutexes = s.mutexes ∧ s'.conditions = s.conditions ∧
        s'.owner = s.owner ∧ s'.entering = s.entering ∧ s'.waiting = s.waiting) ∧
      s'.threadIndices = s.threadIndices ∧ s'.packageInitialized = s.packageInitialized ∧
      s'.current = s.current ∧ s'.syncId = s.syncId ∧ s'.assigned = s.assigned ∧
      (s'.accepted = s.accepted ∧ s'.started = s.started) ∧ s'.jobOf id = some job ∧
      ∀ u ≠ id, s'.jobOf u = s.jobOf u := by
    have hclosed : ¬s.packageInitialized = false := by
      rw [hopen]
      decide
    cases job with
    | runnable r =>
      refine ⟨_, if_neg hclosed, rfl, rfl, rfl, ⟨rfl, rfl, rfl, rfl, rfl⟩, rfl, rfl, rfl, rfl, rfl,
        ⟨rfl, rfl⟩, ?_, fun u hu => ?_⟩
      · simp [jobOf]
      · simp [jobOf, setPhase, setThread, Function.update_of_ne hu]
    | parameterlessProcedure p =>
      refine ⟨_, if_neg hclosed, rfl, rfl, rfl, ⟨rfl, rfl, rfl, rfl, rfl⟩, rfl, rfl, rfl, rfl, rfl,
        ⟨rfl, rfl⟩, ?_, fun u hu => ?_⟩
      · simp [jobOf]
      · simp [jobOf, setPhase, setThread, Function.update_of_ne hu]
  have hassignedTo (u : Nat) : s'.assignedTo u = s.assignedTo u := by
    rw [assignedTo, hassigned, assignedTo]
  have hmain : s'.mainTaskIndex = s.mainTaskIndex := by
    rw [mainTaskIndex, hidx, mainTaskIndex]
  have hcreators (u : Nat) : s'.creators u = s.creators u := by
    have hc := creators_set _ _ ht hthreads u
    exact Nat.add_right_cancel hc
  refine ⟨s', hperform, ?_⟩
  refine h.relay ht hthreads hsyn hbar hmon.1 hmon.2.1 hmon.2.2.1 hmon.2.2.2.1 hmon.2.2.2.2 rfl rfl
    (fun _ => rfl) rfl rfl (fun u _ => hassignedTo u) (.inl rfl) (fun _ => rfl) rfl rfl rfl ?_
  refine h.pool.set ht hthreads hmain (by rw [hassigned]) ?_ ?_ ?_ ?_ ?_ ?_ ?_
  · rw [hcur]
    exact h.pool.current
  · rw [hpkg, hcur]
    exact h.pool.opened
  · rw [hidx]
    exact h.pool.fresh
  · rw [hidx]
    exact h.pool.ready
  · refine PoolOk.of_none ((hassignedTo t).trans hnonet) rfl (fun _ => rfl) nofun ?_ nofun ?_ ?_ nofun
      ?_ ?_ ?_ fun _ _ => rfl
    · rw [hidx]
      exact fun _ _ => hinit
    · rw [hmain, hcur]
      exact fun hlt hle => nomatch (hok.order hlt).mpr hle
    · rw [hpkg, hidx]
      exact fun _ => ⟨hopen, hinit⟩
    · intro id' hid'
      obtain rfl := Option.some.inj hid'
      rw [hmain]
      exact hlt
    · intro id' job' hp
      obtain ⟨rfl, rfl⟩ := ThreadPhase.looking.inj hp
      exact hjob
    · rw [hmain, hcreators, hidx]
      intro hlt'
      have hcount := hok.count hlt'
      rw [hnonet] at hcount
      exact hcount
  · intro u hut thu hu hoku
    refine hoku.frame hmain ?_ ?_ (.inl hpkg) ?_ (hassignedTo u) (by rw [hsync]) (fun j hj => ?_)
      (fun id' j hp => hjobs id' ?_) ?_
    · rw [hidx]
      exact fun hi => hi
    · rw [hidx]
      exact fun _ => rfl
    · rw [hcur]
      exact fun _ => Iff.rfl
    · refine hjobs u ?_
      rintro rfl
      rw [hnone] at hj
      cases hj
    · rintro rfl
      exact hut (creators_unique (h.pool.creators_le hlt) ht hu rfl (by rw [hp]; rfl))
    · rw [hcreators, hidx]
      exact fun _ => rfl
  · intro j
    rw [hlog.1, hlog.2, hassigned]

theorem looking_step (h : s.Inv) (ht : s.threads[t]? = some ⟨.looking id job, owned⟩) :
    ∃ s', s.perform t ⟨.looking id job, owned⟩ = .ok s' ∧ s'.Inv := by
  have hok := h.pool.threads t _ ht
  obtain ⟨hlt, hne, hone, hnone, thid, hget, hbusyid, hidle⟩ := h.pool.created ht rfl rfl
  obtain ⟨hopen, hinit⟩ := hok.engaged (.inr rfl)
  have hnonet : s.assignedTo t = none := hok.not_assigned rfl rfl
  have hlen : id < s.assigned.length := by
    rw [h.pool.assignedLength]
    exact hlt
  have hsynchro : thid.phase.synchro = some (s.syncId id) := by
    obtain ⟨phase, ownedid⟩ := thid
    cases phase with
    | prepared p i | suspended p i => cases p <;> first | exact hidle | cases hidle
    | _ => cases hidle
  have hdueid {s₁ : Ravenscar} : s₁.due id thid.phase = (s₁.assignedTo id).isSome := by
    obtain ⟨phase, ownedid⟩ := thid
    cases phase with
    | prepared p i | suspended p i => cases p <;> first | rfl | cases hidle
    | _ => cases hidle
  obtain ⟨s', hs'⟩ : ∃ s', s' = { s.setPhase t ⟨.looking id job, owned⟩
      (.resuming [s.syncId id] none) with
    assigned := s.assigned.set id (some job)
    accepted := s.accepted ++ [job] } := ⟨_, rfl⟩
  have hthreads : s'.threads = s.threads.set t ⟨.resuming [s.syncId id] none, owned⟩ := by
    rw [hs']
    rfl
  have hassigned (u : Nat) (hui : u ≠ id) : s'.assignedTo u = s.assignedTo u := by
    rw [hs']
    exact assignedTo_set_of_ne hui (some job)
  have hassignedid : s'.assignedTo id = some job := by
    rw [hs']
    exact assignedTo_set_self hlen (some job)
  have hbarriers : s'.barriers = s.barriers := by
    rw [hs']
    rfl
  have hwoken : List.Forall₂ (WokenAt s s') [id] [s.syncId id] := by
    refine .cons ⟨thid, hget, hsynchro, ?_, ?_⟩ .nil
    · rw [hdueid, hnone]
      rfl
    · rw [hdueid, hassignedid]
      rfl
  have hcreators (u : Nat) : s'.creators u + (some id == some u).toNat = s.creators u :=
    creators_set _ ⟨.resuming [s.syncId id] none, owned⟩ ht hthreads u
  refine ⟨s', ?_, ?_, ?_, ?_⟩
  · show s.lookup t _ id job = _
    rw [lookup, hopen, if_neg (by decide), if_neg hlt.ne, hs']
  · refine h.synchros.wake ht hthreads (by rw [hs']; rfl) hbarriers rfl (fun _ => rfl) rfl rfl hwoken
      (List.nodup_singleton id) (.refl _) (by simpa using Ne.symm hne) ?_ (.inl rfl)
    intro u hu _ phase
    have hui : u ≠ id := by simpa using hu
    refine due_congr (hassigned u hui) (fun m => ?_) (fun c => ?_) phase <;> rw [hs'] <;> rfl
  · rw [hs']
    exact h.monitors.move ht rfl rfl rfl rfl rfl rfl rfl (fun _ => rfl)
      (h.monitors.not_mem_entering ht rfl) (.inl rfl) nofun
  · have hidx : s'.threadIndices = s.threadIndices := by
      rw [hs']
      rfl
    have hmain : s'.mainTaskIndex = s.mainTaskIndex := by
      rw [mainTaskIndex, hidx, mainTaskIndex]
    have hjobof (u : Nat) : s'.jobOf u = s.jobOf u := by
      rw [hs']
      rfl
    have hpkg : s'.packageInitialized = s.packageInitialized := by
      rw [hs']
      rfl
    have hcur : s'.current = s.current := by
      rw [hs']
      rfl
    have hne' (u : Nat) (hui : u ≠ id) : (some id == some u) = false :=
      beq_eq_false_iff_ne.mpr fun hs => hui (Option.some.inj hs).symm
    refine h.pool.set ht hthreads hmain ?_ ?_ ?_ ?_ ?_ ?_ ?_ fun j => ?_
    · rw [hs']
      exact List.length_set
    · rw [hcur]
      exact h.pool.current
    · rw [hpkg, hcur]
      exact h.pool.opened
    · rw [hidx]
      exact h.pool.fresh
    · rw [hidx]
      exact h.pool.ready
    · refine PoolOk.of_none ((hassigned t (Ne.symm hne)).trans hnonet) rfl (fun _ => rfl) nofun ?_
        nofun ?_ ?_ nofun nofun nofun ?_ fun _ _ => rfl
      · rw [hidx]
        exact fun _ _ => hinit
      · rw [hmain, hcur]
        exact fun hlt hle => nomatch (hok.order hlt).mpr hle
      · rw [hpkg, hidx]
        exact fun _ => ⟨hopen, hinit⟩
      · rw [hmain, hidx]
        intro hlt'
        have hcount := hok.count hlt'
        have hc := hcreators t
        rw [hne' t (Ne.symm hne)] at hc
        rw [hnonet] at hcount
        exact (congrArg (· + 1) hc).trans hcount
    · intro u hut thu hu hoku
      by_cases hui : u = id
      · subst hui
        rw [hget] at hu
        obtain rfl := Option.some.inj hu
        refine { main := ?_, fresh := ?_, initialized := ?_, pool := ?_, order := ?_, engaged := ?_,
                 woken := ?_, dormant := ?_, syncId := ?_, job := ?_, creates := ?_, looking := ?_,
                 count := ?_, prepared := ?_ }
        · rw [hmain]
          exact hoku.main
        · rw [hmain, hidx]
          exact hoku.fresh
        · rw [hmain, hidx]
          exact hoku.initialized
        · rw [hmain]
          exact hoku.pool
        · rw [hmain, hcur]
          exact hoku.order
        · rw [hpkg, hidx]
          exact fun _ => ⟨hopen, hinit⟩
        · rw [hassignedid]
          exact fun _ => rfl
        · rw [hidle]
          exact fun _ => .inr rfl
        · rw [hs']
          exact hoku.syncId
        · rw [hassignedid, hjobof]
          intro j hj
          obtain rfl := Option.some.inj hj
          exact hok.looking u job rfl
        · rw [hmain]
          exact hoku.creates
        · intro id' j hp
          rw [hjobof]
          exact hoku.looking id' j hp
        · rw [hmain, hassignedid, hidx]
          intro _
          have hcount := hoku.count hlt
          have hc := hcreators u
          rw [hnone, hbusyid, hone] at hcount
          rw [hone, beq_self_eq_true] at hc
          have hzero : s'.creators u = 0 := Nat.succ.inj hc
          rw [hzero, hbusyid]
          exact hcount
        · rw [hmain, hpkg]
          exact hoku.prepared
      · refine hoku.frame hmain ?_ ?_ (.inl hpkg) ?_ (hassigned u hui) (by rw [hs']; rfl)
          (fun _ _ => hjobof u) (fun id' _ _ => hjobof id') fun _ => ?_
        · rw [hidx]
          exact fun hi => hi
        · rw [hidx]
          exact fun _ => rfl
        · rw [hcur]
          exact fun _ => Iff.rfl
        · have hc := hcreators u
          rw [hne' u hui] at hc
          rw [hidx]
          exact congrArg (· + _) hc
    · have hset := count_set_assigned hlen (some job) j
      rw [hnone, if_neg (show ¬none = some j from nofun)] at hset
      rw [hs']
      show (s.accepted ++ [job]).count j + (s.started.count j + s.assigned.count (some j)) =
        s.accepted.count j + (s.started.count j + (s.assigned.set id (some job)).count (some j))
      rw [List.count_append, List.count_singleton]
      by_cases hj : job = j
      · subst hj
        rw [if_pos rfl] at hset
        rw [beq_self_eq_true, if_pos rfl]
        omega
      · rw [if_neg fun hs => hj (Option.some.inj hs)] at hset
        rw [beq_eq_false_iff_ne.mpr hj, if_neg (by decide)]
        omega

end Ravenscar

end PolyORB
