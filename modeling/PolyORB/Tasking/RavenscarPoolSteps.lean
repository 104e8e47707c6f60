import PolyORB.Tasking.RavenscarSteps

/-!
# Steps of Simple_Task and Run_In_Task

The initialization, and how a job is given to a thread of the pool, and is started.
-/

namespace PolyORB

namespace Ravenscar

variable {s s' : Ravenscar} {t u i j id : Nat} {th th' thu : RavenscarThread} {owned : List Nat}
  {job : PoolJob}

theorem Inv.relay (h : s.Inv) (ht : s.threads[t]? = some th)
    (hs : s'.threads = s.threads.set t th') (hsyn : s'.synchros = s.synchros)
    (hbar : s'.barriers = s.barriers) (hmutexes : s'.mutexes = s.mutexes)
    (hconditions : s'.conditions = s.conditions) (howner : s'.owner = s.owner)
    (hentering : s'.entering = s.entering) (hwaiting : s'.waiting = s.waiting)
    (howned : th'.owned = th.owned) (hsynchro : th'.phase.synchro = th.phase.synchro)
    (hpast : th'.phase.past = true → th.phase.past = true)
    (harmed : th'.phase.armed = th.phase.armed) (hres : th'.phase.resumes = th.phase.resumes)
    (hassigned : ∀ u ≠ t, s'.assignedTo u = s.assignedTo u)
    (hdue : th.phase.synchro = none ∨ s'.due t th'.phase = s.due t th.phase)
    (hclaim : ∀ m, s.claim t th'.phase m = s.claim t th.phase m) (henters : th.phase.enters = none)
    (hwaits : th'.phase.waits = th.phase.waits) (hleaves : th'.phase.leaves = none)
    (hpool : s'.PoolInv) : s'.Inv := by
  refine ⟨?_, ?_, hpool⟩
  · refine h.synchros.move ht hs hsyn hsynchro hpast hres (fun i _ => by rw [hbar]) ?_ ?_
    · intro u hut phase
      refine due_congr (hassigned u hut) (fun m => ?_) (fun c => ?_) phase
      · rw [hentering]
      · rw [hwaiting]
    · intro i hi
      rw [harmed, hbar]
      refine ⟨h.synchros.waiting t th ht i hi, ?_⟩
      rcases hdue with hnone | hdue
      · rw [hnone] at hi
        cases hi
      · rw [hdue]
        exact h.synchros.wakeUps t th ht i hi
  · refine h.monitors.move ht hs (by rw [hsyn]) hmutexes hconditions howner hentering hwaiting
      (fun m => ?_) (h.monitors.not_mem_entering ht henters) (.inl hwaits) fun m hm => ?_
    · rw [howned, hclaim]
    · rw [hleaves] at hm
      cases hm

/-! ## Initialization -/

theorem PoolInv.not_opened (h : s.PoolInv) (ht : s.threads[t]? = some th)
    (hlt : t < s.mainTaskIndex) (hp : isPrepared th.phase = false) : s.packageInitialized = false := by
  by_contra hne
  have := (h.threads t th ht).prepared hlt (by simpa using hne)
  rw [hp] at this
  cases this

theorem PoolOk.of_none (hnone : s.assignedTo t = none) (hwoken : th.phase.woken = false)
    (hmain : t = s.mainTaskIndex → th.phase.ofPool = false)
    (hfresh : th.phase ≠ .elaborated)
    (hinit : t = s.mainTaskIndex → th.phase.begun = true → s.threadIndices.initialized = true)
    (hpool : t < s.mainTaskIndex → th.phase ≠ .waitForPackageInitialization)
    (horder : t < s.mainTaskIndex → s.current ≤ t → False)
    (hengaged : th.phase.busy = true →
      s.packageInitialized = true ∧ s.threadIndices.initialized = true)
    (hidle : ∀ i ∈ th.phase.idleAt, s.syncId t = i)
    (hcreates : ∀ id ∈ th.phase.creates, id < s.mainTaskIndex)
    (hlooking : ∀ id j, th.phase = .looking id j → s.jobOf id = some j)
    (hcount : t < s.mainTaskIndex →
      s.creators t + th.phase.busy.toNat = (s.threadIndices.used t).toNat)
    (hprepared : t < s.mainTaskIndex → s.packageInitialized = true → isPrepared th.phase = true) :
    s.PoolOk t th where
  main := hmain
  fresh _ hp := absurd hp hfresh
  initialized := hinit
  pool := hpool
  order hlt := iff_of_false hfresh (horder hlt)
  engaged he := by
    rw [hnone] at he
    exact hengaged (he.resolve_left nofun)
  woken hw := by
    rw [hwoken] at hw
    cases hw
  dormant ha := by
    rw [hnone] at ha
    cases ha
  syncId := hidle
  job j hj := by
    rw [hnone] at hj
    cases hj
  creates := hcreates
  looking := hlooking
  count hlt := by
    rw [hnone]
    exact hcount hlt
  prepared := hprepared

theorem initializeId_step (h : s.Inv) (ht : s.threads[t]? = some ⟨.elaborated, owned⟩)
    (hcur : t = s.current) (hlt : t < s.mainTaskIndex) :
    ∃ s', s.perform t ⟨.elaborated, owned⟩ = .ok s' ∧ s'.Inv := by
  have hok := h.pool.threads t _ ht
  have hclosed : s.packageInitialized = false := h.pool.not_opened ht hlt rfl
  have hnone : s.assignedTo t = none := hok.not_assigned rfl rfl
  refine ⟨{ s.setPhase t ⟨.elaborated, owned⟩ .initializing with current := s.current + 1 }, ?_, ?_⟩
  · show (if t = s.mainTaskIndex then _ else s.initializeId t _) = _
    rw [if_neg hlt.ne, initializeId, hclosed, if_neg (by decide), if_neg (by omega)]
  · refine h.relay ht rfl rfl rfl rfl rfl rfl rfl rfl rfl rfl nofun rfl rfl (fun _ _ => rfl) (.inl rfl)
      (fun _ => rfl) rfl rfl rfl ?_
    refine h.pool.set ht rfl rfl rfl ?_ ?_ h.pool.fresh h.pool.ready ?_ ?_ (fun _ => rfl)
    · show s.current + 1 ≤ s.mainTaskIndex
      omega
    · intro hp
      have hp : s.packageInitialized = true := hp
      rw [hclosed] at hp
      cases hp
    · refine PoolOk.of_none hnone rfl (fun _ => rfl) nofun (fun hm => absurd hm hlt.ne) nofun ?_ nofun
        nofun nofun nofun (fun _ => ?_) fun _ hp => ?_
      · intro _ hle
        have hle : s.current + 1 ≤ t := hle
        omega
      · have hcount := hok.count hlt
        rw [hnone] at hcount
        exact (creators_set { s.setPhase t ⟨.elaborated, owned⟩ .initializing with
          current := s.current + 1 } ⟨.initializing, owned⟩ ht rfl t).trans hcount
      · have hp : s.packageInitialized = true := hp
        rw [hclosed] at hp
        cases hp
    · intro u hut thu hu hok
      refine hok.frame rfl id (fun _ => rfl) (.inl rfl) (fun _ => ?_) rfl rfl (fun _ _ => rfl)
        (fun _ _ _ => rfl) fun _ => ?_
      · show s.current + 1 ≤ u ↔ s.current ≤ u
        omega
      · have hc := creators_set { s.setPhase t ⟨.elaborated, owned⟩ .initializing with
          current := s.current + 1 } ⟨.initializing, owned⟩ ht rfl u
        exact congrArg (· + _) hc

theorem PoolOk.frame_threadIndices (h : s.PoolOk u thu) {x : IndexManager}
    (hs' : s' = { s.setThread t th' with threadIndices := x })
    (hn : x.numberOfIndices = s.threadIndices.numberOfIndices)
    (hinit : s.threadIndices.initialized = true → x.initialized = true)
    (hfresh : u = s.mainTaskIndex → x.initialized = s.threadIndices.initialized)
    (hcount : u < s.mainTaskIndex → s'.creators u + (s.threadIndices.used u).toNat =
      s.creators u + (x.used u).toNat) : s'.PoolOk u thu := by
  subst hs'
  exact h.frame hn hinit hfresh (.inl rfl) (fun _ => Iff.rfl) rfl rfl (fun _ _ => rfl)
    (fun _ _ _ => rfl) hcount

theorem initializePackage_step (h : s.Inv) (ht : s.threads[t]? = some ⟨.elaborated, owned⟩)
    (hm : t = s.mainTaskIndex) (hpos : 0 < s.mainTaskIndex) :
    ∃ s', s.perform t ⟨.elaborated, owned⟩ = .ok s' ∧ s'.Inv := by
  have hok := h.pool.threads t _ ht
  have hnot : s.threadIndices.initialized = false := hok.fresh hm rfl
  have hvalid := IndexManager.valid_fill hpos
  refine ⟨{ s.setPhase t ⟨.elaborated, owned⟩ .initializing with
    threadIndices := s.threadIndices.fill }, ?_, ?_⟩
  · show (if t = s.mainTaskIndex then s.initializePackage t _ else _) = _
    rw [if_pos hm, initializePackage, IndexManager.init_of_not hnot hpos]
    rfl
  · have hcreators (u : Nat) : creators { s.setPhase t ⟨.elaborated, owned⟩ .initializing with
        threadIndices := s.threadIndices.fill } u = s.creators u :=
      creators_set _ ⟨.initializing, owned⟩ ht rfl u
    have hunused := h.pool.fresh hnot
    refine h.relay ht rfl rfl rfl rfl rfl rfl rfl rfl rfl rfl nofun rfl rfl (fun _ _ => rfl) (.inl rfl)
      (fun _ => rfl) rfl rfl rfl ?_
    refine h.pool.set ht rfl rfl rfl h.pool.current h.pool.opened nofun (fun _ => hvalid) ?_ ?_
      (fun _ => rfl)
    · refine PoolOk.of_none (hok.not_assigned rfl rfl) rfl (fun _ => rfl) nofun (fun _ _ => rfl) nofun
        ?_ nofun nofun nofun nofun ?_ ?_
      · exact fun hlt => absurd hm (Nat.ne_of_lt hlt)
      · exact fun hlt => absurd hm (Nat.ne_of_lt hlt)
      · exact fun hlt => absurd hm (Nat.ne_of_lt hlt)
    · intro u hut thu hu hok
      refine hok.frame_threadIndices rfl rfl (fun _ => rfl) (fun hum => absurd (hum.trans hm.symm) hut)
        fun _ => ?_
      rw [hunused u]
      exact congrArg (· + 0) (hcreators u)

theorem initializePackage_error (h : s.Inv) (ht : s.threads[t]? = some ⟨.elaborated, owned⟩)
    (hm : t = s.mainTaskIndex) (hzero : s.mainTaskIndex = 0) :
    s.perform t ⟨.elaborated, owned⟩ = .error .constraintError ∧
      (s.setPhase t ⟨.elaborated, owned⟩ (.failed .constraintError)).Inv := by
  have hok := h.pool.threads t _ ht
  have hnot : s.threadIndices.initialized = false := hok.fresh hm rfl
  have hnlt : ¬t < s.mainTaskIndex := by omega
  refine ⟨?_, ?_⟩
  · show (if t = s.mainTaskIndex then s.initializePackage t _ else _) = _
    rw [if_pos hm, initializePackage, IndexManager.init_error hnot hzero]
    rfl
  · refine h.relay ht rfl rfl rfl rfl rfl rfl rfl rfl rfl rfl nofun rfl rfl (fun _ _ => rfl) (.inl rfl)
      (fun _ => rfl) rfl rfl rfl ?_
    refine h.pool.move ht rfl ⟨rfl, rfl, rfl, rfl, rfl, rfl, rfl, rfl, rfl⟩ rfl (fun _ _ => rfl) ?_
    exact PoolOk.of_none (hok.not_assigned rfl rfl) rfl (fun _ => rfl) nofun nofun nofun
      (fun hlt => absurd hlt hnlt) nofun nofun nofun nofun (fun hlt => absurd hlt hnlt)
      (fun hlt => absurd hlt hnlt)

theorem waitForPackage_step (h : s.Inv)
    (ht : s.threads[t]? = some ⟨.waitForPackageInitialization, owned⟩)
    (hopen : s.packageInitialized = true) :
    ∃ s', s.perform t ⟨.waitForPackageInitialization, owned⟩ = .ok s' ∧ s'.Inv := by
  have hok := h.pool.threads t _ ht
  have hnlt : ¬t < s.mainTaskIndex := fun hlt => hok.pool hlt rfl
  have hm : t = s.mainTaskIndex := by
    have := h.pool.lt ht
    omega
  refine ⟨s.setPhase t ⟨.waitForPackageInitialization, owned⟩ .running, rfl, ?_⟩
  refine h.relay ht rfl rfl rfl rfl rfl rfl rfl rfl rfl rfl (fun _ => rfl) rfl rfl (fun _ _ => rfl)
    (.inl rfl) (fun _ => rfl) rfl rfl rfl ?_
  refine h.pool.move ht rfl ⟨rfl, rfl, rfl, rfl, rfl, rfl, rfl, rfl, rfl⟩ rfl (fun _ _ => rfl) ?_
  exact PoolOk.of_none (hok.not_assigned rfl rfl) rfl (fun _ => rfl) nofun
    (fun _ _ => hok.initialized hm rfl) nofun (fun hlt => absurd hlt hnlt)
    (fun _ => ⟨hopen, hok.initialized hm rfl⟩) nofun nofun nofun (fun hlt => absurd hlt hnlt)
    (fun hlt => absurd hlt hnlt)

theorem SynchroInv.synchro_eq_none (h : s.SynchroInv) (hnot : s.synchros.initialized = false)
    (ht : s.threads[t]? = some th) : th.phase.synchro = none := by
  cases hi : th.phase.synchro with
  | none => rfl
  | some i =>
    have hused := h.used t th ht i hi
    rw [h.fresh hnot i] at hused
    cases hused

theorem SynchroInv.begin (h : s.SynchroInv) (ht : s.threads[t]? = some th)
    (hs : s'.threads = s.threads.set t th') (hsynchro : th.phase.synchro = none)
    (hsynchro' : th'.phase.synchro = none) (hres : th'.phase.resumes = th.phase.resumes)
    (hsyn : s'.synchros = s.synchros ∧ s.synchros.initialized = true ∨
      s'.synchros = s.synchros.fill ∧ s.synchros.initialized = false ∧
        0 < s.synchros.numberOfIndices)
    (hbar : s'.barriers = s.barriers) (hdue : ∀ u ≠ t, ∀ phase, s'.due u phase = s.due u phase) :
    s'.SynchroInv := by
  have hpending := pending_move _ ht hs hres
  have hwake (i : Nat) : s'.wakeUps i = s.wakeUps i := by
    rw [Ravenscar.wakeUps, hpending, hbar, Ravenscar.wakeUps]
  have hinit : s'.synchros.initialized = true := by
    rcases hsyn with ⟨hsyn, hinit⟩ | ⟨hsyn, -, -⟩
    · rw [hsyn, hinit]
    · rw [hsyn]
      rfl
  refine h.set ht hs ?_ ?_ (fun _ => hinit) (fun _ => hinit) ?_ ?_ ?_ ?_ ?_ ?_ ?_
  · rw [hinit]
    simp
  · intro _
    rcases hsyn with ⟨hsyn, hinit⟩ | ⟨hsyn, -, hpos⟩
    · rw [hsyn]
      exact h.ready hinit
    · rw [hsyn]
      exact IndexManager.valid_fill hpos
  · rw [hsynchro, hsynchro']
    rcases hsyn with ⟨hsyn, -⟩ | ⟨hsyn, hnot, -⟩
    · rw [hsyn]
    · have hcount : s.synchros.numberOfUsed = 0 := by
        rw [h.count, List.countP_eq_zero]
        intro thu hmem
        obtain ⟨u, hu⟩ := List.mem_iff_getElem?.mp hmem
        rw [h.synchro_eq_none hnot hu]
        decide
      rw [hsyn, hcount]
      rfl
  · intro i _ hi
    rcases hsyn with ⟨hsyn, -⟩ | ⟨-, hnot, -⟩
    · rw [hsyn, hi]
    · rw [h.fresh hnot i] at hi
      cases hi
  · rw [hsynchro']
    simp
  · rw [hsynchro']
    simp
  · intro u hut thu _ i _
    rw [hbar, hwake, hdue u hut]
    exact ⟨rfl, rfl⟩
  · rw [hsynchro]
    simp
  · intro i _ _
    rw [hbar, hwake]
    exact ⟨rfl, rfl⟩

theorem initializeSynchros_step (h : s.Inv) (ht : s.threads[t]? = some ⟨.initializing, owned⟩)
    (hpos : 0 < s.synchros.numberOfIndices) :
    ∃ s', s.perform t ⟨.initializing, owned⟩ = .ok s' ∧ s'.Inv := by
  have hok := h.pool.threads t _ ht
  obtain ⟨x, hinit, hx⟩ : ∃ x, s.synchros.init false = .ok x ∧
      (x = s.synchros ∧ s.synchros.initialized = true ∨
        x = s.synchros.fill ∧ s.synchros.initialized = false ∧ 0 < s.synchros.numberOfIndices) := by
    cases hs : s.synchros.initialized with
    | true => exact ⟨_, IndexManager.init_of_valid (h.synchros.ready hs), .inl ⟨rfl, rfl⟩⟩
    | false => exact ⟨_, IndexManager.init_of_not hs hpos false, .inr ⟨rfl, rfl, hpos⟩⟩
  have hn : x.numberOfIndices = s.synchros.numberOfIndices := by
    rcases hx with ⟨rfl, -⟩ | ⟨rfl, -⟩ <;> rfl
  obtain ⟨phase, hphase⟩ : ∃ phase, phase = (if t = s.mainTaskIndex then
    ThreadPhase.waitForPackageInitialization else .getting .initial) := ⟨_, rfl⟩
  have hcases : t = s.mainTaskIndex ∧ phase = .waitForPackageInitialization ∨
      t < s.mainTaskIndex ∧ phase = .getting .initial := by
    rw [hphase]
    by_cases hm : t = s.mainTaskIndex
    · rw [if_pos hm]
      exact .inl ⟨hm, rfl⟩
    · rw [if_neg hm]
      have := h.pool.lt ht
      exact .inr ⟨by omega, rfl⟩
  refine ⟨{ s.setPhase t ⟨.initializing, owned⟩ phase with synchros := x }, ?_, ?_, ?_, ?_⟩
  · show s.initializeSynchros t _ = _
    rw [initializeSynchros, hinit, ← hphase]
    rfl
  · refine h.synchros.begin ht rfl rfl ?_ ?_ hx rfl fun u _ => due_congr rfl (fun _ => Iff.rfl)
      fun _ => Iff.rfl
    all_goals rcases hcases with ⟨-, rfl⟩ | ⟨-, rfl⟩ <;> rfl
  · refine h.monitors.move ht rfl hn rfl rfl rfl rfl rfl (fun m => ?_)
      (h.monitors.not_mem_entering ht rfl) (.inl ?_) ?_
    all_goals rcases hcases with ⟨-, rfl⟩ | ⟨-, rfl⟩ <;> first | rfl | nofun
  · refine h.pool.move ht rfl ⟨rfl, rfl, rfl, rfl, rfl, rfl, rfl, rfl, rfl⟩ ?_ (fun _ _ => rfl) ?_
    · rcases hcases with ⟨-, rfl⟩ | ⟨-, rfl⟩ <;> rfl
    · have hnone : s.assignedTo t = none := hok.not_assigned rfl rfl
      have hbegun (hlt : t < s.mainTaskIndex) (hle : s.current ≤ t) : False :=
        nomatch (hok.order hlt).mpr hle
      rcases hcases with ⟨hm, rfl⟩ | ⟨hlt, rfl⟩
      · have hnlt : ¬t < s.mainTaskIndex := by omega
        exact PoolOk.of_none hnone rfl (fun _ => rfl) nofun (fun _ _ => hok.initialized hm rfl)
          (fun hlt => absurd hlt hnlt) (fun hlt => absurd hlt hnlt) nofun nofun nofun nofun
          (fun hlt => absurd hlt hnlt) (fun hlt => absurd hlt hnlt)
      · have hclosed : s.packageInitialized = false := h.pool.not_opened ht hlt rfl
        refine PoolOk.of_none hnone rfl (fun hm => absurd hm hlt.ne) nofun
          (fun hm => absurd hm hlt.ne) nofun hbegun nofun nofun nofun nofun (fun _ => ?_) fun _ hp => ?_
        · have hcount := hok.count hlt
          rw [hnone] at hcount
          exact (creators_set { s.setPhase t ⟨.initializing, owned⟩ (.getting .initial) with
            synchros := x } ⟨.getting .initial, owned⟩ ht rfl t).trans hcount
        · have hp : s.packageInitialized = true := hp
          rw [hclosed] at hp
          cases hp

theorem initializeSynchros_error (h : s.Inv) (ht : s.threads[t]? = some ⟨.initializing, owned⟩)
    (hzero : s.synchros.numberOfIndices = 0) :
    s.perform t ⟨.initializing, owned⟩ = .error .constraintError ∧
      (s.setPhase t ⟨.initializing, owned⟩ (.failed .constraintError)).Inv := by
  have hok := h.pool.threads t _ ht
  have hnone : s.assignedTo t = none := hok.not_assigned rfl rfl
  have hnot : s.synchros.initialized = false := by
    by_contra hne
    obtain ⟨free, hfree⟩ := h.synchros.ready (by simpa using hne)
    have := hfree.offset
    omega
  refine ⟨?_, ?_⟩
  · show s.initializeSynchros t _ = _
    rw [initializeSynchros, IndexManager.init_error hnot hzero]
    rfl
  · refine h.relay ht rfl rfl rfl rfl rfl rfl rfl rfl rfl rfl nofun rfl rfl (fun _ _ => rfl) (.inl rfl)
      (fun _ => rfl) rfl rfl rfl ?_
    refine h.pool.move ht rfl ⟨rfl, rfl, rfl, rfl, rfl, rfl, rfl, rfl, rfl⟩ rfl (fun _ _ => rfl) ?_
    refine PoolOk.of_none hnone rfl (fun _ => rfl) nofun nofun nofun
      (fun hlt hle => nomatch (hok.order hlt).mpr hle) nofun nofun nofun nofun (fun hlt => ?_)
      fun hlt hp => ?_
    · have hcount := hok.count hlt
      rw [hnone] at hcount
      exact (creators_set (s.setPhase t ⟨.initializing, owned⟩ (.failed .constraintError)) ⟨.failed .constraintError, owned⟩ ht rfl t).trans hcount
    · have hp : s.packageInitialized = true := hp
      rw [h.pool.not_opened ht hlt rfl] at hp
      cases hp

theorem allPrepared_iff : s.allPrepared = true ↔ ∀ (u : Nat) (thu : RavenscarThread),
    u < s.mainTaskIndex → s.threads[u]? = some thu → isPrepared thu.phase = true := by
  rw [allPrepared, List.all_eq_true]
  constructor
  · intro hall u thu hlt hu
    refine hall thu (List.mem_iff_getElem?.mpr ⟨u, ?_⟩)
    rw [List.getElem?_take_of_lt hlt]
    exact hu
  · intro hall thu hmem
    obtain ⟨u, hu⟩ := List.mem_iff_getElem?.mp hmem
    rw [List.getElem?_take] at hu
    split at hu
    · rename_i hlt
      exact hall u thu hlt hu
    · cases hu

theorem endInitialization_step (h : s.Inv) (ht : s.threads[t]? = some ⟨.prepared .initial i, owned⟩)
    (htimely : s.timely t = true) : (s.endInitialization t ⟨.prepared .initial i, owned⟩ i).Inv := by
  have hok := h.pool.threads t _ ht
  have htimely : s.current < s.mainTaskIndex ∨ s.allPrepared = true := by
    rw [timely, ht] at htimely
    simpa using htimely
  have hpkg : (s.endInitialization t ⟨.prepared .initial i, owned⟩ i).packageInitialized =
      decide (s.mainTaskIndex ≤ s.current) := rfl
  have hkept (u : Nat) (thu : RavenscarThread) (hu : s.threads[u]? = some thu) :
      decide (s.mainTaskIndex ≤ s.current) = s.packageInitialized ∨
        (decide (s.mainTaskIndex ≤ s.current) = true ∧
          (u < s.mainTaskIndex → isPrepared thu.phase = true)) := by
    rcases htimely with hlt | hall
    · refine .inl ?_
      cases hp : s.packageInitialized with
      | true => exact absurd (h.pool.opened hp) (by omega)
      | false => exact decide_eq_false (by omega)
    · by_cases hle : s.mainTaskIndex ≤ s.current
      · exact .inr ⟨decide_eq_true hle, fun hlt => allPrepared_iff.mp hall u thu hlt hu⟩
      · refine .inl ?_
        cases hp : s.packageInitialized with
        | true => exact absurd (h.pool.opened hp) hle
        | false => exact decide_eq_false hle
  refine h.relay ht rfl rfl rfl rfl rfl rfl rfl rfl rfl rfl (fun _ => rfl) rfl rfl (fun _ _ => rfl)
    (.inr rfl) (fun _ => rfl) rfl rfl rfl ?_
  refine h.pool.set ht rfl rfl rfl h.pool.current ?_ h.pool.fresh h.pool.ready ?_ ?_ (fun _ => rfl)
  · intro hp
    exact of_decide_eq_true hp
  · have hframe : PoolOk (s.endInitialization t ⟨.prepared .initial i, owned⟩ i) t
        ⟨.prepared .initial i, owned⟩ := hok.frame rfl id (fun _ => rfl) (hkept t _ ht)
      (fun _ => Iff.rfl) rfl rfl (fun _ _ => rfl) (fun _ _ _ => rfl) fun _ =>
        congrArg (· + _) (creators_set (s.endInitialization t ⟨.prepared .initial i, owned⟩ i)
          ⟨.suspended .initial i, owned⟩ ht rfl t)
    exact ⟨hframe.main, nofun, hframe.initialized, nofun,
      fun hlt => iff_of_false nofun (mt (hframe.order hlt).mpr nofun), hframe.engaged, nofun,
      hframe.dormant, hframe.syncId, hframe.job, nofun, nofun, hframe.count, fun _ _ => rfl⟩
  · intro u hut thu hu hok
    exact hok.frame rfl id (fun _ => rfl) (hkept u thu hu) (fun _ => Iff.rfl) rfl rfl (fun _ _ => rfl)
      (fun _ _ _ => rfl) fun _ => congrArg (· + _) (creators_set (s.endInitialization t
        ⟨.prepared .initial i, owned⟩ i) ⟨.suspended .initial i, owned⟩ ht rfl u)

theorem releaseThread_step (h : s.Inv) (ht : s.threads[t]? = some ⟨.prepared .next i, owned⟩) :
    ∃ s', s.perform t ⟨.prepared .next i, owned⟩ = .ok s' ∧ s'.Inv := by
  have hok := h.pool.threads t _ ht
  have hlt : t < s.mainTaskIndex := by
    have := h.pool.lt ht
    refine lt_of_le_of_ne this fun hm => ?_
    exact nomatch hok.main hm
  obtain ⟨hopen, hinit⟩ := hok.engaged (.inr rfl)
  have hcount : s.creators t + (s.assignedTo t).isSome.toNat + 1 =
    (s.threadIndices.used t).toNat := hok.count hlt
  have hle := Bool.toNat_le (s.threadIndices.used t)
  have hused : s.threadIndices.used t = true := by
    cases hu : s.threadIndices.used t with
    | true => rfl
    | false =>
      rw [hu] at hcount
      cases hcount
  have hnone : s.assignedTo t = none := by
    cases ha : s.assignedTo t with
    | none => rfl
    | some j =>
      rw [ha] at hcount
      have : (some j).isSome.toNat = 1 := rfl
      omega
  have hzero : s.creators t = 0 := by omega
  obtain ⟨hrelease, hpush, -⟩ := IndexManager.release_ok (h.pool.ready hinit) hused
  have hcreators (u : Nat) : creators { s.setPhase t ⟨.prepared .next i, owned⟩ (.suspended .next i)
      with threadIndices := s.threadIndices.push t } u = s.creators u :=
    creators_set _ ⟨.suspended .next i, owned⟩ ht rfl u
  refine ⟨{ s.setPhase t ⟨.prepared .next i, owned⟩ (.suspended .next i) with
    threadIndices := s.threadIndices.push t }, ?_, ?_⟩
  · show s.releaseThread t _ i = _
    rw [releaseThread, hrelease]
    rfl
  · refine h.relay ht rfl rfl rfl rfl rfl rfl rfl rfl rfl rfl (fun _ => rfl) rfl rfl (fun _ _ => rfl)
      (.inr rfl) (fun _ => rfl) rfl rfl rfl ?_
    refine h.pool.set ht rfl rfl rfl h.pool.current h.pool.opened (fun hno => ?_) (fun _ => hpush) ?_
      ?_ (fun _ => rfl)
    · rw [hpush.initialized] at hno
      cases hno
    · refine PoolOk.of_none hnone rfl (fun hm => absurd hm hlt.ne) nofun (fun hm => absurd hm hlt.ne)
        nofun (fun hlt hle => nomatch (hok.order hlt).mpr hle) nofun hok.syncId nofun nofun
        (fun _ => ?_) fun _ _ => rfl
      have hself : Function.update s.threadIndices.used t false t = false := Function.update_self _ _ _
      exact ((hcreators t).trans hzero).trans (congrArg Bool.toNat hself).symm
    · intro u hut thu hu hok
      refine hok.frame_threadIndices rfl rfl (fun _ => hpush.initialized)
        (fun _ => hpush.initialized.trans hinit.symm) fun _ => ?_
      have hother : (s.threadIndices.push t).used u = s.threadIndices.used u :=
        Function.update_of_ne hut _ _
      rw [hother]
      exact congrArg (· + _) (hcreators u)

end Ravenscar

end PolyORB
