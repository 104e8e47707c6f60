import PolyORB.Tasking.RavenscarSynchros

/-!
# The pool of threads

An index is in use from `Thread_Index_Manager.Get` until it is released, while one thread gives the
job of its own to the thread with the index, or that thread has a job.
-/

namespace PolyORB

def Purpose.ofPool : Purpose → Bool
  | .initial | .next => true
  | .enter _ | .wait _ _ => false

namespace ThreadPhase

/-- The thread has a job, or is the main one, and has given up its index not yet. -/
def busy : ThreadPhase → Bool
  | .elaborated | .initializing | .waitForPackageInitialization | .starting | .failed _
  | .getting .initial | .preparing .initial _ | .prepared .initial _ | .stopped .initial => false
  | .suspended p _ | .checkSignaled p _ | .checkWaiting p _ | .releasing p _ => !p.ofPool
  | _ => true

/-- What `Simple_Task` does between two jobs. -/
def ofPool : ThreadPhase → Bool
  | .getting p | .preparing p _ | .prepared p _ | .suspended p _ | .checkSignaled p _
  | .checkWaiting p _ | .releasing p _ | .stopped p => p.ofPool
  | .starting => true
  | _ => false

/-- The thread is or will be suspended at `Sync_Id`. -/
def idleAt : ThreadPhase → Option Nat
  | .prepared p i | .suspended p i => if p.ofPool = true then some i else none
  | _ => none

/-- The thread was given a job. -/
def woken : ThreadPhase → Bool
  | .checkSignaled p _ | .checkWaiting p _ | .releasing p _ => p.ofPool
  | .starting => true
  | _ => false

/-- The main task has initialized `Thread_Index_Manager`. -/
def begun : ThreadPhase → Bool
  | .elaborated | .failed _ => false
  | _ => true

def creates : ThreadPhase → Option Nat
  | .creating id _ | .looking id _ => some id
  | _ => none

end ThreadPhase

namespace Ravenscar

/-- The threads that are about to give a job to the thread with index `id`. -/
def creators (s : Ravenscar) (id : Nat) : Nat :=
  s.threads.countP fun th => th.phase.creates == some id

structure PoolOk (s : Ravenscar) (t : Nat) (th : RavenscarThread) : Prop where
  main : t = s.mainTaskIndex → th.phase.ofPool = false
  fresh : t = s.mainTaskIndex → th.phase = .elaborated → s.threadIndices.initialized = false
  initialized : t = s.mainTaskIndex → th.phase.begun = true → s.threadIndices.initialized = true
  pool : t < s.mainTaskIndex → th.phase ≠ .waitForPackageInitialization
  order : t < s.mainTaskIndex → (th.phase = .elaborated ↔ s.current ≤ t)
  engaged : (s.assignedTo t).isSome = true ∨ th.phase.busy = true →
    s.packageInitialized = true ∧ s.threadIndices.initialized = true
  woken : th.phase.woken = true → (s.assignedTo t).isSome = true
  dormant : (s.assignedTo t).isSome = true → th.phase.woken = true ∨ th.phase.idleAt.isSome = true
  syncId : ∀ i ∈ th.phase.idleAt, s.syncId t = i
  job : ∀ j ∈ s.assignedTo t, s.jobOf t = some j
  creates : ∀ id ∈ th.phase.creates, id < s.mainTaskIndex
  looking : ∀ id j, th.phase = .looking id j → s.jobOf id = some j
  count : t < s.mainTaskIndex → s.creators t + (s.assignedTo t).isSome.toNat + th.phase.busy.toNat =
    (s.threadIndices.used t).toNat
  prepared : t < s.mainTaskIndex → s.packageInitialized = true → isPrepared th.phase = true

structure PoolInv (s : Ravenscar) : Prop where
  length : s.threads.length = s.mainTaskIndex + 1
  assignedLength : s.assigned.length = s.mainTaskIndex
  current : s.current ≤ s.mainTaskIndex
  opened : s.packageInitialized = true → s.mainTaskIndex ≤ s.current
  fresh : s.threadIndices.initialized = false → ∀ id, s.threadIndices.used id = false
  ready : s.threadIndices.initialized = true → s.threadIndices.Valid
  threads : ∀ (t : Nat) (th : RavenscarThread), s.threads[t]? = some th → s.PoolOk t th
  jobs : ∀ j, s.accepted.count j = s.started.count j + s.assigned.count (some j)

variable {s s' : Ravenscar} {t u i : Nat} {th th' thu : RavenscarThread}

theorem creators_set (s' : Ravenscar) (th' : RavenscarThread) (ht : s.threads[t]? = some th)
    (hs : s'.threads = s.threads.set t th')
    (id : Nat) : s'.creators id + (th.phase.creates == some id).toNat =
      s.creators id + (th'.phase.creates == some id).toNat := by
  have hset := Tally.countP_set_add (fun th => th.phase.creates == some id) th' ht
  have hw (x : RavenscarThread) : Tally.weight (fun th => th.phase.creates == some id) x =
      (x.phase.creates == some id).toNat := by
    show (if (x.phase.creates == some id) = true then 1 else 0) = _
    cases x.phase.creates == some id <;> rfl
  rw [hw, hw] at hset
  rw [creators, hs, creators]
  exact hset

theorem PoolOk.frame (h : s.PoolOk u thu) (hn : s'.mainTaskIndex = s.mainTaskIndex)
    (hinit : s.threadIndices.initialized = true → s'.threadIndices.initialized = true)
    (hfresh : u = s.mainTaskIndex → s'.threadIndices.initialized = s.threadIndices.initialized)
    (hpkg : s'.packageInitialized = s.packageInitialized ∨
      (s'.packageInitialized = true ∧ (u < s.mainTaskIndex → isPrepared thu.phase = true)))
    (hcur : u < s.mainTaskIndex → (s'.current ≤ u ↔ s.current ≤ u))
    (hassigned : s'.assignedTo u = s.assignedTo u) (hsync : s'.syncId u = s.syncId u)
    (hjob : ∀ j ∈ s.assignedTo u, s'.jobOf u = s.jobOf u)
    (hlooking : ∀ id j, thu.phase = .looking id j → s'.jobOf id = s.jobOf id)
    (hcount : u < s.mainTaskIndex → s'.creators u + (s.threadIndices.used u).toNat =
      s.creators u + (s'.threadIndices.used u).toNat) : s'.PoolOk u thu where
  main := by
    rw [hn]
    exact h.main
  fresh := by
    rw [hn]
    exact fun hu hp => (hfresh hu).trans (h.fresh hu hp)
  initialized := by
    rw [hn]
    exact fun hu hp => hinit (h.initialized hu hp)
  pool := by
    rw [hn]
    exact h.pool
  order := by
    rw [hn]
    exact fun hu => (h.order hu).trans (hcur hu).symm
  engaged := by
    rw [hassigned]
    intro he
    obtain ⟨hp, hi⟩ := h.engaged he
    refine ⟨?_, hinit hi⟩
    rcases hpkg with hpkg | ⟨hpkg, -⟩
    · exact hpkg.trans hp
    · exact hpkg
  woken := by
    rw [hassigned]
    exact h.woken
  dormant := by
    rw [hassigned]
    exact h.dormant
  syncId := by
    rw [hsync]
    exact h.syncId
  job := by
    rw [hassigned]
    exact fun j hj => (hjob j hj).trans (h.job j hj)
  creates := by
    rw [hn]
    exact h.creates
  looking id j hp := (hlooking id j hp).trans (h.looking id j hp)
  count := by
    rw [hn, hassigned]
    intro hu
    have := h.count hu
    omega
  prepared := by
    rw [hn]
    intro hu hp
    rcases hpkg with hpkg | ⟨-, hpkg⟩
    · exact h.prepared hu (hpkg.symm.trans hp)
    · exact hpkg hu

theorem PoolInv.set (h : s.PoolInv) (ht : s.threads[t]? = some th)
    (hs : s'.threads = s.threads.set t th') (hn : s'.mainTaskIndex = s.mainTaskIndex)
    (hlen : s'.assigned.length = s.assigned.length) (hcur : s'.current ≤ s.mainTaskIndex)
    (hopened : s'.packageInitialized = true → s.mainTaskIndex ≤ s'.current)
    (hfresh : s'.threadIndices.initialized = false → ∀ id, s'.threadIndices.used id = false)
    (hready : s'.threadIndices.initialized = true → s'.threadIndices.Valid)
    (hself : s'.PoolOk t th')
    (hothers : ∀ u ≠ t, ∀ thu : RavenscarThread, s.threads[u]? = some thu → s.PoolOk u thu →
      s'.PoolOk u thu)
    (hjobs : ∀ j, s'.accepted.count j + (s.started.count j + s.assigned.count (some j)) =
      s.accepted.count j + (s'.started.count j + s'.assigned.count (some j))) : s'.PoolInv where
  length := by
    rw [hs, List.length_set, hn]
    exact h.length
  assignedLength := by
    rw [hlen, hn]
    exact h.assignedLength
  current := by
    rw [hn]
    exact hcur
  opened := by
    rw [hn]
    exact hopened
  fresh := hfresh
  ready := hready
  threads u thu hu := by
    rcases getElem?_set_cases ht hs hu with ⟨rfl, rfl⟩ | ⟨hut, hu⟩
    · exact hself
    · exact hothers u hut thu hu (h.threads u thu hu)
  jobs j := by
    have := h.jobs j
    have := hjobs j
    omega

theorem PoolInv.lt (h : s.PoolInv) (ht : s.threads[t]? = some th) : t ≤ s.mainTaskIndex := by
  have := (List.getElem?_eq_some_iff.mp ht).1
  rw [h.length] at this
  omega

/-- What a pool shares is left as it is. -/
structure SamePool (s s' : Ravenscar) : Prop where
  threadIndices : s'.threadIndices = s.threadIndices
  packageInitialized : s'.packageInitialized = s.packageInitialized
  current : s'.current = s.current
  jobPassing : s'.jobPassing = s.jobPassing
  runnables : s'.runnables = s.runnables
  procedures : s'.procedures = s.procedures
  assigned : s'.assigned = s.assigned
  accepted : s'.accepted = s.accepted
  started : s'.started = s.started

theorem SamePool.jobOf (h : SamePool s s') (t : Nat) : s'.jobOf t = s.jobOf t := by
  unfold Ravenscar.jobOf
  rw [h.jobPassing, h.runnables, h.procedures]

theorem SamePool.assignedTo (h : SamePool s s') (t : Nat) : s'.assignedTo t = s.assignedTo t := by
  unfold Ravenscar.assignedTo
  rw [h.assigned]

theorem SamePool.mainTaskIndex (h : SamePool s s') : s'.mainTaskIndex = s.mainTaskIndex := by
  unfold Ravenscar.mainTaskIndex
  rw [h.threadIndices]

theorem PoolInv.move (h : s.PoolInv) (ht : s.threads[t]? = some th)
    (hs : s'.threads = s.threads.set t th') (hsame : SamePool s s')
    (hcreates : th'.phase.creates = th.phase.creates)
    (hsync : ∀ u ≠ t, s'.syncId u = s.syncId u) (hself : s'.PoolOk t th') : s'.PoolInv := by
  refine h.set ht hs hsame.mainTaskIndex ?_ ?_ ?_ ?_ ?_ hself ?_ ?_
  · rw [hsame.assigned]
  · rw [hsame.current]
    exact h.current
  · rw [hsame.packageInitialized, hsame.current]
    exact h.opened
  · rw [hsame.threadIndices]
    exact h.fresh
  · rw [hsame.threadIndices]
    exact h.ready
  · intro u hut thu hu hok
    refine hok.frame hsame.mainTaskIndex ?_ ?_ (.inl hsame.packageInitialized) ?_
      (hsame.assignedTo u) (hsync u hut) (fun _ _ => hsame.jobOf u) (fun id _ _ => hsame.jobOf id) ?_
    · rw [hsame.threadIndices]
      exact id
    · rw [hsame.threadIndices]
      exact fun _ => rfl
    · rw [hsame.current]
      exact fun _ => Iff.rfl
    · intro _
      have := creators_set _ _ ht hs u
      rw [hcreates] at this
      rw [hsame.threadIndices]
      omega
  · intro j
    rw [hsame.accepted, hsame.started, hsame.assigned]

theorem PoolOk.not_assigned (h : s.PoolOk t th) (hwoken : th.phase.woken = false)
    (hidle : th.phase.idleAt = none) : s.assignedTo t = none := by
  by_contra hne
  rcases h.dormant (Option.isSome_iff_ne_none.mpr hne) with hw | hi
  · rw [hwoken] at hw
    cases hw
  · rw [hidle] at hi
    cases hi

/-- The thread keeps its job, or goes on without one. -/
structure SameWork (phase phase' : ThreadPhase) : Prop where
  busy : phase'.busy = phase.busy
  ofPool : phase'.ofPool = phase.ofPool
  creates : phase'.creates = none ∧ phase.creates = none
  past : phase.begun = true
  begun : phase ≠ .elaborated ∧ phase' ≠ .elaborated ∧ phase' ≠ .waitForPackageInitialization
  prepared : isPrepared phase = true → isPrepared phase' = true

theorem PoolInv.work (h : s.PoolInv) (ht : s.threads[t]? = some th)
    (hs : s'.threads = s.threads.set t th') (hsame : SamePool s s')
    (hsync : ∀ u ≠ t, s'.syncId u = s.syncId u) (hphase : SameWork th.phase th'.phase)
    (hwoken : th'.phase.woken = true → (s.assignedTo t).isSome = true)
    (hdormant : (s.assignedTo t).isSome = true →
      th'.phase.woken = true ∨ th'.phase.idleAt.isSome = true)
    (hidle : ∀ i ∈ th'.phase.idleAt, s'.syncId t = i) : s'.PoolInv := by
  have hok := h.threads t th ht
  have hassigned := hsame.assignedTo t
  refine h.move ht hs hsame (hphase.creates.1.trans hphase.creates.2.symm) hsync ?_
  constructor
  · rw [hsame.mainTaskIndex, hphase.ofPool]
    exact hok.main
  · exact fun _ hp => absurd hp hphase.begun.2.1
  · rw [hsame.mainTaskIndex, hsame.threadIndices]
    exact fun hm _ => hok.initialized hm hphase.past
  · exact fun _ => hphase.begun.2.2
  · rw [hsame.mainTaskIndex, hsame.current]
    exact fun hlt => iff_of_false hphase.begun.2.1 (mt (hok.order hlt).mpr hphase.begun.1)
  · rw [hassigned, hsame.packageInitialized, hsame.threadIndices, hphase.busy]
    exact hok.engaged
  · rw [hassigned]
    exact hwoken
  · rw [hassigned]
    exact hdormant
  · exact hidle
  · rw [hassigned, hsame.jobOf]
    exact hok.job
  · rw [hphase.creates.1]
    nofun
  · intro id j hp
    have hnone := hphase.creates.1
    rw [hp] at hnone
    cases hnone
  · rw [hsame.mainTaskIndex, hassigned, hsame.threadIndices, hphase.busy]
    intro hlt
    have hcount := hok.count hlt
    have hc := creators_set _ _ ht hs t
    rw [hphase.creates.1, hphase.creates.2] at hc
    omega
  · rw [hsame.mainTaskIndex, hsame.packageInitialized]
    exact fun hlt hpkg => hphase.prepared (hok.prepared hlt hpkg)

/-- To the pool, the thread looks the same as before. -/
structure SamePhase (phase phase' : ThreadPhase) : Prop extends SameWork phase phase' where
  woken : phase'.woken = phase.woken
  idleAt : phase'.idleAt = phase.idleAt

theorem PoolInv.same (h : s.PoolInv) (ht : s.threads[t]? = some th)
    (hs : s'.threads = s.threads.set t th') (hsame : SamePool s s') (hsync : s'.syncId = s.syncId)
    (hphase : SamePhase th.phase th'.phase) : s'.PoolInv := by
  have hok := h.threads t th ht
  refine h.work ht hs hsame (fun u _ => by rw [hsync]) hphase.toSameWork ?_ ?_ ?_
  · rw [hphase.woken]
    exact hok.woken
  · rw [hphase.woken, hphase.idleAt]
    exact hok.dormant
  · rw [hphase.idleAt, hsync]
    exact hok.syncId

end Ravenscar

end PolyORB
