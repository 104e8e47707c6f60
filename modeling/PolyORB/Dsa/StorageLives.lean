import PolyORB.Dsa.Storages

/-!
# The life of a manager

How many tasks are where in the operations on one manager, and what its fields say of them.  Each
step of a task is a step in the life of its manager, and nothing in the lives of the others.
-/

namespace PolyORB

inductive StorageRole where
  | counting | acquiring | holding | unlocking | unlocked
  | initiating | inserting | accessing | completing | leaving
  deriving DecidableEq

@[ext]
structure ManagerLife where
  /-- Whether `PO_Mutex` and `IO_Mutex` are taken. -/
  po : Nat
  io : Nat
  counting : Nat
  acquiring : Nat
  holding : Nat
  unlocking : Nat
  unlocked : Nat
  initiating : Nat
  inserting : Nat
  accessing : Nat
  completing : Nat
  leaving : Nat
  count : Nat
  /-- Whether the manager has the lock file. -/
  held : Nat
  acquired : Nat
  released : Nat
  opened : Nat

namespace ManagerLife

structure Inv (l : ManagerLife) : Prop where
  po : l.po = l.counting + l.acquiring + l.holding + l.unlocking + l.unlocked
  io : l.io = l.initiating + l.inserting + l.accessing + l.completing + l.leaving
  po_le : l.po ≤ 1
  io_le : l.io ≤ 1
  count : l.count = l.acquiring + l.holding + l.unlocking
  held : l.held = l.holding + l.unlocking
  acquired : l.acquired = l.released + l.held
  opened_le : l.opened ≤ 1
  opened : 0 < l.inserting + l.accessing + l.completing → l.opened = 1

/-- The steps, but for the one that puts an open file on the chain. -/
inductive Step : ManagerLife → ManagerLife → Prop
  | stay (l) : Step l l
  | enterPo (l) : l.po = 0 → Step l { l with po := 1, counting := l.counting + 1 }
  | count (l n) : l.counting = n + 1 → l.count = 0 →
      Step l { l with counting := n, acquiring := l.acquiring + 1, count := l.count + 1 }
  | acquire (l n) : l.acquiring = n + 1 → l.held = 0 →
      Step l
        { l with
          acquiring := n
          holding := l.holding + 1
          held := 1
          acquired := l.acquired + 1 }
  | unlock (l n) : l.holding = n + 1 →
      Step l { l with holding := n, unlocking := l.unlocking + 1 }
  | release (l n) : l.unlocking = n + 1 → l.count = 1 →
      Step l
        { l with
          unlocking := n
          unlocked := l.unlocked + 1
          count := 0
          held := 0
          released := l.released + 1 }
  | leavePo (l n) : l.unlocked = n + 1 → Step l { l with unlocked := n, po := 0 }
  | enterIo (l) : l.io = 0 → Step l { l with io := 1, initiating := l.initiating + 1 }
  | missing (l n) : l.initiating = n + 1 →
      Step l { l with initiating := n, leaving := l.leaving + 1 }
  | reopen (l n) : l.initiating = n + 1 → l.opened = 1 →
      Step l { l with initiating := n, accessing := l.accessing + 1 }
  | openFile (l n) : l.initiating = n + 1 → l.opened = 0 →
      Step l { l with initiating := n, inserting := l.inserting + 1, opened := 1 }
  | access (l n) : l.accessing = n + 1 →
      Step l { l with accessing := n, completing := l.completing + 1 }
  | complete (l n) : l.completing = n + 1 →
      Step l { l with completing := n, leaving := l.leaving + 1 }
  | leaveIo (l n) : l.leaving = n + 1 → Step l { l with leaving := n, io := 0 }

variable {l l' l₁ : ManagerLife}

theorem Step.to (hs : Step l l₁) (h : l' = l₁) : Step l l' := h ▸ hs

theorem Inv.step (h : l.Inv) (hs : Step l l') : l'.Inv := by
  obtain ⟨hpo, hio, hpole, hiole, hcount, hheld, hacq, hopenle, hopen⟩ := h
  cases hs with
  | stay => exact ⟨hpo, hio, hpole, hiole, hcount, hheld, hacq, hopenle, hopen⟩
  | _ =>
    constructor
    all_goals simp only [implies_true] <;> omega

theorem Inv.insert (h : l.Inv) {n : Nat} (hn : l.inserting = n + 1) :
    ({ l with inserting := n, accessing := l.accessing + 1 } : ManagerLife).Inv := by
  obtain ⟨hpo, hio, hpole, hiole, hcount, hheld, hacq, hopenle, hopen⟩ := h
  constructor
  all_goals
    simp only
    omega

/-- The file is open, and on the chain. -/
def Chained (l : ManagerLife) : Prop := l.opened = 1 ∧ l.inserting = 0

theorem Step.chained (hs : Step l l') : l'.Chained ↔ l.Chained := by
  unfold Chained
  cases hs with
  | openFile n hn hz =>
    simp only
    omega
  | _ => exact Iff.rfl

end ManagerLife

/-- What a task is inside of, and on which variable. -/
def StoragePhase.role {α : Type} : StoragePhase α → Option (StorageRole × Nat)
  | .counting v => some (.counting, v)
  | .acquiring v => some (.acquiring, v)
  | .unlocking v => some (.unlocking, v)
  | .unlocked v => some (.unlocked, v)
  | .initiating v _ => some (.initiating, v)
  | .inserting v _ => some (.inserting, v)
  | .accessing v _ => some (.accessing, v)
  | .completing v => some (.completing, v)
  | .leaving v => some (.leaving, v)
  | .idle | .entering _ _ | .locking _ | .raised => none

namespace Storage

variable {α : Type} {s s' : Storage α} {t v : Nat} {k : Nat × Nat} {task task' : StorageTask α}

def isIn (k : Nat × Nat) : StorageRole → StorageTask α → Bool
  | .holding, task => decide (task.partition = k.1 ∧ task.holds k.2 = true)
  | role, task => decide (task.partition = k.1 ∧ task.phase.role = some (role, k.2))

def weight (k : Nat × Nat) (role : StorageRole) (task : StorageTask α) : Nat :=
  (isIn k role task).toNat

def total (s : Storage α) (k : Nat × Nat) (role : StorageRole) : Nat :=
  (s.tasks.map (weight k role)).sum

/-- Whether the manager has the lock file. -/
def held (owner : Option (Nat × Nat)) (k : Nat × Nat) : Nat := if owner = some k then 1 else 0

def life (s : Storage α) (k : Nat × Nat) : ManagerLife where
  po := (s.manager k).poMutex.toNat
  io := (s.manager k).ioMutex.toNat
  counting := s.total k .counting
  acquiring := s.total k .acquiring
  holding := s.total k .holding
  unlocking := s.total k .unlocking
  unlocked := s.total k .unlocked
  initiating := s.total k .initiating
  inserting := s.total k .inserting
  accessing := s.total k .accessing
  completing := s.total k .completing
  leaving := s.total k .leaving
  count := (s.manager k).count
  held := held s.lockFile k
  acquired := (s.manager k).acquired
  released := (s.manager k).released
  opened := (s.manager k).file.isSome.toNat

/-- The fields of a manager that its life shows. -/
def core (m : DfsManager) : Bool × Bool × Nat × Nat × Nat × Bool :=
  (m.poMutex, m.ioMutex, m.count, m.acquired, m.released, m.file.isSome)

theorem total_setTask (h : s.tasks[t]? = some task) (k : Nat × Nat) (role : StorageRole)
    (task' : StorageTask α) :
    (s.setTask t task').total k role + weight k role task =
      s.total k role + weight k role task' :=
  Tally.sum_map_set_add (weight k role) task' h

theorem weight_le_total (h : s.tasks[t]? = some task) (k : Nat × Nat) (role : StorageRole) :
    weight k role task ≤ s.total k role :=
  Tally.le_sum_map (weight k role) h

/-- One for the role that the task is in on the variable. -/
def place (task : StorageTask α) (v : Nat) (role : StorageRole) : Nat :=
  if task.phase.role = some (role, v) then 1 else 0

def WorksOn (task : StorageTask α) (v : Nat) : Prop := ∀ x ∈ task.phase.role, x.2 = v

theorem weight_self (role : StorageRole) : weight (task.partition, v) role task =
    if role = .holding then (task.holds v).toNat else place task v role := by
  unfold weight place
  cases role <;> simp [isIn, Bool.toNat, Bool.cond_decide]

theorem weight_of_ne (hk : k ≠ (task.partition, v)) (hpart : task'.partition = task.partition)
    (hold : WorksOn task v) (hnew : WorksOn task' v)
    (hholds : ∀ w ≠ v, task'.holds w = task.holds w) (role : StorageRole) :
    weight k role task' = weight k role task := by
  unfold weight
  by_cases hpk : task.partition = k.1
  · have hv : k.2 ≠ v := fun hv => hk (Prod.ext hpk.symm hv)
    have h1 : task'.phase.role ≠ some (role, k.2) := fun h => hv (hnew _ h)
    have h2 : task.phase.role ≠ some (role, k.2) := fun h => hv (hold _ h)
    cases role <;> simp [isIn, hpart, hholds k.2 hv, h1, h2]
  · cases role <;> simp [isIn, hpart, hpk]

theorem place_pos (h : s.tasks[t]? = some task) {role : StorageRole} (hrole : role ≠ .holding)
    (hr : task.phase.role = some (role, v)) : 0 < s.total (task.partition, v) role := by
  have := weight_le_total h (task.partition, v) role
  rw [weight_self, if_neg hrole, place, if_pos hr] at this
  omega

theorem total_pred (h : s.tasks[t]? = some task) (role : StorageRole) (hrole : role ≠ .holding)
    (hr : task.phase.role = some (role, v)) :
    s.total (task.partition, v) role = s.total (task.partition, v) role - 1 + 1 :=
  (Nat.sub_add_cancel (place_pos h hrole hr)).symm

/-- The life of the manager that a task has worked on, by the roles of the task. -/
def moved (s s' : Storage α) (task task' : StorageTask α) (v : Nat) : ManagerLife :=
  let k := (task.partition, v)
  { s'.life k with
    counting := s.total k .counting + place task' v .counting - place task v .counting
    acquiring := s.total k .acquiring + place task' v .acquiring - place task v .acquiring
    holding := s.total k .holding + (task'.holds v).toNat - (task.holds v).toNat
    unlocking := s.total k .unlocking + place task' v .unlocking - place task v .unlocking
    unlocked := s.total k .unlocked + place task' v .unlocked - place task v .unlocked
    initiating := s.total k .initiating + place task' v .initiating - place task v .initiating
    inserting := s.total k .inserting + place task' v .inserting - place task v .inserting
    accessing := s.total k .accessing + place task' v .accessing - place task v .accessing
    completing := s.total k .completing + place task' v .completing - place task v .completing
    leaving := s.total k .leaving + place task' v .leaving - place task v .leaving }

theorem life_own (h : s.tasks[t]? = some task) (htasks : s'.tasks = s.tasks.set t task')
    (hpart : task'.partition = task.partition) (v : Nat) :
    s'.life (task.partition, v) = moved s s' task task' v := by
  have ht (role : StorageRole) : s'.total (task.partition, v) role =
      s.total (task.partition, v) role + weight (task.partition, v) role task' -
        weight (task.partition, v) role task := by
    have := total_setTask h (task.partition, v) role task'
    have hsame : s'.total (task.partition, v) role =
        (s.setTask t task').total (task.partition, v) role := by
      unfold total
      rw [htasks]
      rfl
    omega
  have hw' (role : StorageRole) : weight (task.partition, v) role task' =
      if role = .holding then (task'.holds v).toNat else place task' v role := by
    rw [← hpart, weight_self]
  simp only [hw', weight_self] at ht
  unfold moved
  ext <;> simp only [life, ht, reduceCtorEq, if_true, if_false]

theorem life_of_ne (h : s.tasks[t]? = some task) (htasks : s'.tasks = s.tasks.set t task')
    (hmanager : core (s'.manager k) = core (s.manager k))
    (hlock : s'.lockFile = some k ↔ s.lockFile = some k)
    (hw : ∀ role, weight k role task' = weight k role task) : s'.life k = s.life k := by
  have htotal (role : StorageRole) : s'.total k role = s.total k role := by
    have := total_setTask h k role task'
    have := hw role
    have hsame : s'.total k role = (s.setTask t task').total k role := by
      unfold total
      rw [htasks]
      rfl
    omega
  have hheld : held s'.lockFile k = held s.lockFile k := by
    simp [held, hlock]
  simp only [core, Prod.mk.injEq] at hmanager
  obtain ⟨h1, h2, h3, h4, h5, h6⟩ := hmanager
  simp [life, htotal, hheld, h1, h2, h3, h4, h5, h6]

theorem step_of_own (h : s.tasks[t]? = some task) (htasks : s'.tasks = s.tasks.set t task')
    (hpart : task'.partition = task.partition) (hold : WorksOn task v) (hnew : WorksOn task' v)
    (hholds : ∀ w ≠ v, task'.holds w = task.holds w)
    (hmanager : ∀ k ≠ (task.partition, v), core (s'.manager k) = core (s.manager k))
    (hlock : ∀ k ≠ (task.partition, v), s'.lockFile = some k ↔ s.lockFile = some k)
    (hown : ManagerLife.Step (s.life (task.partition, v)) (moved s s' task task' v))
    (k : Nat × Nat) : ManagerLife.Step (s.life k) (s'.life k) := by
  by_cases hk : k = (task.partition, v)
  · subst hk
    exact hown.to (life_own h htasks hpart v)
  · exact (ManagerLife.Step.stay _).to (life_of_ne h htasks (hmanager k hk) (hlock k hk)
      (weight_of_ne hk hpart hold hnew hholds))

/-! ## The steps of a task -/

@[simp] theorem setTask_manager : (s.setTask t task).manager = s.manager := rfl
@[simp] theorem setTask_lockFile : (s.setTask t task).lockFile = s.lockFile := rfl
@[simp] theorem setManager_lockFile (m : DfsManager) :
    (s.setManager k m).lockFile = s.lockFile := rfl
@[simp] theorem modifyManager_lockFile (f : DfsManager → DfsManager) :
    (s.modifyManager k f).lockFile = s.lockFile := rfl
@[simp] theorem setManager_self (m : DfsManager) : (s.setManager k m).manager k = m :=
  Function.update_self ..
@[simp] theorem modifyManager_self (f : DfsManager → DfsManager) :
    (s.modifyManager k f).manager k = f (s.manager k) := Function.update_self ..

section Own

variable {r : StorageRequest α} {phase : StoragePhase α}

theorem step_modify {f : DfsManager → DfsManager} (h : s.tasks[t]? = some task)
    (hold : WorksOn task v) (hnew : WorksOn { task with phase := phase } v)
    (hown : ManagerLife.Step (s.life (task.partition, v))
      (moved s ((s.modifyManager (task.partition, v) f).setTask t { task with phase := phase })
        task { task with phase := phase } v)) :
    ∀ k, ManagerLife.Step (s.life k)
      (((s.modifyManager (task.partition, v) f).setTask t { task with phase := phase }).life k) :=
  step_of_own h rfl rfl hold hnew (fun _ _ => rfl)
    (fun _ hk => congrArg core (Function.update_of_ne hk ..)) (fun _ _ => Iff.rfl) hown

theorem step_entering (h : s.tasks[t]? = some task) (hp : task.phase = .entering v r)
    (hfree : (s.manager (task.partition, v)).ioMutex = false) :
    ∀ k, ManagerLife.Step (s.life k)
      (((s.modifyManager (task.partition, v) fun m => { m with ioMutex := true }).setTask t
        { task with phase := .initiating v r }).life k) := by
  refine step_modify h (by simp [WorksOn, hp, StoragePhase.role])
    (by simp [WorksOn, StoragePhase.role]) ?_
  refine (ManagerLife.Step.enterIo _ (by simp [life, hfree])).to ?_
  ext <;> simp [moved, place, hp, StoragePhase.role, life]

theorem step_leaving (h : s.tasks[t]? = some task) (hp : task.phase = .leaving v) :
    ∀ k, ManagerLife.Step (s.life k)
      (((s.modifyManager (task.partition, v) fun m => { m with ioMutex := false }).setTask t
        { task with phase := .idle }).life k) := by
  refine step_modify h (by simp [WorksOn, hp, StoragePhase.role])
    (by simp [WorksOn, StoragePhase.role]) ?_
  refine (ManagerLife.Step.leaveIo _ _ (total_pred h .leaving nofun (by rw [hp]; rfl))).to ?_
  ext <;> simp [moved, place, hp, StoragePhase.role, life]

theorem step_locking (h : s.tasks[t]? = some task) (hp : task.phase = .locking v)
    (hfree : (s.manager (task.partition, v)).poMutex = false) :
    ∀ k, ManagerLife.Step (s.life k)
      (((s.modifyManager (task.partition, v) fun m => { m with poMutex := true }).setTask t
        { task with phase := .counting v }).life k) := by
  refine step_modify h (by simp [WorksOn, hp, StoragePhase.role])
    (by simp [WorksOn, StoragePhase.role]) ?_
  refine (ManagerLife.Step.enterPo _ (by simp [life, hfree])).to ?_
  ext <;> simp [moved, place, hp, StoragePhase.role, life]

theorem step_unlocked (h : s.tasks[t]? = some task) (hp : task.phase = .unlocked v) :
    ∀ k, ManagerLife.Step (s.life k)
      (((s.modifyManager (task.partition, v) fun m => { m with poMutex := false }).setTask t
        { task with phase := .idle }).life k) := by
  refine step_modify h (by simp [WorksOn, hp, StoragePhase.role])
    (by simp [WorksOn, StoragePhase.role]) ?_
  refine (ManagerLife.Step.leavePo _ _ (total_pred h .unlocked nofun (by rw [hp]; rfl))).to ?_
  ext <;> simp [moved, place, hp, StoragePhase.role, life]

theorem step_counting (h : s.tasks[t]? = some task) (hp : task.phase = .counting v)
    (hzero : (s.manager (task.partition, v)).count = 0) :
    ∀ k, ManagerLife.Step (s.life k)
      (((s.modifyManager (task.partition, v) fun m => { m with count := m.count + 1 }).setTask t
        { task with phase := .acquiring v }).life k) := by
  refine step_modify h (by simp [WorksOn, hp, StoragePhase.role])
    (by simp [WorksOn, StoragePhase.role]) ?_
  refine (ManagerLife.Step.count _ _ (total_pred h .counting nofun (by rw [hp]; rfl)) hzero).to ?_
  ext <;> simp [moved, place, hp, StoragePhase.role, life]

theorem step_acquiring (h : s.tasks[t]? = some task) (hp : task.phase = .acquiring v)
    (hholds : task.holds v = false) (hfree : s.lockFile = none) :
    ∀ k, ManagerLife.Step (s.life k)
      (({ (s.modifyManager (task.partition, v) fun m =>
          { m with acquired := m.acquired + 1 }).setTask
            t { task with phase := .idle, holds := Function.update task.holds v true } with
          lockFile := some (task.partition, v) } : Storage α).life k) := by
  refine step_of_own (v := v) h rfl rfl (by simp [WorksOn, hp, StoragePhase.role])
    (by simp [WorksOn, StoragePhase.role]) (fun w hw => Function.update_of_ne hw ..)
    (fun k hk => congrArg core (Function.update_of_ne hk ..)) (fun k hk => ?_) ?_
  · rw [hfree]
    exact iff_of_false (fun h => hk (Option.some.inj h).symm) nofun
  refine (ManagerLife.Step.acquire _ _ (total_pred h .acquiring nofun (by rw [hp]; rfl)) ?_).to ?_
  · simp [life, held, hfree]
  · ext <;> simp [moved, place, hp, StoragePhase.role, life, hholds, held]

theorem step_missing (h : s.tasks[t]? = some task) (hp : task.phase = .initiating v r) :
    ∀ k, ManagerLife.Step (s.life k) ((s.setTask t { task with phase := .leaving v }).life k) := by
  refine step_of_own (v := v) h rfl rfl (by simp [WorksOn, hp, StoragePhase.role])
    (by simp [WorksOn, StoragePhase.role]) (fun _ _ => rfl) (fun _ _ => rfl) (fun _ _ => Iff.rfl) ?_
  refine (ManagerLife.Step.missing _ _ (total_pred h .initiating nofun (by rw [hp]; rfl))).to ?_
  ext <;> simp [moved, place, hp, StoragePhase.role, life]

theorem step_unlock (h : s.tasks[t]? = some task) (hp : task.phase = .idle)
    (hholds : task.holds v = true) :
    ∀ k, ManagerLife.Step (s.life k)
      ((s.setTask t { task with
        phase := .unlocking v, holds := Function.update task.holds v false }).life k) := by
  refine step_of_own (v := v) h rfl rfl (by simp [WorksOn, hp, StoragePhase.role])
    (by simp [WorksOn, StoragePhase.role]) (fun w hw => Function.update_of_ne hw ..)
    (fun _ _ => rfl) (fun _ _ => Iff.rfl) ?_
  have hpos := weight_le_total h (task.partition, v) .holding
  rw [weight_self, if_pos rfl, hholds] at hpos
  have hpos : 1 ≤ s.total (task.partition, v) .holding := hpos
  refine (ManagerLife.Step.unlock _ (s.total (task.partition, v) .holding - 1) ?_).to ?_
  · simp only [life]
    omega
  · ext <;> simp [moved, place, hp, StoragePhase.role, life, hholds]

theorem step_reopen (h : s.tasks[t]? = some task) (hp : task.phase = .initiating v r)
    (hopen : (s.manager (task.partition, v)).file.isSome = true) :
    ∀ k, ManagerLife.Step (s.life k)
      (((s.modifyManager (task.partition, v) fun m =>
        { m with file := some (toFileMode r) }).setTask t
          { task with phase := .accessing v r }).life k) := by
  refine step_modify h (by simp [WorksOn, hp, StoragePhase.role])
    (by simp [WorksOn, StoragePhase.role]) ?_
  refine (ManagerLife.Step.reopen _ _ (total_pred h .initiating nofun (by rw [hp]; rfl)) ?_).to ?_
  · simp [life, hopen]
  · ext <;> simp [moved, place, hp, StoragePhase.role, life, hopen]

theorem step_open (h : s.tasks[t]? = some task) (hp : task.phase = .initiating v r)
    (htasks : s'.tasks = s.tasks.set t { task with phase := .inserting v r })
    (hclosed : (s.manager (task.partition, v)).file.isSome = false)
    (hmanager : s'.manager = (s.modifyManager (task.partition, v) fun m =>
      { m with file := some (toFileMode r) }).manager)
    (hlock : s'.lockFile = s.lockFile) : ∀ k, ManagerLife.Step (s.life k) (s'.life k) := by
  refine step_of_own (v := v) h htasks rfl (by simp [WorksOn, hp, StoragePhase.role])
    (by simp [WorksOn, StoragePhase.role]) (fun _ _ => rfl) (fun k hk => ?_)
    (fun _ _ => by rw [hlock]) ?_
  · rw [hmanager]
    exact congrArg core (Function.update_of_ne hk ..)
  refine (ManagerLife.Step.openFile _ _ (total_pred h .initiating nofun (by rw [hp]; rfl)) ?_).to ?_
  · simp [life, hclosed]
  · ext <;> simp [moved, place, hp, StoragePhase.role, life, hmanager, hlock]

theorem life_insert (h : s.tasks[t]? = some task) (hp : task.phase = .inserting v r)
    (htasks : s'.tasks = s.tasks.set t { task with phase := .accessing v r })
    (hcore : ∀ k, core (s'.manager k) = core (s.manager k)) (hlock : s'.lockFile = s.lockFile) :
    (∃ n, (s.life (task.partition, v)).inserting = n + 1 ∧ s'.life (task.partition, v) =
      { s.life (task.partition, v) with
        inserting := n
        accessing := (s.life (task.partition, v)).accessing + 1 }) ∧
    ∀ k ≠ (task.partition, v), s'.life k = s.life k := by
  constructor
  · have hpos : 0 < s.total (task.partition, v) .inserting :=
      place_pos h nofun (by rw [hp]; rfl)
    have hown := hcore (task.partition, v)
    simp only [core, Prod.mk.injEq] at hown
    refine ⟨s.total (task.partition, v) .inserting - 1, ?_, ?_⟩
    · simp only [life]
      omega
    · rw [life_own (v := v) h htasks rfl]
      ext <;> simp [moved, place, hp, StoragePhase.role, life, hown, hlock]
  · intro k hk
    exact life_of_ne h htasks (hcore k) (by rw [hlock])
      (weight_of_ne hk rfl (by simp [WorksOn, hp, StoragePhase.role])
        (by simp [WorksOn, StoragePhase.role]) fun _ _ => rfl)

theorem step_access (h : s.tasks[t]? = some task) (hp : task.phase = .accessing v r) {x : Option α}
    (htasks : s'.tasks = s.tasks.set t { task with phase := .completing v, value := x })
    (hmanager : s'.manager = s.manager) (hlock : s'.lockFile = s.lockFile) :
    ∀ k, ManagerLife.Step (s.life k) (s'.life k) := by
  refine step_of_own (v := v) h htasks rfl (by simp [WorksOn, hp, StoragePhase.role])
    (by simp [WorksOn, StoragePhase.role]) (fun _ _ => rfl) (fun _ _ => by rw [hmanager])
    (fun _ _ => by rw [hlock]) ?_
  refine (ManagerLife.Step.access _ _ (total_pred h .accessing nofun (by rw [hp]; rfl))).to ?_
  ext <;> simp [moved, place, hp, StoragePhase.role, life, hmanager, hlock]

theorem step_completing (h : s.tasks[t]? = some task) (hp : task.phase = .completing v) :
    ∀ k, ManagerLife.Step (s.life k) ((s.setTask t { task with phase := .leaving v }).life k) := by
  refine step_of_own (v := v) h rfl rfl (by simp [WorksOn, hp, StoragePhase.role])
    (by simp [WorksOn, StoragePhase.role]) (fun _ _ => rfl) (fun _ _ => rfl) (fun _ _ => Iff.rfl) ?_
  refine (ManagerLife.Step.complete _ _ (total_pred h .completing nofun (by rw [hp]; rfl))).to ?_
  ext <;> simp [moved, place, hp, StoragePhase.role, life]

theorem completeRequest_one (hone : (s.manager k).count = 1) :
    s.completeRequest k =
      { s.setManager k { s.manager k with count := 0, released := (s.manager k).released + 1 } with
        lockFile := none } := by
  simp [completeRequest, hone]

theorem completeRequest_zero (hzero : (s.manager k).count = 0) : s.completeRequest k = s := by
  simp [completeRequest, hzero]

theorem step_unlocking (h : s.tasks[t]? = some task) (hp : task.phase = .unlocking v)
    (hone : (s.manager (task.partition, v)).count = 1)
    (howner : s.lockFile = some (task.partition, v)) :
    ∀ k, ManagerLife.Step (s.life k)
      (((s.completeRequest (task.partition, v)).setTask t
        { task with phase := .unlocked v }).life k) := by
  rw [completeRequest_one hone]
  refine step_of_own (v := v) h rfl rfl (by simp [WorksOn, hp, StoragePhase.role])
    (by simp [WorksOn, StoragePhase.role]) (fun _ _ => rfl)
    (fun _ hk => congrArg core (Function.update_of_ne hk ..)) (fun k hk => ?_) ?_
  · rw [howner]
    exact iff_of_false nofun fun h => hk (Option.some.inj h).symm
  refine (ManagerLife.Step.release _ _ (total_pred h .unlocking nofun (by rw [hp]; rfl)) hone).to ?_
  ext <;> simp [moved, place, hp, StoragePhase.role, life, held]

theorem step_begin (h : s.tasks[t]? = some task) (hp : task.phase = .idle)
    (hrole : phase.role = none) :
    ∀ k, ManagerLife.Step (s.life k) ((s.setTask t { task with phase := phase }).life k) := by
  refine step_of_own (v := 0) h rfl rfl (by simp [WorksOn, hp, StoragePhase.role])
    (by simp [WorksOn, hrole]) (fun _ _ => rfl) (fun _ _ => rfl) (fun _ _ => Iff.rfl) ?_
  have hold : task.phase.role = none := by
    rw [hp]
    rfl
  refine (ManagerLife.Step.stay _).to ?_
  ext <;> simp [moved, place, hold, hrole, life]

end Own

end Storage

end PolyORB
