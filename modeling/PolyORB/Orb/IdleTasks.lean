import PolyORB.Orb.TaskSummary

/-!
# The idle tasks manager

PolyORB.Tasking.Idle_Tasks_Managers: the lists of the idle tasks, and the condition variables that
none of them needs any more.  A procedure that is given the access to a task has the task as an
argument and as a result.
-/

namespace PolyORB

structure IdleTasksManager where
  idleTaskLists : TaskKind → List TaskId
  freeCv : List (Option ConditionVariable)
  /-- The condition variables that `Create` has returned. -/
  created : Nat

namespace IdleTasksManager

def initial : IdleTasksManager :=
  { idleTaskLists := fun _ => []
    freeCv := []
    created := 0 }

variable (x : IdleTasksManager) (t : TaskId) (ti : TaskEntry)

def listAttach : Except Exn (IdleTasksManager × TaskEntry) :=
  if ti.onList = true then .error .assertionError
  else .ok
    ({ x with
        idleTaskLists :=
          Function.update x.idleTaskLists ti.kind (t :: x.idleTaskLists ti.kind) },
      { ti with onList := true })

def listDetach : IdleTasksManager × TaskEntry :=
  if ti.onList = true then
    ({ x with
        idleTaskLists :=
          Function.update x.idleTaskLists ti.kind ((x.idleTaskLists ti.kind).erase t) },
      { ti with onList := false })
  else (x, ti)

def allocateCv : Option ConditionVariable × IdleTasksManager :=
  match x.freeCv with
  | result :: rest => (result, { x with freeCv := rest })
  | [] => (some (.idle x.created), { x with created := x.created + 1 })

/-- `Signal` fails without a condition variable. -/
def awakeIdleTask : Except Exn (IdleTasksManager × TaskEntry) :=
  if ti.condition = none then .error .constraintError else .ok (x.listDetach t ti)

def removeIdleTask : IdleTasksManager × TaskEntry :=
  let (x, ti) := x.listDetach t ti
  ({ x with freeCv := x.freeCv ++ [ti.condition] }, ti)

def insertIdleTask : Except Exn (Option ConditionVariable × IdleTasksManager × TaskEntry) := do
  let (result, x) := x.allocateCv
  let (x, ti) ← x.listAttach t ti
  return (result, x, ti)

/-- The manager keeps its books right about the tasks that are registered. -/
structure Valid (x : IdleTasksManager) (registered : List TaskId) (task : TaskId → TaskEntry) :
    Prop where
  nodup : ∀ k, (x.idleTaskLists k).Nodup
  listed : ∀ k t, t ∈ x.idleTaskLists k ↔
    t ∈ registered ∧ (task t).kind = k ∧ (task t).onList = true
  freeNodup : x.freeCv.Nodup
  freeCreated : ∀ c ∈ x.freeCv, ∃ n < x.created, c = some (.idle n)

variable {x t ti}
variable {registered : List TaskId} {task : TaskId → TaskEntry}

theorem valid_initial : initial.Valid [] task :=
  ⟨fun _ => List.nodup_nil, by simp [initial], List.nodup_nil, nofun⟩

theorem Valid.congr {task' : TaskId → TaskEntry} (h : x.Valid registered task)
    (htask : ∀ u ∈ registered,
      (task' u).kind = (task u).kind ∧ (task' u).onList = (task u).onList) :
    x.Valid registered task' := by
  refine ⟨h.nodup, fun k u => ?_, h.freeNodup, h.freeCreated⟩
  rw [h.listed]
  refine and_congr_right fun hu => ?_
  rw [(htask u hu).1, (htask u hu).2]

theorem Valid.set (h : x.Valid registered task) (hk : ti.kind = (task t).kind)
    (hl : ti.onList = (task t).onList) : x.Valid registered (Function.update task t ti) := by
  refine h.congr fun u _ => ?_
  by_cases hu : u = t
  · subst hu
    rw [Function.update_self]
    exact ⟨hk, hl⟩
  · rw [Function.update_of_ne hu]
    exact ⟨rfl, rfl⟩

theorem Valid.register (h : x.Valid registered task) (ht : t ∉ registered)
    (hl : ti.onList = false) : x.Valid (t :: registered) (Function.update task t ti) := by
  refine ⟨h.nodup, fun k u => ?_, h.freeNodup, h.freeCreated⟩
  rw [h.listed, List.mem_cons]
  by_cases hu : u = t
  · subst hu
    rw [Function.update_self, hl]
    exact iff_of_false (fun hh => ht hh.1) (by simp)
  · rw [Function.update_of_ne hu]
    simp [hu]

theorem Valid.unregister (h : x.Valid registered task) (hnd : registered.Nodup)
    (hl : (task t).onList = false) : x.Valid (registered.erase t) task := by
  refine ⟨h.nodup, fun k u => ?_, h.freeNodup, h.freeCreated⟩
  rw [h.listed, hnd.mem_erase_iff]
  refine ⟨fun hu => ⟨⟨?_, hu.1⟩, hu.2⟩, fun hu => ⟨hu.1.2, hu.2⟩⟩
  rintro rfl
  rw [hl] at hu
  exact absurd hu.2.2 (by decide)

@[simp] theorem listDetach_freeCv : (x.listDetach t ti).1.freeCv = x.freeCv := by
  unfold listDetach
  split <;> rfl

@[simp] theorem listDetach_created : (x.listDetach t ti).1.created = x.created := by
  unfold listDetach
  split <;> rfl

theorem listDetach_task : (x.listDetach t ti).2 = { ti with onList := false } := by
  unfold listDetach
  split
  · rfl
  · rename_i hl
    obtain ⟨_, _, _, _, _, _, l⟩ := ti
    obtain rfl : l = false := by simpa using hl
    rfl

theorem Valid.listDetach (h : x.Valid registered task) :
    (x.listDetach t (task t)).1.Valid registered
      (Function.update task t { task t with onList := false }) := by
  unfold IdleTasksManager.listDetach
  split
  · refine ⟨fun k => ?_, fun k u => ?_, h.freeNodup, h.freeCreated⟩
    · by_cases hk : k = (task t).kind
      · subst hk
        simpa using (h.nodup _).erase t
      · simpa [Function.update_of_ne hk] using h.nodup k
    · by_cases hk : k = (task t).kind
      · subst hk
        simp only [Function.update_self]
        rw [(h.nodup _).mem_erase_iff, h.listed]
        by_cases hu : u = t
        · subst hu
          simp
        · simp [hu]
      · simp only [Function.update_of_ne hk]
        rw [h.listed]
        by_cases hu : u = t
        · subst hu
          simp [Ne.symm hk]
        · rw [Function.update_of_ne hu]
  · rename_i hl
    exact h.set rfl (by simpa using hl)

theorem Valid.removeIdleTask (h : x.Valid registered task) (hc : (task t).condition ∉ x.freeCv)
    (hn : ∃ n < x.created, (task t).condition = some (.idle n)) :
    (x.removeIdleTask t (task t)).1.Valid registered
      (Function.update task t { task t with onList := false }) := by
  have hd := h.listDetach (t := t)
  refine ⟨hd.nodup, hd.listed, ?_, ?_⟩
  · show ((x.listDetach t (task t)).1.freeCv ++ [(x.listDetach t (task t)).2.condition]).Nodup
    rw [listDetach_freeCv, listDetach_task, List.nodup_append]
    refine ⟨h.freeNodup, List.nodup_singleton _, fun c hcm d hd heq => hc ?_⟩
    rw [List.mem_singleton.mp hd] at heq
    exact heq ▸ hcm
  · show ∀ c ∈ (x.listDetach t (task t)).1.freeCv ++ [(x.listDetach t (task t)).2.condition],
      ∃ n < (x.listDetach t (task t)).1.created, c = some (.idle n)
    rw [listDetach_freeCv, listDetach_task, listDetach_created]
    intro c hcm
    rcases List.mem_append.mp hcm with hcm | hcm
    · exact h.freeCreated c hcm
    · rw [List.mem_singleton.mp hcm]
      exact hn

theorem Valid.allocateCv (h : x.Valid registered task) :
    x.allocateCv.2.Valid registered task ∧
      (∃ n < x.allocateCv.2.created, x.allocateCv.1 = some (.idle n)) ∧
      x.created ≤ x.allocateCv.2.created ∧
      (∀ c ∈ x.allocateCv.2.freeCv, c ∈ x.freeCv) ∧
      x.allocateCv.1 ∉ x.allocateCv.2.freeCv ∧
      (x.allocateCv.1 ∈ x.freeCv ∨ x.allocateCv.1 = some (.idle x.created)) := by
  unfold IdleTasksManager.allocateCv
  split
  · rename_i c rest hfree
    have hnd := h.freeNodup
    rw [hfree, List.nodup_cons] at hnd
    refine ⟨⟨h.nodup, h.listed, hnd.2, ?_⟩, ?_, le_refl _, ?_, hnd.1, ?_⟩
    · exact fun c' hc' => h.freeCreated c' (hfree ▸ List.mem_cons_of_mem c hc')
    · exact h.freeCreated c (hfree ▸ List.mem_cons_self)
    · exact fun c' hc' => hfree ▸ List.mem_cons_of_mem c hc'
    · exact Or.inl (hfree ▸ List.mem_cons_self)
  · rename_i hfree
    refine ⟨⟨h.nodup, h.listed, h.freeNodup, ?_⟩, ⟨_, Nat.lt_succ_self _, rfl⟩, Nat.le_succ _,
      fun _ hc => hc, ?_, Or.inr rfl⟩
    · rw [hfree]
      nofun
    · rw [hfree]
      nofun

theorem listAttach_ok (hl : ti.onList = false) :
    x.listAttach t ti = .ok
      ({ x with
          idleTaskLists :=
            Function.update x.idleTaskLists ti.kind (t :: x.idleTaskLists ti.kind) },
        { ti with onList := true }) := by
  rw [listAttach, if_neg (by simp [hl])]

theorem Valid.listAttach (h : x.Valid registered task) (ht : t ∈ registered)
    (hl : (task t).onList = false) (hti : ti.kind = (task t).kind) (htl : ti.onList = true) :
    Valid
      { x with
        idleTaskLists :=
          Function.update x.idleTaskLists ti.kind (t :: x.idleTaskLists ti.kind) }
      registered (Function.update task t ti) := by
  have hnot : ∀ k, t ∉ x.idleTaskLists k := by
    intro k hk
    rw [h.listed, hl] at hk
    exact absurd hk.2.2 (by decide)
  refine ⟨fun k => ?_, fun k u => ?_, h.freeNodup, h.freeCreated⟩
  · by_cases hk : k = ti.kind
    · subst hk
      simpa using ⟨hnot _, h.nodup _⟩
    · simpa [Function.update_of_ne hk] using h.nodup k
  · by_cases hu : u = t
    · subst hu
      by_cases hk : k = ti.kind
      · subst hk
        simp [ht, htl]
      · simp [Function.update_of_ne hk, hnot, Ne.symm hk]
    · rw [Function.update_of_ne hu, ← h.listed]
      by_cases hk : k = ti.kind
      · subst hk
        simp [hu]
      · simp [Function.update_of_ne hk]

end IdleTasksManager

end PolyORB
