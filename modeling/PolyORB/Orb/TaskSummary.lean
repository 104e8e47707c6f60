import PolyORB.Lib.Checked
import PolyORB.Orb.Tasks

/-!
# The task summary

PolyORB.Task_Info: the tasks of the ORB and the counters of a `Task_Summary`.  The kinds and states
of the counters are those of `Any_Task_Kind` and `Any_Task_State`, where `none` is `Any`.
-/

namespace PolyORB

/-- A condition variable that the idle tasks manager has created, or that of a monitoring task. -/
inductive ConditionVariable where
  | idle (number : Nat)
  | monitoring (j : AemIndex)
  deriving DecidableEq

structure TaskEntry where
  kind : TaskKind
  state : TaskState
  mayExit : Bool
  job : Option Job
  selector : Option MonitorId
  condition : Option ConditionVariable
  onList : Bool
  deriving DecidableEq

abbrev Counters := Option TaskKind → Option TaskState → Nat

namespace Counters

/-- No task. -/
def none : Counters := fun _ _ => 0

def decrement (c : Counters) (kind : Option TaskKind) (state : Option TaskState) :
    Except Exn Counters :=
  if c kind state = 0 then .error .constraintError
  else .ok fun k s => if k = kind ∧ s = state then c k s - 1 else c k s

def increment (c : Counters) (kind : Option TaskKind) (state : Option TaskState) : Counters :=
  fun k s => if k = kind ∧ s = state then c k s + 1 else c k s

def ofKind (c : Counters) (k : Option TaskKind) : Nat :=
  c k (some .unscheduled) + c k (some .running) + c k (some .blocked) + c k (some .idle) +
    c k (some .terminated)

def ofState (c : Counters) (s : Option TaskState) : Nat :=
  c (some .permanent) s + c (some .transient) s

/-- `Task_Summary_Valid` -/
def Valid (c : Counters) : Prop :=
  (∀ k, c (some k) Option.none = c.ofKind (some k)) ∧
    (∀ s, c Option.none (some s) = c.ofState (some s)) ∧
      c Option.none Option.none = c.ofKind (some .permanent) + c.ofKind (some .transient)

instance (c : Counters) : Decidable c.Valid :=
  decidable_of_iff
    ((c (some .permanent) Option.none = c.ofKind (some .permanent) ∧
        c (some .transient) Option.none = c.ofKind (some .transient)) ∧
      (c Option.none (some .unscheduled) = c.ofState (some .unscheduled) ∧
        c Option.none (some .running) = c.ofState (some .running) ∧
        c Option.none (some .blocked) = c.ofState (some .blocked) ∧
        c Option.none (some .idle) = c.ofState (some .idle) ∧
        c Option.none (some .terminated) = c.ofState (some .terminated)) ∧
      c Option.none Option.none = c.ofKind (some .permanent) + c.ofKind (some .transient))
    (by
      constructor
      · rintro ⟨⟨h1, h2⟩, ⟨h3, h4, h5, h6, h7⟩, h8⟩
        refine ⟨?_, ?_, h8⟩
        · rintro (_ | _)
          exacts [h1, h2]
        · rintro (_ | _ | _ | _ | _)
          exacts [h3, h4, h5, h6, h7]
      · rintro ⟨hk, hs, h⟩
        exact ⟨⟨hk _, hk _⟩, ⟨hs _, hs _, hs _, hs _, hs _⟩, h⟩)

def taskCreated (c : Counters) (ti : TaskEntry) : Except Exn Counters :=
  if ti.state ≠ .unscheduled then .error .assertionError
  else .ok ((((c.increment (some ti.kind) (some ti.state)).increment (some ti.kind)
    Option.none).increment Option.none (some ti.state)).increment Option.none Option.none)

def taskRemoved (c : Counters) (ti : TaskEntry) : Except Exn Counters := do
  if ti.state ≠ .terminated then throw .assertionError
  let c ← c.decrement (some ti.kind) (some ti.state)
  let c ← c.decrement (some ti.kind) Option.none
  let c ← c.decrement Option.none (some ti.state)
  c.decrement Option.none Option.none

def taskStateChange (c : Counters) (ti : TaskEntry) (newState : TaskState) :
    Except Exn (Counters × TaskEntry) := do
  let c ← c.decrement (some ti.kind) (some ti.state)
  let c ← c.decrement Option.none (some ti.state)
  let c := c.increment (some ti.kind) (some newState)
  let c := c.increment Option.none (some newState)
  if c.Valid then pure (c, { ti with state := newState }) else throw .assertionError

def setStateBlocked (c : Counters) (ti : TaskEntry) (selector : Option MonitorId) :
    Except Exn (Counters × TaskEntry) := do
  let (c, ti) ← c.taskStateChange ti .blocked
  return (c, { ti with selector := selector })

def setStateIdle (c : Counters) (ti : TaskEntry) (condition : Option ConditionVariable) :
    Except Exn (Counters × TaskEntry) := do
  let (c, ti) ← c.taskStateChange ti .idle
  return (c, { ti with condition := condition })

def setStateRunning (c : Counters) (ti : TaskEntry) (job : Option Job) :
    Except Exn (Counters × TaskEntry) := do
  let (c, ti) ← c.taskStateChange ti .running
  return (c, { ti with job := job, selector := Option.none, condition := Option.none })

def setStateUnscheduled (c : Counters) (ti : TaskEntry) : Except Exn (Counters × TaskEntry) := do
  let (c, ti) ← c.taskStateChange ti .unscheduled
  return (c, { ti with job := Option.none, selector := Option.none, condition := Option.none })

def setStateTerminated (c : Counters) (ti : TaskEntry) : Except Exn (Counters × TaskEntry) :=
  c.taskStateChange ti .terminated

/-! ### The counters of a population of tasks -/

/-- The task is one of those that the counter is for. -/
def Counts (k : Option TaskKind) (s : Option TaskState) (ti : TaskEntry) : Bool :=
  (k.isNone || k = some ti.kind) && (s.isNone || s = some ti.state)

/-- Each counter is the number of the tasks of its kind in its state. -/
def tally (ts : List TaskEntry) : Counters := fun k s => ts.countP (Counts k s)

variable {c : Counters} {e : TaskEntry} {ts us : List TaskEntry}

theorem tally_cons (k : Option TaskKind) (s : Option TaskState) :
    tally (e :: ts) k s = tally ts k s + if Counts k s e = true then 1 else 0 :=
  List.countP_cons

theorem tally_perm (h : ts.Perm us) : tally ts = tally us := by
  funext k s
  exact h.countP_eq _

@[simp] theorem decrement_increment (k : Option TaskKind) (s : Option TaskState) :
    (c.increment k s).decrement k s = .ok c := by
  have hne : c.increment k s k s ≠ 0 := by simp [increment]
  rw [decrement, if_neg hne]
  refine congrArg Except.ok (funext₂ fun k' s' => ?_)
  by_cases h : k' = k ∧ s' = s <;> simp [increment, h]

theorem increment_comm (k k' : Option TaskKind) (s s' : Option TaskState) :
    (c.increment k s).increment k' s' = (c.increment k' s').increment k s := by
  funext a b
  simp only [increment]
  split <;> split <;> rfl

theorem tally_cons_eq :
    tally (e :: ts) =
      ((((tally ts).increment Option.none Option.none).increment (some e.kind)
        Option.none).increment Option.none (some e.state)).increment (some e.kind)
          (some e.state) := by
  funext k s
  rw [tally_cons]
  rcases k with _ | k <;> rcases s with _ | s <;> simp [increment, Counts]
  all_goals grind

theorem valid_tally (ts : List TaskEntry) : (tally ts).Valid := by
  induction ts with
  | nil => exact ⟨fun _ => rfl, fun _ => rfl, rfl⟩
  | cons e ts ih =>
    obtain ⟨hk, hs, h⟩ := ih
    refine ⟨?_, ?_, ?_⟩
    · intro k
      have := hk k
      simp only [ofKind, tally_cons] at this ⊢
      rcases e with ⟨_ | _, _ | _ | _ | _ | _⟩ <;> rcases k with _ | _ <;> simp [Counts] <;> omega
    · intro s
      have := hs s
      simp only [ofState, tally_cons] at this ⊢
      rcases e with ⟨_ | _, st⟩ <;> simp [Counts] <;> split <;> omega
    · simp only [ofKind, tally_cons] at h ⊢
      rcases e with ⟨_ | _, _ | _ | _ | _ | _⟩ <;> simp [Counts] <;> omega

theorem taskCreated_tally (h : e.state = .unscheduled) :
    (tally ts).taskCreated e = .ok (tally (e :: ts)) := by
  rw [taskCreated, if_neg (not_not_intro h), tally_cons_eq]
  refine congrArg Except.ok (funext₂ fun k s => ?_)
  simp only [increment]
  grind

theorem taskRemoved_tally (h : e.state = .terminated) :
    (tally (e :: ts)).taskRemoved e = .ok (tally ts) := by
  rw [tally_cons_eq, taskRemoved, if_neg (not_not_intro h),
    increment_comm (some e.kind) Option.none Option.none]
  simp

theorem taskStateChange_tally (new : TaskState) :
    (tally (e :: ts)).taskStateChange e new =
      .ok (tally ({ e with state := new } :: ts), { e with state := new }) := by
  have hnew : tally ({ e with state := new } :: ts) = _ := tally_cons_eq
  rw [increment_comm] at hnew
  rw [tally_cons_eq, taskStateChange]
  simp only [decrement_increment, Checked.pure_eq, Checked.bind_ok]
  rw [← hnew, if_pos (valid_tally _)]

theorem tally_congr {e' : TaskEntry} (hk : e'.kind = e.kind) (hs : e'.state = e.state) :
    tally (e' :: ts) = tally (e :: ts) := by
  funext k s
  rw [tally_cons, tally_cons, Counts, hk, hs, Counts]

theorem setStateBlocked_tally (selector : Option MonitorId) :
    (tally (e :: ts)).setStateBlocked e selector =
      .ok (tally ({ e with state := .blocked, selector := selector } :: ts),
        { e with state := .blocked, selector := selector }) := by
  rw [setStateBlocked, taskStateChange_tally]
  exact congrArg Except.ok (Prod.ext (tally_congr rfl rfl) rfl)

theorem setStateIdle_tally (condition : Option ConditionVariable) :
    (tally (e :: ts)).setStateIdle e condition =
      .ok (tally ({ e with state := .idle, condition := condition } :: ts),
        { e with state := .idle, condition := condition }) := by
  rw [setStateIdle, taskStateChange_tally]
  exact congrArg Except.ok (Prod.ext (tally_congr rfl rfl) rfl)

theorem setStateRunning_tally (job : Option Job) :
    (tally (e :: ts)).setStateRunning e job =
      .ok (tally ({ e with
          state := .running, job := job, selector := Option.none, condition := Option.none } :: ts),
        { e with
          state := .running, job := job, selector := Option.none, condition := Option.none }) := by
  rw [setStateRunning, taskStateChange_tally]
  exact congrArg Except.ok (Prod.ext (tally_congr rfl rfl) rfl)

theorem setStateUnscheduled_tally :
    (tally (e :: ts)).setStateUnscheduled e =
      .ok (tally ({ e with
          state := .unscheduled, job := Option.none, selector := Option.none,
          condition := Option.none } :: ts),
        { e with
          state := .unscheduled, job := Option.none, selector := Option.none,
          condition := Option.none }) := by
  rw [setStateUnscheduled, taskStateChange_tally]
  exact congrArg Except.ok (Prod.ext (tally_congr rfl rfl) rfl)

end Counters

end PolyORB
