import PolyORB.Types
import PolyORB.Lib.Runs
import PolyORB.Lib.Tally

/-!
# Readers/writer locks

PolyORB.Tasking.Rw_Locks.  All locks share the mutex `All_Rw_Locks`, which Wait releases; a call, or
what follows a Wait, up to the next Wait is one step.  A call that raises keeps the mutex.
-/

namespace PolyORB.RwLocks

open Tally

abbrev TaskId := Nat

abbrev LockId := Nat

inductive Mode where
  | read
  | write
  deriving DecidableEq

/-- A task in the queue of `Guard_Values`; `woken` once it was signalled. -/
structure Waiting where
  lock : LockId
  mode : Mode
  woken : Bool
  deriving DecidableEq

structure RwLock where
  readersWaiting : Nat
  writersWaiting : Nat
  count : Int
  maxCount : Nat
  /-- History: the tasks that hold the lock, once for each time. -/
  readers : List TaskId
  writers : List TaskId
  /-- History: `Set_Max_Count` has lowered `Max_Count`. -/
  lowered : Bool
  deriving DecidableEq

structure System where
  /-- `All_Rw_Locks`, between the steps. -/
  mutexHeld : Bool
  locks : LockId → RwLock
  /-- What each task waits for. -/
  tasks : List (Option Waiting)

abbrev Result := EStateM.Result Exn System Unit

namespace RwLock

def initial : RwLock where
  readersWaiting := 0
  writersWaiting := 0
  count := 0
  maxCount := naturalLast
  readers := []
  writers := []
  lowered := false

def waiting (k : RwLock) : Mode → Nat
  | .read => k.readersWaiting
  | .write => k.writersWaiting

def setWaiting (k : RwLock) (n : Nat) : Mode → RwLock
  | .read => { k with readersWaiting := n }
  | .write => { k with writersWaiting := n }

/-- The condition that ends the loop of `Lock_R` or `Lock_W`. -/
def grants (k : RwLock) : Mode → Bool
  | .read => 0 ≤ k.count && k.count < k.maxCount && k.writersWaiting = 0
  | .write => k.count = 0

def take (k : RwLock) (t : TaskId) : Mode → RwLock
  | .read => { k with count := k.count + 1, readers := t :: k.readers }
  | .write => { k with count := -1, writers := t :: k.writers }

/-- `Unlock_R` or `Unlock_W`, which raise Program_Error where there is no result. -/
def release (k : RwLock) (t : TaskId) : Mode → Option RwLock
  | .read =>
    if k.count ≤ 0 then none else some { k with count := k.count - 1, readers := k.readers.erase t }
  | .write =>
    if k.count ≠ -1 then none else some { k with count := 0, writers := k.writers.erase t }

/-- The tasks that hold the lock. -/
def holders (k : RwLock) : Mode → List TaskId
  | .read => k.readers
  | .write => k.writers

end RwLock

/-- What a signal to the queue of a lock does to a task. -/
def wake (l : LockId) (x : Option Waiting) : Option Waiting :=
  x.map fun w => if w.lock = l then { w with woken := true } else w

namespace System

def initial (tasks : Nat) : System where
  mutexHeld := false
  locks := fun _ => .initial
  tasks := List.replicate tasks none

/-- The end of a step that was made with the lock. -/
def leave (s : System) (l : LockId) (k : RwLock) : System :=
  { s with mutexHeld := false, locks := Function.update s.locks l k }

def enter (s : System) : System := { s with mutexHeld := true }

def broadcast (s : System) (l : LockId) : System := { s with tasks := s.tasks.map (wake l) }

/-- The loop of `Lock_R` or `Lock_W`, from its condition. -/
def lockLoop (s : System) (t : TaskId) (l : LockId) (m : Mode) : Result :=
  let k := s.locks l
  if k.grants m = true then .ok () (s.leave l (k.take t m))
  else if k.waiting m = naturalLast then .error .constraintError s
  else .ok () { s.leave l (k.setWaiting (k.waiting m + 1) m) with
    tasks := s.tasks.set t (some ⟨l, m, false⟩) }

def lockR (s : System) (t : TaskId) (l : LockId) : Result := s.enter.lockLoop t l .read

def lockW (s : System) (t : TaskId) (l : LockId) : Result := s.enter.lockLoop t l .write

def unlock (s : System) (t : TaskId) (l : LockId) (m : Mode) : Result :=
  match (s.locks l).release t m with
  | none => .error .programError s.enter
  | some k => .ok () ((s.broadcast l).leave l k)

def unlockR (s : System) (t : TaskId) (l : LockId) : Result := s.unlock t l .read

def unlockW (s : System) (t : TaskId) (l : LockId) : Result := s.unlock t l .write

def setMaxCount (s : System) (l : LockId) (max : Nat) : Result :=
  let k := s.locks l
  .ok () ((s.broadcast l).leave l
    { k with maxCount := max, lowered := k.lowered || max < k.maxCount })

/-- The end of `Wait`, and the loop after it. -/
def resume (s : System) (t : TaskId) : Result :=
  match s.tasks[t]? with
  | some (some w) =>
    let k := s.locks w.lock
    if k.waiting w.mode = 0 then .error .constraintError s.enter
    else
      ({ s.enter.leave w.lock (k.setWaiting (k.waiting w.mode - 1) w.mode) with
        tasks := s.tasks.set t none }).enter.lockLoop t w.lock w.mode
  | _ => .error .blocked s

end System

inductive Action where
  | lockR (t : TaskId) (l : LockId)
  | lockW (t : TaskId) (l : LockId)
  | unlockR (t : TaskId) (l : LockId)
  | unlockW (t : TaskId) (l : LockId)
  | setMaxCount (t : TaskId) (l : LockId) (max : Nat)
  | resume (t : TaskId)

namespace System

def perform (s : System) : Action → Result
  | .lockR t l => s.lockR t l
  | .lockW t l => s.lockW t l
  | .unlockR t l => s.unlockR t l
  | .unlockW t l => s.unlockW t l
  | .setMaxCount _ l max => s.setMaxCount l max
  | .resume t => s.resume t

def stateOf : Result → System
  | .ok _ s => s
  | .error _ s => s

def step (s : System) (a : Action) : System := stateOf (s.perform a)

/-- A task that does not wait can make calls when the mutex is free, and a task that was woken can
go on. -/
def Possible (s : System) (a : Action) : Prop :=
  s.mutexHeld = false ∧
    match a with
    | .lockR t _ | .lockW t _ | .unlockR t _ | .unlockW t _ => s.tasks[t]? = some none
    | .setMaxCount t _ max => s.tasks[t]? = some none ∧ max ≤ naturalLast
    | .resume t => ∃ w, s.tasks[t]? = some (some w) ∧ w.woken = true

/-! ## What a lock has to do -/

/-- The count of a lock is that of its holders, readers and writers exclude each other, and no
writer sleeps beside a free lock. -/
structure Sound (s : System) (l : LockId) : Prop where
  writer : (s.locks l).count = -1 ↔ (s.locks l).writers.length = 1
  readers : (s.locks l).count ≠ -1 → (s.locks l).count = (s.locks l).readers.length
  exclusive : (s.locks l).writers = [] ∨ (s.locks l).writers.length = 1 ∧ (s.locks l).readers = []
  max : (s.locks l).maxCount < (s.locks l).count → (s.locks l).lowered = true
  awake : (s.locks l).count = 0 →
    ∀ w, some w ∈ s.tasks → w.lock = l → w.mode = .write → w.woken = true

/-- An unlock by a task that holds the lock. -/
def Held (s : System) : Action → Prop
  | .unlockR t l => t ∈ (s.locks l).readers
  | .unlockW t l => t ∈ (s.locks l).writers
  | _ => True

/-- The step leads to sound locks, and an unlock by another task fails without keeping the mutex. -/
def Proper (s : System) (a : Action) : Prop :=
  (∀ l, (s.step a).Sound l) ∧
    (¬s.Held a → (∃ e s', s.perform a = .error e s') ∧ (s.step a).mutexHeld = false)

end System

/-! ## The invariant -/

def waits (l : LockId) (m : Mode) (x : Option Waiting) : Bool :=
  x.any fun w => w.lock = l ∧ w.mode = m

/-- What holds of a lock between the steps, the tasks being in their queues. -/
structure LockInv (tasks : List (Option Waiting)) (l : LockId) (k : RwLock) : Prop where
  held : k.count = -1 ∧ k.writers.length = 1 ∧ k.readers = [] ∨
    k.count = k.readers.length ∧ k.writers = []
  max : k.maxCount < k.count → k.lowered = true
  waiting : ∀ m, k.waiting m = tasks.countP (waits l m)
  awake : k.count = 0 → ∀ w, some w ∈ tasks → w.lock = l → w.mode = .write → w.woken = true

variable {t : TaskId}

section LockInv

variable {tasks : List (Option Waiting)} {l : LockId} {k k' : RwLock}

@[simp] theorem waiting_setWaiting_self (k : RwLock) (n : Nat) (m : Mode) :
    (k.setWaiting n m).waiting m = n := by
  cases m <;> rfl

theorem waiting_setWaiting_of_ne (k : RwLock) (n : Nat) {m m' : Mode} (h : m' ≠ m) :
    (k.setWaiting n m).waiting m' = k.waiting m' := by
  cases m <;> cases m' <;> first | rfl | exact absurd rfl h

theorem LockInv.set (h : LockInv tasks l k) {x : Option Waiting}
    (ht : tasks[t]? = some x) (y : Option Waiting) (m : Mode) {n : Nat}
    (hothers : ∀ m', m' ≠ m → waits l m' x = waits l m' y)
    (hn : n + weight (waits l m) x = k.waiting m + weight (waits l m) y)
    (hy : ∀ w, y = some w → w.lock = l → w.mode = .write → k.count ≠ 0) :
    LockInv (tasks.set t y) l (k.setWaiting n m) := by
  have hcount : ∀ m', (tasks.set t y).countP (waits l m') + weight (waits l m') x =
      tasks.countP (waits l m') + weight (waits l m') y := fun m' => countP_set_add _ y ht
  refine ⟨?_, ?_, fun m' => ?_, ?_⟩
  · cases m <;> exact h.held
  · cases m <;> exact h.max
  · by_cases hm : m' = m
    · subst hm
      have := hcount m'
      rw [← h.waiting m'] at this
      rw [waiting_setWaiting_self]
      omega
    · have := hcount m'
      unfold weight at this
      rw [hothers m' hm] at this
      rw [waiting_setWaiting_of_ne _ _ hm, h.waiting m']
      omega
  · intro hzero w hw hl hmode
    have hzero' : k.count = 0 := by cases m <;> exact hzero
    rcases List.mem_or_eq_of_mem_set hw with hw | rfl
    · exact h.awake hzero' w hw hl hmode
    · exact absurd hzero' (hy w rfl hl hmode)

theorem LockInv.set_other (h : LockInv tasks l k) {x y : Option Waiting}
    (ht : tasks[t]? = some x) (hx : ∀ w, x = some w → w.lock ≠ l)
    (hy : ∀ w, y = some w → w.lock ≠ l) : LockInv (tasks.set t y) l k := by
  have hnone : ∀ {z : Option Waiting}, (∀ w, z = some w → w.lock ≠ l) →
      ∀ m, waits l m z = false := by
    intro z hz m
    cases z with
    | none => rfl
    | some w => simp [waits, hz w rfl]
  have hset := h.set ht y .read (n := k.waiting .read)
    (fun m _ => by rw [hnone hx, hnone hy])
    (by simp [weight, hnone hx, hnone hy])
    (fun w hw hl => absurd hl (hy w hw))
  exact hset

theorem waits_wake (l : LockId) (m : Mode) (l' : LockId) (x : Option Waiting) :
    waits l m (wake l' x) = waits l m x := by
  cases x with
  | none => rfl
  | some w => by_cases hl : w.lock = l' <;> simp [waits, wake, hl]

theorem LockInv.broadcast (h : LockInv tasks l k) (k' : RwLock)
    (hheld : k'.count = -1 ∧ k'.writers.length = 1 ∧ k'.readers = [] ∨
      k'.count = k'.readers.length ∧ k'.writers = [])
    (hmax : k'.maxCount < k'.count → k'.lowered = true)
    (hwaiting : ∀ m, k'.waiting m = k.waiting m) :
    LockInv (tasks.map (wake l)) l k' := by
  refine ⟨hheld, hmax, fun m => ?_, fun _ w hw hl _ => ?_⟩
  · rw [hwaiting m, h.waiting m]
    exact (countP_map_of _ _ _ (waits_wake l m l) tasks).symm
  · obtain ⟨x, hx, hxw⟩ := List.mem_map.mp hw
    cases x with
    | none => cases hxw
    | some w' =>
      obtain rfl := Option.some.inj hxw
      by_cases hl' : w'.lock = l
      · simp [hl']
      · simp [hl'] at hl

theorem LockInv.broadcast_other (h : LockInv tasks l k) {l' : LockId} (hne : l ≠ l') :
    LockInv (tasks.map (wake l')) l k := by
  refine ⟨h.held, h.max, fun m => ?_, fun hzero w hw hl hmode => ?_⟩
  · rw [h.waiting m]
    exact (countP_map_of _ _ _ (waits_wake l m l') tasks).symm
  · obtain ⟨x, hx, hxw⟩ := List.mem_map.mp hw
    cases x with
    | none => cases hxw
    | some w' =>
      obtain rfl := Option.some.inj hxw
      by_cases hl' : w'.lock = l'
      · simp [hl'] at hl
        exact absurd hl.symm hne
      · simp only [hl', if_false] at hl hmode ⊢
        exact h.awake hzero w' hx hl hmode

end LockInv

namespace System

variable {s : System}

def Inv (s : System) : Prop := ∀ l, LockInv s.tasks l (s.locks l)

theorem Inv.sound (h : s.Inv) (l : LockId) : s.Sound l := by
  obtain ⟨hheld, hmax, -, hawake⟩ := h l
  rcases hheld with ⟨hcount, hwriters, hreaders⟩ | ⟨hcount, hwriters⟩
  · exact ⟨by simp [hcount, hwriters], fun hne => absurd hcount hne, .inr ⟨hwriters, hreaders⟩,
      hmax, hawake⟩
  · refine ⟨?_, fun _ => hcount, .inl hwriters, hmax, hawake⟩
    rw [hcount, hwriters, List.length_nil]
    exact ⟨fun h => by omega, fun h => by omega⟩

theorem inv_initial (n : Nat) : (initial n).Inv := by
  intro l
  refine ⟨.inr ⟨rfl, rfl⟩, fun h => ?_, fun m => ?_, fun _ w hw => ?_⟩
  · exact absurd h (by simp [initial, RwLock.initial, naturalLast])
  · have : (initial n).tasks.countP (waits l m) = 0 :=
      List.countP_eq_zero.mpr fun x hx => by simp [List.eq_of_mem_replicate hx, waits]
    rw [this]
    cases m <;> rfl
  · exact absurd (List.eq_of_mem_replicate hw) (by simp)

theorem grants_held {k : RwLock} {m : Mode} {tasks : List (Option Waiting)}
    {l : LockId} (h : LockInv tasks l k) (hg : k.grants m = true) :
    LockInv tasks l (k.take t m) := by
  cases m with
  | read =>
    simp only [RwLock.grants, Bool.and_eq_true, decide_eq_true_eq] at hg
    obtain ⟨⟨hcount, hmax⟩, -⟩ := hg
    rcases h.held with ⟨hc, -⟩ | ⟨hc, hw⟩
    · omega
    · refine ⟨.inr ⟨?_, hw⟩, fun hlt => ?_, fun m => ?_, fun hzero => ?_⟩
      · show k.count + 1 = ((t :: k.readers).length : Int)
        rw [List.length_cons, hc, Nat.cast_succ]
      · have : (k.maxCount : Int) < k.count + 1 := hlt
        omega
      · rw [← h.waiting m]
        cases m <;> rfl
      · have : k.count + 1 = 0 := hzero
        omega
  | write =>
    have hzero : k.count = 0 := by simpa [RwLock.grants] using hg
    rcases h.held with ⟨hc, -⟩ | ⟨hc, hw⟩
    · omega
    · have hr : k.readers = [] := List.length_eq_zero_iff.mp (by omega)
      refine ⟨.inl ⟨rfl, by simp [RwLock.take, hw], hr⟩, fun hlt => ?_, fun m => ?_, nofun⟩
      · have : (k.maxCount : Int) < -1 := hlt
        omega
      · rw [← h.waiting m]
        cases m <;> rfl

theorem lockLoop_inv (h : s.Inv) (ht : s.tasks[t]? = some none) (l : LockId) (m : Mode) :
    (stateOf (s.lockLoop t l m)).Inv := by
  intro l'
  unfold lockLoop
  dsimp only
  split_ifs with hg hmax
  · by_cases hl : l' = l
    · subst hl
      simp only [stateOf, leave, Function.update_self]
      exact grants_held (h l') hg
    · simp only [stateOf, leave, Function.update_of_ne hl]
      exact h l'
  · exact h l'
  · by_cases hl : l' = l
    · subst hl
      simp only [stateOf, leave, Function.update_self]
      refine (h l').set ht _ m (fun m' hm => ?_) ?_ fun w hw _ hmode => ?_
      · simp [waits, Ne.symm hm]
      · simp [weight, waits]
      · cases hw
        cases hmode
        simpa [RwLock.grants] using hg
    · simp only [stateOf, leave, Function.update_of_ne hl]
      refine (h l').set_other ht (by simp) fun w hw => ?_
      cases hw
      exact Ne.symm hl

theorem resume_inv {w : Waiting} (h : s.Inv) (ht : s.tasks[t]? = some (some w)) :
    (stateOf (s.resume t)).Inv := by
  unfold resume
  rw [ht]
  dsimp only
  split_ifs with hzero
  · exact h
  · refine lockLoop_inv (fun l => ?_) ?_ w.lock w.mode
    · by_cases hl : l = w.lock
      · subst hl
        simp only [enter, leave, Function.update_self]
        refine (h w.lock).set ht none w.mode (fun m hm => ?_) ?_ (by simp)
        · simp [waits, Ne.symm hm]
        · simp [weight, waits]
          omega
      · simp only [enter, leave, Function.update_of_ne hl]
        exact (h l).set_other ht (fun w' hw' => by cases hw'; exact Ne.symm hl) (by simp)
    · simp only [enter, leave]
      rw [List.getElem?_set_self (List.getElem?_eq_some_iff.mp ht).1]

theorem broadcast_inv (h : s.Inv) {l : LockId} {k : RwLock}
    (hheld : k.count = -1 ∧ k.writers.length = 1 ∧ k.readers = [] ∨
      k.count = k.readers.length ∧ k.writers = [])
    (hmax : k.maxCount < k.count → k.lowered = true)
    (hwaiting : ∀ m, k.waiting m = (s.locks l).waiting m) :
    ((s.broadcast l).leave l k).Inv := by
  intro l'
  by_cases hl : l' = l
  · subst hl
    simp only [leave, Function.update_self]
    exact (h l').broadcast k hheld hmax hwaiting
  · simp only [leave, Function.update_of_ne hl]
    exact (h l').broadcast_other hl

theorem unlock_inv {l : LockId} {m : Mode} (h : s.Inv)
    (hheld : t ∈ (s.locks l).holders m) : (stateOf (s.unlock t l m)).Inv := by
  unfold unlock
  cases hk : (s.locks l).release t m with
  | none => exact h
  | some k =>
    have hwas := (h l).held
    have hmax := (h l).max
    cases m with
    | read =>
      simp only [RwLock.release] at hk
      split_ifs at hk with hc
      cases hk
      rcases hwas with ⟨hcount, -⟩ | ⟨hcount, hwriters⟩
      · omega
      · refine broadcast_inv h (.inr ⟨?_, hwriters⟩) (fun hlt => hmax ?_) fun m => by
          cases m <;> rfl
        · have := List.length_erase_of_mem (show t ∈ (s.locks l).readers from hheld)
          simp only [this]
          omega
        · simp only at hlt
          omega
    | write =>
      simp only [RwLock.release] at hk
      split_ifs at hk with hc
      cases hk
      rcases hwas with ⟨hcount, hwriters, hreaders⟩ | ⟨hcount, -⟩
      · obtain ⟨t', ht'⟩ := List.length_eq_one_iff.mp hwriters
        have : t = t' := by simpa [RwLock.holders, ht'] using hheld
        refine broadcast_inv h (.inr ⟨?_, ?_⟩) (fun hlt => ?_) fun m => by cases m <;> rfl
        · simp [hreaders]
        · simp [ht', this]
        · simp only at hlt
          omega
      · omega

theorem setMaxCount_inv (h : s.Inv) (l : LockId) (max : Nat) :
    (stateOf (s.setMaxCount l max)).Inv := by
  refine broadcast_inv h (h l).held (fun hlt => ?_) fun m => by cases m <;> rfl
  simp only [Bool.or_eq_true, decide_eq_true_eq] at hlt ⊢
  by_cases hmax : (s.locks l).maxCount < (s.locks l).count
  · exact .inl ((h l).max hmax)
  · right
    omega

theorem step_inv {a : Action} (h : s.Inv) (hp : s.Possible a) (hheld : s.Held a) :
    (s.step a).Inv := by
  obtain ⟨-, hp⟩ := hp
  cases a with
  | lockR t l => exact lockLoop_inv (s := s.enter) h hp l .read
  | lockW t l => exact lockLoop_inv (s := s.enter) h hp l .write
  | unlockR t l => exact unlock_inv (m := .read) h hheld
  | unlockW t l => exact unlock_inv (m := .write) h hheld
  | setMaxCount t l max => exact setMaxCount_inv h l max
  | resume t =>
    obtain ⟨w, hw, -⟩ := hp
    exact resume_inv h hw

theorem unlock_error {l : LockId} {m : Mode} {e : Exn} {s' : System}
    (h : s.unlock t l m = .error e s') : (stateOf (s.unlock t l m)).mutexHeld = true := by
  unfold unlock at h ⊢
  cases hk : (s.locks l).release t m with
  | none => rfl
  | some k =>
    rw [hk] at h
    cases h

theorem held_of_proper {a : Action} (h : s.Proper a) : s.Held a := by
  by_contra hheld
  obtain ⟨⟨e, s', herror⟩, hmutex⟩ := h.2 hheld
  cases a with
  | unlockR t l => exact absurd ((unlock_error herror).symm.trans hmutex) (by decide)
  | unlockW t l => exact absurd ((unlock_error herror).symm.trans hmutex) (by decide)
  | _ => exact hheld trivial

/-- A run is as it has to be exactly when each lock is only released by its holders. -/
theorem proper_run_iff (tasks : Nat) (as : List Action)
    (h : Runs.Along step Possible (initial tasks) as) :
    Runs.Along step Proper (initial tasks) as ↔ Runs.Along step Held (initial tasks) as :=
  have hstep : ∀ s a, Inv s → Possible s a →
      (Proper s a → Held s a) ∧ (Held s a → Proper s a ∧ Inv (step s a)) := fun _ _ hs ha =>
    ⟨held_of_proper, fun hheld =>
      have hs' := step_inv hs ha hheld
      ⟨⟨hs'.sound, fun hn => absurd hheld hn⟩, hs'⟩⟩
  Runs.along_iff hstep as _ (inv_initial tasks) h

/-- A reader waits for a writer, and both release the lock. -/
theorem proper_run_two :
    Runs.Along step Proper (initial 2)
      [.lockW 0 0, .lockR 1 0, .unlockW 0 0, .resume 1, .unlockR 1 0] := by
  refine (proper_run_iff 2 [.lockW 0 0, .lockR 1 0, .unlockW 0 0, .resume 1, .unlockR 1 0]
    ⟨⟨rfl, rfl⟩, ⟨rfl, rfl⟩, ⟨rfl, rfl⟩, ⟨rfl, _, rfl, rfl⟩, ⟨rfl, rfl⟩, trivial⟩).mpr ?_
  exact ⟨trivial, trivial, List.mem_singleton_self 0, trivial, List.mem_singleton_self 1, trivial⟩

/-- An unlock of a free lock fails, and the mutex of all locks is never released. -/
theorem not_proper_run :
    Runs.Along step Possible (initial 2) [.unlockR 0 0] ∧
      ¬Runs.Along step Proper (initial 2) [.unlockR 0 0] ∧
      ∀ a, ¬((initial 2).step (.unlockR 0 0)).Possible a := by
  refine ⟨⟨⟨rfl, rfl⟩, trivial⟩, fun ⟨⟨_, hproper⟩, _⟩ => ?_, fun a ha => absurd ha.1 (by decide)⟩
  exact absurd (hproper List.not_mem_nil).2 (by decide)

end System

end PolyORB.RwLocks
