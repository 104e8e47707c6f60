import PolyORB.Types
import PolyORB.Lib.ArrayQueue

/-!
# The protected objects of mutexes and conditions

PolyORB.Tasking.Profiles.Ravenscar.Mutexes and Condition_Variables: the threads that wait for a
mutex or a condition are queued at the places of their synchro objects.  A protected operation whose
assertion fails has no result.
-/

namespace PolyORB

open ArrayQueue

structure QueuedThread where
  sync : Nat
  next : Option Nat
  isWaiting : Bool

abbrev ThreadQueue := Nat → QueuedThread

def ThreadQueue.links (w : ThreadQueue) (i : Nat) : Option Nat := (w i).next

def ThreadQueue.setNext (w : ThreadQueue) (i : Nat) (next : Option Nat) : ThreadQueue :=
  Function.update w i { w i with next := next }

structure MutexPO where
  next : Option Nat
  waiters : ThreadQueue
  isTaken : Bool

structure ConditionPO where
  first : Option Nat
  waiters : ThreadQueue

def ThreadQueue.occupy (w : ThreadQueue) (place : Nat) : ThreadQueue :=
  Function.update w place { w place with isWaiting := true, sync := place }

/-- The queue of a new mutex or condition. -/
def ThreadQueue.created : ThreadQueue := fun _ => ⟨0, none, false⟩

/-! ## Mutexes -/

namespace MutexPO

def created : MutexPO := ⟨none, .created, false⟩

def checkQueueConsistency (x : MutexPO) (synchros : Nat) : Bool :=
  check x.waiters.links (fun i => (x.waiters i).isWaiting) (synchros + 1) [] x.next &&
    (x.isTaken || x.next == none)

/-- The threads queue up behind the last one. -/
def queue (x : MutexPO) (synchros place : Nat) : MutexPO :=
  match walk x.waiters.links synchros x.next none with
  | none => { x with waiters := x.waiters.setNext place x.next, next := some place }
  | some precedent =>
    { x with waiters := (x.waiters.setNext precedent (some place)).setNext place none }

/-- What `Test_And_Set_Entry` makes of the object. -/
def testAndSet (x : MutexPO) (synchros place : Nat) : MutexPO :=
  if x.isTaken = true then
    { x with waiters := x.waiters.occupy place }.queue synchros place
  else { x with waiters := x.waiters.occupy place, isTaken := true }

def testAndSetEntry (x : MutexPO) (synchros place : Nat) : Except Exn (Bool × MutexPO) :=
  if x.checkQueueConsistency synchros = false then .error .assertionError
  else if x.isTaken = false ∧ x.next ≠ none then .error .assertionError
  else if (x.testAndSet synchros place).checkQueueConsistency synchros = false then
    .error .assertionError
  else .ok (!x.isTaken, x.testAndSet synchros place)

/-- The first thread of the queue is taken out. -/
def dequeue (x : MutexPO) (formerNext : Nat) : MutexPO :=
  { next := (x.waiters formerNext).next
    isTaken := true
    waiters := Function.update x.waiters formerNext
      { x.waiters formerNext with isWaiting := false, next := none } }

def leave (x : MutexPO) (synchros : Nat) : Except Exn (Option Nat × MutexPO) :=
  if x.checkQueueConsistency synchros = false then .error .assertionError
  else
    match x.next with
    | some formerNext =>
      if (x.waiters formerNext).isWaiting = false then .error .assertionError
      else if (x.dequeue formerNext).checkQueueConsistency synchros = false then
        .error .assertionError
      else .ok (some (x.waiters formerNext).sync, x.dequeue formerNext)
    | none =>
      if { x with isTaken := false, next := none }.checkQueueConsistency synchros = false then
        .error .assertionError
      else .ok (none, { x with isTaken := false, next := none })

end MutexPO

/-! ## Conditions -/

namespace ConditionPO

def created : ConditionPO := ⟨none, .created⟩

def checkQueueConsistency (x : ConditionPO) (synchros : Nat) : Bool :=
  check x.waiters.links (fun i => (x.waiters i).isWaiting) (synchros + 1) [] x.first

def queue (x : ConditionPO) (synchros s : Nat) : ConditionPO :=
  match x.first with
  | none => { first := some s, waiters := x.waiters.setNext s none }
  | some first =>
    match walk x.waiters.links synchros (x.waiters.links first) (some first) with
    | none => x
    | some precedent =>
      { x with waiters := (x.waiters.setNext precedent (some s)).setNext s none }

def enqueue (x : ConditionPO) (synchros s : Nat) : ConditionPO :=
  { x with waiters := x.waiters.occupy s }.queue synchros s

def prepareWait (x : ConditionPO) (synchros s : Nat) : Except Exn ConditionPO :=
  if x.checkQueueConsistency synchros = false then .error .assertionError
  else if (x.enqueue synchros s).checkQueueConsistency synchros = false then
    .error .assertionError
  else .ok (x.enqueue synchros s)

def dequeue (x : ConditionPO) (formerFirst : Nat) : ConditionPO :=
  { first := (x.waiters formerFirst).next
    waiters := Function.update x.waiters formerFirst
      { x.waiters formerFirst with isWaiting := false, next := none } }

def signal (x : ConditionPO) (synchros : Nat) : Except Exn (Option Nat × ConditionPO) :=
  if x.checkQueueConsistency synchros = false then .error .assertionError
  else
    match x.first with
    | none => .ok (none, x)
    | some formerFirst =>
      if (x.dequeue formerFirst).checkQueueConsistency synchros = false then
        .error .assertionError
      else .ok (some (x.waiters formerFirst).sync, x.dequeue formerFirst)

def empty (x : ConditionPO) : ConditionPO :=
  { first := none, waiters := fun i => { x.waiters i with isWaiting := false } }

/-- The synchro objects that are to be resumed. -/
def toFree (x : ConditionPO) (synchros : Nat) : List Nat :=
  ((List.range synchros).filter fun i => (x.waiters i).isWaiting).map fun i => (x.waiters i).sync

def broadcast (x : ConditionPO) (synchros : Nat) : Except Exn (List Nat × ConditionPO) :=
  if x.checkQueueConsistency synchros = false then .error .assertionError
  else if x.empty.checkQueueConsistency synchros = false then .error .assertionError
  else .ok (x.toFree synchros, x.empty)

end ConditionPO

/-! ## The queue that is in the array -/

variable {synchros a place : Nat} {l : List Nat} {w w' : ThreadQueue} {p p' : Option Nat}

/-- The threads at the places `l` wait, in this order. -/
structure ThreadQueue.Holds (w : ThreadQueue) (synchros : Nat) (p : Option Nat) (l : List Nat) :
    Prop where
  nodup : l.Nodup
  lt : ∀ a ∈ l, a < synchros
  chained : Chained w.links p l
  isWaiting : ∀ a ∈ l, (w a).isWaiting = true
  sync : ∀ a ∈ l, (w a).sync = a

namespace ThreadQueue

theorem links_setNext_self (p : Option Nat) : (w.setNext a p).links a = p := by
  rw [links, setNext, Function.update_self]

theorem links_setNext {b : Nat} (h : b ≠ a) (p : Option Nat) :
    (w.setNext a p).links b = w.links b := by
  rw [links, setNext, Function.update_of_ne h, links]

theorem fields_setNext (a b : Nat) (p : Option Nat) :
    ((w.setNext a p) b).isWaiting = (w b).isWaiting ∧ ((w.setNext a p) b).sync = (w b).sync := by
  rw [setNext]
  by_cases h : b = a
  · subst h
    rw [Function.update_self]
    exact ⟨rfl, rfl⟩
  · rw [Function.update_of_ne h]
    exact ⟨rfl, rfl⟩

theorem Holds.length_le (h : w.Holds synchros p l) : l.length ≤ synchros := by
  have hsub : l ⊆ List.range synchros := fun a ha => List.mem_range.mpr (h.lt a ha)
  simpa using (List.subperm_of_subset h.nodup hsub).length_le

theorem Holds.check (h : w.Holds synchros p l) :
    check w.links (fun i => (w i).isWaiting) (synchros + 1) [] p = true :=
  h.chained.check (Nat.lt_succ_of_le h.length_le) h.isWaiting h.nodup fun _ _ => List.not_mem_nil

theorem Holds.update (h : w.Holds synchros p l) (ha : a ∉ l) (x : QueuedThread) :
    Holds (Function.update w a x) synchros p l := by
  have hne (b : Nat) (hb : b ∈ l) : b ≠ a := by
    rintro rfl
    exact ha hb
  refine ⟨h.nodup, h.lt, h.chained.congr fun b hb => ?_, fun b hb => ?_, fun b hb => ?_⟩
  · rw [links, Function.update_of_ne (hne b hb), links]
  · rw [Function.update_of_ne (hne b hb)]
    exact h.isWaiting b hb
  · rw [Function.update_of_ne (hne b hb)]
    exact h.sync b hb

theorem Holds.snoc (h : w.Holds synchros p l) (ha : a ∉ l) (hlt : a < synchros)
    (hchain : Chained w'.links p' (l ++ [a]))
    (hw : ∀ b, (w' b).isWaiting = (w b).isWaiting ∧ (w' b).sync = (w b).sync)
    (hwait : (w a).isWaiting = true) (hsync : (w a).sync = a) :
    w'.Holds synchros p' (l ++ [a]) := by
  refine ⟨?_, ?_, hchain, ?_, ?_⟩
  · rw [List.nodup_append]
    exact ⟨h.nodup, List.nodup_singleton a, fun x hx y hy => by
      rw [List.mem_singleton.mp hy]
      rintro rfl
      exact ha hx⟩
  all_goals
    intro b hb
    rcases List.mem_append.mp hb with hb | hb
  · exact h.lt b hb
  · rw [List.mem_singleton.mp hb]
    exact hlt
  · rw [(hw b).1]
    exact h.isWaiting b hb
  · rw [List.mem_singleton.mp hb, (hw a).1]
    exact hwait
  · rw [(hw b).2]
    exact h.sync b hb
  · rw [List.mem_singleton.mp hb, (hw a).2]
    exact hsync

theorem Holds.dequeue (h : w.Holds synchros p (a :: l)) (x : QueuedThread) :
    p = some a ∧ Holds (Function.update w a x) synchros (w a).next l := by
  obtain ⟨ha, hnd⟩ := List.nodup_cons.mp h.nodup
  have hrest : w.Holds synchros (w a).next l :=
    ⟨hnd, fun b hb => h.lt b (List.mem_cons_of_mem a hb), h.chained.2,
      fun b hb => h.isWaiting b (List.mem_cons_of_mem a hb),
      fun b hb => h.sync b (List.mem_cons_of_mem a hb)⟩
  exact ⟨h.chained.1, hrest.update ha x⟩

end ThreadQueue

open ThreadQueue

namespace MutexPO

variable {x : MutexPO} {taken : Bool}

structure Holds (x : MutexPO) (synchros : Nat) (taken : Bool) (l : List Nat) : Prop where
  isTaken : x.isTaken = taken
  free : taken = false → l = []
  waiters : x.waiters.Holds synchros x.next l

theorem Holds.checkQueueConsistency (h : x.Holds synchros taken l) :
    x.checkQueueConsistency synchros = true := by
  rw [MutexPO.checkQueueConsistency, h.waiters.check, h.isTaken, Bool.true_and, Bool.or_eq_true,
    beq_iff_eq]
  cases taken with
  | true => exact .inl rfl
  | false => exact .inr (h.waiters.chained.eq_none_iff.mpr (h.free rfl))

theorem holds_created (synchros : Nat) : created.Holds synchros false [] :=
  ⟨rfl, fun _ => rfl, List.nodup_nil, nofun, rfl, nofun, nofun⟩

theorem testAndSetEntry_free (place : Nat) (h : x.Holds synchros false l) :
    x.testAndSetEntry synchros place = .ok (true, x.testAndSet synchros place) ∧
      (x.testAndSet synchros place).Holds synchros true l := by
  have hnone : x.next = none := h.waiters.chained.eq_none_iff.mpr (h.free rfl)
  have hnew : (x.testAndSet synchros place).Holds synchros true l := by
    rw [testAndSet, if_neg (by rw [h.isTaken]; decide)]
    refine ⟨rfl, nofun, h.waiters.update ?_ _⟩
    rw [h.free rfl]
    exact List.not_mem_nil
  refine ⟨?_, hnew⟩
  rw [testAndSetEntry, h.checkQueueConsistency, hnew.checkQueueConsistency, h.isTaken,
    if_neg (by decide), if_neg fun hc => hc.2 hnone, if_neg (by decide)]
  rfl

theorem testAndSetEntry_taken (h : x.Holds synchros true l) (ha : place ∉ l)
    (hlt : place < synchros) :
    x.testAndSetEntry synchros place = .ok (false, x.testAndSet synchros place) ∧
      (x.testAndSet synchros place).Holds synchros true (l ++ [place]) := by
  have hocc : (x.waiters.occupy place).Holds synchros x.next l := h.waiters.update ha _
  have hself : x.waiters.occupy place place =
      { x.waiters place with isWaiting := true, sync := place } := Function.update_self _ _ _
  have hnew : (x.testAndSet synchros place).Holds synchros true (l ++ [place]) := by
    rw [testAndSet, if_pos h.isTaken, queue]
    have hwalk := hocc.chained.walk (q := none) h.waiters.length_le
    rw [Option.or_none] at hwalk
    simp only [hwalk]
    cases hgl : l.getLast? with
    | none =>
      obtain rfl := List.getLast?_eq_none_iff.mp hgl
      refine ⟨h.isTaken, nofun, hocc.snoc ha hlt ?_ (fields_setNext place · x.next) ?_ ?_⟩
      · refine ⟨rfl, ?_⟩
        rw [links_setNext_self]
        exact h.waiters.chained
      · rw [hself]
      · rw [hself]
    | some b =>
      have hb : b ∈ l := List.mem_of_mem_getLast? hgl
      have hne : b ≠ place := by
        rintro rfl
        exact ha hb
      refine ⟨h.isTaken, nofun, hocc.snoc ha hlt ?_ (fun c => ?_) ?_ ?_⟩
      · have hsnoc := hocc.chained.snoc (a := place) ((((x.waiters.occupy place).setNext b
          (some place)).setNext place none).links) h.waiters.nodup ha ?_
          (links_setNext_self none) ?_
        · rwa [if_neg (List.ne_nil_of_mem hb)] at hsnoc
        · intro c hc
          rw [hgl] at hc
          obtain rfl := Option.some.inj hc
          rw [links_setNext hne, links_setNext_self]
        · intro c hc hcl
          have hcb : c ≠ b := by
            rintro rfl
            exact hcl hgl
          rw [links_setNext hc, links_setNext hcb]
      · obtain ⟨h1, h2⟩ := fields_setNext (w := (x.waiters.occupy place).setNext b (some place))
          place c none
        obtain ⟨h3, h4⟩ := fields_setNext (w := x.waiters.occupy place) b c (some place)
        exact ⟨h1.trans h3, h2.trans h4⟩
      · rw [hself]
      · rw [hself]
  refine ⟨?_, hnew⟩
  have htaken : ¬(true = false ∧ x.next ≠ none) := fun hc => nomatch hc.1
  rw [testAndSetEntry, h.checkQueueConsistency, hnew.checkQueueConsistency, h.isTaken,
    if_neg (by decide), if_neg htaken, if_neg (by decide)]
  rfl

theorem leave_nil (h : x.Holds synchros true []) :
    x.leave synchros = .ok (none, { x with isTaken := false, next := none }) ∧
      { x with isTaken := false, next := none }.Holds synchros false [] := by
  have hnone : x.next = none := h.waiters.chained
  have hnew : { x with isTaken := false, next := none }.Holds synchros false [] :=
    ⟨rfl, fun _ => rfl, List.nodup_nil, nofun, rfl, nofun, nofun⟩
  refine ⟨?_, hnew⟩
  rw [leave, h.checkQueueConsistency, if_neg (by decide)]
  simp only [hnone]
  rw [hnew.checkQueueConsistency, if_neg (by decide)]

theorem leave_cons (h : x.Holds synchros true (a :: l)) :
    x.leave synchros = .ok (some a, x.dequeue a) ∧ (x.dequeue a).Holds synchros true l := by
  obtain ⟨hnext, hrest⟩ := h.waiters.dequeue
    { x.waiters a with isWaiting := false, next := none }
  have hnew : (x.dequeue a).Holds synchros true l := ⟨rfl, nofun, hrest⟩
  refine ⟨?_, hnew⟩
  rw [leave, h.checkQueueConsistency, if_neg (by decide)]
  simp only [hnext]
  rw [hnew.checkQueueConsistency, h.waiters.isWaiting a List.mem_cons_self, if_neg (by decide),
    if_neg (by decide), h.waiters.sync a List.mem_cons_self]

end MutexPO

namespace ConditionPO

variable {x : ConditionPO}

structure Holds (x : ConditionPO) (synchros : Nat) (l : List Nat) : Prop where
  waiters : x.waiters.Holds synchros x.first l
  only : ∀ a, (x.waiters a).isWaiting = true → a ∈ l

theorem Holds.checkQueueConsistency (h : x.Holds synchros l) :
    x.checkQueueConsistency synchros = true := h.waiters.check

theorem holds_created (synchros : Nat) : created.Holds synchros [] :=
  ⟨⟨List.nodup_nil, nofun, rfl, nofun, nofun⟩, nofun⟩

theorem prepareWait_ok (h : x.Holds synchros l) (ha : place ∉ l) (hlt : place < synchros) :
    x.prepareWait synchros place = .ok (x.enqueue synchros place) ∧
      (x.enqueue synchros place).Holds synchros (l ++ [place]) := by
  have hocc : (x.waiters.occupy place).Holds synchros x.first l := h.waiters.update ha _
  have hself : x.waiters.occupy place place =
      { x.waiters place with isWaiting := true, sync := place } := Function.update_self _ _ _
  have honly (a : Nat) (hw : (x.waiters.occupy place a).isWaiting = true) : a ∈ l ++ [place] := by
    by_cases hne : a = place
    · exact List.mem_append_right l (List.mem_singleton.mpr hne)
    · rw [ThreadQueue.occupy, Function.update_of_ne hne] at hw
      exact List.mem_append_left _ (h.only a hw)
  have hnew : (x.enqueue synchros place).Holds synchros (l ++ [place]) := by
    rw [enqueue, queue]
    cases l with
    | nil =>
      have hnone : x.first = none := h.waiters.chained
      simp only [hnone]
      refine ⟨hocc.snoc ha hlt ⟨rfl, links_setNext_self none⟩ (fields_setNext place · none) ?_ ?_,
        fun a hw => honly a ?_⟩
      · rw [hself]
      · rw [hself]
      · rwa [(fields_setNext place a none).1] at hw
    | cons f l =>
      obtain ⟨hfirst, htail⟩ := hocc.chained
      have hlen := h.waiters.length_le
      rw [List.length_cons] at hlen
      have hwalk := htail.walk (q := some f) (show l.length ≤ synchros by omega)
      have hgl : (f :: l).getLast? = l.getLast?.or (some f) := by
        rw [List.getLast?_cons]
        cases l.getLast? <;> rfl
      rw [← hgl] at hwalk
      simp only [hfirst, hwalk]
      cases hlast : (f :: l).getLast? with
      | none => cases List.getLast?_eq_none_iff.mp hlast
      | some b =>
        have hb : b ∈ f :: l := List.mem_of_mem_getLast? hlast
        have hne : b ≠ place := by
          rintro rfl
          exact ha hb
        have hfields (c : Nat) : ((((x.waiters.occupy place).setNext b (some place)).setNext place
            none) c).isWaiting = (x.waiters.occupy place c).isWaiting ∧
            ((((x.waiters.occupy place).setNext b (some place)).setNext place none) c).sync =
              (x.waiters.occupy place c).sync := by
          obtain ⟨h1, h2⟩ := fields_setNext (w := (x.waiters.occupy place).setNext b (some place))
            place c none
          obtain ⟨h3, h4⟩ := fields_setNext (w := x.waiters.occupy place) b c (some place)
          exact ⟨h1.trans h3, h2.trans h4⟩
        refine ⟨hocc.snoc ha hlt ?_ hfields ?_ ?_, fun a hw => honly a ?_⟩
        · have hsnoc := hocc.chained.snoc (a := place) ((((x.waiters.occupy place).setNext b
            (some place)).setNext place none).links) h.waiters.nodup ha ?_ (links_setNext_self none) ?_
          · rw [if_neg (List.cons_ne_nil f l), hfirst] at hsnoc
            exact hsnoc
          · intro c hc
            rw [hlast] at hc
            obtain rfl := Option.some.inj hc
            rw [links_setNext hne, links_setNext_self]
          · intro c hc hcl
            have hcb : c ≠ b := by
              rintro rfl
              exact hcl hlast
            rw [links_setNext hc, links_setNext hcb]
        · rw [hself]
        · rw [hself]
        · rwa [(hfields a).1] at hw
  refine ⟨?_, hnew⟩
  rw [prepareWait, h.checkQueueConsistency, hnew.checkQueueConsistency, if_neg (by decide),
    if_neg (by decide)]

theorem signal_nil (h : x.Holds synchros []) : x.signal synchros = .ok (none, x) := by
  have hnone : x.first = none := h.waiters.chained
  rw [signal, h.checkQueueConsistency, if_neg (by decide)]
  simp [hnone]

theorem signal_cons (h : x.Holds synchros (a :: l)) :
    x.signal synchros = .ok (some a, x.dequeue a) ∧ (x.dequeue a).Holds synchros l := by
  obtain ⟨hfirst, hrest⟩ := h.waiters.dequeue
    { x.waiters a with isWaiting := false, next := none }
  have hnew : (x.dequeue a).Holds synchros l := by
    refine ⟨hrest, fun b hb => ?_⟩
    have hb : (Function.update x.waiters a
      { x.waiters a with isWaiting := false, next := none } b).isWaiting = true := hb
    by_cases hne : b = a
    · rw [hne, Function.update_self] at hb
      cases hb
    · rw [Function.update_of_ne hne] at hb
      exact (List.mem_cons.mp (h.only b hb)).resolve_left hne
  refine ⟨?_, hnew⟩
  rw [signal, h.checkQueueConsistency, if_neg (by decide)]
  simp only [hfirst]
  rw [hnew.checkQueueConsistency, if_neg (by decide), h.waiters.sync a List.mem_cons_self]

theorem broadcast_ok (h : x.Holds synchros l) :
    x.broadcast synchros = .ok (x.toFree synchros, x.empty) ∧ x.empty.Holds synchros [] ∧
      (x.toFree synchros).Perm l := by
  have hnew : x.empty.Holds synchros [] :=
    ⟨⟨List.nodup_nil, nofun, rfl, nofun, nofun⟩, nofun⟩
  refine ⟨?_, hnew, ?_⟩
  · rw [broadcast, h.checkQueueConsistency, hnew.checkQueueConsistency, if_neg (by decide),
      if_neg (by decide)]
  · have hmem (a : Nat) : a ∈ (List.range synchros).filter (fun i => (x.waiters i).isWaiting) ↔
        a ∈ l := by
      rw [List.mem_filter, List.mem_range]
      exact ⟨fun hm => h.only a hm.2, fun hm => ⟨h.waiters.lt a hm, h.waiters.isWaiting a hm⟩⟩
    have hself : x.toFree synchros =
        (List.range synchros).filter fun i => (x.waiters i).isWaiting := by
      conv_rhs => rw [← List.map_id ((List.range synchros).filter fun i => (x.waiters i).isWaiting)]
      refine List.map_congr_left fun a ha => ?_
      exact h.waiters.sync a ((hmem a).mp ha)
    rw [hself, List.perm_ext_iff_of_nodup (List.nodup_range.filter _) h.waiters.nodup]
    exact hmem

end ConditionPO

end PolyORB
