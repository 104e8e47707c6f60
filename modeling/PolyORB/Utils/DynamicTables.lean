import PolyORB.Types
import PolyORB.Lib.Runs
import PolyORB.Lib.Checked

/-!
# Dynamic tables

PolyORB.Utils.Dynamic_Tables.  A run ends at the first exception, so that what an instance holds
after one is left out.
-/

namespace PolyORB.DynamicTables

open Checked

def integerFirst : Int := -2 ^ 31

def integerLast : Int := 2 ^ 31 - 1

/-- The generic parameters, with the range of `Table_Index_Type`. -/
structure Parameters where
  indexFirst : Int
  indexLast : Int
  tableLowBound : Int
  tableInitial : Int
  tableIncrement : Int

/-- Tables from 1 on with ten components at first, which double. -/
def tenParameters : Parameters := ⟨1, integerLast, 1, 10, 100⟩

/-- A result of type Integer. -/
def checked (x : Int) : Except Exn Int :=
  if integerFirst ≤ x ∧ x ≤ integerLast then .ok x else .error .constraintError

theorem checked_of {x : Int} (h : integerFirst ≤ x ∧ x ≤ integerLast) : checked x = .ok x :=
  if_pos h

theorem checked_ok {x y : Int} (h : checked x = .ok y) : y = x ∧ x ≤ integerLast := by
  unfold checked at h
  split_ifs at h with hx
  exact ⟨(Except.ok.inj h).symm, hx.2⟩

/-- `Table` is the components from `Table_Low_Bound` on, `none` where nothing was assigned. -/
structure Instance (α : Type) where
  table : Option (List (Option α))
  max : Int
  length : Int
  lastVal : Int

variable {α : Type}

namespace Parameters

variable (p : Parameters)

def toIndex (x : Int) : Except Exn Int :=
  if p.indexFirst ≤ x ∧ x ≤ p.indexLast then .ok x else .error .constraintError

/-- An object of type Instance before `Initialize`. -/
def declare : Except Exn (Instance α) := do
  return ⟨none, 0, 0, ← checked (p.tableLowBound - 1)⟩

/-- The length after one iteration of the loop of `Reallocate`. -/
def nextLength (length : Int) : Except Exn Int := do
  let factor ← checked (100 + p.tableIncrement)
  let product ← checked (length * factor)
  return Max.max (Int.tdiv product 100) (← checked (length + 10))

theorem lt_nextLength {length next : Int} (h : p.nextLength length = .ok next) :
    length < next ∧ length < integerLast := by
  simp only [nextLength, bind_eq_ok] at h
  obtain ⟨factor, -, product, -, more, hmore, h⟩ := h
  have hnext : Max.max (Int.tdiv product 100) more = next := Except.ok.inj h
  obtain ⟨rfl, hle⟩ := checked_ok hmore
  have := le_max_right (Int.tdiv product 100) (length + 10)
  constructor <;> omega

/-- The loop of `Reallocate`: `Max` and `Length` at its end. -/
def growLoop (lastVal max length : Int) : Except Exn (Int × Int) :=
  if max < lastVal then
    match h : p.nextLength length with
    | .error e => .error e
    | .ok next => do
      let newMax ← checked ((← checked (p.tableLowBound + next)) - 1)
      growLoop lastVal newMax next
  else .ok (max, length)
termination_by (integerLast - length).toNat
decreasing_by
  have := p.lt_nextLength h
  omega

theorem growLoop_enough {lastVal max : Int} (h : lastVal ≤ max) (length : Int) :
    p.growLoop lastVal max length = .ok (max, length) := by
  rw [growLoop, if_neg (not_lt.mpr h)]

/-- `new Table_Type` of `length` components, the first ones those of `old`, which are assigned as
a slice with the bounds of `old`. -/
def newTable (max : Int) (old : List (Option α)) : Except Exn (List (Option α)) := do
  let _ ← p.toIndex max
  let n := (max - p.tableLowBound + 1).toNat
  if n < old.length then throw .constraintError
  return old ++ List.replicate (n - old.length) none

def reallocate (t : Instance α) : Except Exn (Instance α) := do
  let (max, length) ← p.growLoop t.lastVal t.max t.length
  match t.table with
  | none => return { t with max, length, table := some (← p.newTable max []) }
  | some old =>
    if p.tableLowBound ≤ max then
      return { t with max, length, table := some (← p.newTable max old) }
    else return { t with max, length }

def initializeTable (t : Instance α) : Except Exn (Instance α) := do
  let lastVal ← checked (p.tableLowBound - 1)
  let max ← checked ((← checked (p.tableLowBound + p.tableInitial)) - 1)
  let length ← checked ((← checked (max - p.tableLowBound)) + 1)
  if t.length = length then return { t with lastVal, max, length }
  else p.reallocate { t with lastVal, max, length }

/-- A new instance. -/
def start : Except Exn (Instance α) := p.declare >>= p.initializeTable

/-- The end of `Set_Last`, `Increment_Last` and `Allocate`, with the new `Last_Val`. -/
def moveLast (t : Instance α) (lastVal : Int) : Except Exn (Instance α) :=
  if t.max < lastVal then p.reallocate { t with lastVal } else .ok { t with lastVal }

def setLast (t : Instance α) (newVal : Int) : Except Exn (Instance α) := do
  p.moveLast t (← checked newVal)

def incrementLast (t : Instance α) : Except Exn (Instance α) := do
  p.moveLast t (← checked (t.lastVal + 1))

def decrementLast (t : Instance α) : Except Exn (Instance α) := do
  return { t with lastVal := ← checked (t.lastVal - 1) }

def allocate (t : Instance α) (num : Int) : Except Exn (Instance α) := do
  p.moveLast t (← checked (t.lastVal + num))

/-- `T.Table (J) := V`. -/
def assign (t : Instance α) (j : Int) (v : α) : Except Exn (Instance α) :=
  match t.table with
  | none => .error .constraintError
  | some cells =>
    if p.tableLowBound ≤ j ∧ (j - p.tableLowBound).toNat < cells.length then
      .ok { t with table := some (cells.set (j - p.tableLowBound).toNat (some v)) }
    else .error .constraintError

def release (t : Instance α) : Except Exn (Instance α) := do
  let length ← checked ((← checked (t.lastVal - p.tableLowBound)) + 1)
  p.reallocate { t with length, max := t.lastVal }

def duplicate (t : Instance α) : Except Exn (Instance α) := do
  let result : Instance α ← p.start
  let result ← p.setLast result (← p.toIndex t.lastVal)
  match result.table, t.table with
  | some a, some b =>
    if a.length = b.length then return { result with table := some b }
    else .error .constraintError
  | _, _ => .error .constraintError

end Parameters

/-- With `follow`, the run goes on with the copy that `Duplicate` returns. -/
inductive Operation (α : Type) where
  | setLast (newVal : Int)
  | incrementLast
  | decrementLast
  | allocate (num : Int)
  | assign (j : Int) (v : α)
  | release
  | duplicate (follow : Bool)

structure System (α : Type) where
  inst : Instance α
  /-- History: the value last written at each index, if `Last` was not below the index since. -/
  written : Int → Option α

namespace Parameters

variable (p : Parameters)

def perform (t : Instance α) : Operation α → Except Exn (Instance α)
  | .setLast newVal => p.setLast t newVal
  | .incrementLast => p.incrementLast t
  | .decrementLast => decrementLast t
  | .allocate num => p.allocate t num
  | .assign j v => p.assign t j v
  | .release => p.release t
  | .duplicate follow => do
    let copy ← p.duplicate t
    return if follow then copy else t

def writtenAfter (written : Int → Option α) (last : Int) : Operation α → Int → Option α
  | .assign j v => Function.update written j (some v)
  | _ => fun j => if j ≤ last then written j else none

def step (s : System α) (a : Operation α) : System α :=
  match p.perform s.inst a with
  | .ok t => ⟨t, writtenAfter s.written t.lastVal a⟩
  | .error _ => s

def initial : System α where
  inst := match p.start with
    | .ok t => t
    | .error _ => ⟨none, 0, 0, 0⟩
  written := fun _ => none

/-- What the callers promise. -/
def Possible (s : System α) : Operation α → Prop
  | .setLast newVal => p.indexFirst ≤ newVal ∧ newVal ≤ p.indexLast
  | .assign j _ => p.tableLowBound ≤ j ∧ j ≤ s.inst.lastVal
  | _ => True

/-! ## What a table has to do -/

def component (t : Instance α) (j : Int) : Option α :=
  t.table.bind fun cells =>
    if j < p.tableLowBound then none else cells[(j - p.tableLowBound).toNat]?.join

structure Keeps (s : System α) (a : Operation α) : Prop where
  returns : ∃ t, p.perform s.inst a = .ok t
  components : ∀ j v, (p.step s a).written j = some v →
    j ≤ (p.step s a).inst.lastVal ∧ p.component (p.step s a).inst j = some v
  released : a = .release → ∀ cells, (p.step s a).inst.table = some cells →
    (cells.length : Int) = (p.step s a).inst.lastVal - p.tableLowBound + 1
  duplicated : ∀ follow, a = .duplicate follow → ∃ copy, p.duplicate s.inst = .ok copy ∧
    copy.lastVal = s.inst.lastVal ∧ copy.table = s.inst.table

/-! ## When it does -/

/-- The increments lead from the length `l` to `m`, the first length that is at least `n`, by
numbers of type Integer. -/
inductive Grows (n : Int) : Int → Int → Prop where
  | enough {l : Int} : n ≤ l → Grows n l l
  | more {l m : Int} : l < n → 100 + p.tableIncrement ≤ integerLast →
      l * (100 + p.tableIncrement) ≤ integerLast → l + 10 ≤ integerLast →
      p.tableLowBound + Max.max (l * (100 + p.tableIncrement) / 100) (l + 10) ≤ integerLast →
      Grows n (Max.max (l * (100 + p.tableIncrement) / 100) (l + 10)) m → Grows n l m

/-- The table is long enough for `last`, or the increments lead to one that is. -/
def Room (t : Instance α) (last : Int) : Prop :=
  integerFirst ≤ last ∧ last ≤ integerLast ∧
    ∃ m, p.Grows (last - p.tableLowBound + 1) t.length m ∧ p.tableLowBound + m - 1 ≤ p.indexLast

/-- A table is released when it is full, and duplicated when its length is the one to which a new
table grows for `Last`. -/
def Meets (s : System α) : Operation α → Prop
  | .setLast newVal => p.Room s.inst newVal
  | .incrementLast => p.Room s.inst (s.inst.lastVal + 1)
  | .decrementLast => integerFirst ≤ s.inst.lastVal - 1
  | .allocate num => p.Room s.inst (s.inst.lastVal + num)
  | .assign _ _ => True
  | .release => s.inst.lastVal = s.inst.max
  | .duplicate _ => p.indexFirst ≤ s.inst.lastVal ∧
      p.Grows (s.inst.lastVal - p.tableLowBound + 1) p.tableInitial s.inst.length

/-- The parameters of an instance whose initial table can be allocated. -/
structure Valid : Prop where
  first : p.indexFirst ≤ p.tableLowBound
  low : integerFirst ≤ p.tableLowBound - 1
  initial : 1 ≤ p.tableInitial ∧ p.tableInitial ≤ integerLast
  high : p.tableLowBound + p.tableInitial ≤ integerLast
  last : p.tableLowBound + p.tableInitial - 1 ≤ p.indexLast
  increment : 0 ≤ p.tableIncrement

/-! ## The invariant -/

/-- The table is allocated from `Table_Low_Bound` to `Max` and has what was written. -/
structure Holds (t : Instance α) (written : Int → Option α) : Prop where
  exists_cells : ∃ cells, t.table = some cells ∧ (cells.length : Int) = t.length
  length_pos : 1 ≤ t.length
  length_le : t.length ≤ integerLast
  max_eq : t.max = p.tableLowBound + t.length - 1
  max_le : t.max ≤ p.indexLast
  max_lt : t.max < integerLast
  last_le : integerFirst ≤ t.lastVal ∧ t.lastVal ≤ t.max
  components : ∀ j v, written j = some v → j ≤ t.lastVal ∧ p.component t j = some v

variable {p} {t : Instance α} {written : Int → Option α}

theorem Grows.le {n l m : Int} (h : p.Grows n l m) : l ≤ m ∧ n ≤ m := by
  induction h with
  | enough h => exact ⟨le_rfl, h⟩
  | more _ _ _ _ _ _ ih => omega

theorem Grows.bound {n l m : Int} (h : p.Grows n l m)
    (hl : l ≤ integerLast ∧ p.tableLowBound + l ≤ integerLast) :
    m ≤ integerLast ∧ p.tableLowBound + m ≤ integerLast := by
  induction h with
  | enough _ => exact hl
  | more _ _ hproduct hmore hbound _ ih =>
    have hlast : 0 ≤ integerLast := by decide
    exact ih ⟨by omega, hbound⟩

theorem nextLength_eq {l : Int} (hp : p.Valid) (hl : 0 ≤ l)
    (hinc : 100 + p.tableIncrement ≤ integerLast)
    (hproduct : l * (100 + p.tableIncrement) ≤ integerLast) (hmore : l + 10 ≤ integerLast) :
    p.nextLength l = .ok (Max.max (l * (100 + p.tableIncrement) / 100) (l + 10)) := by
  have hfactor := hp.increment
  have hnonneg : 0 ≤ l * (100 + p.tableIncrement) := mul_nonneg hl (by omega)
  have hfirst : integerFirst ≤ 0 := by decide
  rw [nextLength, checked_of ⟨by omega, hinc⟩, bind_ok, checked_of ⟨by omega, hproduct⟩, bind_ok,
    checked_of ⟨by omega, hmore⟩, bind_ok, Int.tdiv_eq_ediv_of_nonneg hnonneg]
  rfl

theorem growLoop_eq {n l m : Int} (hp : p.Valid) (h : p.Grows n l m) (hl : 0 ≤ l) :
    p.growLoop (p.tableLowBound + n - 1) (p.tableLowBound + l - 1) l =
      .ok (p.tableLowBound + m - 1, m) := by
  induction h with
  | enough h => exact p.growLoop_enough (by omega) _
  | @more l m hlt hinc hproduct hmore hbound _ ih =>
    have hlow := hp.low
    have hnext := le_max_right (l * (100 + p.tableIncrement) / 100) (l + 10)
    rw [growLoop, if_pos (by omega)]
    split
    · rename_i e he
      rw [nextLength_eq hp hl hinc hproduct hmore] at he
      cases he
    · rename_i next he
      rw [nextLength_eq hp hl hinc hproduct hmore] at he
      obtain rfl := Except.ok.inj he
      rw [checked_of ⟨by omega, hbound⟩, bind_ok, checked_of ⟨by omega, by omega⟩, bind_ok]
      exact ih (by omega)

theorem newTable_ok (max : Int) (old : List (Option α))
    (hmax : p.indexFirst ≤ max ∧ max ≤ p.indexLast)
    (hold : (old.length : Int) ≤ max - p.tableLowBound + 1) :
    ∃ more, p.newTable max old = .ok (old ++ more) ∧
      ((old ++ more).length : Int) = max - p.tableLowBound + 1 := by
  refine ⟨List.replicate ((max - p.tableLowBound + 1).toNat - old.length) none, ?_, ?_⟩
  · rw [newTable, toIndex, if_pos hmax, bind_ok]
    dsimp only
    rw [if_neg (by omega)]
    rfl
  · rw [List.length_append, List.length_replicate]
    omega

/-- Components past the end of a table have no value. -/
theorem component_append {cells more : List (Option α)} {j : Int} {v : α}
    (ht : t.table = some cells) (h : p.component t j = some v) (t' : Instance α)
    (ht' : t'.table = some (cells ++ more)) : p.component t' j = some v := by
  rw [component, ht, Option.bind_some] at h
  rw [component, ht', Option.bind_some]
  split_ifs at h ⊢ with hj
  cases hc : cells[(j - p.tableLowBound).toNat]? with
  | none =>
    rw [hc] at h
    cases h
  | some c =>
    rw [List.getElem?_append_left (List.getElem?_eq_some_iff.mp hc).1, hc]
    rwa [hc] at h

/-- Moving `Last` within the table. -/
theorem Holds.restrict (h : p.Holds t written) {last : Int}
    (hlast : integerFirst ≤ last ∧ last ≤ t.max) :
    p.Holds { t with lastVal := last } fun j => if j ≤ last then written j else none := by
  refine ⟨h.exists_cells, h.length_pos, h.length_le, h.max_eq, h.max_le, h.max_lt, hlast,
    fun j v hj => ?_⟩
  split_ifs at hj with hjlast
  exact ⟨hjlast, (h.components j v hj).2⟩

theorem Holds.reallocate (hp : p.Valid) (h : p.Holds t written) {last m : Int}
    (hlast : p.tableLowBound ≤ last)
    (hm : p.Grows (last - p.tableLowBound + 1) t.length m)
    (hindex : p.tableLowBound + m - 1 ≤ p.indexLast) :
    ∃ t', p.reallocate { t with lastVal := last } = .ok t' ∧
      p.Holds t' (fun j => if j ≤ last then written j else none) ∧ t'.lastVal = last ∧
      t'.max = p.tableLowBound + m - 1 := by
  obtain ⟨⟨cells, hcells, hlength⟩, hpos, hlengthle, heq, hle, hlt, hlastle, hcomponents⟩ := h
  obtain ⟨hlm, hnm⟩ := hm.le
  obtain ⟨hmle, hbound⟩ := hm.bound ⟨hlengthle, by omega⟩
  have hlow := hp.low
  have hfirst := hp.first
  have hloop := growLoop_eq hp hm (by omega)
  rw [show p.tableLowBound + (last - p.tableLowBound + 1) - 1 = last by omega, ← heq] at hloop
  obtain ⟨more, hnew, hmore⟩ := newTable_ok _ cells ⟨by omega, hindex⟩ (by omega)
  refine ⟨⟨some (cells ++ more), p.tableLowBound + m - 1, m, last⟩, ?_,
    ⟨⟨_, rfl, ?_⟩, hpos.trans hlm, hmle, rfl, hindex, by dsimp only; omega,
      ⟨by dsimp only; omega, by dsimp only; omega⟩, fun j v hj => ?_⟩, rfl, rfl⟩
  · rw [Parameters.reallocate, hloop, bind_ok, hcells]
    dsimp only
    rw [if_pos (by omega), hnew, bind_ok]
    rfl
  · dsimp only
    omega
  · split_ifs at hj with hjlast
    exact ⟨hjlast, component_append hcells (hcomponents j v hj).2 _ rfl⟩

/-- Growth to a length that is an index keeps what was written. -/
theorem Holds.moveLast (hp : p.Valid) (h : p.Holds t written) {last m : Int}
    (hfirst : integerFirst ≤ last)
    (hm : p.Grows (last - p.tableLowBound + 1) t.length m)
    (hindex : p.tableLowBound + m - 1 ≤ p.indexLast) :
    ∃ t', p.moveLast t last = .ok t' ∧
      p.Holds t' (fun j => if j ≤ last then written j else none) ∧ t'.lastVal = last ∧
      t'.length = m := by
  have heq := h.max_eq
  have hpos := h.length_pos
  by_cases hmax : t.max < last
  · obtain ⟨t', ht', hheld, hlastVal, hmaxVal⟩ := h.reallocate hp (by omega) hm hindex
    refine ⟨t', ?_, hheld, hlastVal, ?_⟩
    · rw [Parameters.moveLast, if_pos hmax, ht']
    · have := hheld.max_eq
      omega
  · refine ⟨{ t with lastVal := last }, ?_, h.restrict ⟨hfirst, by omega⟩, rfl, ?_⟩
    · rw [Parameters.moveLast, if_neg hmax]
    · cases hm with
      | enough _ => rfl
      | more hlt => omega

theorem Holds.assign (h : p.Holds t written) {j : Int} (hj : p.tableLowBound ≤ j ∧ j ≤ t.lastVal)
    (v : α) : ∃ t', p.assign t j v = .ok t' ∧ p.Holds t' (Function.update written j (some v)) := by
  obtain ⟨⟨cells, hcells, hlength⟩, hpos, hlengthle, heq, hle, hlt, hlast, hcomponents⟩ := h
  refine ⟨{ t with table := some (cells.set (j - p.tableLowBound).toNat (some v)) }, ?_,
    ⟨⟨_, rfl, ?_⟩, hpos, hlengthle, heq, hle, hlt, hlast, fun i x hi => ?_⟩⟩
  · rw [Parameters.assign, hcells]
    exact if_pos ⟨hj.1, by omega⟩
  · rw [List.length_set]
    exact hlength
  · by_cases hij : i = j
    · subst hij
      rw [Function.update_self] at hi
      refine ⟨hj.2, ?_⟩
      rw [component, Option.bind_some, if_neg (by omega), List.getElem?_set_self (by omega), ← hi]
      rfl
    · rw [Function.update_of_ne hij] at hi
      obtain ⟨hilast, hcomponent⟩ := hcomponents i x hi
      refine ⟨hilast, ?_⟩
      rw [component, hcells, Option.bind_some] at hcomponent
      rw [component, Option.bind_some]
      split_ifs at hcomponent ⊢ with hilow
      rw [List.getElem?_set_ne (by omega)]
      exact hcomponent

theorem Holds.release (hp : p.Valid) (h : p.Holds t written) (hfull : t.lastVal = t.max) :
    ∃ t', p.release t = .ok t' ∧ p.Holds t' (fun j => if j ≤ t.lastVal then written j else none) ∧
      t'.lastVal = t.lastVal ∧ t'.max = t.lastVal := by
  have heq := h.max_eq
  have hpos := h.length_pos
  have hle := h.length_le
  have hfirst : integerFirst ≤ 0 := by decide
  have hgrows : p.Grows (t.lastVal - p.tableLowBound + 1) t.length t.length := .enough (by omega)
  obtain ⟨t', ht', hheld, hlast, hmax⟩ :=
    h.reallocate hp (by omega) hgrows (by have := h.max_le; omega)
  refine ⟨t', ?_, hheld, hlast, by omega⟩
  rw [Parameters.release, checked_of ⟨by omega, by omega⟩, bind_ok, checked_of ⟨by omega, by omega⟩,
    bind_ok, ← ht', show t.lastVal - p.tableLowBound + 1 = t.length by omega, hfull]

/-- A new table has its initial length. -/
theorem start_holds (hp : p.Valid) : ∃ t : Instance α, p.start = .ok t ∧
    p.Holds t (fun _ => none) ∧ t.length = p.tableInitial ∧ t.lastVal = p.tableLowBound - 1 := by
  obtain ⟨hfirst, hlow, ⟨hinitial, hinitialle⟩, hhigh, hlast, -⟩ := hp
  have hbounds : integerFirst ≤ 0 ∧ 1 ≤ integerLast := by decide
  obtain ⟨cells, hnew, hcells⟩ := newTable_ok (p := p) (p.tableLowBound + p.tableInitial - 1)
    ([] : List (Option α)) ⟨by omega, hlast⟩ (by simp; omega)
  refine ⟨⟨some cells, p.tableLowBound + p.tableInitial - 1, p.tableInitial, p.tableLowBound - 1⟩,
    ?_, ⟨⟨_, rfl, ?_⟩, hinitial, hinitialle, rfl, hlast, ?_, ?_, fun _ _ h => by cases h⟩, rfl, rfl⟩
  · rw [start, declare, checked_of ⟨by omega, by omega⟩, bind_ok, pure_eq, bind_ok, initializeTable,
      checked_of ⟨by omega, by omega⟩, bind_ok, checked_of ⟨by omega, by omega⟩, bind_ok,
      checked_of ⟨by omega, by omega⟩, bind_ok, checked_of ⟨by omega, by omega⟩, bind_ok,
      checked_of ⟨by omega, by omega⟩, bind_ok, if_neg (by dsimp only; omega), reallocate]
    dsimp only
    rw [p.growLoop_enough (by omega), bind_ok]
    dsimp only
    rw [hnew, bind_ok, show p.tableLowBound + p.tableInitial - 1 - p.tableLowBound + 1 =
      p.tableInitial by omega]
    rfl
  · dsimp only
    rw [List.nil_append] at hcells
    omega
  · dsimp only
    omega
  · dsimp only
    omega

theorem Holds.duplicate (hp : p.Valid) (h : p.Holds t written) (hindex : p.indexFirst ≤ t.lastVal)
    (hgrows : p.Grows (t.lastVal - p.tableLowBound + 1) p.tableInitial t.length) :
    ∃ copy, p.duplicate t = .ok copy ∧ copy.lastVal = t.lastVal ∧ copy.table = t.table ∧
      p.Holds copy written := by
  obtain ⟨start, hstart, hempty, hlength, -⟩ := start_holds (α := α) hp
  obtain ⟨⟨cells, hcells, hcellslength⟩, hpos, hlengthle, heq, hle, hlt, hlast, hcomponents⟩ := h
  rw [← hlength] at hgrows
  obtain ⟨r, hr, hheld, hlastVal, hrlength⟩ := hempty.moveLast hp hlast.1 hgrows (by omega)
  obtain ⟨rcells, hrcells, hrcellslength⟩ := hheld.exists_cells
  have hchecked := checked_of (x := t.lastVal) ⟨hlast.1, by omega⟩
  refine ⟨{ r with table := some cells }, ?_, hlastVal, hcells.symm, ?_⟩
  · rw [Parameters.duplicate, hstart, bind_ok, toIndex,
      if_pos ⟨hindex, by omega⟩, bind_ok, setLast, hchecked, bind_ok, hr, bind_ok, hrcells, hcells]
    exact if_pos (by omega)
  · have hreq := hheld.max_eq
    refine ⟨⟨cells, rfl, ?_⟩, ?_, ?_, hreq, hheld.max_le, hheld.max_lt, hheld.last_le,
      fun j v hj => ?_⟩
    · dsimp only
      omega
    · dsimp only
      omega
    · dsimp only
      omega
    · obtain ⟨hjlast, hcomponent⟩ := hcomponents j v hj
      refine ⟨hlastVal ▸ hjlast, ?_⟩
      rw [component, hcells] at hcomponent
      exact hcomponent

variable {s : System α} {a : Operation α}

theorem perform_holds (hp : p.Valid) (h : p.Holds s.inst s.written) (ha : p.Possible s a)
    (hm : p.Meets s a) : ∃ t, p.perform s.inst a = .ok t ∧
      p.Holds t (writtenAfter s.written t.lastVal a) := by
  have hmove : ∀ last, p.Room s.inst last → ∃ t, (checked last >>= p.moveLast s.inst) = .ok t ∧
      p.Holds t fun j => if j ≤ t.lastVal then s.written j else none := by
    rintro last ⟨hfirst, hlast, m, hgrows, hindex⟩
    obtain ⟨t, ht, hheld, hlastVal, -⟩ := h.moveLast hp hfirst hgrows hindex
    exact ⟨t, by rw [checked_of ⟨hfirst, hlast⟩, bind_ok, ht], by rwa [hlastVal]⟩
  cases a with
  | setLast newVal => exact hmove _ hm
  | incrementLast => exact hmove _ hm
  | decrementLast =>
    have hlast := h.last_le
    have hlt := h.max_lt
    refine ⟨{ s.inst with lastVal := s.inst.lastVal - 1 }, ?_, h.restrict ⟨hm, by omega⟩⟩
    rw [perform, decrementLast, checked_of ⟨hm, by omega⟩]
    rfl
  | allocate num => exact hmove _ hm
  | assign j v => exact h.assign ha v
  | release =>
    obtain ⟨t, ht, hheld, hlast, -⟩ := h.release hp hm
    refine ⟨t, ht, ?_⟩
    rwa [← hlast] at hheld
  | duplicate follow =>
    obtain ⟨copy, hcopy, -, -, hheld⟩ := h.duplicate hp hm.1 hm.2
    refine ⟨if follow then copy else s.inst, by rw [perform, hcopy]; rfl, ?_⟩
    cases follow with
    | true => exact hheld.restrict hheld.last_le
    | false => exact h.restrict h.last_le

theorem step_keeps (hp : p.Valid) (h : p.Holds s.inst s.written) (ha : p.Possible s a)
    (hm : p.Meets s a) :
    p.Keeps s a ∧ p.Holds (p.step s a).inst (p.step s a).written := by
  obtain ⟨t, ht, hheld⟩ := perform_holds hp h ha hm
  have hstep : p.step s a = ⟨t, writtenAfter s.written t.lastVal a⟩ := by rw [step, ht]
  refine ⟨⟨⟨t, ht⟩, ?_, ?_, ?_⟩, ?_⟩
  · rw [hstep]
    exact hheld.components
  · rintro rfl cells hcells
    obtain ⟨t', ht', -, hlast, hmax⟩ := h.release hp hm
    obtain rfl := ok_inj ht' ht
    obtain ⟨cells', hcells', hlength⟩ := hheld.exists_cells
    have heq := hheld.max_eq
    rw [hstep] at hcells ⊢
    rw [hcells'] at hcells
    obtain rfl := Option.some.inj hcells
    dsimp only
    omega
  · rintro follow rfl
    obtain ⟨copy, hcopy, hlast, htable, -⟩ := h.duplicate hp hm.1 hm.2
    exact ⟨copy, hcopy, hlast, htable⟩
  · rw [hstep]
    exact hheld

/-- In a run whose steps meet the condition, tables keep their contents. -/
theorem keeps_run (hp : p.Valid) (as : List (Operation α))
    (h : Runs.Along p.step p.Possible p.initial as)
    (hm : Runs.Along p.step p.Meets p.initial as) :
    (∃ t, p.start = .ok (t : Instance α)) ∧ Runs.Along p.step p.Keeps p.initial as := by
  obtain ⟨t, ht, hheld, -⟩ := start_holds (α := α) hp
  have hinitial : p.initial = ⟨t, fun _ => none⟩ := by rw [initial, ht]
  rw [hinitial] at h hm ⊢
  have hstep : ∀ (s : System α) a, p.Holds s.inst s.written → p.Possible s a ∧ p.Meets s a →
      p.Keeps s a ∧ p.Holds (p.step s a).inst (p.step s a).written :=
    fun s a hs ha => step_keeps hp hs ha.1 ha.2
  exact ⟨⟨t, ht⟩, Runs.along_of_inv hstep as _ hheld (Runs.along_and as h hm)⟩

theorem initial_ten : tenParameters.initial (α := Bool) =
    ⟨⟨some (List.replicate 10 none), 10, 10, 0⟩, fun _ => none⟩ := by
  simp [initial, start, declare, initializeTable, reallocate, growLoop_enough, newTable, toIndex,
    checked, tenParameters, integerFirst, integerLast]

theorem tenParameters_valid : tenParameters.Valid :=
  ⟨by decide, by decide, by decide, by decide, by decide, by decide⟩

theorem grows_twenty {n : Int} (h : 10 < n ∧ n ≤ 20) : tenParameters.Grows n 10 20 :=
  .more h.1 (by decide) (by decide) (by decide) (by decide) (.enough h.2)

theorem growLoop_twenty :
    growLoop ⟨1, 2147483647, 1, 10, 100⟩ 15 10 10 = .ok (20, 20) :=
  growLoop_eq tenParameters_valid (grows_twenty (n := 15) (by decide)) (by decide)

/-- A table of ten components that grows, and is then filled, released and duplicated. -/
theorem keeps_run_ten :
    Runs.Along tenParameters.step tenParameters.Keeps tenParameters.initial
      [.setLast 15, .assign 15 true, .allocate 5, .release, .duplicate true] := by
  refine (keeps_run tenParameters_valid
    [.setLast 15, .assign 15 true, .allocate 5, .release, .duplicate true] ?_ ?_).2
  · rw [initial_ten]
    simp [Runs.Along, step, perform, Possible, setLast, moveLast, checked, reallocate, newTable,
      toIndex, growLoop_twenty, tenParameters, integerFirst, integerLast]
  · rw [initial_ten]
    simp [Runs.Along, step, perform, Meets, Room, setLast, moveLast, assign, allocate, checked,
      release, reallocate, growLoop_enough, growLoop_twenty, newTable, toIndex, tenParameters,
      integerFirst, integerLast]
    exact ⟨⟨20, grows_twenty (by decide), by decide⟩, ⟨20, .enough le_rfl, by decide⟩,
      grows_twenty (by decide)⟩

/-- A table of ten components of which five are used cannot be released. -/
theorem not_keeps_run_five :
    Runs.Along tenParameters.step tenParameters.Possible tenParameters.initial
        [.setLast 5, (.release : Operation Bool)] ∧
      ¬Runs.Along tenParameters.step tenParameters.Keeps tenParameters.initial
        [.setLast 5, (.release : Operation Bool)] := by
  rw [initial_ten]
  constructor
  · simp [Runs.Along, Possible, tenParameters, integerLast]
  · rintro ⟨-, ⟨⟨t, ht⟩, -⟩, -⟩
    simp [step, perform, setLast, moveLast, checked, release, reallocate, growLoop_enough, newTable,
      toIndex, tenParameters, integerFirst, integerLast] at ht
    cases ht

end Parameters

end PolyORB.DynamicTables
