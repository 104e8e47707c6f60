import PolyORB.Types

/-!
# Index managers

PolyORB.Tasking.Profiles.Ravenscar.Index_Manager: the indexes that are free are a stack in an array,
that wraps around.
-/

namespace PolyORB

structure IndexManager where
  numberOfIndices : Nat
  initialized : Bool
  freeStack : Nat → Nat
  offset : Nat
  numberOfUsed : Nat
  used : Nat → Bool

namespace IndexManager

/-- Before `Initialize`. -/
def elaborated (numberOfIndices : Nat) : IndexManager :=
  { numberOfIndices := numberOfIndices
    initialized := false
    freeStack := fun _ => 0
    offset := 0
    numberOfUsed := 0
    used := fun _ => false }

def modular (x : IndexManager) (i : Int) : Nat := (i % (x.numberOfIndices : Int)).toNat

/-- `Free_Stack (Offset)` is taken. -/
def pop (x : IndexManager) : IndexManager :=
  { x with
    offset := x.modular (x.offset - 1)
    numberOfUsed := x.numberOfUsed + 1
    used := Function.update x.used (x.freeStack x.offset) true }

def get (x : IndexManager) : Except Exn (Nat × IndexManager) :=
  if x.initialized = false then .error .assertionError
  else if x.numberOfIndices ≤ x.numberOfUsed then .error .taskingError
  else .ok (x.freeStack x.offset, x.pop)

def fill (x : IndexManager) : IndexManager :=
  { x with
    freeStack := fun j => j
    used := fun _ => false
    numberOfUsed := 0
    offset := x.numberOfIndices - 1
    initialized := true }

def init (x : IndexManager) (errorOnInitialize : Bool) : Except Exn IndexManager :=
  if x.initialized = true then
    if errorOnInitialize = true then .error .assertionError else .ok x
  -- `Free_Stack'Last` is no index
  else if x.numberOfIndices = 0 then .error .constraintError
  else .ok x.fill

def push (x : IndexManager) (id : Nat) : IndexManager :=
  { x with
    offset := x.modular (x.offset + 1)
    freeStack := Function.update x.freeStack (x.modular (x.offset + 1)) id
    numberOfUsed := x.numberOfUsed - 1
    used := Function.update x.used id false }

def release (x : IndexManager) (id : Nat) : Except Exn IndexManager :=
  if x.initialized = false then .error .assertionError
  else if x.used id = false then .error .programError
  else .ok (x.push id)

variable {x : IndexManager} {id : Nat} {free : List Nat}

/-- The place of the array that is `j` below the top of the stack. -/
def place (x : IndexManager) (j : Nat) : Nat :=
  if j ≤ x.offset then x.offset - j else x.offset + x.numberOfIndices - j

/-- The indexes `free` are on the stack, and they are those that are not in use. -/
structure Holds (x : IndexManager) (free : List Nat) : Prop where
  initialized : x.initialized = true
  offset : x.offset < x.numberOfIndices
  nodup : free.Nodup
  mem : ∀ i, i ∈ free ↔ i < x.numberOfIndices ∧ x.used i = false
  used : ∀ i, x.used i = true → i < x.numberOfIndices
  count : x.numberOfUsed + free.length = x.numberOfIndices
  stack : ∀ j i, free[j]? = some i → x.freeStack (x.place j) = i

def Valid (x : IndexManager) : Prop := ∃ free, x.Holds free

theorem Valid.initialized (h : x.Valid) : x.initialized = true := by
  obtain ⟨free, h⟩ := h
  exact h.initialized

theorem modular_pred (h : x.offset < x.numberOfIndices) :
    x.modular (x.offset - 1) =
      if x.offset = 0 then x.numberOfIndices - 1 else x.offset - 1 := by
  unfold modular
  split
  · rename_i h0
    rw [h0, show ((0 : Nat) : Int) - 1 = (x.numberOfIndices - 1 : Int) - x.numberOfIndices by omega,
      Int.sub_emod_right, Int.emod_eq_of_lt (by omega) (by omega)]
    omega
  · rw [Int.emod_eq_of_lt (by omega) (by omega)]
    omega

theorem modular_succ (h : x.offset < x.numberOfIndices) :
    x.modular (x.offset + 1) =
      if x.offset + 1 = x.numberOfIndices then 0 else x.offset + 1 := by
  unfold modular
  split
  · rename_i h0
    rw [show (x.offset : Int) + 1 = x.numberOfIndices by omega, Int.emod_self]
    rfl
  · rw [Int.emod_eq_of_lt (by omega) (by omega)]
    omega

theorem valid_fill (h : 0 < x.numberOfIndices) : x.fill.Valid := by
  refine ⟨(List.range x.numberOfIndices).reverse, rfl, ?_, ?_, ?_, nofun, ?_, ?_⟩
  · show x.numberOfIndices - 1 < x.numberOfIndices
    omega
  · rw [List.nodup_reverse]
    exact List.nodup_range
  · intro i
    simp [fill]
  · simp [fill]
  · intro j i hi
    obtain ⟨hlt, rfl⟩ := List.getElem?_eq_some_iff.mp hi
    simp only [List.length_reverse, List.length_range] at hlt
    have hle : j ≤ x.fill.offset := by
      show j ≤ x.numberOfIndices - 1
      omega
    simp only [List.getElem_reverse, List.getElem_range, List.length_range]
    rw [place, if_pos hle]
    rfl

theorem init_of_not (h : x.initialized = false) (hpos : 0 < x.numberOfIndices) (error : Bool) :
    x.init error = .ok x.fill := by
  rw [init, h, if_neg (by decide), if_neg hpos.ne']

theorem init_error (h : x.initialized = false) (hzero : x.numberOfIndices = 0) (error : Bool) :
    x.init error = .error .constraintError := by
  rw [init, h, if_neg (by decide), if_pos hzero]

theorem init_of_valid (h : x.Valid) : x.init false = .ok x := by
  rw [init, h.initialized]
  rfl

theorem get_error (h : x.Valid) (hu : x.numberOfIndices ≤ x.numberOfUsed) :
    x.get = .error .taskingError := by
  rw [get, h.initialized, if_neg (by decide), if_pos hu]

theorem get_ok (h : x.Valid) (hu : x.numberOfUsed < x.numberOfIndices) :
    ∃ id, x.get = .ok (id, x.pop) ∧ x.pop.Valid ∧ id < x.numberOfIndices ∧ x.used id = false ∧
      x.pop.used = Function.update x.used id true := by
  obtain ⟨free, h⟩ := h
  have hcount := h.count
  cases free with
  | nil =>
    simp at hcount
    omega
  | cons id free =>
    have htop : x.freeStack x.offset = id := by
      have := h.stack 0 id rfl
      rwa [place, if_pos (Nat.zero_le _)] at this
    obtain ⟨hid, hnd⟩ := List.nodup_cons.mp h.nodup
    obtain ⟨hlt, hfree⟩ := (h.mem id).mp List.mem_cons_self
    have hoff := h.offset
    have hused : x.pop.used = Function.update x.used id true := by rw [pop, htop]
    refine ⟨id, ?_, ⟨free, ?_⟩, hlt, hfree, hused⟩
    · rw [get, h.initialized, if_neg (by decide), if_neg (by omega), htop]
    · refine ⟨h.initialized, ?_, hnd, ?_, ?_, ?_, ?_⟩
      · show x.modular (x.offset - 1) < x.numberOfIndices
        rw [modular_pred hoff]
        split <;> omega
      · intro i
        rw [hused]
        show i ∈ free ↔ i < x.numberOfIndices ∧ _
        have := h.mem i
        by_cases hi : i = id
        · subst hi
          simp [hid]
        · rw [Function.update_of_ne hi, ← this, List.mem_cons]
          exact ⟨.inr, fun hm => hm.resolve_left hi⟩
      · intro i hi
        rw [hused] at hi
        by_cases hne : i = id
        · exact hne ▸ hlt
        · exact h.used i (by rwa [Function.update_of_ne hne] at hi)
      · show x.numberOfUsed + 1 + free.length = x.numberOfIndices
        rw [List.length_cons] at hcount
        omega
      · intro j i hi
        have hj := (List.getElem?_eq_some_iff.mp hi).1
        have := h.stack (j + 1) i hi
        rw [List.length_cons] at hcount
        rw [← this]
        show x.freeStack (x.pop.place j) = _
        congr 1
        simp only [place, pop, modular_pred hoff]
        split_ifs <;> omega

theorem release_ok (h : x.Valid) (hu : x.used id = true) :
    x.release id = .ok (x.push id) ∧ (x.push id).Valid ∧ 0 < x.numberOfUsed := by
  obtain ⟨free, h⟩ := h
  have hoff := h.offset
  have hcount := h.count
  have hlt := h.used id hu
  have hfresh : id ∉ free := fun hm => by
    rw [((h.mem id).mp hm).2] at hu
    cases hu
  -- an index in use leaves a place on the stack
  have hroom : free.length < x.numberOfIndices := by
    have hsub : id :: free ⊆ List.range x.numberOfIndices := by
      intro i hi
      rw [List.mem_range]
      rcases List.mem_cons.mp hi with rfl | hi
      · exact hlt
      · exact ((h.mem i).mp hi).1
    have := (List.subperm_of_subset (List.nodup_cons.mpr ⟨hfresh, h.nodup⟩) hsub).length_le
    simpa using this
  refine ⟨?_, ⟨id :: free, ?_⟩, by omega⟩
  · rw [release, h.initialized, hu, if_neg (by decide), if_neg (by decide)]
  · refine ⟨h.initialized, ?_, List.nodup_cons.mpr ⟨hfresh, h.nodup⟩, ?_, ?_, ?_, ?_⟩
    · show x.modular (x.offset + 1) < x.numberOfIndices
      rw [modular_succ hoff]
      split <;> omega
    · intro i
      show i ∈ id :: free ↔ i < x.numberOfIndices ∧ Function.update x.used id false i = false
      by_cases hi : i = id
      · subst hi
        simp [hlt]
      · rw [Function.update_of_ne hi, ← h.mem i, List.mem_cons]
        exact ⟨fun hm => hm.resolve_left hi, .inr⟩
    · intro i hi
      by_cases hne : i = id
      · exact hne ▸ hlt
      · have hi : Function.update x.used id false i = true := hi
        exact h.used i (by rwa [Function.update_of_ne hne] at hi)
    · show x.numberOfUsed - 1 + (id :: free).length = x.numberOfIndices
      rw [List.length_cons]
      omega
    · intro j i hi
      show Function.update x.freeStack (x.modular (x.offset + 1)) id
        ((x.push id).place j) = i
      cases j with
      | zero =>
        obtain rfl := Option.some.inj hi
        exact Function.update_self _ _ _
      | succ j =>
        have hi : free[j]? = some i := hi
        have hj := (List.getElem?_eq_some_iff.mp hi).1
        rw [← h.stack j i hi, Function.update_of_ne]
        · congr 1
          simp only [place, push, modular_succ hoff]
          split_ifs <;> omega
        · simp only [place, push, modular_succ hoff]
          split_ifs <;> omega

end IndexManager

end PolyORB
