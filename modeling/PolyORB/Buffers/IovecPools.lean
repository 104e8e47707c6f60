import PolyORB.Lib.Chunks

/-!
# Iovec pools

The iovecs of a buffer are kept in an array of `Prealloc_Size` entries and, when there are more, in
one that is allocated.  An extraction leaves behind the number of the iovec where it ended and the
offset of that iovec, from which the next one goes on.
-/

namespace PolyORB

namespace IovecPools

def preallocSize : Nat := 8

/-- The chunk that the last iovec lies in. -/
structure Chunk where
  size : Nat
  lastUsed : Nat
  deriving DecidableEq

/-- An array of iovecs, from 1 on, each with the octets that it designates. -/
abbrev IovecArray := Nat → List UInt8

structure IovecPool where
  preallocArray : IovecArray
  dynamicArray : Option IovecArray
  /-- The length of the array in use. -/
  length : Nat
  last : Nat
  lastChunk : Option Chunk
  lastExtractIovec : Nat
  lastExtractIovecOffset : Nat

def new : IovecPool :=
  { preallocArray := fun _ => [], dynamicArray := none, length := preallocSize, last := 0
    lastChunk := none, lastExtractIovec := 1, lastExtractIovecOffset := 0 }

def iovecs (pool : IovecPool) : IovecArray := pool.dynamicArray.getD pool.preallocArray

def vecs (pool : IovecPool) : List (List UInt8) :=
  (List.range pool.last).map fun j => iovecs pool (j + 1)

/-- `Extend`: the iovecs move to a larger array. -/
def extend (pool : IovecPool) (require allocate : Nat) : IovecPool :=
  if pool.length < require then
    { pool with
      dynamicArray := some fun j => if j ≤ pool.last then iovecs pool j else []
      length := allocate }
  else pool

def append (pool : IovecPool) (iovec : List UInt8) (chunk : Option Chunk) : IovecPool :=
  let newLast := pool.last + 1
  let pool := { extend pool newLast (2 * pool.length) with last := newLast, lastChunk := chunk }
  match pool.dynamicArray with
  | some a => { pool with dynamicArray := some (Function.update a newLast iovec) }
  | none => { pool with preallocArray := Function.update pool.preallocArray newLast iovec }

/-- The array that `Grow_Shrink` changes is chosen by the number of the last iovec. -/
def setLast (pool : IovecPool) (f : List UInt8 → List UInt8) : IovecPool :=
  if pool.last ≤ preallocSize then
    { pool with
      preallocArray :=
        Function.update pool.preallocArray pool.last (f (pool.preallocArray pool.last)) }
  else
    { pool with
      dynamicArray := pool.dynamicArray.map fun a => Function.update a pool.last (f (a pool.last)) }

/-- The last iovec, as `Grow_Shrink` finds it. -/
def lastIovec (pool : IovecPool) : List UInt8 :=
  if pool.last ≤ preallocSize then pool.preallocArray pool.last
  else (pool.dynamicArray.map (· pool.last)).getD []

def canGrow (pool : IovecPool) (size : Nat) : Bool :=
  decide (0 < pool.last) && decide (0 < size) &&
    pool.lastChunk.any fun c => decide (c.lastUsed + size ≤ c.size)

/-- Whether it can be shrunk. -/
def canShrink (pool : IovecPool) (size : Nat) : Bool :=
  decide (0 < pool.last) && decide (0 < size) && decide (size ≤ (lastIovec pool).length) &&
    pool.lastChunk.any fun c => decide (size ≤ c.lastUsed)

/-- `Grow_Shrink` with a positive size, the new octets being `xs`; `none` if it cannot. -/
def grow (pool : IovecPool) (xs : List UInt8) : Option IovecPool :=
  if canGrow pool xs.length = true then
    some { setLast pool (· ++ xs) with
      lastChunk := pool.lastChunk.map fun c => { c with lastUsed := c.lastUsed + xs.length } }
  else none

/-- `Grow_Shrink` with a negative size: nothing happens if it cannot. -/
def shrink (pool : IovecPool) (size : Nat) : IovecPool :=
  if canShrink pool size = true then
    { setLast pool fun v => v.take (v.length - size) with
      lastChunk := pool.lastChunk.map fun c => { c with lastUsed := c.lastUsed - size } }
  else pool

def release (pool : IovecPool) : IovecPool :=
  { pool with
    dynamicArray := none, last := 0, length := preallocSize
    lastExtractIovec := 1, lastExtractIovecOffset := 0 }

/-! ## Extract_Data -/

/-- The loop: the iovecs that end at or before the offset are skipped. -/
def skipIovecs : List (List UInt8) → Nat → Nat → Int → Nat × Nat × Int
  | [], index, offset, remainder => (index, offset, remainder)
  | v :: vs, index, offset, remainder =>
    if v.length ≤ remainder then
      skipIovecs vs (index + 1) (offset + v.length) (remainder - v.length)
    else (index, offset, remainder)

/-- The address of data in an iovec, and how much of it there is. -/
structure Extract where
  data : Option (Nat × Int)
  size : Nat
  deriving DecidableEq

/-- The data at the place where the loop ended. -/
def extractAt (vs : List (List UInt8)) (index : Nat) (remainder : Int) (size : Nat) : Extract :=
  match vs[index - 1]? with
  | none => ⟨none, 0⟩
  | some v =>
    ⟨some (index, remainder), if 1 < size then min size (v.length - remainder).toNat else size⟩

/-- Where the search starts: an offset before the last one makes it start again. -/
def searchFrom (pool : IovecPool) (offset : Int) : Nat × Nat × Int :=
  if offset < pool.lastExtractIovecOffset then (1, 0, offset)
  else (pool.lastExtractIovec, pool.lastExtractIovecOffset, offset - pool.lastExtractIovecOffset)

def extractData (pool : IovecPool) (offset : Int) (size : Nat) : IovecPool × Extract :=
  let (index, lastOffset, remainder) := searchFrom pool offset
  let (index, lastOffset, remainder) :=
    skipIovecs ((vecs pool).drop (index - 1)) index lastOffset remainder
  ({ pool with lastExtractIovec := index, lastExtractIovecOffset := lastOffset },
    extractAt (vecs pool) index remainder size)

/-- The octets that an extraction designates. -/
def designated (pool : IovecPool) (e : Extract) : List UInt8 :=
  match e.data with
  | none => []
  | some (index, remainder) =>
    (((vecs pool)[index - 1]?.getD []).drop remainder.toNat).take e.size

/-- The search that does not use the cache. -/
def extractFromFirst (pool : IovecPool) (offset : Int) (size : Nat) : Extract :=
  (extractData { pool with lastExtractIovec := 1, lastExtractIovecOffset := 0 } offset size).2

/-! ## The two arrays -/

/-- The array in use is the one that its length says. -/
structure WellFormed (pool : IovecPool) : Prop where
  last_le : pool.last ≤ pool.length
  prealloc : pool.dynamicArray = none → pool.length = preallocSize
  dynamic : pool.dynamicArray ≠ none → preallocSize < pool.last

variable {pool : IovecPool}

theorem wellFormed_new : WellFormed new where
  last_le := Nat.zero_le _
  prealloc _ := rfl
  dynamic h := absurd rfl h

theorem WellFormed.release (_h : WellFormed pool) : WellFormed (release pool) where
  last_le := Nat.zero_le _
  prealloc _ := rfl
  dynamic h := absurd rfl h

@[simp] theorem length_vecs (pool : IovecPool) : (vecs pool).length = pool.last := by
  rw [vecs, List.length_map, List.length_range]

theorem vecs_succ {n : Nat} (h : pool.last = n + 1) :
    vecs pool = (List.range n).map (fun j => iovecs pool (j + 1)) ++ [iovecs pool (n + 1)] := by
  rw [vecs, h, List.range_succ, List.map_append, List.map_singleton]

namespace WellFormed

theorem lastIovec_eq (h : WellFormed pool) : lastIovec pool = iovecs pool pool.last := by
  unfold lastIovec iovecs
  cases hd : pool.dynamicArray with
  | none =>
    have hle := h.last_le
    rw [h.prealloc hd] at hle
    rw [if_pos hle, Option.getD_none]
  | some a =>
    have hlt := h.dynamic (by rw [hd]; exact nofun)
    rw [if_neg (by omega), Option.map_some, Option.getD_some, Option.getD_some]

theorem iovecs_setLast (h : WellFormed pool) (f : List UInt8 → List UInt8) :
    iovecs (setLast pool f) = Function.update (iovecs pool) pool.last (f (lastIovec pool)) := by
  rw [h.lastIovec_eq]
  unfold setLast iovecs
  cases hd : pool.dynamicArray with
  | none =>
    have hle := h.last_le
    rw [h.prealloc hd] at hle
    rw [if_pos hle, Option.getD_none]
    rfl
  | some a =>
    have hlt := h.dynamic (by rw [hd]; exact nofun)
    rw [if_neg (by omega), Option.getD_some]
    rfl

theorem last_setLast (pool : IovecPool) (f : List UInt8 → List UInt8) :
    (setLast pool f).last = pool.last := by
  unfold setLast
  split_ifs <;> rfl

theorem vecs_setLast (h : WellFormed pool) (hpos : 0 < pool.last) (f : List UInt8 → List UInt8) :
    ∃ init, vecs pool = init ++ [lastIovec pool] ∧
      vecs (setLast pool f) = init ++ [f (lastIovec pool)] := by
  obtain ⟨n, hn⟩ := Nat.exists_eq_succ_of_ne_zero hpos.ne'
  refine ⟨(List.range n).map fun j => iovecs pool (j + 1), ?_, ?_⟩
  · rw [vecs_succ hn, h.lastIovec_eq, hn]
  · rw [vecs_succ ((last_setLast pool f).trans hn), h.iovecs_setLast f, hn, Function.update_self]
    congr 1
    refine List.map_congr_left fun j hj => Function.update_of_ne ?_ ..
    have := List.mem_range.mp hj
    omega

theorem lastIovec_of_vecs {init : List (List UInt8)} {v : List UInt8} (h : WellFormed pool)
    (hv : vecs pool = init ++ [v]) : lastIovec pool = v := by
  have hpos : 0 < pool.last := by
    rw [← length_vecs, hv, List.length_append]
    exact Nat.succ_pos _
  obtain ⟨init', hl, -⟩ := h.vecs_setLast hpos id
  rw [hv] at hl
  exact (List.cons.inj (List.append_inj' hl rfl).2).1.symm

theorem setLast (h : WellFormed pool) (f : List UInt8 → List UInt8) :
    WellFormed (setLast pool f) := by
  unfold IovecPools.setLast
  split_ifs with hle
  · exact ⟨h.last_le, h.prealloc, h.dynamic⟩
  · refine ⟨h.last_le, fun hd => h.prealloc ?_, fun hd => h.dynamic ?_⟩
    · exact Option.map_eq_none_iff.mp hd
    · exact fun hn => hd (by rw [hn, Option.map_none])

theorem extend (h : WellFormed pool) :
    (extend pool (pool.last + 1) (2 * pool.length)).last + 1 ≤
        (extend pool (pool.last + 1) (2 * pool.length)).length ∧
      ((extend pool (pool.last + 1) (2 * pool.length)).dynamicArray = none →
        (extend pool (pool.last + 1) (2 * pool.length)).length = preallocSize) ∧
      ((extend pool (pool.last + 1) (2 * pool.length)).dynamicArray ≠ none →
        preallocSize < pool.last + 1) ∧
      vecs (extend pool (pool.last + 1) (2 * pool.length)) = vecs pool := by
  have hle := h.last_le
  have hlen : preallocSize ≤ pool.length := by
    cases hd : pool.dynamicArray with
    | none => exact (h.prealloc hd).ge
    | some a => exact (h.dynamic (by rw [hd]; exact nofun)).le.trans hle
  have h8 : preallocSize = 8 := rfl
  unfold IovecPools.extend
  split_ifs with hlt
  · refine ⟨by dsimp only; omega, nofun, fun _ => by omega, ?_⟩
    refine List.map_congr_left fun j hj => if_pos ?_
    have hj : j < pool.last := List.mem_range.mp hj
    omega
  · refine ⟨by omega, h.prealloc, fun hd => (h.dynamic hd).trans (Nat.lt_succ_self _), rfl⟩

theorem append (h : WellFormed pool) (v : List UInt8) (c : Option Chunk) :
    WellFormed (append pool v c) ∧ vecs (append pool v c) = vecs pool ++ [v] := by
  obtain ⟨hle, hpre, hdyn, hvecs⟩ := h.extend
  have hlast : (IovecPools.extend pool (pool.last + 1) (2 * pool.length)).last = pool.last := by
    unfold IovecPools.extend
    split_ifs <;> rfl
  rw [hlast] at hle
  have hold : ∀ f : IovecArray, (List.range pool.last).map
      (fun j => Function.update f (pool.last + 1) v (j + 1)) =
        (List.range pool.last).map fun j => f (j + 1) := by
    intro f
    refine List.map_congr_left fun j hj => Function.update_of_ne ?_ ..
    have := List.mem_range.mp hj
    omega
  rw [vecs, hlast] at hvecs
  unfold IovecPools.append
  dsimp only
  cases hd : (IovecPools.extend pool (pool.last + 1) (2 * pool.length)).dynamicArray with
  | none =>
    rw [iovecs, hd, Option.getD_none] at hvecs
    refine ⟨⟨hle, fun _ => hpre hd, fun hne => absurd rfl hne⟩, ?_⟩
    rw [vecs_succ rfl]
    dsimp only [iovecs]
    rw [Option.getD_none, hold, hvecs, Function.update_self]
  | some a =>
    rw [iovecs, hd, Option.getD_some] at hvecs
    refine ⟨⟨hle, nofun, fun _ => hdyn (by rw [hd]; exact nofun)⟩, ?_⟩
    rw [vecs_succ rfl]
    dsimp only [iovecs]
    rw [Option.getD_some, hold, hvecs, Function.update_self]

end WellFormed

/-! ## The cache -/

/-- The cached offset is that of the cached iovec, which may be the one after the last. -/
structure CacheExact (pool : IovecPool) : Prop where
  pos : 0 < pool.lastExtractIovec
  le : pool.lastExtractIovec ≤ pool.last + 1
  offset : pool.lastExtractIovecOffset =
    ((vecs pool).take (pool.lastExtractIovec - 1)).flatten.length

theorem skipIovecs_append (pre suf : List (List UInt8)) (i l : Nat) (r : Int)
    (h : pre.flatten.length ≤ r) :
    skipIovecs (pre ++ suf) i l r =
      skipIovecs suf (i + pre.length) (l + pre.flatten.length) (r - pre.flatten.length) := by
  induction pre generalizing i l r with
  | nil => simp
  | cons v pre ih =>
    rw [List.flatten_cons, List.length_append, Nat.cast_add] at h
    rw [List.cons_append, skipIovecs, if_pos (by omega), ih _ _ _ (by omega), List.flatten_cons,
      List.length_append, List.length_cons, Nat.cast_add]
    congr 1 <;> omega

theorem skipIovecs_spec (vs : List (List UInt8)) (i l : Nat) (r : Int) :
    ∃ k ≤ vs.length, skipIovecs vs i l r =
        (i + k, l + (vs.take k).flatten.length, r - (vs.take k).flatten.length) ∧
      (0 ≤ r → (vs.take k).flatten.length ≤ r) ∧
      ∀ v, vs[k]? = some v → r - (vs.take k).flatten.length < v.length := by
  induction vs generalizing i l r with
  | nil => exact ⟨0, le_refl _, by simp [skipIovecs], by simp, nofun⟩
  | cons v vs ih =>
    rw [skipIovecs]
    split_ifs with h
    · obtain ⟨k, hk, heq, hle, hlt⟩ := ih (i + 1) (l + v.length) (r - v.length)
      refine ⟨k + 1, Nat.succ_le_succ hk, ?_, ?_, ?_⟩
      · rw [heq, List.take_succ_cons, List.flatten_cons, List.length_append, Nat.cast_add]
        congr 1
        · omega
        · congr 1 <;> omega
      · intro _
        rw [List.take_succ_cons, List.flatten_cons, List.length_append, Nat.cast_add]
        omega
      · intro w hw
        rw [List.take_succ_cons, List.flatten_cons, List.length_append, Nat.cast_add]
        have := hlt w hw
        omega
    · refine ⟨0, Nat.zero_le _, by simp, by simp, fun w hw => ?_⟩
      obtain rfl := Option.some.inj hw
      omega

namespace CacheExact

theorem of_first (pool : IovecPool) :
    CacheExact { pool with lastExtractIovec := 1, lastExtractIovecOffset := 0 } :=
  ⟨Nat.one_pos, Nat.succ_le_succ (Nat.zero_le _), rfl⟩

/-- Going on from the cached iovec leads where a search from the first one does. -/
theorem search_eq (h : CacheExact pool) (offset : Int) :
    skipIovecs ((vecs pool).drop ((searchFrom pool offset).1 - 1)) (searchFrom pool offset).1
        (searchFrom pool offset).2.1 (searchFrom pool offset).2.2 =
      skipIovecs (vecs pool) 1 0 offset := by
  unfold searchFrom
  split_ifs with hlt
  · rfl
  · have hpos := h.pos
    have hle := h.le
    have happ := skipIovecs_append ((vecs pool).take (pool.lastExtractIovec - 1))
      ((vecs pool).drop (pool.lastExtractIovec - 1)) 1 0 offset (by rw [← h.offset]; omega)
    rw [List.take_append_drop, List.length_take, length_vecs, Nat.min_eq_left (by omega),
      ← h.offset, Nat.zero_add, Nat.add_sub_cancel' hpos] at happ
    rw [happ]

/-- An extraction finds what a search from the first iovec finds. -/
theorem extractData (h : CacheExact pool) (offset : Int) (size : Nat) :
    (extractData pool offset size).2 = extractFromFirst pool offset size := by
  have h₁ := h.search_eq offset
  have h₂ := (of_first pool).search_eq offset
  unfold extractFromFirst IovecPools.extractData
  dsimp only
  rw [h₁, h₂]
  rfl

theorem extractData_cacheExact (h : CacheExact pool) (offset : Int) (size : Nat) :
    CacheExact (IovecPools.extractData pool offset size).1 := by
  have h₁ := h.search_eq offset
  obtain ⟨k, hk, heq, -, -⟩ := skipIovecs_spec (vecs pool) 1 0 offset
  rw [heq] at h₁
  rw [length_vecs] at hk
  unfold IovecPools.extractData
  dsimp only
  rw [h₁]
  refine ⟨?_, ?_, ?_⟩
  · dsimp only
    omega
  · dsimp only
    omega
  · show 0 + _ = ((vecs pool).take (1 + k - 1)).flatten.length
    rw [Nat.zero_add, Nat.add_sub_cancel_left]

end CacheExact

/-- The octets found inside the buffer are those at the offset, as many as lie in one iovec. -/
theorem designated_extractFromFirst (pool : IovecPool) {offset : Nat}
    (h : offset < (vecs pool).flatten.length) (size : Nat) :
    designated pool (extractFromFirst pool offset size) = Chunks.run (vecs pool) offset size ∧
      (extractFromFirst pool offset size).size = (Chunks.run (vecs pool) offset size).length := by
  obtain ⟨k, hk, heq, hle, hlt⟩ := skipIovecs_spec (vecs pool) 1 0 offset
  have hfirst := (CacheExact.of_first pool).search_eq offset
  have hext : extractFromFirst pool offset size =
      extractAt (vecs pool) (1 + k) (offset - ((vecs pool).take k).flatten.length) size := by
    unfold extractFromFirst extractData
    dsimp only
    show extractAt _ (skipIovecs (vecs pool) 1 0 offset).1 (skipIovecs (vecs pool) 1 0 offset).2.2 _ = _
    rw [heq]
    rfl
  have hklt : k < (vecs pool).length := by
    refine lt_of_le_of_ne hk fun hall => ?_
    rw [hall, List.take_length] at hle
    omega
  obtain ⟨v, hv⟩ : ∃ v, (vecs pool)[k]? = some v := ⟨_, List.getElem?_eq_getElem hklt⟩
  have hsplit : (vecs pool).take k ++ v :: (vecs pool).drop (k + 1) = vecs pool := by
    rw [← (List.getElem?_eq_some_iff.mp hv).2, ← List.drop_eq_getElem_cons hklt,
      List.take_append_drop]
  have hoff := hle (Int.natCast_nonneg offset)
  have hin := hlt v hv
  obtain ⟨r, hr⟩ := Nat.exists_eq_add_of_le (Int.ofNat_le.mp hoff)
  have hrem : (offset : Int) - ((vecs pool).take k).flatten.length = r := by omega
  have hrun : Chunks.run (vecs pool) offset size = (v.drop r).take size := by
    calc Chunks.run (vecs pool) offset size
        = Chunks.run ((vecs pool).take k ++ v :: (vecs pool).drop (k + 1))
            (((vecs pool).take k).flatten.length + r) size := by rw [hsplit, ← hr]
      _ = Chunks.run (v :: (vecs pool).drop (k + 1)) r size := Chunks.run_append_right ..
      _ = (v.drop r).take size := by rw [Chunks.run, if_pos (by omega)]
  have hsub : ((v.length : Int) - (r : Int)).toNat = v.length - r := by omega
  rw [hrun, hext, extractAt, Nat.add_sub_cancel_left, hv, hrem]
  dsimp only
  rw [hsub]
  have hsize : (if 1 < size then min size (v.length - r) else size) = min size (v.length - r) := by
    split_ifs
    · rfl
    · omega
  rw [hsize]
  constructor
  · rw [designated]
    dsimp only
    rw [Nat.add_sub_cancel_left, hv, Option.getD_some, Int.toNat_natCast, ← List.length_drop,
      Nat.min_comm, ← List.take_take]
    rw [List.take_take, Nat.min_comm, ← List.take_take, List.take_length]
  · rw [List.length_take, List.length_drop]

/-! ## Changes at the end of the pool -/

/-- The iovecs are the same but for the last one, and so is what is cached. -/
structure ChangesLast (pool : IovecPool) (v w : List UInt8) (pool' : IovecPool) : Prop where
  wellFormed : WellFormed pool'
  contents : ∃ init, vecs pool = init ++ [v] ∧ vecs pool' = init ++ [w]
  index : pool'.lastExtractIovec = pool.lastExtractIovec
  offset : pool'.lastExtractIovecOffset = pool.lastExtractIovecOffset

namespace ChangesLast

variable {v w : List UInt8} {pool' : IovecPool}

theorem last (h : ChangesLast pool v w pool') : pool'.last = pool.last := by
  obtain ⟨init, hv, hw⟩ := h.contents
  rw [← length_vecs, hw, ← length_vecs pool, hv, List.length_append, List.length_append]
  rfl

/-- The cache stays exact as long as its iovec is one that there is, or nothing is added or taken
away. -/
theorem cacheExact_iff (h : ChangesLast pool v w pool') (hc : CacheExact pool) :
    CacheExact pool' ↔ (pool.lastExtractIovec = pool.last + 1 → w.length = v.length) := by
  obtain ⟨init, hv, hw⟩ := h.contents
  have hlen : pool.last = init.length + 1 := by rw [← length_vecs, hv, List.length_append]; rfl
  have hpos := hc.pos
  have hle := hc.le
  have hoff := hc.offset
  have hbefore : pool.lastExtractIovec ≠ pool.last + 1 → (vecs pool').take (pool.lastExtractIovec - 1)
      = (vecs pool).take (pool.lastExtractIovec - 1) := by
    intro hne
    rw [hv, hw, List.take_append_of_le_length (by omega), List.take_append_of_le_length (by omega)]
  have hpast : pool.lastExtractIovec = pool.last + 1 →
      (vecs pool').take (pool.lastExtractIovec - 1) = init ++ [w] ∧
        pool.lastExtractIovecOffset = init.flatten.length + v.length := by
    intro heq
    refine ⟨?_, ?_⟩
    · rw [hw, List.take_of_length_le]
      rw [List.length_append, List.length_singleton]
      omega
    · rw [hoff, hv, List.take_of_length_le, List.flatten_append, List.flatten_singleton,
        List.length_append]
      rw [List.length_append, List.length_singleton]
      omega
  constructor
  · intro hc' heq
    obtain ⟨htake, hcached⟩ := hpast heq
    have hoff' := hc'.offset
    rw [h.index, h.offset, htake, hcached, List.flatten_append, List.flatten_singleton,
      List.length_append] at hoff'
    omega
  · intro hlen'
    refine ⟨by rw [h.index]; exact hpos, by rw [h.index, h.last]; exact hle, ?_⟩
    rw [h.index, h.offset]
    by_cases heq : pool.lastExtractIovec = pool.last + 1
    · obtain ⟨htake, hcached⟩ := hpast heq
      rw [htake, hcached, List.flatten_append, List.flatten_singleton, List.length_append,
        hlen' heq]
    · rw [hbefore heq, hoff]

theorem trans {u : List UInt8} {pool'' : IovecPool} (h : ChangesLast pool v w pool')
    (h' : ChangesLast pool' w u pool'') : ChangesLast pool v u pool'' := by
  obtain ⟨init, hv, hw⟩ := h.contents
  obtain ⟨init', hw', hu⟩ := h'.contents
  rw [hw] at hw'
  obtain ⟨rfl, -⟩ := List.append_inj' hw' rfl
  exact ⟨h'.wellFormed, ⟨init, hv, hu⟩, h'.index.trans h.index, h'.offset.trans h.offset⟩

theorem lastIovec_eq (h : ChangesLast pool v w pool') : lastIovec pool' = w :=
  h.wellFormed.lastIovec_of_vecs h.contents.choose_spec.2

end ChangesLast

theorem append_fields (pool : IovecPool) (v : List UInt8) (chunk : Option Chunk) :
    (append pool v chunk).lastExtractIovec = pool.lastExtractIovec ∧
      (append pool v chunk).lastExtractIovecOffset = pool.lastExtractIovecOffset ∧
      (append pool v chunk).lastChunk = chunk := by
  have hext : ∀ a b, (extend pool a b).lastExtractIovec = pool.lastExtractIovec ∧
      (extend pool a b).lastExtractIovecOffset = pool.lastExtractIovecOffset := by
    intro a b
    unfold extend
    split_ifs <;> exact ⟨rfl, rfl⟩
  unfold append
  dsimp only
  split <;> exact ⟨(hext _ _).1, (hext _ _).2, rfl⟩

theorem setLast_cache (pool : IovecPool) (f : List UInt8 → List UInt8) :
    (setLast pool f).lastExtractIovec = pool.lastExtractIovec ∧
      (setLast pool f).lastExtractIovecOffset = pool.lastExtractIovecOffset := by
  unfold setLast
  split_ifs <;> exact ⟨rfl, rfl⟩

namespace WellFormed

theorem changesLast (h : WellFormed pool) (hpos : 0 < pool.last) (f : List UInt8 → List UInt8)
    (chunk : Option Chunk) : ChangesLast pool (lastIovec pool) (f (lastIovec pool))
      { IovecPools.setLast pool f with lastChunk := chunk } where
  wellFormed := ⟨(h.setLast f).last_le, (h.setLast f).prealloc, (h.setLast f).dynamic⟩
  contents := h.vecs_setLast hpos f
  index := (setLast_cache pool f).1
  offset := (setLast_cache pool f).2

theorem grow (h : WellFormed pool) {xs : List UInt8} (hg : canGrow pool xs.length = true) :
    ∃ pool', IovecPools.grow pool xs = some pool' ∧
      ChangesLast pool (lastIovec pool) (lastIovec pool ++ xs) pool' ∧
      ∀ n, 0 < n → n ≤ xs.length → canShrink pool' n = true := by
  have hg' := hg
  unfold canGrow at hg'
  rw [Bool.and_eq_true, Bool.and_eq_true, decide_eq_true_eq, decide_eq_true_eq] at hg'
  have hch := h.changesLast hg'.1.1 (· ++ xs)
    (pool.lastChunk.map fun c => { c with lastUsed := c.lastUsed + xs.length })
  refine ⟨_, if_pos hg, hch, fun n hpos hn => ?_⟩
  obtain ⟨c, hc, -⟩ := (Option.any_eq_true ..).mp hg'.2
  unfold canShrink
  rw [hch.lastIovec_eq, hch.last, List.length_append]
  rw [hc, Option.map_some, Option.any_some]
  simp only [Bool.and_eq_true, decide_eq_true_eq]
  omega

theorem shrink (h : WellFormed pool) {n : Nat} (hs : canShrink pool n = true) :
    ChangesLast pool (lastIovec pool) ((lastIovec pool).take ((lastIovec pool).length - n))
      (IovecPools.shrink pool n) := by
  have hs' := hs
  unfold canShrink at hs'
  rw [Bool.and_eq_true, Bool.and_eq_true, Bool.and_eq_true, decide_eq_true_eq] at hs'
  unfold IovecPools.shrink
  rw [if_pos hs]
  exact h.changesLast hs'.1.1.1 (fun v => v.take (v.length - n)) _

theorem append_cacheExact (h : WellFormed pool) (hc : CacheExact pool) (v : List UInt8)
    (chunk : Option Chunk) : CacheExact (IovecPools.append pool v chunk) ∧
      (IovecPools.append pool v chunk).lastExtractIovec ≤ (IovecPools.append pool v chunk).last := by
  have hvecs := (h.append v chunk).2
  have hlast : (IovecPools.append pool v chunk).last = pool.last + 1 := by
    rw [← length_vecs, hvecs, List.length_append, length_vecs]
    rfl
  obtain ⟨hindex, hoffset, -⟩ := append_fields pool v chunk
  have hle := hc.le
  refine ⟨⟨by rw [hindex]; exact hc.pos, by omega, ?_⟩,
    by rw [hindex, hlast]; exact hle⟩
  rw [hindex, hoffset, hvecs, List.take_append_of_le_length, hc.offset]
  rw [length_vecs]
  omega

end WellFormed

end IovecPools

end PolyORB
