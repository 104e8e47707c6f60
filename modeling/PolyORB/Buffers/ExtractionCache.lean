import PolyORB.Buffers
import PolyORB.Buffers.IovecPools
import PolyORB.Lib.Runs

/-!
# Extraction from a buffer that grows

The operations of a buffer over its pool of iovecs, with the cache that `Extract_Data` keeps.  The
cache is exact as long as no operation changes the length of the last iovec after an extraction
that ended past it.
-/

namespace PolyORB

open IovecPools

structure PooledBuffer where
  cdrPosition : Int
  initialCdrPosition : Int
  length : Int
  contents : IovecPool

inductive BufferOperation where
  /-- `Allocate_And_Insert_Cooked_Data`, the storage being filled with the octets by the caller. -/
  | allocateAndInsertCookedData (data : List UInt8)
  | insertRawData (data : List UInt8)
  | padAlign (alignment : Nat)
  /-- `Receive_Buffer`, with what `Lowlevel_Receive` returns. -/
  | receiveBuffer (max : Nat) (data : List UInt8)
  | unuseAllocation (size : Nat)
  /-- `Partial_Extract_Data`, at the current position or at one that is given. -/
  | partialExtractData (size : Nat) (atPosition : Option Int) (partialAllowed : Bool)
  | rewind
  | releaseContents

namespace PooledBuffer

def new (initialCdrPosition : Int) : PooledBuffer :=
  { cdrPosition := initialCdrPosition, initialCdrPosition, length := 0, contents := IovecPools.new }

def allocateAndInsertCookedData (b : PooledBuffer) (data : List UInt8) : PooledBuffer :=
  { b with
    contents :=
      match grow b.contents data with
      | some pool => pool
      | none =>
        append b.contents data (some ⟨max defaultChunkSize data.length, data.length⟩)
    cdrPosition := b.cdrPosition + data.length
    length := b.length + data.length }

def insertRawData (b : PooledBuffer) (data : List UInt8) : PooledBuffer :=
  { b with
    contents := append b.contents data none
    cdrPosition := b.cdrPosition + data.length
    length := b.length + data.length }

/-- The conversion of a negative position to a modular type raises an exception. -/
def paddingSize (position : Int) (alignment : Nat) : Nat :=
  if position < 0 then 0 else (-position % alignment).toNat

def padAlign (b : PooledBuffer) (alignment : Nat) : PooledBuffer :=
  let padding := paddingSize b.cdrPosition alignment
  if padding = 0 then b
  else
    let b : PooledBuffer :=
      { b with
        contents :=
          match grow b.contents (List.replicate padding 0) with
          | some pool => pool
          | none => append b.contents (List.replicate padding 0) none
        length := b.length + padding }
    -- `Align_Position` raises an exception otherwise
    if b.cdrPosition + padding ≤ b.initialCdrPosition + b.length then
      { b with cdrPosition := b.cdrPosition + padding }
    else b

def unuseAllocation (b : PooledBuffer) (size : Nat) : PooledBuffer :=
  if size = 0 then b
  else
    { b with
      contents := shrink b.contents size
      cdrPosition := b.cdrPosition - size
      length := b.length - size }

def receiveBuffer (b : PooledBuffer) (max : Nat) (data : List UInt8) : PooledBuffer :=
  let received := data.take max
  let zone := received ++ List.replicate (max - received.length) 0
  { (b.allocateAndInsertCookedData zone).unuseAllocation (max - received.length) with
    cdrPosition := b.cdrPosition }

/-- The offset in the contents at which data are extracted. -/
def extractOffset (b : PooledBuffer) (atPosition : Option Int) : Int :=
  atPosition.getD b.cdrPosition - b.initialCdrPosition

def partialExtractData (b : PooledBuffer) (size : Nat) (atPosition : Option Int)
    (partialAllowed : Bool) : PooledBuffer × Extract :=
  let (pool, e) := extractData b.contents (b.extractOffset atPosition) size
  let b := { b with contents := pool }
  if e.size < size ∧ partialAllowed = false then (b, e)
  else if atPosition = none then ({ b with cdrPosition := b.cdrPosition + e.size }, e)
  else (b, e)

def rewind (b : PooledBuffer) : PooledBuffer := { b with cdrPosition := b.initialCdrPosition }

def releaseContents (b : PooledBuffer) : PooledBuffer :=
  { cdrPosition := 0, initialCdrPosition := 0, length := 0, contents := release b.contents }

def perform (b : PooledBuffer) : BufferOperation → PooledBuffer
  | .allocateAndInsertCookedData data => b.allocateAndInsertCookedData data
  | .insertRawData data => b.insertRawData data
  | .padAlign alignment => b.padAlign alignment
  | .receiveBuffer max data => b.receiveBuffer max data
  | .unuseAllocation size => b.unuseAllocation size
  | .partialExtractData size atPosition partialAllowed =>
    (b.partialExtractData size atPosition partialAllowed).1
  | .rewind => b.rewind
  | .releaseContents => b.releaseContents

/-! ## The property -/

def octets (b : PooledBuffer) : List UInt8 := (vecs b.contents).flatten

/-- An extraction inside the buffer finds what a search from the first iovec finds, and that is
what the contents hold at its offset. -/
def ExtractsRight (b : PooledBuffer) : BufferOperation → Prop
  | .partialExtractData size atPosition partialAllowed =>
    0 ≤ b.extractOffset atPosition → b.extractOffset atPosition < b.octets.length →
      let e := (b.partialExtractData size atPosition partialAllowed).2
      e = extractFromFirst b.contents (b.extractOffset atPosition) size ∧
        designated b.contents e = (b.octets.drop (b.extractOffset atPosition).toNat).take e.size
  | _ => True

/-- The operation extracts what it should, and the cache is exact after it. -/
def KeepsCache (b : PooledBuffer) (op : BufferOperation) : Prop :=
  b.ExtractsRight op ∧ CacheExact (b.perform op).contents

/-- The operation makes the last iovec longer or shorter. -/
def resizesLast (b : PooledBuffer) : BufferOperation → Bool
  | .allocateAndInsertCookedData data => canGrow b.contents data.length
  | .padAlign alignment => canGrow b.contents (paddingSize b.cdrPosition alignment)
  | .receiveBuffer max data => canGrow b.contents max && !data.isEmpty
  | .unuseAllocation size => canShrink b.contents size
  | .insertRawData _ | .partialExtractData .. | .rewind | .releaseContents => false

/-- The last extraction did not end past the last iovec, if the operation changes that in place. -/
def ResizesBeforePast (b : PooledBuffer) (op : BufferOperation) : Prop :=
  b.resizesLast op = true → b.contents.lastExtractIovec ≤ b.contents.last

/-! ## Each operation -/

/-- What holds of the pool as long as nothing has gone wrong. -/
structure Sound (b : PooledBuffer) : Prop where
  wellFormed : WellFormed b.contents
  cacheExact : CacheExact b.contents

variable {b : PooledBuffer}

theorem sound_new (initialCdrPosition : Int) : (new initialCdrPosition).Sound :=
  ⟨wellFormed_new, ⟨Nat.one_pos, Nat.succ_le_succ (Nat.zero_le _), rfl⟩⟩

namespace Sound

theorem growOrAppend (h : b.Sound) (xs : List UInt8) (chunk : Option Chunk) :
    ∃ pool, (match grow b.contents xs with
        | some pool => pool
        | none => append b.contents xs chunk) = pool ∧ WellFormed pool ∧
      (CacheExact pool ↔ (canGrow b.contents xs.length = true →
        b.contents.lastExtractIovec ≤ b.contents.last)) := by
  by_cases hg : canGrow b.contents xs.length = true
  · obtain ⟨pool, hpool, hch, -⟩ := h.wellFormed.grow hg
    refine ⟨pool, by rw [hpool], hch.wellFormed, ?_⟩
    have hle := h.cacheExact.le
    have hpos : 0 < xs.length := by
      unfold canGrow at hg
      rw [Bool.and_eq_true, Bool.and_eq_true, decide_eq_true_eq, decide_eq_true_eq] at hg
      exact hg.1.2
    rw [hch.cacheExact_iff h.cacheExact, List.length_append]
    constructor
    · intro himp _
      by_contra hnot
      omega
    · intro himp heq
      have := himp hg
      omega
  · have hnone : grow b.contents xs = none := if_neg hg
    refine ⟨_, by rw [hnone], (h.wellFormed.append xs chunk).1, ?_⟩
    exact iff_of_true (h.wellFormed.append_cacheExact h.cacheExact xs chunk).1
      fun hyes => absurd hyes hg

theorem shrink (h : b.Sound) (n : Nat) : WellFormed (IovecPools.shrink b.contents n) ∧
    (CacheExact (IovecPools.shrink b.contents n) ↔
      (canShrink b.contents n = true → b.contents.lastExtractIovec ≤ b.contents.last)) := by
  by_cases hs : canShrink b.contents n = true
  · have hch := h.wellFormed.shrink hs
    refine ⟨hch.wellFormed, ?_⟩
    have hle := h.cacheExact.le
    have hs' := hs
    unfold canShrink at hs'
    rw [Bool.and_eq_true, Bool.and_eq_true, Bool.and_eq_true, decide_eq_true_eq, decide_eq_true_eq,
      decide_eq_true_eq] at hs'
    rw [hch.cacheExact_iff h.cacheExact, List.length_take]
    constructor
    · intro himp _
      by_contra hnot
      omega
    · intro himp heq
      have := himp hs
      omega
  · have heq : IovecPools.shrink b.contents n = b.contents := if_neg hs
    rw [heq]
    exact ⟨h.wellFormed, iff_of_true h.cacheExact fun hyes => absurd hyes hs⟩

theorem extractsRight (h : b.Sound) (op : BufferOperation) : b.ExtractsRight op := by
  cases op with
  | partialExtractData size atPosition partialAllowed =>
    intro hge hlt
    obtain ⟨offset, hoff⟩ := Int.eq_ofNat_of_zero_le hge
    have hext : (b.partialExtractData size atPosition partialAllowed).2 =
        extractFromFirst b.contents offset size := by
      rw [← hoff, ← h.cacheExact.extractData]
      unfold PooledBuffer.partialExtractData
      dsimp only
      split_ifs <;> rfl
    rw [hoff] at hlt ⊢
    obtain ⟨hdes, hsize⟩ := designated_extractFromFirst b.contents (Int.ofNat_lt.mp hlt) size
    refine ⟨hext, ?_⟩
    rw [hext, hdes, hsize]
    exact Chunks.run_eq ..
  | _ => trivial

theorem receiveBuffer (h : b.Sound) (max : Nat) (data : List UInt8) :
    WellFormed (b.receiveBuffer max data).contents ∧
      (CacheExact (b.receiveBuffer max data).contents ↔
        ((canGrow b.contents max && !data.isEmpty) = true →
          b.contents.lastExtractIovec ≤ b.contents.last)) := by
  have htake := List.length_take_le max data
  have hlen : (data.take max ++ List.replicate (max - (data.take max).length) 0).length = max := by
    rw [List.length_append, List.length_replicate]
    omega
  have hcontents : (b.receiveBuffer max data).contents =
      (fun pool => if max - (data.take max).length = 0 then pool
        else IovecPools.shrink pool (max - (data.take max).length))
      (match grow b.contents (data.take max ++ List.replicate (max - (data.take max).length) 0) with
        | some pool => pool
        | none => append b.contents
            (data.take max ++ List.replicate (max - (data.take max).length) 0)
            (some ⟨Nat.max defaultChunkSize max, max⟩)) := by
    unfold PooledBuffer.receiveBuffer PooledBuffer.unuseAllocation
      PooledBuffer.allocateAndInsertCookedData
    dsimp only
    rw [hlen]
    split_ifs <;> rfl
  rw [hcontents]
  by_cases hg : canGrow b.contents max = true
  · have hg' := hg
    rw [← hlen] at hg'
    obtain ⟨pool, hpool, hch, hshrink⟩ := h.wellFormed.grow hg'
    rw [hpool]
    dsimp only
    -- what was allocated and not received is given back
    have hnet : ∃ w pool', ChangesLast b.contents (lastIovec b.contents) w pool' ∧
        w.length = (lastIovec b.contents).length + (data.take max).length ∧
        (if max - (data.take max).length = 0 then pool
          else IovecPools.shrink pool (max - (data.take max).length)) = pool' := by
      split_ifs with hz
      · refine ⟨_, pool, hch, ?_, rfl⟩
        rw [List.length_append, hlen]
        omega
      · have hs := hch.wellFormed.shrink (hshrink _ (Nat.pos_of_ne_zero hz) (by omega))
        rw [hch.lastIovec_eq] at hs
        refine ⟨_, _, hch.trans hs, ?_, rfl⟩
        rw [List.length_take, List.length_append, hlen]
        omega
    obtain ⟨w, pool', hch', hw, heq⟩ := hnet
    have hmax : 0 < max := by
      unfold canGrow at hg
      rw [Bool.and_eq_true, Bool.and_eq_true, decide_eq_true_eq, decide_eq_true_eq] at hg
      exact hg.1.2
    have hempty : data.isEmpty = true ↔ (data.take max).length = 0 := by
      rw [List.length_take, List.isEmpty_iff_length_eq_zero]
      omega
    have hle := h.cacheExact.le
    rw [heq, hch'.cacheExact_iff h.cacheExact, hw, hg, Bool.true_and, Bool.not_eq_true',
      ← Bool.not_eq_true, hempty]
    refine ⟨hch'.wellFormed, ?_⟩
    constructor
    · intro himp hne
      by_contra hnot
      omega
    · intro himp hpast
      by_contra hne
      omega
  · have hnone : grow b.contents
        (data.take max ++ List.replicate (max - (data.take max).length) 0) = none :=
      if_neg (by rw [hlen]; exact hg)
    rw [hnone]
    obtain ⟨hwf, -⟩ := h.wellFormed.append
      (data.take max ++ List.replicate (max - (data.take max).length) 0)
      (some ⟨Nat.max defaultChunkSize max, max⟩)
    obtain ⟨hexact, hle⟩ := h.wellFormed.append_cacheExact h.cacheExact
      (data.take max ++ List.replicate (max - (data.take max).length) 0)
      (some ⟨Nat.max defaultChunkSize max, max⟩)
    generalize append b.contents
      (data.take max ++ List.replicate (max - (data.take max).length) 0)
      (some ⟨Nat.max defaultChunkSize max, max⟩) = pool at hwf hexact hle ⊢
    have hright : (canGrow b.contents max && !data.isEmpty) = true →
        b.contents.lastExtractIovec ≤ b.contents.last := by
      rw [Bool.eq_false_of_not_eq_true hg]
      exact nofun
    split_ifs with hz
    · exact ⟨hwf, iff_of_true hexact hright⟩
    · have hsound : Sound { b with contents := pool } := ⟨hwf, hexact⟩
      obtain ⟨hwf', hiff⟩ := hsound.shrink (max - (data.take max).length)
      exact ⟨hwf', iff_of_true (hiff.mpr fun _ => hle) hright⟩

theorem perform (h : b.Sound) (op : BufferOperation) : WellFormed (b.perform op).contents ∧
    (CacheExact (b.perform op).contents ↔ b.ResizesBeforePast op) := by
  cases op with
  | allocateAndInsertCookedData data =>
    obtain ⟨pool, hpool, hwf, hiff⟩ := h.growOrAppend data
      (some ⟨max defaultChunkSize data.length, data.length⟩)
    have heq : (b.perform (.allocateAndInsertCookedData data)).contents = pool := hpool
    rw [heq]
    exact ⟨hwf, hiff⟩
  | insertRawData data =>
    obtain ⟨hwf, -⟩ := h.wellFormed.append data none
    exact ⟨hwf, iff_of_true (h.wellFormed.append_cacheExact h.cacheExact data none).1 nofun⟩
  | padAlign alignment =>
    show WellFormed (b.padAlign alignment).contents ∧
      (CacheExact (b.padAlign alignment).contents ↔ (canGrow b.contents _ = true → _))
    unfold PooledBuffer.padAlign
    dsimp only
    split_ifs with hz hle
    · rw [hz]
      exact ⟨h.wellFormed, iff_of_true h.cacheExact fun hg => by simp [canGrow] at hg⟩
    all_goals
      obtain ⟨pool, hpool, hwf, hiff⟩ := h.growOrAppend
        (List.replicate (paddingSize b.cdrPosition alignment) 0) none
      rw [List.length_replicate] at hiff
      rw [hpool]
      exact ⟨hwf, hiff⟩
  | receiveBuffer max data => exact h.receiveBuffer max data
  | unuseAllocation size =>
    show WellFormed (b.unuseAllocation size).contents ∧ (CacheExact (b.unuseAllocation size).contents ↔ _)
    unfold PooledBuffer.unuseAllocation
    split_ifs with hz
    · subst hz
      exact ⟨h.wellFormed, iff_of_true h.cacheExact fun hs => by
        simp [resizesLast, canShrink] at hs⟩
    · exact h.shrink size
  | partialExtractData size atPosition partialAllowed =>
    have hcontents : (b.perform (.partialExtractData size atPosition partialAllowed)).contents =
        (extractData b.contents (b.extractOffset atPosition) size).1 := by
      show (b.partialExtractData size atPosition partialAllowed).1.contents = _
      unfold PooledBuffer.partialExtractData
      dsimp only
      split_ifs <;> rfl
    rw [hcontents]
    refine ⟨⟨h.wellFormed.last_le, h.wellFormed.prealloc, h.wellFormed.dynamic⟩, ?_⟩
    exact iff_of_true (h.cacheExact.extractData_cacheExact _ _) nofun
  | rewind => exact ⟨h.wellFormed, iff_of_true h.cacheExact nofun⟩
  | releaseContents =>
    refine ⟨h.wellFormed.release, iff_of_true ?_ nofun⟩
    exact ⟨Nat.one_pos, Nat.succ_le_succ (Nat.zero_le _), rfl⟩

end Sound

/-- Over any sequence of operations, the extractions are right and the cache is exact as long as no
operation changes the length of the last iovec after an extraction that ended past it. -/
theorem keepsCache_iff (initialCdrPosition : Int) (ops : List BufferOperation) :
    Runs.Along perform KeepsCache (new initialCdrPosition) ops ↔
      Runs.Along perform ResizesBeforePast (new initialCdrPosition) ops := by
  have hstep : ∀ b op, Sound b → True → (b.KeepsCache op → b.ResizesBeforePast op) ∧
      (b.ResizesBeforePast op → b.KeepsCache op ∧ (b.perform op).Sound) := by
    intro b op h _
    obtain ⟨hwf, hiff⟩ := h.perform op
    refine ⟨fun hkeeps => hiff.mp hkeeps.2, fun hcond => ?_⟩
    have hexact := hiff.mpr hcond
    exact ⟨⟨h.extractsRight op, hexact⟩, hwf, hexact⟩
  exact Runs.along_iff hstep ops _ (sound_new _) (Runs.along_true ops _)

/-- The second allocation grows an iovec that an extraction has already gone past. -/
theorem not_keepsCache : ¬∀ (initialCdrPosition : Int) (ops : List BufferOperation),
    Runs.Along perform KeepsCache (new initialCdrPosition) ops := by
  intro hall
  obtain ⟨-, -, ⟨-, -⟩, ⟨hright, -⟩, -⟩ := hall 0
    [.allocateAndInsertCookedData [1, 2], .partialExtractData 1 none true,
      .allocateAndInsertCookedData [3, 4], .partialExtractData 1 (some 2) true]
  exact absurd (hright (by decide) (by decide)).1 (by decide)

end PooledBuffer

end PolyORB
