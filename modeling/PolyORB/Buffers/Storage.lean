import PolyORB.Buffers.ExtractionCache
import PolyORB.Lib.Slices

/-!
# The storage of a buffer

Octets that are inserted by copy lie in chunks of the buffer's own pool: after the last iovec, if
its chunk has room, or in a chunk of their own.  The iovecs designate storage, so what they hold
changes with every write to it; `Laid` says why no write changes what another insertion stored.
-/

namespace PolyORB

open IovecPools
open Slices (Slice)

/-! ## Chunk pools -/

/-- What the address of an iovec designates: octets that are not the buffer's own, or a chunk. -/
inductive Base where
  | foreign
  | prealloc
  | dynamic (index : Nat)
  deriving DecidableEq

structure ChunkPool where
  preallocUsed : Bool
  dynamicChunks : List Nat

namespace ChunkPool

def new : ChunkPool := ⟨false, []⟩

def allocate (pool : ChunkPool) (size : Nat) : Base × ChunkPool :=
  let allocationSize := if size ≤ defaultChunkSize then defaultChunkSize else size
  if allocationSize = defaultChunkSize ∧ pool.preallocUsed = false then
    (.prealloc, { pool with preallocUsed := true })
  else
    (.dynamic pool.dynamicChunks.length,
      { pool with dynamicChunks := pool.dynamicChunks ++ [allocationSize] })

def chunkSize (pool : ChunkPool) : Base → Option Nat
  | .foreign => none
  | .prealloc => if pool.preallocUsed = true then some defaultChunkSize else none
  | .dynamic index => pool.dynamicChunks[index]?

theorem allocate_spec (pool : ChunkPool) (size : Nat) :
    pool.chunkSize (pool.allocate size).1 = none ∧ (pool.allocate size).1 ≠ .foreign ∧
      (pool.allocate size).2.chunkSize (pool.allocate size).1 = some (max defaultChunkSize size) ∧
      ∀ base n, pool.chunkSize base = some n →
        (pool.allocate size).2.chunkSize base = some n := by
  have hmax : (if size ≤ defaultChunkSize then defaultChunkSize else size) =
      max defaultChunkSize size := by
    split_ifs <;> omega
  unfold allocate
  rw [hmax]
  dsimp only
  split_ifs with h
  · rw [h.1]
    refine ⟨by simp [chunkSize, h.2], nofun, rfl, ?_⟩
    rintro (_ | _ | index) n hn
    · exact hn
    · simp [chunkSize, h.2] at hn
    · exact hn
  · refine ⟨by simp [chunkSize], nofun, by simp [chunkSize], ?_⟩
    rintro (_ | _ | index) n hn
    · exact hn
    · exact hn
    · simp only [chunkSize] at hn ⊢
      rw [List.getElem?_append_left (List.getElem?_eq_some_iff.mp hn).1]
      exact hn

end ChunkPool

/-- The octets of an iovec are those that the storage holds. -/
def view (memory : Base → Nat → UInt8) (base : Base) (v : List UInt8) : List UInt8 :=
  if base = .foreign then v else Slices.read memory ⟨base, 0, v.length⟩

structure StoredBuffer extends PooledBuffer where
  storage : ChunkPool
  /-- What the address of each iovec designates. -/
  bases : List Base
  memory : Base → Nat → UInt8
  /-- The storage that insertions have handed out and that has not been given back. -/
  inUse : List (Slice Base)

inductive StorageOperation where
  | allocateAndInsertCookedData (data : List UInt8)
  | insertRawData (data : List UInt8)
  | padAlign (alignment : Nat)
  | reserve (amount : Nat)
  /-- `Copy_Data`, with what `Dump` finds and the location that was reserved. -/
  | copyData (data : List UInt8) (location : Slice Base)
  | receiveBuffer (max : Nat) (data : List UInt8)
  | unuseAllocation (size : Nat)
  | partialExtractData (size : Nat) (atPosition : Option Int) (partialAllowed : Bool)

namespace StoredBuffer

/-- `Set_Initial_Position` on a buffer as it is created. -/
def new (initialCdrPosition : Int) (memory : Base → Nat → UInt8) : StoredBuffer :=
  { toPooledBuffer := .new initialCdrPosition, storage := .new, bases := [], memory, inUse := [] }

/-- The iovecs with what their addresses designate. -/
def placed (b : StoredBuffer) : List (Base × List UInt8) := b.bases.zip (vecs b.contents)

def lastBase (b : StoredBuffer) : Base := b.bases.getLast?.getD .foreign

/-- The iovecs of an array, once the storage holds `memory`. -/
def designate (memory : Base → Nat → UInt8) (bases : List Base) (a : IovecArray) : IovecArray :=
  fun j => view memory (bases[j - 1]?.getD .foreign) (a j)

/-- A write to storage, which all iovecs show that lie there. -/
def write (b : StoredBuffer) (slice : Slice Base) (data : List UInt8) : StoredBuffer :=
  let memory := Slices.write b.memory slice data
  { b with
    memory
    contents :=
      { b.contents with
        preallocArray := designate memory b.bases b.contents.preallocArray
        dynamicArray := b.contents.dynamicArray.map (designate memory b.bases) } }

/-- The storage that `Allocate_And_Insert_Cooked_Data` hands out: at `First_Address_After` the last
iovec, or at the beginning of a chunk. -/
def place (b : StoredBuffer) (size : Nat) : Slice Base × ChunkPool × List Base :=
  if canGrow b.contents size = true then
    (⟨b.lastBase, (lastIovec b.contents).length, size⟩, b.storage, b.bases)
  else
    (⟨(b.storage.allocate size).1, 0, size⟩, (b.storage.allocate size).2,
      b.bases ++ [(b.storage.allocate size).1])

def allocateAndInsertCookedData (b : StoredBuffer) (data : List UInt8) : StoredBuffer :=
  let (slice, storage, bases) := b.place data.length
  write
    { toPooledBuffer := b.toPooledBuffer.allocateAndInsertCookedData data, storage, bases,
      memory := b.memory, inUse := b.inUse ++ [slice] }
    slice data

def insertRawData (b : StoredBuffer) (data : List UInt8) : StoredBuffer :=
  { b with
    toPooledBuffer := b.toPooledBuffer.insertRawData data
    bases := b.bases ++ [.foreign] }

/-- The storage keeps what it happens to hold.  The reservation is at `(b.place amount).1`. -/
def reserve (b : StoredBuffer) (amount : Nat) : StoredBuffer :=
  b.allocateAndInsertCookedData (Slices.read b.memory (b.place amount).1)

def copyData (b : StoredBuffer) (data : List UInt8) (location : Slice Base) : StoredBuffer :=
  -- the assertion that the lengths are those of the reservation
  if data.length = location.size then b.write location data else b

def padAlign (b : StoredBuffer) (alignment : Nat) : StoredBuffer :=
  let padding := PooledBuffer.paddingSize b.cdrPosition alignment
  if padding = 0 then b
  else if canGrow b.contents padding = true then
    let slice := (b.place padding).1
    write
      { b with
        toPooledBuffer := b.toPooledBuffer.padAlign alignment
        inUse := b.inUse ++ [slice] }
      slice (List.replicate padding 0)
  else
    -- an iovec over static null data
    { b with
      toPooledBuffer := b.toPooledBuffer.padAlign alignment
      bases := b.bases ++ [.foreign] }

def unuseAllocation (b : StoredBuffer) (size : Nat) : StoredBuffer :=
  { b with
    toPooledBuffer := b.toPooledBuffer.unuseAllocation size
    inUse :=
      if canShrink b.contents size = true then
        b.inUse.map (Slice.cut b.lastBase ((lastIovec b.contents).length - size))
      else b.inUse }

def receiveBuffer (b : StoredBuffer) (max : Nat) (data : List UInt8) : StoredBuffer :=
  let received := data.take max
  let zone := received ++ (Slices.read b.memory (b.place max).1).drop received.length
  { (b.allocateAndInsertCookedData zone).unuseAllocation (max - received.length) with
    cdrPosition := b.cdrPosition }

def perform (b : StoredBuffer) : StorageOperation → StoredBuffer
  | .allocateAndInsertCookedData data => b.allocateAndInsertCookedData data
  | .insertRawData data => b.insertRawData data
  | .padAlign alignment => b.padAlign alignment
  | .reserve amount => b.reserve amount
  | .copyData data location => b.copyData data location
  | .receiveBuffer max data => b.receiveBuffer max data
  | .unuseAllocation size => b.unuseAllocation size
  | .partialExtractData size atPosition partialAllowed =>
    { b with
      toPooledBuffer := (b.toPooledBuffer.partialExtractData size atPosition partialAllowed).1 }

/-! ## The property -/

/-- The length is that of the iovecs, the position is one inside the buffer, and storage in use lies
in its chunk and nowhere twice. -/
structure Accounted (b : StoredBuffer) : Prop where
  length_eq : b.length = ((vecs b.contents).map List.length).sum
  initial_le : b.initialCdrPosition ≤ b.cdrPosition
  le_end : b.cdrPosition ≤ b.initialCdrPosition + b.length
  inside : ∀ s ∈ b.inUse, ∀ base i, s.Holds base i → ∃ n, b.storage.chunkSize base = some n ∧ i < n
  disjoint : b.inUse.Pairwise Slice.Disjoint

/-- What an operation adds to the contents or takes away. -/
def Effect (b : StoredBuffer) : StorageOperation → StoredBuffer → Prop
  | .allocateAndInsertCookedData data, b' | .insertRawData data, b' => b'.octets = b.octets ++ data
  | .padAlign alignment, b' =>
    0 < alignment → 0 ≤ b.cdrPosition →
      IsLeast {p : Int | b.cdrPosition ≤ p ∧ (alignment : Int) ∣ p} b'.cdrPosition ∧
        b'.octets = b.octets ++ List.replicate (b'.cdrPosition - b.cdrPosition).toNat 0
  | .reserve amount, b' => ∃ xs, xs.length = amount ∧ b'.octets = b.octets ++ xs
  | .copyData data location, b' =>
    b'.octets.length = b.octets.length ∧ Slices.read b'.memory location = data
  | .receiveBuffer max data, b' =>
    b'.octets = b.octets ++ data.take max ∧ b'.cdrPosition = b.cdrPosition
  | .unuseAllocation size, b' => b'.octets = b.octets.take (b.octets.length - size)
  | .partialExtractData .., b' => b'.octets = b.octets

/-- Storage in use holds what it held, unless it is what the operation is to fill. -/
def KeepsStored (b : StoredBuffer) (op : StorageOperation) : Prop :=
  ∀ s ∈ b.inUse, (∀ data, op ≠ .copyData data s) →
    Slices.read (b.perform op).memory s = Slices.read b.memory s

def Accounts (b : StoredBuffer) (op : StorageOperation) : Prop :=
  (b.perform op).Accounted ∧ b.Effect op (b.perform op) ∧ b.KeepsStored op

/-- Data are copied to storage in use, and what is given back is at the end of the last iovec, lies
in a chunk of the buffer and before the position, and no extraction went past it. -/
def Proper (b : StoredBuffer) : StorageOperation → Prop
  | .copyData data location => location ∈ b.inUse ∧ data.length = location.size
  | .unuseAllocation size =>
    size = 0 ∨ b.contents.lastChunk ≠ none ∧ size ≤ (lastIovec b.contents).length ∧
      b.initialCdrPosition + size ≤ b.cdrPosition ∧ b.contents.lastExtractIovec ≤ b.contents.last
  | _ => True

instance (b : StoredBuffer) : ∀ op, Decidable (b.Proper op)
  | .copyData data location => inferInstanceAs (Decidable (_ ∧ data.length = location.size))
  | .unuseAllocation size => inferInstanceAs (Decidable (size = 0 ∨ _ ∧ _ ∧ _ ∧ _))
  | .allocateAndInsertCookedData _ | .insertRawData _ | .padAlign _ | .reserve _
  | .receiveBuffer .. | .partialExtractData .. => inferInstanceAs (Decidable True)

end StoredBuffer

/-! ## Iovecs in storage -/

/-- Iovecs show what the storage holds, no two of them lie in one chunk, and the storage in use is
part of them and disjoint. -/
structure Laid (storage : ChunkPool) (memory : Base → Nat → UInt8)
    (iovecs : List (Base × List UInt8)) (inUse : List (Slice Base)) : Prop where
  view_eq : ∀ p ∈ iovecs, view memory p.1 p.2 = p.2
  chunk : ∀ p ∈ iovecs, p.1 ≠ .foreign → ∃ n, storage.chunkSize p.1 = some n ∧ p.2.length ≤ n
  distinct : iovecs.Pairwise fun p q => p.1 ≠ .foreign → p.1 ≠ q.1
  within : ∀ s ∈ inUse, ∃ p ∈ iovecs, p.1 ≠ .foreign ∧ s.Within ⟨p.1, 0, p.2.length⟩
  disjoint : inUse.Pairwise Slice.Disjoint

section Laid

variable {storage : ChunkPool} {memory : Base → Nat → UInt8}
  {iovecs init : List (Base × List UInt8)} {inUse : List (Slice Base)} {base : Base}
  {v xs : List UInt8} {s : Slice Base}

@[simp] theorem length_view (memory : Base → Nat → UInt8) (base : Base) (v : List UInt8) :
    (view memory base v).length = v.length := by
  unfold view
  split_ifs
  · rfl
  · rw [Slices.length_read]

theorem view_view : view memory base (view memory base v) = view memory base v := by
  unfold view
  split_ifs with hb
  · rfl
  · rw [Slices.length_read]

theorem view_write (h : base ≠ .foreign → s.Disjoint ⟨base, 0, v.length⟩) :
    view (Slices.write memory s xs) base v = view memory base v := by
  unfold view
  split_ifs with hb
  · rfl
  · exact Slices.read_write_of_disjoint (h hb)

namespace Laid

theorem add {storage' : ChunkPool} (h : Laid storage memory iovecs inUse) (p : Base × List UInt8)
    (hkeep : ∀ base n, storage.chunkSize base = some n → storage'.chunkSize base = some n)
    (hview : view memory p.1 p.2 = p.2)
    (hchunk : p.1 ≠ .foreign → ∃ n, storage'.chunkSize p.1 = some n ∧ p.2.length ≤ n)
    (hother : ∀ q ∈ iovecs, q.1 ≠ .foreign → q.1 ≠ p.1) :
    Laid storage' memory (iovecs ++ [p]) inUse where
  view_eq := List.forall_mem_append.mpr ⟨h.view_eq, List.forall_mem_singleton.mpr hview⟩
  chunk := by
    refine List.forall_mem_append.mpr ⟨fun q hq hne => ?_, List.forall_mem_singleton.mpr hchunk⟩
    obtain ⟨n, hn, hle⟩ := h.chunk q hq hne
    exact ⟨n, hkeep _ _ hn, hle⟩
  distinct := List.pairwise_append.mpr ⟨h.distinct, List.pairwise_singleton ..,
    fun q hq => List.forall_mem_singleton.mpr (hother q hq)⟩
  within := by
    intro s hs
    obtain ⟨q, hq, hne, hw⟩ := h.within s hs
    exact ⟨q, List.mem_append_left _ hq, hne, hw⟩
  disjoint := h.disjoint

/-- What holds of the iovecs but for the last, and of the last. -/
theorem parts (h : Laid storage memory (init ++ [(base, v)]) inUse) :
    ((∀ p ∈ init, view memory p.1 p.2 = p.2) ∧ view memory base v = v) ∧
      (∀ p ∈ init, p.1 ≠ .foreign → ∃ n, storage.chunkSize p.1 = some n ∧ p.2.length ≤ n) ∧
      init.Pairwise (fun p q => p.1 ≠ .foreign → p.1 ≠ q.1) ∧
      (∀ p ∈ init, p.1 ≠ .foreign → p.1 ≠ base) ∧
      ∀ s ∈ inUse, (∃ p ∈ init, p.1 ≠ .foreign ∧ s.Within ⟨p.1, 0, p.2.length⟩) ∨
        base ≠ .foreign ∧ s.Within ⟨base, 0, v.length⟩ := by
  obtain ⟨hview, hlast⟩ := List.forall_mem_append.mp h.view_eq
  obtain ⟨hinit, -, hother⟩ := List.pairwise_append.mp h.distinct
  refine ⟨⟨hview, hlast _ (List.mem_singleton_self (base, v))⟩,
    (List.forall_mem_append.mp h.chunk).1, hinit,
    fun p hp => hother p hp _ (List.mem_singleton_self (base, v)), fun s hs => ?_⟩
  obtain ⟨p, hp, hp', hw⟩ := h.within s hs
  rcases List.mem_append.mp hp with hp | hp
  · exact .inl ⟨p, hp, hp', hw⟩
  · rw [List.mem_singleton.mp hp] at hp' hw
    exact .inr ⟨hp', hw⟩

theorem grow (h : Laid storage memory (init ++ [(base, v)]) inUse) (hbase : base ≠ .foreign)
    {n : Nat} (hn : storage.chunkSize base = some n) (xs : List UInt8)
    (hle : v.length + xs.length ≤ n) :
    (∀ s ∈ inUse, s.Disjoint ⟨base, v.length, xs.length⟩) ∧
      Laid storage (Slices.write memory ⟨base, v.length, xs.length⟩ xs)
        (init ++ [(base, v ++ xs)]) (inUse ++ [⟨base, v.length, xs.length⟩]) := by
  obtain ⟨⟨hview, hv⟩, hchunk, hinit, hother, hwithin⟩ := h.parts
  have hafter : (⟨base, 0, v.length⟩ : Slice Base).Disjoint ⟨base, v.length, xs.length⟩ := by
    rintro b i ⟨-, -, hlt⟩ ⟨-, hge, -⟩
    dsimp only at hlt hge
    omega
  have hdisj : ∀ s ∈ inUse, s.Disjoint ⟨base, v.length, xs.length⟩ := by
    intro s hs
    rcases hwithin s hs with ⟨p, hp, hp', hw⟩ | ⟨-, hw⟩
    · exact (Slice.Disjoint.of_base (hother p hp hp')).mono hw fun _ _ => id
    · exact hafter.mono hw fun _ _ => id
  have hend : ∀ t : Slice Base, t.Within ⟨base, 0, v.length + xs.length⟩ →
      ∃ p ∈ init ++ [(base, v ++ xs)], p.1 ≠ .foreign ∧ t.Within ⟨p.1, 0, p.2.length⟩ := by
    intro t ht
    refine ⟨_, List.mem_append_right _ (List.mem_singleton_self _), hbase, ?_⟩
    rw [List.length_append]
    exact ht
  refine ⟨hdisj, ?_, ?_, ?_, ?_, ?_⟩
  · refine List.forall_mem_append.mpr ⟨fun p hp => ?_, List.forall_mem_singleton.mpr ?_⟩
    · rw [view_write fun hp' => Slice.Disjoint.of_base (hother p hp hp').symm]
      exact hview p hp
    · simp only [view, if_neg hbase] at hv ⊢
      rw [List.length_append, Slices.read_append, Slices.read_write_of_disjoint hafter.symm, hv,
        Nat.zero_add, Slices.read_write rfl]
  · refine List.forall_mem_append.mpr ⟨hchunk, List.forall_mem_singleton.mpr fun _ => ⟨n, hn, ?_⟩⟩
    rw [List.length_append]
    exact hle
  · exact List.pairwise_append.mpr ⟨hinit, List.pairwise_singleton ..,
      fun p hp => List.forall_mem_singleton.mpr (hother p hp)⟩
  · refine List.forall_mem_append.mpr ⟨fun s hs => ?_, List.forall_mem_singleton.mpr (hend _ ?_)⟩
    · rcases hwithin s hs with ⟨p, hp, hp', hw⟩ | ⟨-, hw⟩
      · exact ⟨p, List.mem_append_left _ hp, hp', hw⟩
      · exact hend s (hw.trans fun b i ⟨hb, _, hlt⟩ =>
          ⟨hb, Nat.zero_le _, by dsimp only at hlt ⊢; omega⟩)
    · exact fun b i ⟨hb, _, hlt⟩ => ⟨hb, Nat.zero_le _, by dsimp only at hlt ⊢; omega⟩
  · exact List.pairwise_append.mpr ⟨h.disjoint, List.pairwise_singleton ..,
      fun s hs => List.forall_mem_singleton.mpr (hdisj s hs)⟩

theorem addChunk (h : Laid storage memory iovecs inUse) (xs : List UInt8) :
    (∀ s ∈ inUse, s.Disjoint ⟨(storage.allocate xs.length).1, 0, xs.length⟩) ∧
      Laid (storage.allocate xs.length).2
        (Slices.write memory ⟨(storage.allocate xs.length).1, 0, xs.length⟩ xs)
        (iovecs ++ [((storage.allocate xs.length).1, xs)])
        (inUse ++ [⟨(storage.allocate xs.length).1, 0, xs.length⟩]) := by
  obtain ⟨hnew, hne, hsize, hkeep⟩ := storage.allocate_spec xs.length
  have hempty := h.add ((storage.allocate xs.length).1, []) hkeep (if_neg hne)
    (fun _ => ⟨_, hsize, Nat.zero_le _⟩) fun q hq hq' heq => by
      obtain ⟨n, hn, -⟩ := h.chunk q hq hq'
      rw [heq, hnew] at hn
      cases hn
  exact hempty.grow hne hsize xs (by rw [List.length_nil, Nat.zero_add]; exact le_max_right ..)

theorem cut (h : Laid storage memory (init ++ [(base, v)]) inUse) {k : Nat} (hk : k ≤ v.length) :
    Laid storage memory (init ++ [(base, v.take k)]) (inUse.map (Slice.cut base k)) := by
  obtain ⟨⟨hview, hv⟩, hchunk, hinit, hother, hwithin⟩ := h.parts
  refine ⟨List.forall_mem_append.mpr ⟨hview, List.forall_mem_singleton.mpr ?_⟩,
    List.forall_mem_append.mpr ⟨hchunk, List.forall_mem_singleton.mpr fun hbase => ?_⟩,
    List.pairwise_append.mpr ⟨hinit, List.pairwise_singleton ..,
      fun p hp => List.forall_mem_singleton.mpr (hother p hp)⟩, ?_, ?_⟩
  · unfold view at hv ⊢
    split_ifs at hv ⊢ with hb
    · rfl
    · conv_rhs => rw [← hv, Slices.read_take]
      rw [List.length_take]
  · obtain ⟨n, hn, hle⟩ := h.chunk (base, v)
      (List.mem_append_right _ (List.mem_singleton_self _)) hbase
    exact ⟨n, hn, (List.length_take_le' ..).trans hle⟩
  · intro t ht
    obtain ⟨s, hs, rfl⟩ := List.mem_map.mp ht
    rcases hwithin s hs with ⟨p, hp, hp', hw⟩ | ⟨hbase, hw⟩
    · exact ⟨p, List.mem_append_left _ hp, hp', (Slice.cut_within base k s).trans hw⟩
    · refine ⟨_, List.mem_append_right _ (List.mem_singleton_self _), hbase, fun b i hi => ?_⟩
      obtain ⟨rfl, -, -⟩ := hw b i (Slice.cut_within _ _ _ b i hi)
      have hlt := Slice.cut_holds hi
      exact ⟨rfl, Nat.zero_le _, by dsimp only; rw [List.length_take]; omega⟩
  · exact h.disjoint.map _ fun s t hd =>
      hd.mono (Slice.cut_within base k s) (Slice.cut_within base k t)

theorem overwrite (h : Laid storage memory iovecs inUse) (hs : s ∈ inUse) (xs : List UInt8) :
    (∀ t ∈ inUse, t ≠ s → t.Disjoint s) ∧
      Laid storage (Slices.write memory s xs)
        (iovecs.map fun p => (p.1, view (Slices.write memory s xs) p.1 p.2)) inUse := by
  refine ⟨fun t ht hne => h.disjoint.forall ht hs hne, ?_, ?_, ?_, ?_, h.disjoint⟩
  · exact List.forall_mem_map.mpr fun _ _ => view_view
  · refine List.forall_mem_map.mpr fun q hq hq' => ?_
    rw [length_view]
    exact h.chunk q hq hq'
  · exact h.distinct.map _ fun _ _ => id
  · intro t ht
    obtain ⟨p, hp, hp', hw⟩ := h.within t ht
    refine ⟨_, List.mem_map_of_mem hp, hp', ?_⟩
    rw [length_view]
    exact hw

end Laid

end Laid

end PolyORB
