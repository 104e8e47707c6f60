import PolyORB.Buffers.Storage

/-!
# Runs of a buffer over its storage

The octets that each operation adds or takes away, and why no other storage changes: every iovec
that lies in a chunk is alone there, and what is handed out lies past what is in use.
-/

namespace PolyORB

open IovecPools
open Slices (Slice)

/-! ## The extraction cache -/

namespace IovecPools

variable {pool pool' : IovecPool} {v w : List UInt8}

/-- The cached offset is at most that of the cached iovec, also after the last iovec grows. -/
structure CacheLow (pool : IovecPool) : Prop where
  pos : 0 < pool.lastExtractIovec
  le : pool.lastExtractIovec ≤ pool.last + 1
  offset : pool.lastExtractIovecOffset ≤
    ((vecs pool).take (pool.lastExtractIovec - 1)).flatten.length

namespace CacheLow

theorem append (h : CacheLow pool) (hvecs : vecs pool' = vecs pool ++ [v])
    (hindex : pool'.lastExtractIovec = pool.lastExtractIovec)
    (hoffset : pool'.lastExtractIovecOffset = pool.lastExtractIovecOffset) : CacheLow pool' := by
  have hlast : pool'.last = pool.last + 1 := by
    rw [← length_vecs, hvecs, List.length_append, length_vecs]
    rfl
  have hle := h.le
  refine ⟨by rw [hindex]; exact h.pos, by omega, ?_⟩
  rw [hindex, hoffset, hvecs, List.take_append_of_le_length (by rw [length_vecs]; omega)]
  exact h.offset

theorem changesLast (h : CacheLow pool) (hch : ChangesLast pool v w pool')
    (hor : v.length ≤ w.length ∨ pool.lastExtractIovec ≤ pool.last) : CacheLow pool' := by
  refine ⟨by rw [hch.index]; exact h.pos, by rw [hch.index, hch.last]; exact h.le, ?_⟩
  obtain ⟨init, hv, hw⟩ := hch.contents
  have hlen : pool.last = init.length + 1 := by rw [← length_vecs, hv, List.length_append]; rfl
  have hoff := h.offset
  rw [hch.index, hch.offset]
  rw [hv] at hoff
  rw [hw]
  by_cases hin : pool.lastExtractIovec ≤ pool.last
  · rw [List.take_append_of_le_length (by omega)] at hoff ⊢
    exact hoff
  · rw [List.take_of_length_le (by rw [List.length_append, List.length_singleton]; omega),
      List.flatten_append, List.length_append, List.flatten_singleton] at hoff ⊢
    omega

theorem extractData (h : CacheLow pool) (offset : Int) (size : Nat) :
    CacheLow (extractData pool offset size).1 ∧
      (offset ≤ (vecs pool).flatten.length →
        offset + (IovecPools.extractData pool offset size).2.size ≤
          (vecs pool).flatten.length) := by
  obtain ⟨index, lastOffset, hpos, hle, hlow, hfrom⟩ : ∃ index lastOffset, 0 < index ∧
      index ≤ pool.last + 1 ∧ lastOffset ≤ ((vecs pool).take (index - 1)).flatten.length ∧
      searchFrom pool offset = (index, lastOffset, offset - lastOffset) := by
    unfold searchFrom
    split_ifs
    · exact ⟨1, 0, Nat.one_pos, by omega, Nat.zero_le _, by rw [Nat.cast_zero, sub_zero]⟩
    · exact ⟨_, _, h.pos, h.le, h.offset, rfl⟩
  obtain ⟨k, hk, heq, -, hlt⟩ := skipIovecs_spec ((vecs pool).drop (index - 1)) index lastOffset
    (offset - lastOffset)
  rw [List.length_drop, length_vecs] at hk
  have hsum : ((vecs pool).take (index + k - 1)).flatten.length =
      ((vecs pool).take (index - 1)).flatten.length +
        (((vecs pool).drop (index - 1)).take k).flatten.length := by
    rw [← List.length_append, ← List.flatten_append, ← List.take_add]
    congr 3
    omega
  have hext : IovecPools.extractData pool offset size =
      ({ pool with
          lastExtractIovec := index + k
          lastExtractIovecOffset :=
            lastOffset + (((vecs pool).drop (index - 1)).take k).flatten.length },
        extractAt (vecs pool) (index + k)
          (offset - lastOffset - (((vecs pool).drop (index - 1)).take k).flatten.length) size) := by
    unfold IovecPools.extractData
    rw [hfrom]
    dsimp only
    rw [heq]
  rw [hext]
  refine ⟨⟨by dsimp only; omega, by dsimp only; omega, ?_⟩, fun hend => ?_⟩
  · show _ ≤ ((vecs pool).take (index + k - 1)).flatten.length
    dsimp only
    omega
  · unfold extractAt
    cases hv : (vecs pool)[index + k - 1]? with
    | none =>
      dsimp only
      omega
    | some v =>
      dsimp only
      have hget : ((vecs pool).drop (index - 1))[k]? = some v := by
        rw [List.getElem?_drop, ← hv]
        congr 1
        omega
      have hlt := hlt v hget
      have htotal : ((vecs pool).take (index + k - 1)).flatten.length + v.length ≤
          (vecs pool).flatten.length := by
        obtain ⟨hin, rfl⟩ := List.getElem?_eq_some_iff.mp hv
        conv_rhs => rw [← List.take_append_drop (index + k - 1) (vecs pool),
          List.drop_eq_getElem_cons hin]
        rw [List.flatten_append, List.flatten_cons, List.length_append, List.length_append]
        omega
      split_ifs <;> omega

end CacheLow

end IovecPools

/-! ## Each operation -/

namespace StoredBuffer

/-- The last iovec lies in the last chunk, of which it uses as much as the chunk says. -/
def LastLies (b : StoredBuffer) : Prop :=
  ∀ c, b.contents.lastChunk = some c → b.lastBase ≠ .foreign ∧
    b.storage.chunkSize b.lastBase = some c.size ∧
      ∃ init v, vecs b.contents = init ++ [v] ∧ v.length = c.lastUsed

/-- What every operation keeps of the storage. -/
structure Stored (b : StoredBuffer) : Prop where
  wellFormed : WellFormed b.contents
  cacheLow : CacheLow b.contents
  length_bases : b.bases.length = b.contents.last
  lastChunk : b.LastLies
  laid : Laid b.storage b.memory b.placed b.inUse

/-- `b'` holds what `b` does and then `data`, in the last iovec or in another one. -/
structure Inserted (b b' : StoredBuffer) (data : List UInt8) : Prop where
  stored : b'.Stored
  pool : ChangesLast b.contents (lastIovec b.contents) (lastIovec b.contents ++ data) b'.contents ∨
    vecs b'.contents = vecs b.contents ++ [data] ∧
      b'.contents.lastExtractIovec = b.contents.lastExtractIovec ∧
      b'.contents.lastExtractIovecOffset = b.contents.lastExtractIovecOffset
  keeps : ∀ s ∈ b.inUse, Slices.read b'.memory s = Slices.read b.memory s

variable {b b' : StoredBuffer} {data xs : List UInt8} {init : List (List UInt8)} {v : List UInt8}

theorem Inserted.octets (h : Inserted b b' data) : b'.octets = b.octets ++ data := by
  rcases h.pool with hch | ⟨hvecs, -⟩
  · obtain ⟨init, hv, hw⟩ := hch.contents
    unfold PooledBuffer.octets
    rw [hv, hw, List.flatten_append, List.flatten_append, List.flatten_singleton,
      List.flatten_singleton, List.append_assoc]
  · unfold PooledBuffer.octets
    rw [hvecs, List.flatten_append, List.flatten_singleton]

theorem zip_last {bases : List Base} (h : bases.length = init.length + 1) (v : List UInt8) :
    bases.zip (init ++ [v]) = bases.dropLast.zip init ++ [(bases.getLast?.getD .foreign, v)] := by
  rcases bases.eq_nil_or_concat' with rfl | ⟨front, base, rfl⟩
  · cases h
  · rw [List.length_append, List.length_singleton] at h
    rw [List.zip_append (by omega), List.dropLast_concat, List.getLast?_concat]
    rfl

/-! ### Writing to storage -/

theorem iovecs_write (b : StoredBuffer) (s : Slice Base) (xs : List UInt8) :
    iovecs (b.write s xs).contents =
      designate (Slices.write b.memory s xs) b.bases (iovecs b.contents) := by
  unfold write iovecs
  cases b.contents.dynamicArray <;> rfl

theorem placed_write (b : StoredBuffer) (s : Slice Base) (xs : List UInt8) :
    (b.write s xs).placed =
      b.placed.map fun p => (p.1, view (Slices.write b.memory s xs) p.1 p.2) := by
  have hlast : (b.write s xs).contents.last = b.contents.last := rfl
  refine List.ext_getElem ?_ fun i hi hi' => ?_
  · simp only [placed, List.length_zip, List.length_map, length_vecs, hlast]
    rfl
  · have hbases : i < b.bases.length := by
      simp only [placed, List.length_zip, List.length_map] at hi'
      omega
    simp only [placed, List.getElem_zip, List.getElem_map, vecs, List.getElem_range, iovecs_write]
    simp only [designate, Nat.add_sub_cancel]
    rw [List.getElem?_eq_getElem hbases]
    rfl

theorem vecs_write (hb : b.bases.length = b.contents.last) (s : Slice Base) (xs : List UInt8) :
    vecs (b.write s xs).contents =
      b.placed.map fun p => view (Slices.write b.memory s xs) p.1 p.2 := by
  have hplaced := congrArg (List.map Prod.snd) (b.placed_write s xs)
  rw [List.map_map, placed, List.map_snd_zip (by rw [length_vecs]; exact hb.ge)] at hplaced
  exact hplaced

theorem lengths_write (hb : b.bases.length = b.contents.last) (s : Slice Base) (xs : List UInt8) :
    (vecs (b.write s xs).contents).map List.length = (vecs b.contents).map List.length := by
  rw [vecs_write hb, List.map_map]
  have hsnd : b.placed.map Prod.snd = vecs b.contents :=
    List.map_snd_zip (by rw [length_vecs]; exact hb.ge)
  rw [← hsnd, List.map_map]
  exact List.map_congr_left fun p _ => length_view ..

theorem stored_write {s : Slice Base} (hwf : WellFormed b.contents) (hlow : CacheLow b.contents)
    (hb : b.bases.length = b.contents.last)
    (hchunk : b.LastLies)
    (hlaid : Laid b.storage (Slices.write b.memory s xs)
      (b.placed.map fun p => (p.1, view (Slices.write b.memory s xs) p.1 p.2)) b.inUse) :
    (b.write s xs).Stored where
  wellFormed := ⟨hwf.last_le, fun h => hwf.prealloc (Option.map_eq_none_iff.mp h),
    fun h => hwf.dynamic fun hn => h (Option.map_eq_none_iff.mpr hn)⟩
  cacheLow := by
    refine ⟨hlow.pos, hlow.le, ?_⟩
    have hoff := hlow.offset
    rw [List.length_flatten, List.map_take] at hoff ⊢
    rw [lengths_write hb]
    exact hoff
  length_bases := hb
  lastChunk := by
    intro c hc
    obtain ⟨hne, hsize, init, v, hv, hlen⟩ := hchunk c hc
    refine ⟨hne, hsize, ?_⟩
    have hinit : b.bases.length = init.length + 1 := by
      rw [hb, ← length_vecs, hv, List.length_append]
      rfl
    rw [vecs_write hb, placed, hv, zip_last hinit, List.map_append]
    exact ⟨_, _, rfl, (length_view ..).trans hlen⟩
  laid := by
    rw [placed_write]
    exact hlaid

theorem stored_write_of_laid {s : Slice Base} (xs : List UInt8) (hwf : WellFormed b.contents)
    (hlow : CacheLow b.contents) (hb : b.bases.length = b.contents.last)
    (hchunk : b.LastLies)
    (hlaid : Laid b.storage (Slices.write b.memory s xs) b.placed b.inUse) :
    (b.write s xs).Stored ∧ vecs (b.write s xs).contents = vecs b.contents := by
  have hsame : (b.placed.map fun p => (p.1, view (Slices.write b.memory s xs) p.1 p.2)) =
      b.placed := by
    conv_rhs => rw [← List.map_id b.placed]
    exact List.map_congr_left fun p hp => by rw [hlaid.view_eq p hp]; rfl
  refine ⟨stored_write hwf hlow hb hchunk (by rw [hsame]; exact hlaid), ?_⟩
  have hsnd := congrArg (List.map Prod.snd) hsame
  rw [List.map_map] at hsnd
  rw [vecs_write hb]
  refine hsnd.trans ?_
  exact List.map_snd_zip (by rw [length_vecs]; exact hb.ge)

variable {n alignment : Nat}

namespace Stored

theorem vecs_last (h : b.Stored) (hv : vecs b.contents = init ++ [v]) :
    b.placed = b.bases.dropLast.zip init ++ [(b.lastBase, v)] := by
  rw [placed, hv]
  refine zip_last ?_ v
  rw [h.length_bases, ← length_vecs, hv, List.length_append]
  rfl

theorem grow (h : b.Stored) (hg : canGrow b.contents xs.length = true) {pool : IovecPool}
    (hpool : IovecPools.grow b.contents xs = some pool) (cdrPosition length : Int) :
    Inserted b
      (write
        { b with
          cdrPosition, length, contents := pool
          inUse := b.inUse ++ [⟨b.lastBase, (lastIovec b.contents).length, xs.length⟩] }
        ⟨b.lastBase, (lastIovec b.contents).length, xs.length⟩ xs) xs := by
  obtain ⟨pool₁, hpool₁, hch, -⟩ := h.wellFormed.grow hg
  obtain rfl := Option.some.inj (hpool₁.symm.trans hpool)
  unfold canGrow at hg
  rw [Bool.and_eq_true, Bool.and_eq_true] at hg
  obtain ⟨c, hc, hfits⟩ := (Option.any_eq_true ..).mp hg.2
  rw [decide_eq_true_eq] at hfits
  obtain ⟨hne, hsize, init, v, hv, hlen⟩ := h.lastChunk c hc
  have hlast := h.wellFormed.lastIovec_of_vecs hv
  have hlaid := h.laid
  rw [h.vecs_last hv] at hlaid
  obtain ⟨hdisj, hlaid'⟩ := hlaid.grow hne hsize xs (by omega)
  rw [hlast] at hch
  obtain ⟨init', hv', hw⟩ := hch.contents
  rw [hv] at hv'
  obtain ⟨rfl, -⟩ := List.append_inj' hv' rfl
  rw [hlast]
  have hchunk : pool₁.lastChunk = some { c with lastUsed := c.lastUsed + xs.length } := by
    unfold IovecPools.grow at hpool
    split_ifs at hpool
    rw [← Option.some.inj hpool, hc]
    rfl
  have hinit : b.bases.length = init.length + 1 := by
    rw [h.length_bases, ← length_vecs, hv, List.length_append]
    rfl
  obtain ⟨hstored, hvecs⟩ := stored_write_of_laid
    (b := { b with
      cdrPosition, length, contents := pool₁
      inUse := b.inUse ++ [⟨b.lastBase, v.length, xs.length⟩] })
    (s := ⟨b.lastBase, v.length, xs.length⟩) xs hch.wellFormed
    (h.cacheLow.changesLast hch (.inl (by rw [List.length_append]; omega)))
    (h.length_bases.trans hch.last.symm)
    (by
      intro c' hc'
      obtain rfl := Option.some.inj (hchunk.symm.trans hc')
      exact ⟨hne, hsize, init, _, hw, by rw [List.length_append, hlen]⟩)
    (by
      show Laid _ _ (b.bases.zip (vecs pool₁)) _
      rw [hw, zip_last hinit]
      exact hlaid')
  refine ⟨hstored, .inl ?_, ?_⟩
  · rw [hlast]
    exact ⟨hstored.wellFormed, ⟨init, hv, hvecs.trans hw⟩, hch.index, hch.offset⟩
  · exact fun s hs => Slices.read_write_of_disjoint (hdisj s hs).symm

theorem addChunk (h : b.Stored) (xs : List UInt8) (cdrPosition length : Int) :
    Inserted b
      (write
        { b with
          cdrPosition, length
          contents := append b.contents xs (some ⟨max defaultChunkSize xs.length, xs.length⟩)
          storage := (b.storage.allocate xs.length).2
          bases := b.bases ++ [(b.storage.allocate xs.length).1]
          inUse := b.inUse ++ [⟨(b.storage.allocate xs.length).1, 0, xs.length⟩] }
        ⟨(b.storage.allocate xs.length).1, 0, xs.length⟩ xs) xs := by
  obtain ⟨hwf, hvecs⟩ := h.wellFormed.append xs (some ⟨max defaultChunkSize xs.length, xs.length⟩)
  obtain ⟨hindex, hoffset, hchunk⟩ :=
    append_fields b.contents xs (some ⟨max defaultChunkSize xs.length, xs.length⟩)
  obtain ⟨hdisj, hlaid⟩ := h.laid.addChunk xs
  obtain ⟨-, hne, hsize, -⟩ := b.storage.allocate_spec xs.length
  have hbase : (b.bases ++ [(b.storage.allocate xs.length).1]).getLast?.getD .foreign =
      (b.storage.allocate xs.length).1 := by
    rw [List.getLast?_concat, Option.getD_some]
  obtain ⟨hstored, hsame⟩ := stored_write_of_laid
    (b := { b with
      cdrPosition, length
      contents := append b.contents xs (some ⟨max defaultChunkSize xs.length, xs.length⟩)
      storage := (b.storage.allocate xs.length).2
      bases := b.bases ++ [(b.storage.allocate xs.length).1]
      inUse := b.inUse ++ [⟨(b.storage.allocate xs.length).1, 0, xs.length⟩] })
    (s := ⟨(b.storage.allocate xs.length).1, 0, xs.length⟩) xs hwf
    (h.cacheLow.append hvecs hindex hoffset)
    (by
      rw [List.length_append, h.length_bases, ← length_vecs, ← length_vecs, hvecs,
        List.length_append]
      rfl)
    (by
      intro c hc
      obtain rfl := Option.some.inj (hchunk.symm.trans hc)
      show (_ : Option Base).getD _ ≠ _ ∧ ChunkPool.chunkSize _ ((_ : Option Base).getD _) = _ ∧ _
      rw [hbase]
      exact ⟨hne, hsize, _, xs, hvecs, rfl⟩)
    (by
      show Laid _ _ ((b.bases ++ _).zip (vecs (append b.contents xs _))) _
      rw [hvecs, List.zip_append (h.length_bases.trans (length_vecs _).symm)]
      exact hlaid)
  exact ⟨hstored, .inr ⟨hsame.trans hvecs, hindex, hoffset⟩,
    fun s hs => Slices.read_write_of_disjoint (hdisj s hs).symm⟩

theorem addForeign (h : b.Stored) (xs : List UInt8) (cdrPosition length : Int) :
    Inserted b
      { b with
        cdrPosition, length
        contents := append b.contents xs none
        bases := b.bases ++ [.foreign] } xs := by
  obtain ⟨hwf, hvecs⟩ := h.wellFormed.append xs none
  obtain ⟨hindex, hoffset, hchunk⟩ := append_fields b.contents xs none
  refine ⟨⟨hwf, h.cacheLow.append hvecs hindex hoffset, ?_, ?_, ?_⟩,
    .inr ⟨hvecs, hindex, hoffset⟩, fun _ _ => rfl⟩
  · rw [List.length_append, h.length_bases, ← length_vecs, ← length_vecs, hvecs,
      List.length_append]
    rfl
  · intro c hc
    rw [show (append b.contents xs none).lastChunk = none from hchunk] at hc
    cases hc
  · show Laid _ _ ((b.bases ++ _).zip (vecs (append b.contents xs none))) _
    rw [hvecs, List.zip_append (h.length_bases.trans (length_vecs _).symm)]
    exact h.laid.add (.foreign, xs) (fun _ _ => id) (if_pos rfl) (fun hne => absurd rfl hne)
      fun _ _ => id

theorem canShrink (h : b.Stored) (hpos : 0 < n) (hchunk : b.contents.lastChunk ≠ none)
    (hle : n ≤ (lastIovec b.contents).length) : canShrink b.contents n = true := by
  obtain ⟨c, hc⟩ := Option.ne_none_iff_exists'.mp hchunk
  obtain ⟨-, -, init, v, hv, hlen⟩ := h.lastChunk c hc
  rw [h.wellFormed.lastIovec_of_vecs hv] at hle
  have hlast : b.contents.last = init.length + 1 := by
    rw [← length_vecs, hv, List.length_append]
    rfl
  unfold IovecPools.canShrink
  rw [h.wellFormed.lastIovec_of_vecs hv, hc, Option.any_some]
  simp only [Bool.and_eq_true, decide_eq_true_eq]
  omega

theorem unuse (h : b.Stored) (hs : IovecPools.canShrink b.contents n = true)
    (hlow : CacheLow (shrink b.contents n)) (cdrPosition length : Int) :
    Stored
      { b with
        cdrPosition, length
        contents := shrink b.contents n
        inUse := b.inUse.map (Slice.cut b.lastBase ((lastIovec b.contents).length - n)) } := by
  have hch := h.wellFormed.shrink hs
  obtain ⟨init, hv, hw⟩ := hch.contents
  have hinit : b.bases.length = init.length + 1 := by
    rw [h.length_bases, ← length_vecs, hv, List.length_append]
    rfl
  refine ⟨hch.wellFormed, hlow, h.length_bases.trans hch.last.symm, ?_, ?_⟩
  · intro c hc
    have hshrink : (shrink b.contents n).lastChunk =
        b.contents.lastChunk.map fun c => { c with lastUsed := c.lastUsed - n } := by
      unfold shrink
      rw [if_pos hs]
    rw [show (shrink b.contents n).lastChunk = some c from hc] at hshrink
    obtain ⟨c₀, hc₀, rfl⟩ := Option.map_eq_some_iff.mp hshrink.symm
    obtain ⟨hne, hsize, init', v, hv', hlen⟩ := h.lastChunk c₀ hc₀
    rw [h.wellFormed.lastIovec_of_vecs hv'] at hw
    refine ⟨hne, hsize, init, _, hw, ?_⟩
    rw [List.length_take, hlen]
    exact Nat.min_eq_left (Nat.sub_le ..)
  · have hlaid := h.laid
    rw [h.vecs_last hv] at hlaid
    show Laid _ _ (b.bases.zip (vecs (shrink b.contents n))) _
    rw [hw, zip_last hinit]
    have hcut := hlaid.cut (k := (lastIovec b.contents).length - n) (Nat.sub_le ..)
    exact hcut

end Stored

theorem octets_shrink {pool pool' : IovecPool}
    (hch : ChangesLast pool v (v.take (v.length - n)) pool') (hn : n ≤ v.length) :
    (vecs pool').flatten = (vecs pool).flatten.take ((vecs pool).flatten.length - n) := by
  obtain ⟨init, hv, hw⟩ := hch.contents
  rw [hv, hw, List.flatten_append, List.flatten_append, List.flatten_singleton,
    List.flatten_singleton, List.length_append, Nat.add_sub_assoc hn, List.take_length_add_append]

theorem Stored.allocateAndInsertCookedData (h : b.Stored) (data : List UInt8) :
    Inserted b (b.allocateAndInsertCookedData data) data ∧
      (b.allocateAndInsertCookedData data).contents.lastChunk ≠ none := by
  unfold StoredBuffer.allocateAndInsertCookedData PooledBuffer.allocateAndInsertCookedData place
  by_cases hg : canGrow b.contents data.length = true
  · obtain ⟨pool, hpool, -, hshrink⟩ := h.wellFormed.grow hg
    rw [if_pos hg]
    simp only [hpool]
    have hi := h.grow hg hpool (b.cdrPosition + data.length) (b.length + data.length)
    refine ⟨hi, fun hnone => ?_⟩
    replace hnone : pool.lastChunk = none := hnone
    have hpos : 0 < data.length := by
      unfold canGrow at hg
      rw [Bool.and_eq_true, Bool.and_eq_true, decide_eq_true_eq, decide_eq_true_eq] at hg
      exact hg.1.2
    have hs := hshrink data.length hpos le_rfl
    unfold IovecPools.canShrink at hs
    rw [hnone, Option.any_none, Bool.and_false] at hs
    cases hs
  · have hnone : IovecPools.grow b.contents data = none := if_neg hg
    rw [if_neg hg]
    simp only [hnone]
    refine ⟨h.addChunk data _ _, fun hchunk => ?_⟩
    have happ := (append_fields b.contents data
      (some ⟨max defaultChunkSize data.length, data.length⟩)).2.2
    cases happ.symm.trans hchunk

/-! ### The position -/

/-- The length is that of the contents, and the position is one inside them. -/
structure Positioned (b : StoredBuffer) : Prop where
  length_eq : b.length = b.octets.length
  initial_le : b.initialCdrPosition ≤ b.cdrPosition
  le_end : b.cdrPosition ≤ b.initialCdrPosition + b.length

theorem isLeast_paddingSize {position : Int} (hpos : 0 ≤ position) (halign : 0 < alignment) :
    IsLeast {p : Int | position ≤ p ∧ (alignment : Int) ∣ p}
      (position + PooledBuffer.paddingSize position alignment) := by
  have hmod := Int.emod_nonneg (-position) (Int.natCast_pos.mpr halign).ne'
  have hdiv := Int.mul_ediv_add_emod (-position) alignment
  have hsize : (PooledBuffer.paddingSize position alignment : Int) = -position % alignment := by
    unfold PooledBuffer.paddingSize
    rw [if_neg (by omega), Int.toNat_of_nonneg hmod]
  refine ⟨⟨by omega, -(-position / alignment), by rw [mul_neg]; omega⟩, ?_⟩
  rintro p ⟨hle, q, rfl⟩
  have hq : -q ≤ -position / alignment := by
    rw [Int.le_ediv_iff_mul_le (Int.natCast_pos.mpr halign), neg_mul, mul_comm]
    omega
  have hmul := mul_le_mul_of_nonneg_left hq (Int.natCast_nonneg alignment)
  rw [mul_neg] at hmul
  omega

theorem Positioned.padAlign_eq (h : b.Positioned)
    (hz : PooledBuffer.paddingSize b.cdrPosition alignment ≠ 0) :
    b.toPooledBuffer.padAlign alignment =
      { b.toPooledBuffer with
        contents :=
          match grow b.contents
              (List.replicate (PooledBuffer.paddingSize b.cdrPosition alignment) 0) with
          | some pool => pool
          | none =>
            append b.contents
              (List.replicate (PooledBuffer.paddingSize b.cdrPosition alignment) 0) none
        length := b.length + PooledBuffer.paddingSize b.cdrPosition alignment
        cdrPosition := b.cdrPosition + PooledBuffer.paddingSize b.cdrPosition alignment } := by
  have hle := h.le_end
  unfold PooledBuffer.padAlign
  dsimp only
  rw [if_neg hz]
  exact if_pos (by omega)

theorem Positioned.inserted (h : b.Positioned) (hi : Inserted b b' data)
    (hinitial : b'.initialCdrPosition = b.initialCdrPosition)
    (hlength : b'.length = b.length + data.length)
    (hmove : b'.cdrPosition = b.cdrPosition + data.length ∨ b'.cdrPosition = b.cdrPosition) :
    b'.Positioned := by
  have hlen := h.length_eq
  have hge := h.initial_le
  have hle := h.le_end
  refine ⟨?_, ?_, ?_⟩
  · rw [hlength, hi.octets, List.length_append, hlen, Nat.cast_add]
  · omega
  · omega

theorem Stored.padAlign (h : b.Stored) (hp : b.Positioned)
    (hz : PooledBuffer.paddingSize b.cdrPosition alignment ≠ 0) :
    Inserted b (b.padAlign alignment)
        (List.replicate (PooledBuffer.paddingSize b.cdrPosition alignment) 0) ∧
      (b.padAlign alignment).initialCdrPosition = b.initialCdrPosition ∧
      (b.padAlign alignment).length =
        b.length + PooledBuffer.paddingSize b.cdrPosition alignment ∧
      (b.padAlign alignment).cdrPosition =
        b.cdrPosition + PooledBuffer.paddingSize b.cdrPosition alignment := by
  unfold StoredBuffer.padAlign
  rw [if_neg hz, hp.padAlign_eq hz]
  generalize PooledBuffer.paddingSize b.cdrPosition alignment = padding at hz ⊢
  have hlen : (List.replicate padding (0 : UInt8)).length = padding := List.length_replicate
  by_cases hg : canGrow b.contents padding = true
  · have hg' := hg
    rw [← hlen] at hg'
    obtain ⟨pool, hpool, -⟩ := h.wellFormed.grow hg'
    have hi := h.grow hg' hpool (b.cdrPosition + padding) (b.length + padding)
    rw [hlen] at hi
    unfold place
    rw [if_pos hg, if_pos hg]
    simp only [hpool]
    exact ⟨hi, rfl, rfl, rfl⟩
  · have hnone : IovecPools.grow b.contents (List.replicate padding 0) = none :=
      if_neg (by rw [hlen]; exact hg)
    rw [if_neg hg]
    refine ⟨?_, rfl, rfl, rfl⟩
    simp only [hnone]
    exact h.addForeign _ _ _

/-- What `Receive_Buffer` gives back is part of what it has allocated. -/
theorem Stored.receiveBuffer (h : b.Stored) (max : Nat) (data : List UInt8) :
    (b.receiveBuffer max data).Stored ∧
      (b.receiveBuffer max data).octets = b.octets ++ data.take max ∧
      (b.receiveBuffer max data).length = b.length + (data.take max).length ∧
      (b.receiveBuffer max data).initialCdrPosition = b.initialCdrPosition ∧
      ∀ s ∈ b.inUse,
        Slices.read (b.receiveBuffer max data).memory s = Slices.read b.memory s := by
  unfold StoredBuffer.receiveBuffer
  have hreceived : (data.take max).length ≤ max := List.length_take_le ..
  generalize data.take max = received at hreceived ⊢
  dsimp only
  have hread : (Slices.read b.memory (b.place max).1).length = max := by
    rw [Slices.length_read]
    unfold place
    split_ifs <;> rfl
  generalize Slices.read b.memory (b.place max).1 = held at hread ⊢
  have hzone : (received ++ held.drop received.length).length = max := by
    rw [List.length_append, List.length_drop, hread]
    omega
  obtain ⟨hi, hchunk⟩ := h.allocateAndInsertCookedData (received ++ held.drop received.length)
  have hlength : (b.allocateAndInsertCookedData (received ++ held.drop received.length)).length =
      b.length + max := by
    rw [← hzone]
    rfl
  have hinitial : (b.allocateAndInsertCookedData
      (received ++ held.drop received.length)).initialCdrPosition = b.initialCdrPosition := rfl
  generalize b.allocateAndInsertCookedData (received ++ held.drop received.length) = b₁
    at hi hchunk hlength hinitial ⊢
  have hoctets := hi.octets
  have hall : b.octets ++ (received ++ held.drop received.length) =
      b.octets ++ received ++ held.drop received.length := (List.append_assoc ..).symm
  unfold StoredBuffer.unuseAllocation PooledBuffer.unuseAllocation
  by_cases hz : max - received.length = 0
  · rw [if_pos hz, if_neg (by simp [IovecPools.canShrink, hz])]
    refine ⟨⟨hi.stored.wellFormed, hi.stored.cacheLow, hi.stored.length_bases,
      hi.stored.lastChunk, hi.stored.laid⟩, ?_, ?_, hinitial, hi.keeps⟩
    · refine hoctets.trans ?_
      rw [List.drop_of_length_le (by omega), List.append_nil]
    · show b₁.length = _
      omega
  · have hlast : max ≤ (lastIovec b₁.contents).length ∧
        CacheLow (shrink b₁.contents (max - received.length)) := by
      rcases hi.pool with hch | ⟨hvecs, hindex, -⟩
      · have hl := hch.lastIovec_eq
        have hlen : max ≤ (lastIovec b₁.contents).length := by
          rw [hl, List.length_append, hzone]
          omega
        have hs := hi.stored.wellFormed.shrink
          (hi.stored.canShrink (Nat.pos_of_ne_zero hz) hchunk (by omega))
        rw [hl] at hs
        refine ⟨hlen, h.cacheLow.changesLast (hch.trans hs) (.inl ?_)⟩
        rw [List.length_take, List.length_append, hzone]
        omega
      · have hl := hi.stored.wellFormed.lastIovec_of_vecs hvecs
        have hlen : max ≤ (lastIovec b₁.contents).length := by rw [hl, hzone]
        have hs := hi.stored.wellFormed.shrink
          (hi.stored.canShrink (Nat.pos_of_ne_zero hz) hchunk (by omega))
        have hcount : b₁.contents.last = b.contents.last + 1 := by
          rw [← length_vecs, hvecs, List.length_append, length_vecs]
          rfl
        refine ⟨hlen, hi.stored.cacheLow.changesLast hs (.inr ?_)⟩
        rw [hindex, hcount]
        exact h.cacheLow.le
    have hs := hi.stored.canShrink (Nat.pos_of_ne_zero hz) hchunk (by omega)
    rw [if_neg hz, if_pos hs]
    refine ⟨hi.stored.unuse hs hlast.2 _ _, ?_, ?_, hinitial, hi.keeps⟩
    · refine (octets_shrink (hi.stored.wellFormed.shrink hs) (by omega)).trans ?_
      show b₁.octets.take (b₁.octets.length - _) = _
      rw [hoctets, hall]
      refine List.take_left' ?_
      rw [List.length_append, List.length_append, List.length_append, List.length_drop]
      omega
    · show b₁.length - _ = _
      omega

/-! ### Any operation -/

theorem accounted (h : b.Stored) (hp : b.Positioned) : b.Accounted where
  length_eq := by
    rw [hp.length_eq, PooledBuffer.octets, List.length_flatten]
  initial_le := hp.initial_le
  le_end := hp.le_end
  inside := by
    intro s hs base i hi
    obtain ⟨p, hpl, hne, hw⟩ := h.laid.within s hs
    obtain ⟨n, hn, hle⟩ := h.laid.chunk p hpl hne
    obtain ⟨rfl, -, hlt⟩ := hw base i hi
    exact ⟨n, hn, by dsimp only at hlt; omega⟩
  disjoint := h.laid.disjoint

/-- What a step has to show. -/
theorem accounts (op : StorageOperation) (hs : (b.perform op).Stored)
    (hp : (b.perform op).Positioned) (heffect : b.Effect op (b.perform op))
    (hkeeps : b.KeepsStored op) :
    b.Accounts op ∧ (b.perform op).Stored ∧ (b.perform op).Positioned :=
  ⟨⟨accounted hs hp, heffect, hkeeps⟩, hs, hp⟩

theorem accounts_allocate (h : b.Stored) (hp : b.Positioned) (data : List UInt8) :
    (b.allocateAndInsertCookedData data).Stored ∧ (b.allocateAndInsertCookedData data).Positioned ∧
      (b.allocateAndInsertCookedData data).octets = b.octets ++ data ∧
      ∀ s ∈ b.inUse, Slices.read (b.allocateAndInsertCookedData data).memory s =
        Slices.read b.memory s := by
  obtain ⟨hi, -⟩ := h.allocateAndInsertCookedData data
  exact ⟨hi.stored, hp.inserted hi rfl rfl (.inl rfl), hi.octets, hi.keeps⟩

theorem accounts_padAlign (h : b.Stored) (hp : b.Positioned) (alignment : Nat) :
    b.Accounts (.padAlign alignment) ∧ (b.perform (.padAlign alignment)).Stored ∧
      (b.perform (.padAlign alignment)).Positioned := by
  by_cases hz : PooledBuffer.paddingSize b.cdrPosition alignment = 0
  · have hsame : b.perform (.padAlign alignment) = b := if_pos hz
    refine accounts _ (by rw [hsame]; exact h) (by rw [hsame]; exact hp) ?_ ?_
    · intro halign hpos
      have hleast := isLeast_paddingSize hpos halign
      rw [hz, Nat.cast_zero, add_zero] at hleast
      rw [hsame]
      refine ⟨hleast, ?_⟩
      rw [sub_self, Int.toNat_zero, List.replicate_zero, List.append_nil]
    · intro s _ _
      rw [hsame]
  · obtain ⟨hi, hinitial, hlength, hmove⟩ := h.padAlign hp hz
    have hpos : (b.padAlign alignment).Positioned := by
      refine hp.inserted hi hinitial ?_ (.inl ?_)
      · rw [List.length_replicate, hlength]
      · rw [List.length_replicate, hmove]
    refine accounts _ hi.stored hpos ?_ fun s hs _ => hi.keeps s hs
    intro halign hge
    have hleast := isLeast_paddingSize hge halign
    rw [← hmove] at hleast
    refine ⟨hleast, hi.octets.trans ?_⟩
    show _ = b.octets ++ List.replicate ((b.padAlign alignment).cdrPosition - _).toNat 0
    rw [hmove, add_sub_cancel_left, Int.toNat_natCast]

theorem accounts_copyData (h : b.Stored) (hp : b.Positioned) {location : Slice Base}
    (hin : location ∈ b.inUse) (hlen : data.length = location.size) :
    b.Accounts (.copyData data location) ∧ (b.perform (.copyData data location)).Stored ∧
      (b.perform (.copyData data location)).Positioned := by
  have hwrite : b.perform (.copyData data location) = b.write location data := if_pos hlen
  obtain ⟨hdisj, hlaid⟩ := h.laid.overwrite hin data
  have hstored := stored_write h.wellFormed h.cacheLow h.length_bases h.lastChunk hlaid
  have hoctets : (b.write location data).octets.length = b.octets.length := by
    rw [PooledBuffer.octets, List.length_flatten, lengths_write h.length_bases,
      ← List.length_flatten]
    rfl
  rw [← hwrite] at hstored hoctets
  refine accounts _ hstored ⟨?_, ?_, ?_⟩ ⟨hoctets, ?_⟩ ?_
  · rw [hoctets, ← hp.length_eq, hwrite]
    rfl
  · rw [hwrite]
    exact hp.initial_le
  · rw [hwrite]
    exact hp.le_end
  · rw [hwrite]
    exact Slices.read_write hlen
  · intro s hs hne
    rw [hwrite]
    refine Slices.read_write_of_disjoint (hdisj s hs ?_).symm
    rintro rfl
    exact hne data rfl

theorem accounts_unuse (h : b.Stored) (hp : b.Positioned) {size : Nat}
    (hproper : b.Proper (.unuseAllocation size)) :
    b.Accounts (.unuseAllocation size) ∧ (b.perform (.unuseAllocation size)).Stored ∧
      (b.perform (.unuseAllocation size)).Positioned := by
  by_cases hz : size = 0
  · subst hz
    have hsame : b.perform (.unuseAllocation 0) = b := by
      show b.unuseAllocation 0 = b
      unfold StoredBuffer.unuseAllocation PooledBuffer.unuseAllocation
      rw [if_pos rfl, if_neg (by simp [canShrink])]
    refine accounts _ (by rw [hsame]; exact h) (by rw [hsame]; exact hp) ?_ ?_
    · exact List.take_length.symm
    · intro s _ _
      rw [hsame]
  · obtain ⟨hchunk, hle, hge, hlow⟩ := hproper.resolve_left hz
    have hs := h.canShrink (Nat.pos_of_ne_zero hz) hchunk hle
    have hch := h.wellFormed.shrink hs
    have hcache := h.cacheLow.changesLast hch (.inr hlow)
    have hperform : b.perform (.unuseAllocation size) =
        { b with
          cdrPosition := b.cdrPosition - size
          length := b.length - size
          contents := shrink b.contents size
          inUse := b.inUse.map (Slice.cut b.lastBase ((lastIovec b.contents).length - size)) } := by
      show b.unuseAllocation size = _
      unfold StoredBuffer.unuseAllocation PooledBuffer.unuseAllocation
      rw [if_neg hz, if_pos hs]
    have hoctets := octets_shrink hch hle
    have hlength := hp.length_eq
    have hend := hp.le_end
    refine accounts _ (by rw [hperform]; exact h.unuse hs hcache _ _) ?_ ?_ ?_
    · rw [hperform]
      refine ⟨?_, by dsimp only; omega, by dsimp only; omega⟩
      show b.length - size = (((vecs (shrink b.contents size)).flatten.length : Nat) : Int)
      rw [hoctets, List.length_take]
      show _ = ((min (b.octets.length - size) b.octets.length : Nat) : Int)
      omega
    · rw [hperform]
      exact hoctets
    · intro s _ _
      rw [hperform]

theorem accounts_extract (h : b.Stored) (hp : b.Positioned) (size : Nat) (atPosition : Option Int)
    (partialAllowed : Bool) :
    b.Accounts (.partialExtractData size atPosition partialAllowed) ∧
      (b.perform (.partialExtractData size atPosition partialAllowed)).Stored ∧
      (b.perform (.partialExtractData size atPosition partialAllowed)).Positioned := by
  obtain ⟨hlow, hbound⟩ := h.cacheLow.extractData (b.extractOffset atPosition) size
  have hlength := hp.length_eq
  have hge := hp.initial_le
  have hle := hp.le_end
  have hmove : (b.perform (.partialExtractData size atPosition partialAllowed)) =
      { b with
        contents := (extractData b.contents (b.extractOffset atPosition) size).1
        cdrPosition :=
          (b.perform (.partialExtractData size atPosition partialAllowed)).cdrPosition } ∧
      b.initialCdrPosition ≤
        (b.perform (.partialExtractData size atPosition partialAllowed)).cdrPosition ∧
      (b.perform (.partialExtractData size atPosition partialAllowed)).cdrPosition ≤
        b.initialCdrPosition + b.length := by
    unfold perform PooledBuffer.partialExtractData
    dsimp only
    split_ifs with hshort hcurrent
    · exact ⟨rfl, hge, hle⟩
    · subst hcurrent
      have hoffset : b.extractOffset none = b.cdrPosition - b.initialCdrPosition := rfl
      have := hbound (by show _ ≤ (b.octets.length : Int); omega)
      replace this : _ ≤ (b.octets.length : Int) := this
      exact ⟨rfl, by dsimp only; omega, by dsimp only; omega⟩
    · exact ⟨rfl, hge, hle⟩
  obtain ⟨heq, hge', hle'⟩ := hmove
  generalize (b.perform (.partialExtractData size atPosition partialAllowed)).cdrPosition =
    cdrPosition at heq hge' hle'
  refine accounts _ ?_ ?_ ?_ ?_
  · rw [heq]
    exact ⟨⟨h.wellFormed.last_le, h.wellFormed.prealloc, h.wellFormed.dynamic⟩, hlow,
      h.length_bases, h.lastChunk, h.laid⟩
  · rw [heq]
    exact ⟨hlength, hge', hle'⟩
  · rw [heq]
    rfl
  · intro s _ _
    rw [heq]

theorem accounts_perform (h : b.Stored) (hp : b.Positioned) (op : StorageOperation)
    (hproper : b.Proper op) :
    b.Accounts op ∧ (b.perform op).Stored ∧ (b.perform op).Positioned := by
  cases op with
  | allocateAndInsertCookedData data =>
    obtain ⟨hs, hp', hoctets, hkeeps⟩ := accounts_allocate h hp data
    exact accounts _ hs hp' hoctets fun s hs _ => hkeeps s hs
  | insertRawData data =>
    have hi := h.addForeign data (b.cdrPosition + data.length) (b.length + data.length)
    exact accounts _ hi.stored (hp.inserted hi rfl rfl (.inl rfl)) hi.octets fun s _ _ => rfl
  | padAlign alignment => exact accounts_padAlign h hp alignment
  | reserve amount =>
    obtain ⟨hs, hp', hoctets, hkeeps⟩ :=
      accounts_allocate h hp (Slices.read b.memory (b.place amount).1)
    refine accounts _ hs hp' ⟨_, ?_, hoctets⟩ fun s hs _ => hkeeps s hs
    rw [Slices.length_read]
    unfold place
    split_ifs <;> rfl
  | copyData data location => exact accounts_copyData h hp hproper.1 hproper.2
  | receiveBuffer max data =>
    obtain ⟨hs, hoctets, hlength, hinitial, hkeeps⟩ := h.receiveBuffer max data
    have hge := hp.initial_le
    have hle := hp.le_end
    refine accounts _ hs ⟨?_, ?_, ?_⟩ ⟨hoctets, rfl⟩ fun s hs _ => hkeeps s hs
    · show (b.receiveBuffer max data).length = (b.receiveBuffer max data).octets.length
      rw [hoctets, hlength, List.length_append, hp.length_eq, Nat.cast_add]
    · show (b.receiveBuffer max data).initialCdrPosition ≤ b.cdrPosition
      omega
    · show b.cdrPosition ≤
        (b.receiveBuffer max data).initialCdrPosition + (b.receiveBuffer max data).length
      omega
  | unuseAllocation size => exact accounts_unuse h hp hproper
  | partialExtractData size atPosition partialAllowed =>
    exact accounts_extract h hp size atPosition partialAllowed

theorem stored_new (initialCdrPosition : Int) (memory : Base → Nat → UInt8) :
    (new initialCdrPosition memory).Stored where
  wellFormed := wellFormed_new
  cacheLow := ⟨Nat.one_pos, Nat.succ_le_succ (Nat.zero_le _), Nat.le_refl _⟩
  length_bases := rfl
  lastChunk := nofun
  laid := ⟨nofun, nofun, .nil, nofun, .nil⟩

theorem positioned_new (initialCdrPosition : Int) (memory : Base → Nat → UInt8) :
    (new initialCdrPosition memory).Positioned :=
  ⟨rfl, le_refl _, (add_zero initialCdrPosition).ge⟩

/-- Over any proper sequence of operations the buffer is accounted for after each, every insertion
adds its octets at the end, and storage in use keeps what it holds. -/
theorem accounts_along (initialCdrPosition : Int) (memory : Base → Nat → UInt8)
    (ops : List StorageOperation)
    (h : Runs.Along perform Proper (new initialCdrPosition memory) ops) :
    Runs.Along perform Accounts (new initialCdrPosition memory) ops := by
  have hstep : ∀ (b : StoredBuffer) (op : StorageOperation), b.Stored ∧ b.Positioned →
      b.Proper op → b.Accounts op ∧ (b.perform op).Stored ∧ (b.perform op).Positioned :=
    fun b op hb hproper => accounts_perform hb.1 hb.2 op hproper
  exact Runs.along_of_inv hstep ops _ ⟨stored_new .., positioned_new ..⟩ h

theorem accounts_along_mixed :
    Runs.Along perform Accounts (new 4 fun _ _ => 0)
      [.allocateAndInsertCookedData [1, 2, 3], .padAlign 8, .insertRawData [9], .padAlign 4,
        .reserve 4, .copyData [5, 6, 7, 8] ⟨.dynamic 0, 0, 4⟩, .unuseAllocation 2,
        .receiveBuffer 8 [1, 2], .partialExtractData 2 none false] :=
  accounts_along 4 _ _ (by decide)

/-- The length of a buffer is wrong after octets are given back that are not its own, the position
is before the initial one after octets are given back that have been received, and past the end
after some are given back that an extraction had gone past.  A negative position is not aligned:
`Padding_Size` raises an exception. -/
theorem not_accounts_along :
    (¬Runs.Along perform Accounts (new 0 fun _ _ => 0)
        [.insertRawData [1, 2], .unuseAllocation 1]) ∧
      (¬Runs.Along perform Accounts (new 0 fun _ _ => 0)
        [.receiveBuffer 8 [1, 2], .unuseAllocation 1]) ∧
      (¬Runs.Along perform Accounts (new 0 fun _ _ => 0)
        [.receiveBuffer 2 [1, 2], .partialExtractData 2 none false, .partialExtractData 0 none true,
          .unuseAllocation 1, .insertRawData [1, 2, 3, 4], .partialExtractData 4 none true]) ∧
      ¬IsLeast {p : Int | -3 ≤ p ∧ 8 ∣ p}
        ((new (-3) fun _ _ => 0).perform (.padAlign 8)).cdrPosition := by
  refine ⟨?_, ?_, ?_, ?_⟩
  · rintro ⟨-, ⟨h, -⟩, -⟩
    exact absurd h.length_eq (by decide)
  · rintro ⟨-, ⟨h, -⟩, -⟩
    exact absurd h.initial_le (by decide)
  · rintro ⟨-, -, -, -, -, ⟨h, -⟩, -⟩
    exact absurd h.le_end (by decide)
  · rintro ⟨⟨-, h⟩, -⟩
    exact absurd h (by decide)

end StoredBuffer

end PolyORB
