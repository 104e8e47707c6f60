import PolyORB.Cdr.Transfer

/-!
# Round trips of marshalling and decoding programs

`Transfers h m u a b b'`: from buffer `b`, the program `m` marshals without error, giving `b'`, and
on any decoder over the heap `h` whose buffer presents `b'`, the program `u` returns `a` and moves
to where `m` ended.  This is `RoundTrips` for programs that also carry an error container.
-/

namespace PolyORB

open Buffer
open Program (onlyIf raiseIf evaluate)

namespace Decoder

def seek (u : Decoder) (p : Nat) : Decoder :=
  { u with buffer := { u.buffer with cdrPosition := p } }

@[simp] theorem seek_heap (u : Decoder) (p : Nat) : (u.seek p).heap = u.heap := rfl
@[simp] theorem seek_error (u : Decoder) (p : Nat) : (u.seek p).error = u.error := rfl
@[simp] theorem seek_position (u : Decoder) (p : Nat) : (u.seek p).buffer.cdrPosition = p := rfl
@[simp] theorem seek_seek (u : Decoder) (p q : Nat) : (u.seek p).seek q = u.seek q := rfl

theorem seek_self (u : Decoder) : u.seek u.buffer.cdrPosition = u := rfl

/-- `u` is ready to read, over the heap `h`, what `b'` holds from the position of `b` on. -/
structure Ready (h : Heap) (b b' : Buffer) (u : Decoder) : Prop where
  heap_eq : u.heap = h
  error_eq : u.error = none
  presents : Presents b' u.buffer b.cdrPosition
  position_eq : u.buffer.cdrPosition = b.cdrPosition

theorem Ready.first {h : Heap} {b b' b'' : Buffer} {u : Decoder} (hr : Ready h b b'' u)
    (hb' : b'.AtEnd) (hw : Written b' b'') : Ready h b b' u :=
  ⟨hr.heap_eq, hr.error_eq, hr.presents.of_written hw hb', hr.position_eq⟩

theorem Ready.second {h : Heap} {b b' b'' : Buffer} {u : Decoder} (hr : Ready h b b'' u)
    (hb : b.AtEnd) (hw : Written b b') : Ready h b' b'' (u.seek b'.cdrPosition) :=
  ⟨hr.heap_eq, hr.error_eq, (hr.presents.mono (hw.position_le hb)).setPosition _, rfl⟩

end Decoder

structure Transfers {α : Type} (h : Heap) (m : CdrProg Unit) (u : DecodeProg α) (a : α)
    (b b' : Buffer) : Prop where
  marshall : m ⟨b, none⟩ = .ok () ⟨b', none⟩
  written : Written b b'
  unmarshall : ∀ s, Decoder.Ready h b b' s → u s = .ok a (s.seek b'.cdrPosition)

namespace Transfers

variable {α β : Type} {h : Heap} {b b' b'' : Buffer}

theorem pure (hb : b.AtEnd) (a : α) : Transfers h (pure ()) (pure a) a b b := by
  refine ⟨rfl, .refl hb, fun s hs => ?_⟩
  rw [← hs.position_eq]
  rfl

variable {u : DecodeProg α} {m : CdrProg Unit}

theorem bind {m' : CdrProg Unit} {f : α → DecodeProg β} {a : α} {c : β}
    (hb : b.AtEnd) (ht : Transfers h m u a b b') (ht' : Transfers h m' (f a) c b' b'') :
    Transfers h (m >>= fun _ => m') (u >>= f) c b b'' := by
  refine ⟨?_, ht.written.trans ht'.written, fun s hs => ?_⟩
  · rw [Program.bind_ok ht.marshall]
    exact ht'.marshall
  · have h1 := ht.unmarshall s (hs.first ht.written.atEnd ht'.written)
    have h2 := ht'.unmarshall _ (hs.second hb ht.written)
    rw [Program.bind_ok h1, h2]
    rfl

theorem decode {u' : DecodeProg α} {a : α} (ht : Transfers h m u a b b')
    (he : ∀ s : Decoder, s.heap = h → s.error = none → s.buffer.endianness = b.endianness →
      u' s = u s) : Transfers h m u' a b b' := by
  refine ⟨ht.marshall, ht.written, fun s hs => ?_⟩
  have ho := hs.presents.endianness_eq.trans ht.written.endianness_eq
  rw [he s hs.heap_eq hs.error_eq ho, ht.unmarshall s hs]

/-- Steps of the encoder that only look at the byte order and the error container. -/
theorem encode {m' : CdrProg Unit} {a : α} (ht : Transfers h m u a b b')
    (he : m' ⟨b, none⟩ = m ⟨b, none⟩) : Transfers h m' u a b b' :=
  ⟨he.trans ht.marshall, ht.written, ht.unmarshall⟩

theorem map {f : α → DecodeProg β} {a : α} {c : β} (ht : Transfers h m u a b b')
    (hf : ∀ s : Decoder, s.heap = h → s.error = none → f a s = .ok c s) :
    Transfers h m (u >>= f) c b b' := by
  refine ⟨ht.marshall, ht.written, fun s hs => ?_⟩
  rw [Program.bind_ok (ht.unmarshall s hs)]
  exact hf _ hs.heap_eq hs.error_eq

/-- An encoder step that writes nothing may come first. -/
theorem before {m : CdrProg β} {f : β → CdrProg Unit} {d : β} {a : α}
    (hm : m ⟨b, none⟩ = .ok d ⟨b, none⟩) (ht : Transfers h (f d) u a b b') :
    Transfers h (m >>= f) u a b b' := by
  refine ⟨?_, ht.written, ht.unmarshall⟩
  rw [Program.bind_ok hm, ht.marshall]

theorem handlers {a : α} (ht : Transfers h m u a b b')
    (hm : Exn → CdrProg Unit) (hu : Exn → DecodeProg α) :
    Transfers h (tryCatch m hm) (tryCatch u hu) a b b' :=
  ⟨Program.tryCatch_ok ht.marshall, ht.written, fun s hs =>
    Program.tryCatch_ok (ht.unmarshall s hs)⟩

theorem ofBuffer {m : BufferProg Unit} {u : BufferProg α} {a : α} (hr : RoundTrips m u a b b') :
    Transfers h (onBuffer m) (fromBuffer u) a b b' := by
  refine ⟨?_, hr.written, fun s hs => ?_⟩
  · exact Program.zoom_ok hr.marshall
  · have hu := hr.unmarshall s.buffer hs.presents hs.position_eq
    have ht : onBuffer u s.toTransfer = .ok a (s.seek b'.cdrPosition).toTransfer :=
      Program.zoom_ok hu
    rw [fromBuffer, onTransfer, Program.zoom_ok ht]
    rfl

theorem elementary (cfg : Config) (hb : b.AtEnd) {size v : Nat} (hs : 0 < size)
    (hv : v < 256 ^ size) :
    ∃ b', Transfers h (onBuffer (marshallElementary cfg.hostOrder size v))
      (fromBuffer (unmarshallElementary cfg.hostOrder size)) v b b' := by
  obtain ⟨b', hr, -⟩ := RoundTrips.elementary cfg.hostOrder hb hs hv
  exact ⟨b', .ofBuffer hr⟩

end Transfers

theorem onHeap_ok {α : Type} {f : Heap → Except Exn α} {a : α} {s : Decoder}
    (hf : f s.heap = .ok a) : onHeap f s = .ok a s := by
  rw [onHeap, Program.bind_ok (Program.get_apply s), hf, Program.evaluate_ok]

theorem found_none (b : Buffer) : found ⟨b, none⟩ = .ok false ⟨b, none⟩ := rfl

theorem onTransfer_found {s : Decoder} (hs : s.error = none) :
    onTransfer found s = .ok false s := by
  have hf : found s.toTransfer = .ok s.error.isSome s.toTransfer := rfl
  rw [onTransfer, Program.zoom_ok hf, hs]
  rfl

end PolyORB
