import PolyORB.Giop.Ior
import PolyORB.Giop.CharConversion

/-!
# Encapsulations between hosts

`Conveys sender m u a advance` says that wherever a sender marshals with `m`, a receiver reads `a`
with `u`, and `advance` tells where both end.  It holds of sequences of octets and of items, and of
what is put in an encapsulation.
-/

namespace PolyORB

open Buffer

def Conveys {α : Type} (sender : Endianness) (m : BufferProg Unit) (u : BufferProg α) (a : α)
    (advance : Nat → Nat) : Prop :=
  ∀ b : Buffer, b.AtEnd → b.endianness = sender →
    ∃ b', RoundTrips m u a b b' ∧ b'.cdrPosition = advance b.cdrPosition

variable {m : BufferProg Unit}

namespace Conveys

variable {α β : Type} {sender : Endianness}

theorem pure (a : α) : Conveys sender (pure ()) (pure a) a id :=
  fun b hb _ => ⟨b, .pure hb a, rfl⟩

variable {f g : Nat → Nat}

theorem bind {m' : BufferProg Unit} {u : BufferProg α} {k : α → BufferProg β} {a : α} {c : β}
    (h : Conveys sender m u a f) (h' : Conveys sender m' (k a) c g) :
    Conveys sender (m >>= fun _ => m') (u >>= k) c (g ∘ f) := by
  intro b hb he
  obtain ⟨b₁, h₁, hp₁⟩ := h b hb he
  obtain ⟨b₂, h₂, hp₂⟩ := h' b₁ h₁.written.atEnd (h₁.written.endianness_eq.trans he)
  exact ⟨b₂, .bind hb h₁ h₂, by rw [hp₂, hp₁, Function.comp_apply]⟩

theorem congr {u : BufferProg α} {a : α}
    (h : Conveys sender m u a f) (hfg : ∀ p, f p = g p) : Conveys sender m u a g :=
  funext hfg ▸ h

theorem unique {u : BufferProg α} {a a' : α}
    (h : Conveys sender m u a f) (h' : Conveys sender m u a' g) : a = a' := by
  obtain ⟨b₁, h₁, -⟩ := h _ (atEnd_new sender) rfl
  obtain ⟨b₂, h₂, -⟩ := h' _ (atEnd_new sender) rfl
  have hsame : b₁ = b₂ := by
    have hm := h₁.marshall.symm.trans h₂.marshall
    injection hm
  subst hsame
  have hpresents := (Presents.self b₁ (Buffer.new sender).cdrPosition).setPosition
    (Buffer.new sender).cdrPosition
  have hread := (h₁.unmarshall _ hpresents rfl).symm.trans (h₂.unmarshall _ hpresents rfl)
  injection hread

theorem map {u : BufferProg α} {k : α → BufferProg β} {a : α} {c : β}
    (h : Conveys sender m u a f) (hk : ∀ r, k a r = .ok c r) :
    Conveys sender m (u >>= k) c f := by
  intro b hb he
  obtain ⟨b₁, h₁, hp₁⟩ := h b hb he
  exact ⟨b₁, h₁.map hk, hp₁⟩

end Conveys

/-! ## Items and octets -/

def advanceElementary (size p : Nat) : Nat := p + Octets.padding p size + size

theorem Conveys.elementary (sender receiver : Endianness) {size v : Nat} (hs : 0 < size)
    (hv : v < 256 ^ size) : Conveys sender (marshallElementary sender size v)
      (unmarshallElementary receiver size) v (advanceElementary size) :=
  fun _ hb _ => RoundTrips.between sender receiver hb hs hv

theorem Conveys.boolean (sender receiver : Endianness) (v : Bool) :
    Conveys sender (marshallBoolean sender v) (unmarshallBoolean receiver) v
      (advanceElementary 1) := by
  have hv : v.toNat < 256 ^ 1 := by cases v <;> decide
  refine (Conveys.elementary sender receiver one_pos hv).map fun r => ?_
  cases v <;> rfl

theorem Conveys.octets (sender receiver : Endianness) (xs : List UInt8) :
    Conveys sender (alignMarshallCopy xs 1) (unmarshallOctets receiver xs.length) xs
      fun p => p + xs.length := by
  intro b hb _
  obtain ⟨b', h, ha⟩ := allocateAndInsertCookedData_appended hb xs
  have hpos := ha.position_eq hb
  refine ⟨b', ⟨?_, ha.written, fun r hr hp => ?_⟩, hpos⟩
  · rw [alignMarshallCopy, Program.bind_ok (padAlign_one b)]
    exact h
  · have hlim := hr.limit_le
    rw [← ha.written.atEnd.position_eq, hpos] at hlim
    rw [unmarshallOctets_of_pieces receiver xs (by rw [hp]; exact hlim), hp, hpos]
    intro i x hx
    rw [hp]
    exact hr.piece_eq _ _ _ (Nat.le_add_right _ _) one_pos (ha.pieceAt hb hx)

def advanceOctetArray (n p : Nat) : Nat := advanceElementary 4 p + n

theorem Conveys.octetArray (sender receiver : Endianness) {xs : List UInt8}
    (hxs : xs.length < unsignedLongModulus) : Conveys sender (marshallOctetArray sender xs)
      (unmarshallOctetArray receiver) xs (advanceOctetArray xs.length) := by
  rw [marshallOctetArray, Nat.mod_eq_of_lt hxs]
  exact (Conveys.elementary sender receiver (by decide) hxs).bind
    (Conveys.octets sender receiver xs)

def advanceString (n p : Nat) : Nat := advanceElementary 4 p + n + 1

theorem Conveys.latin1String (sender receiver : Endianness) {s : List UInt8}
    (hs : s.length + 1 < 2 ^ 31) : Conveys sender (marshallLatin1String sender s)
      (unmarshallLatin1String receiver) s (advanceString s.length) := by
  have hlt : s.length + 1 < unsignedLongModulus := lt_trans hs (by decide)
  have hnul : Conveys sender (marshallElementary sender 1 0) (do
      let nul ← unmarshallElementary receiver 1
      Program.raiseIf (nul ≠ 0) .constraintError
      return s) s (· + 1) := by
    have h := (Conveys.elementary sender receiver one_pos (v := 0) (by decide)).map
      (k := fun nul => do
        Program.raiseIf (nul ≠ 0) .constraintError
        return s) (c := s) fun r => rfl
    intro b hb he
    obtain ⟨b', hb', hp⟩ := h b hb he
    refine ⟨b', hb', hp.trans ?_⟩
    rw [advanceElementary, Octets.padding_one, Nat.add_zero]
  have htail := (Conveys.octets sender receiver s).bind (k := fun equiv => do
    let nul ← unmarshallElementary receiver 1
    Program.raiseIf (nul ≠ 0) .constraintError
    return equiv) hnul
  rw [marshallLatin1String, Nat.mod_eq_of_lt hlt, unmarshallLatin1String]
  refine Conveys.bind (f := advanceElementary 4) (g := fun p => p + s.length + 1)
    (.elementary sender receiver four_pos hlt) ?_
  simp only [Nat.add_sub_cancel, Nat.add_eq_zero_iff, one_ne_zero, and_false, if_false]
  have hraise : (do
      Program.raiseIf (2 ^ 31 ≤ s.length + 1) .constraintError
      let equiv ← unmarshallOctets receiver s.length
      let nul ← unmarshallElementary receiver 1
      Program.raiseIf (nul ≠ 0) .constraintError
      return equiv : BufferProg (List UInt8)) = (do
      let equiv ← unmarshallOctets receiver s.length
      let nul ← unmarshallElementary receiver 1
      Program.raiseIf (nul ≠ 0) .constraintError
      return equiv) := by
    funext r
    rw [Program.bind_raiseIf (not_le.2 hs)]
  rw [hraise]
  exact htail

/-! ## Sequences -/

section Sequences

variable {α : Type}

def marshallAll (marshall : α → BufferProg Unit) : List α → BufferProg Unit
  | [] => return
  | x :: xs => do
    marshall x
    marshallAll marshall xs

def unmarshallTimes (unmarshall : BufferProg α) : Nat → BufferProg (List α)
  | 0 => return []
  | n + 1 => do
    let x ← unmarshall
    return x :: (← unmarshallTimes unmarshall n)

/-- The position after some items. -/
def advanceAll (advance : α → Nat → Nat) : List α → Nat → Nat
  | [], p => p
  | x :: xs, p => advanceAll advance xs (advance x p)

theorem Conveys.all {sender : Endianness} {marshall : α → BufferProg Unit}
    {unmarshall : BufferProg α} {advance : α → Nat → Nat} {xs : List α}
    (h : ∀ x ∈ xs, Conveys sender (marshall x) unmarshall x (advance x)) :
    Conveys sender (marshallAll marshall xs) (unmarshallTimes unmarshall xs.length) xs
      (advanceAll advance xs) := by
  induction xs with
  | nil => exact .pure []
  | cons x xs ih =>
    have hxs := ih fun y hy => h y (List.mem_cons_of_mem x hy)
    refine (h x List.mem_cons_self).bind (k := fun x => do
      return x :: (← unmarshallTimes unmarshall xs.length)) ?_
    exact hxs.map fun r => rfl

end Sequences

/-! ## Encapsulations -/

/-- `Start_Encapsulation` on a new buffer, what is put in it, and `Encapsulate`. -/
def encapsulate (host : Endianness) (m : BufferProg Unit) : Except Exn (List UInt8) :=
  match (startEncapsulation host >>= fun _ => m) (Buffer.new host) with
  | .ok _ b => .ok b.octets
  | .error e _ => .error e

/-- `Decapsulate`, what is read, and the assertion that nothing is left. -/
def unmarshallEncapsulated {α : Type} (u : BufferProg α) (octets : List UInt8) : Except Exn α :=
  match decapsulate octets with
  | .error e => .error e
  | .ok b => match u b with
    | .ok a b' => if b'.remaining = 0 then .ok a else .error .assertionError
    | .error e _ => .error e

theorem presents_initializeBuffer {b : Buffer} (hb : b.AtEnd) (hi : b.initialCdrPosition = 0)
    {flag : UInt8} {data : List UInt8} (ho : b.octets = flag :: data) :
    Presents b (initializeBuffer data b.endianness 1) 1 := by
  have hlen : b.length = data.length + 1 := by
    rw [hb.length_eq, ho]
    rfl
  refine ⟨rfl, ?_, fun pos n xs hpos hn hx => ?_⟩
  · show b.initialCdrPosition + b.length ≤ 1 + data.length
    omega
  · rw [pieceAt, hi, if_neg (Nat.not_lt_zero _), Nat.sub_zero] at hx
    obtain ⟨hle, rfl⟩ := Chunks.piece_eq hx
    have hflat : b.chunks.flatten = flag :: data := ho
    rw [hflat] at hle ⊢
    rw [List.length_cons] at hle
    obtain ⟨k, rfl⟩ := Nat.exists_eq_add_of_le' hpos
    show (initializeBuffer data b.endianness 1).pieceAt (k + 1) n = _
    show (if k + 1 < 1 then none else Chunks.piece [data] (k + 1 - 1) n) = _
    rw [if_neg (by omega), Nat.add_sub_cancel, Chunks.piece, if_pos (by omega), if_pos (by omega),
      List.drop_succ_cons]

theorem Conveys.encapsulated {α : Type} {sender : Endianness}
    {u : BufferProg α} {a : α} {advance : Nat → Nat} (h : Conveys sender m u a advance)
    (hne : 1 < advance 1) :
    ∃ octets, encapsulate sender m = .ok octets ∧ octets.length = advance 1 ∧
      unmarshallEncapsulated u octets = .ok a := by
  let flag : UInt8 := if sender = .littleEndian then 1 else 0
  obtain ⟨b₁, hm₁, ha₁⟩ := marshallOctet_appended sender (atEnd_new sender) flag
  have hstart : startEncapsulation sender (Buffer.new sender) = .ok () b₁ := by
    rw [startEncapsulation, Program.bind_get, marshallBoolean, ← hm₁]
    cases sender <;> rfl
  have hend : b₁.endianness = sender := ha₁.written.endianness_eq
  have hpos₁ : b₁.cdrPosition = 1 := ha₁.position_eq (atEnd_new sender)
  obtain ⟨b₂, h₂, hp₂⟩ := h b₁ ha₁.written.atEnd hend
  have hw := ha₁.written.trans h₂.written
  rw [hpos₁] at hp₂
  have hlen : b₂.octets.length = advance 1 := by
    rw [← hw.atEnd.length_eq, ← hp₂, hw.atEnd.position_eq, hw.initial_eq]
    exact (Nat.zero_add _).symm
  obtain ⟨data, hdata⟩ : ∃ data, b₂.octets = flag :: data := by
    have hone : b₁.octets = [flag] := ha₁.octets_eq
    have hlt : 0 < b₁.chunks.flatten.length := by
      rw [← Buffer.octets, hone]
      exact one_pos
    have hflat₁ : b₁.chunks.flatten = [flag] := hone
    have hget : b₁.chunks.flatten[0] = flag := by
      simp [hflat₁]
    have hpiece := h₂.written.covers.2 0 1 _ one_pos (Chunks.piece_one hlt)
    obtain ⟨-, heq⟩ := Chunks.piece_eq hpiece
    rw [List.drop_zero, hget] at heq
    cases ho : b₂.octets with
    | nil => rw [ho] at hlen; simp at hlen; omega
    | cons o data =>
      have hflat : b₂.chunks.flatten = o :: data := ho
      rw [hflat, List.take_succ_cons] at heq
      injection heq with hflag
      exact ⟨data, by rw [hflag]⟩
  have hdne : data ≠ [] := by
    rintro rfl
    rw [hdata, List.length_singleton] at hlen
    omega
  refine ⟨b₂.octets, ?_, hlen, ?_⟩
  · rw [encapsulate, Program.bind_ok hstart, h₂.marshall]
  · have hb₂ : b₂.endianness = sender := hw.endianness_eq
    have hbuf : decapsulate b₂.octets = .ok (initializeBuffer data b₂.endianness 1) := by
      rw [hdata, decapsulate, if_neg, hb₂]
      · cases sender <;> rfl
      · rw [not_or]
        refine ⟨?_, hdne⟩
        cases sender <;> decide
    have hpres := presents_initializeBuffer hw.atEnd hw.initial_eq hdata
    have hread := h₂.unmarshall _ (by rw [hpos₁]; exact hpres) hpos₁.symm
    have hlast : (initializeBuffer data b₂.endianness 1).length + 1 = b₂.cdrPosition := by
      rw [hp₂, ← hlen, hdata]
      rfl
    simp only [unmarshallEncapsulated, hbuf, hread]
    rw [if_pos]
    show 1 + (initializeBuffer data b₂.endianness 1).length - b₂.cdrPosition = 0
    omega

end PolyORB
