import Mathlib.Tactic

/-!
# Doubly linked lists in a heap

`IsList h e L` says that the nodes of `L`, each with its address and its content, are linked in the
heap `h` in both directions, and that `e` has the pointers to the first and the last one.
-/

namespace Linked

structure Node (α : Type) where
  content : α
  prev : Option Nat
  next : Option Nat
  deriving DecidableEq

abbrev Heap (α : Type) := Nat → Option (Node α)

structure Ends where
  head : Option Nat
  tail : Option Nat
  deriving DecidableEq

variable {α : Type}

/-! ## Operations -/

def modify (h : Heap α) (p : Option Nat) (f : Node α → Node α) : Heap α :=
  fun a => if p = some a then (h a).map f else h a

/-- A new node at `a`, after the last one. -/
def append (h : Heap α) (e : Ends) (a : Nat) (x : α) : Heap α × Ends :=
  match e.head with
  | none => (Function.update h a (some ⟨x, none, none⟩), ⟨some a, some a⟩)
  | some b =>
    (modify (Function.update h a (some ⟨x, e.tail, none⟩)) e.tail fun n => { n with next := some a },
      ⟨some b, some a⟩)

def remove (h : Heap α) (e : Ends) (a : Nat) (n : Node α) : Heap α × Ends :=
  let h₁ := modify h n.next fun m => { m with prev := n.prev }
  let h₂ := modify h₁ n.prev fun m => { m with next := n.next }
  (Function.update h₂ a none,
    ⟨if e.head = some a then n.next else e.head, if e.tail = some a then n.prev else e.tail⟩)

/-- The contents met from `p` on, in at most `fuel` nodes. -/
def follow (h : Heap α) (link : Node α → Option Nat) : Nat → Option Nat → List α
  | 0, _ => []
  | _ + 1, none => []
  | fuel + 1, some a =>
    match h a with
    | none => []
    | some n => n.content :: follow h link fuel (link n)

/-! ## Segments -/

def first (after : Option Nat) : List (Nat × α) → Option Nat
  | [] => after
  | (a, _) :: _ => some a

def last (before : Option Nat) : List (Nat × α) → Option Nat
  | [] => before
  | (a, _) :: r => last (some a) r

def addresses (L : List (Nat × α)) : List Nat := L.map Prod.fst

def Segment (h : Heap α) : Option Nat → List (Nat × α) → Option Nat → Prop
  | _, [], _ => True
  | before, (a, x) :: r, after =>
    h a = some ⟨x, before, first after r⟩ ∧ Segment h (some a) r after

@[simp] theorem first_append (after : Option Nat) (l r : List (Nat × α)) :
    first after (l ++ r) = first (first after r) l := by
  cases l <;> rfl

@[simp] theorem last_append (before : Option Nat) (l r : List (Nat × α)) :
    last before (l ++ r) = last (last before l) r := by
  induction l generalizing before with
  | nil => rfl
  | cons p l ih => exact ih (some p.1)

theorem last_eq_or (before : Option Nat) (l : List (Nat × α)) :
    last before l = before ∨ ∃ a ∈ addresses l, last before l = some a := by
  induction l generalizing before with
  | nil => exact .inl rfl
  | cons p l ih =>
    right
    rcases ih (some p.1) with h | ⟨a, ha, h⟩
    · exact ⟨p.1, List.mem_cons_self, h⟩
    · exact ⟨a, List.mem_cons_of_mem _ ha, h⟩

variable {l r : List (Nat × α)} {a fuel : Nat}

theorem mem_of_first (h : first none l = some a) :
    a ∈ addresses l := by
  cases l with
  | nil => cases h
  | cons p l =>
    obtain rfl := Option.some.inj h
    exact List.mem_cons_self

theorem mem_of_last (h : last none l = some a) :
    a ∈ addresses l := by
  rcases last_eq_or none l with hn | ⟨b, hb, hs⟩
  · rw [hn] at h
    cases h
  · rw [hs] at h
    obtain rfl := Option.some.inj h
    exact hb

theorem addresses_append (l r : List (Nat × α)) :
    addresses (l ++ r) = addresses l ++ addresses r := List.map_append

theorem mem_addresses {L : List (Nat × α)} {x : α} (h : (a, x) ∈ L) : a ∈ addresses L :=
  List.mem_map.mpr ⟨_, h, rfl⟩

theorem segment_append (h : Heap α) (before after : Option Nat) (l r : List (Nat × α)) :
    Segment h before (l ++ r) after ↔
      Segment h before l (first after r) ∧ Segment h (last before l) r after := by
  induction l generalizing before with
  | nil => exact (iff_of_eq (true_and _)).symm
  | cons p l ih =>
    obtain ⟨a, x⟩ := p
    show (h a = some ⟨x, before, first after (l ++ r)⟩ ∧ Segment h (some a) (l ++ r) after) ↔ _
    rw [first_append, ih (some a)]
    exact and_assoc.symm

namespace Segment

variable {h g : Heap α} {before after : Option Nat} {L : List (Nat × α)}

theorem congr (hs : Segment h before L after) (heq : ∀ a ∈ addresses L, g a = h a) :
    Segment g before L after := by
  induction L generalizing before with
  | nil => trivial
  | cons p L ih =>
    obtain ⟨a, x⟩ := p
    obtain ⟨ha, hs⟩ := hs
    refine ⟨(heq a List.mem_cons_self).trans ha, ih hs fun b hb => heq b (List.mem_cons_of_mem _ hb)⟩

theorem content {x : α} (hs : Segment h before L after) (hmem : (a, x) ∈ L) :
    ∃ n, h a = some n ∧ n.content = x := by
  induction L generalizing before with
  | nil => cases hmem
  | cons p L ih =>
    obtain ⟨hb, hs⟩ := hs
    rcases List.mem_cons.mp hmem with heq | hmem
    · cases heq
      exact ⟨_, hb, rfl⟩
    · exact ih hs hmem

theorem relinkLast (hs : Segment h none L after) (hnd : (addresses L).Nodup) (q : Option Nat) :
    Segment (modify h (last none L) fun n => { n with next := q }) none L q := by
  rcases L.eq_nil_or_concat' with rfl | ⟨l, ⟨a, x⟩, rfl⟩
  · trivial
  rw [addresses_append, List.nodup_append] at hnd
  rw [segment_append] at hs ⊢
  obtain ⟨hl, ha, -⟩ := hs
  rw [last_append]
  show Segment (modify h (some a) _) _ _ _ ∧ modify h (some a) _ a = _ ∧ _
  refine ⟨hl.congr fun b hb => ?_, ?_, trivial⟩
  · rw [modify, if_neg]
    rintro heq
    obtain rfl := Option.some.inj heq
    exact hnd.2.2 _ hb _ List.mem_cons_self rfl
  · rw [modify, if_pos rfl, ha]
    rfl

theorem relinkFirst (hs : Segment h before L none) (hnd : (addresses L).Nodup) (p : Option Nat) :
    Segment (modify h (first none L) fun n => { n with prev := p }) p L none := by
  cases L with
  | nil => trivial
  | cons q L =>
    obtain ⟨a, x⟩ := q
    obtain ⟨ha, hs⟩ := hs
    show modify h (some a) _ a = _ ∧ Segment (modify h (some a) _) _ _ _
    refine ⟨?_, hs.congr fun b hb => ?_⟩
    · rw [modify, if_pos rfl, ha]
      rfl
    · rw [modify, if_neg]
      rintro heq
      obtain rfl := Option.some.inj heq
      exact (List.nodup_cons.mp hnd).1 hb

theorem follow_next (hs : Segment h before L none) (hf : L.length ≤ fuel) :
    follow h Node.next fuel (first none L) = L.map Prod.snd := by
  induction L generalizing before fuel with
  | nil => cases fuel <;> rfl
  | cons p L ih =>
    obtain ⟨a, x⟩ := p
    obtain ⟨ha, hs⟩ := hs
    cases fuel with
    | zero => cases hf
    | succ fuel =>
      show (match h a with | none => [] | some n => _) = _
      rw [ha]
      exact congrArg (x :: ·) (ih hs (Nat.le_of_succ_le_succ hf))

theorem follow_prev (hs : Segment h none L after) (hf : L.length ≤ fuel) :
    follow h Node.prev fuel (last none L) = (L.map Prod.snd).reverse := by
  induction L using List.reverseRecOn generalizing after fuel with
  | nil => cases fuel <;> rfl
  | append_singleton L p ih =>
    obtain ⟨a, x⟩ := p
    rw [segment_append] at hs
    obtain ⟨hs, ha, -⟩ := hs
    rw [List.length_append] at hf
    cases fuel with
    | zero => cases hf
    | succ fuel =>
      rw [last_append, List.map_append, List.reverse_append]
      show (match h a with | none => [] | some n => _) = _
      rw [ha]
      exact congrArg (x :: ·) (ih hs (Nat.le_of_succ_le_succ hf))

end Segment

/-! ## Lists -/

structure IsList (h : Heap α) (e : Ends) (L : List (Nat × α)) : Prop where
  head : e.head = first none L
  tail : e.tail = last none L
  nodes : Segment h none L none
  nodup : (addresses L).Nodup

namespace IsList

variable {h g : Heap α} {e : Ends} {L : List (Nat × α)}

theorem nil (h : Heap α) : IsList h ⟨none, none⟩ [] := ⟨rfl, rfl, trivial, List.nodup_nil⟩

theorem congr (hl : IsList h e L) (heq : ∀ a ∈ addresses L, g a = h a) : IsList g e L :=
  { hl with nodes := hl.nodes.congr heq }

theorem node {x : α} (hl : IsList h e (l ++ (a, x) :: r)) :
    h a = some ⟨x, last none l, first none r⟩ :=
  ((segment_append ..).mp hl.nodes).2.1

theorem length_le (hl : IsList h e L) {n : Nat} (hlt : ∀ a ∈ addresses L, a < n) : L.length ≤ n := by
  have hsub : addresses L ⊆ List.range n := fun a ha => List.mem_range.mpr (hlt a ha)
  have hle := (hl.nodup.subperm hsub).length_le
  rwa [List.length_range, addresses, List.length_map] at hle

theorem forward (hl : IsList h e L) (hf : L.length ≤ fuel) :
    follow h Node.next fuel e.head = L.map Prod.snd := by
  rw [hl.head]
  exact hl.nodes.follow_next hf

theorem backward (hl : IsList h e L) (hf : L.length ≤ fuel) :
    follow h Node.prev fuel e.tail = (L.map Prod.snd).reverse := by
  rw [hl.tail]
  exact hl.nodes.follow_prev hf

/-! ### Append -/

variable {a : Nat} {x : α}

theorem append_frame (hl : IsList h e L) {b : Nat} (hb : b ∉ addresses L) (hne : b ≠ a) :
    (append h e a x).1 b = h b := by
  rw [append]
  cases e.head with
  | none => exact Function.update_of_ne hne ..
  | some c =>
    show modify _ e.tail _ b = _
    rw [modify, if_neg, Function.update_of_ne hne]
    intro ht
    rw [hl.tail] at ht
    exact hb (mem_of_last ht)

theorem append (hl : IsList h e L) (ha : a ∉ addresses L) :
    IsList (append h e a x).1 (append h e a x).2 (L ++ [(a, x)]) := by
  have hnd : (addresses (L ++ [(a, x)])).Nodup := by
    rw [addresses_append]
    exact List.nodup_append.mpr ⟨hl.nodup, List.nodup_singleton a, fun b hb c hc => by
      obtain rfl := List.mem_singleton.mp hc
      rintro rfl
      exact ha hb⟩
  rcases L.eq_nil_or_concat' with rfl | ⟨l, ⟨b, y⟩, rfl⟩
  · have hh : e.head = none := hl.head
    rw [Linked.append, hh]
    exact ⟨rfl, rfl, ⟨Function.update_self .., trivial⟩, hnd⟩
  have hne : a ≠ b := by
    rintro rfl
    exact ha (by rw [addresses_append]; exact List.mem_append_right _ List.mem_cons_self)
  have ht : e.tail = some b := by rw [hl.tail, last_append]; rfl
  obtain ⟨c, hh⟩ : ∃ c, e.head = some c := by
    rw [hl.head]
    cases l with
    | nil => exact ⟨_, rfl⟩
    | cons p l => exact ⟨_, rfl⟩
  have hseg := (Segment.congr (g := Function.update h a (some ⟨x, some b, none⟩)) hl.nodes
    fun d hd => Function.update_of_ne (by rintro rfl; exact ha hd) ..).relinkLast hl.nodup (some a)
  rw [last_append] at hseg
  rw [Linked.append, hh, ht]
  refine ⟨?_, ?_, (segment_append ..).mpr ⟨hseg, ?_, trivial⟩, hnd⟩
  · rw [first_append]
    show some c = _
    rw [← hh, hl.head, first_append, first_append]
    rfl
  · rw [last_append]
    rfl
  · show modify _ (some b) _ a = _
    rw [modify, if_neg fun heq => hne (Option.some.inj heq).symm, Function.update_self, last_append]
    rfl

/-! ### Remove -/

theorem remove_frame {b : Nat} (hb : b ∉ addresses (l ++ (a, x) :: r)) :
    (remove h e a ⟨x, last none l, first none r⟩).1 b = h b := by
  rw [addresses_append, List.mem_append, not_or] at hb
  obtain ⟨hbl, hbr⟩ := hb
  obtain ⟨hba, hbr⟩ := not_or.mp (fun hc => hbr (List.mem_cons.mpr hc))
  refine (Function.update_of_ne hba ..).trans ?_
  rw [modify, if_neg fun heq => hbl (mem_of_last heq), modify,
    if_neg fun heq => hbr (mem_of_first heq)]

theorem remove (hl : IsList h e (l ++ (a, x) :: r)) :
    IsList (remove h e a ⟨x, last none l, first none r⟩).1
      (remove h e a ⟨x, last none l, first none r⟩).2 (l ++ r) := by
  obtain ⟨hhead, htail, hnodes, hnd⟩ := hl
  rw [addresses_append] at hnd
  obtain ⟨hndl, hndr, hdis⟩ := List.nodup_append.mp hnd
  obtain ⟨har, hndr⟩ := List.nodup_cons.mp hndr
  have hal : a ∉ addresses l := fun hm => hdis a hm a List.mem_cons_self rfl
  have hlr : ∀ b ∈ addresses l, b ∉ addresses r :=
    fun b hb hr => hdis b hb b (List.mem_cons_of_mem _ hr) rfl
  obtain ⟨hsl, -, hsr⟩ := (segment_append ..).mp hnodes
  -- the successor first, then the predecessor, as the code relinks them
  have hr₁ := hsr.relinkFirst hndr (last none l)
  have hl₁ := hsl.congr (g := modify h (first none r) fun m => { m with prev := last none l })
    fun b hb => by rw [modify, if_neg fun heq => hlr b hb (mem_of_first heq)]
  have hl₂ := hl₁.relinkLast hndl (first none r)
  have hr₂ := hr₁.congr (g := modify _ (last none l) fun m => { m with next := first none r })
    fun b hb => by rw [modify, if_neg fun heq => hlr b (mem_of_last heq) hb]
  refine ⟨?_, ?_, (segment_append ..).mpr ⟨hl₂.congr fun b hb => ?_, hr₂.congr fun b hb => ?_⟩, ?_⟩
  · show (if e.head = some a then first none r else e.head) = _
    rw [hhead, first_append, first_append]
    cases l with
    | nil => exact if_pos rfl
    | cons p l =>
      refine if_neg fun heq => hal ?_
      rw [← Option.some.inj heq]
      exact List.mem_cons_self
  · show (if e.tail = some a then last none l else e.tail) = _
    rw [htail, last_append, last_append]
    show (if last (some a) r = some a then _ else last (some a) r) = _
    cases r with
    | nil => exact if_pos rfl
    | cons p r =>
      show (if last (some p.1) r = some a then _ else last (some p.1) r) = last (some p.1) r
      refine if_neg fun heq => har ?_
      rcases last_eq_or (some p.1) r with hn | ⟨b, hb, hs⟩
      · obtain rfl := Option.some.inj (hn.symm.trans heq)
        exact List.mem_cons_self
      · obtain rfl := Option.some.inj (hs.symm.trans heq)
        exact List.mem_cons_of_mem _ hb
  · exact Function.update_of_ne (by rintro rfl; exact hal hb) ..
  · exact Function.update_of_ne (by rintro rfl; exact har hb) ..
  · rw [addresses_append]
    exact List.nodup_append.mpr ⟨hndl, hndr, fun b hb c hc heq => hlr b hb (heq ▸ hc)⟩

end IsList

end Linked
