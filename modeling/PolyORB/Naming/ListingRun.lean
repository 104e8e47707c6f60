import PolyORB.Naming.BindingIterators

/-!
# Listing the bindings of a context

Whatever was done before `List`, the context has a list, and a client receives what is in it, from
its beginning on.
-/

namespace PolyORB

open Linked (Segment IsList first last)

/-! ## The contexts of any run -/

namespace NamingState

/-- Each context has a list of its own, and the table has what is in the lists. -/
def WellKept (s : NamingState) : Prop := ∃ m L, Represents s m L

variable {s : NamingState}

theorem WellKept.bind (h : s.WellKept) {i : Nat} (hi : i < s.contexts.length) (c : NameComponent)
    (bt : BindingType) (obj : ObjectRef) : (s.bind i c bt obj).1.WellKept := by
  obtain ⟨m, L, h⟩ := h
  rw [NamingState.bind]
  rcases h.lookForBo hi c with ⟨hl, hb, -⟩ | ⟨l, r, a, x, -, -, hl⟩ <;> rw [hl]
  · exact ⟨_, _, h.append hi rfl hb⟩
  · exact ⟨m, L, h⟩

theorem WellKept.unbind (h : s.WellKept) {i : Nat} (hi : i < s.contexts.length)
    (c : NameComponent) : (s.unbind i c).1.WellKept := by
  obtain ⟨m, L, h⟩ := h
  rw [NamingState.unbind]
  rcases h.lookForBo hi c with ⟨hl, -, -⟩ | ⟨l, r, a, x, hL, -, hl⟩ <;> rw [hl]
  · exact ⟨m, L, h⟩
  · exact ⟨_, _, h.remove hi hL⟩

theorem WellKept.rebind (h : s.WellKept) {i : Nat} (hi : i < s.contexts.length)
    (c : NameComponent) (bt : BindingType) (obj : ObjectRef) :
    (s.rebind i c bt obj).1.WellKept := by
  obtain ⟨m, L, h⟩ := h
  rw [NamingState.rebind]
  rcases h.lookForBo hi c with ⟨hl, -, -⟩ | ⟨l, r, a, x, hL, he, hl⟩ <;> rw [hl]
  · exact ⟨m, L, h⟩
  · by_cases hbt : x.bt = bt
    · dsimp only
      rw [if_neg (not_not_intro hbt)]
      have hr := NamingState.relisted (s := s) (i := i)
        (u := s.removeBoFromNc i (s.context i) a ⟨x, last none l, first none r⟩) rfl
      have hx : (a, x) ∈ L i := by
        rw [hL]
        exact List.mem_append_right _ List.mem_cons_self
      have hkey : x.key = (s.context i).encode c := by
        rw [h.encoded i _ hx]
        exact NamingContext.encode_inj.mpr he
      refine ⟨_, _, (h.remove hi hL).append (o := ⟨(s.context i).encode c, c, bt, obj⟩) ?_ ?_ ?_⟩
      · rw [hr.size]
        exact hi
      · rw [NamingContext.encode, NamingContext.encode, hr.key i]
      · show Function.update s.boht x.key none _ = none
        rw [hkey, Function.update_self]
    · dsimp only
      rw [if_pos hbt]
      exact ⟨m, L, h⟩

theorem WellKept.newContext (h : s.WellKept) {s' : NamingState} (hs : s.newContext = some s') :
    s'.WellKept ∧ s'.contexts.length = s.contexts.length + 1 := by
  obtain ⟨m, L, h⟩ := h
  rcases h.newContext with ⟨hn, -⟩ | ⟨u, hn, -, hlen, h'⟩ <;> rw [hn] at hs
  · cases hs
  · obtain rfl := Option.some.inj hs
    exact ⟨⟨_, _, h'⟩, hlen⟩

theorem WellKept.serve (h : s.WellKept) {i : Nat} (hi : i < s.contexts.length) (c : NameComponent)
    (r : NamingRequest) : (operations.serve s i c r).1.WellKept := by
  cases r with
  | bind obj => exact h.bind hi c _ _
  | bindContext nc => exact h.bind hi c _ _
  | rebind obj => exact h.rebind hi c _ _
  | rebindContext nc => exact h.rebind hi c _ _
  | unbind => exact h.unbind hi c
  | resolve => exact h
  | bindNewContext =>
    show (operations.bindNewContext s i c).1.WellKept
    cases hn : s.newContext with
    | none =>
      rw [ContextOperations.bindNewContext_none hn]
      exact h
    | some s' =>
      rw [ContextOperations.bindNewContext_some hn]
      obtain ⟨h', hlen⟩ := h.newContext hn
      exact h'.bind (by omega) c _ _

theorem WellKept.perform (h : s.WellKept) (op : NamingOperation) :
    (operations.perform s op).1.WellKept := by
  cases op with
  | create =>
    show (operations.create s).1.WellKept
    rw [ContextOperations.create]
    cases hn : s.newContext with
    | none =>
      rw [show operations.newContext s = none from hn]
      exact h
    | some s' =>
      rw [show operations.newContext s = some s' from hn]
      exact (h.newContext hn).1
  | call self n r =>
    show (operations.call s self n r).1.WellKept
    rw [ContextOperations.call]
    split
    · exact h
    · split
      · exact h
      · split
        · exact h
        · rename_i i hs
          exact h.serve (ContextOperations.lt_size hs) _ r

/-- The state that calls lead to. -/
def after (ops : List NamingOperation) : NamingState :=
  ops.foldl (fun s op => (operations.perform s op).1) .start

theorem wellKept_after (ops : List NamingOperation) : (after ops).WellKept := by
  have hrun : ∀ s : NamingState, s.WellKept →
      (ops.foldl (fun s op => (operations.perform s op).1) s).WellKept := by
    induction ops with
    | nil => exact fun _ h => h
    | cons op ops ih => exact fun s h => ih _ (h.perform op)
  exact hrun .start ⟨_, _, Represents.start⟩

end NamingState

/-! ## List -/

theorem checkNatural_of_le {n : Nat} (h : n ≤ naturalLast) : checkNatural n = .ok n := if_pos h

theorem checkNatural_of_lt {n : Nat} (h : naturalLast < n) :
    checkNatural n = .error .constraintError := if_neg (Nat.not_le.mpr h)

theorem copyBindings_segment {h : Linked.Heap BoundObject} {l r : List (Nat × BoundObject)}
    {before : Option Nat} (hs : Segment h before (l ++ r) none) :
    copyBindings h l.length (first none (l ++ r)) =
      .ok (l.map fun p => p.2.listed, first none r) := by
  induction l generalizing before with
  | nil => rfl
  | cons p l ih =>
    obtain ⟨a, x⟩ := p
    obtain ⟨ha, hs⟩ := hs
    show copyBindings h (l.length + 1) (some a) = _
    rw [copyBindings, Option.bind_some, ha]
    dsimp only
    rw [show l.append r = l ++ r from rfl, ih hs]
    rfl

namespace NamingState

variable {s : NamingState}

theorem list_ok (h : s.WellKept) (i : Nat) {howMany : UInt32}
    (hmany : howMany.toNat ≤ naturalLast) (hlen : (s.listed i).length ≤ naturalLast) :
    s.list i howMany = .ok ((s.listed i).take howMany.toNat,
      .create ((s.listed i).drop howMany.toNat)) := by
  obtain ⟨m, L, h⟩ := h
  have hl := h.isList i
  have hfrom : s.fromHead i = (L i).map Prod.snd := hl.forward (h.length_le i)
  have hlisted : s.listed i = (L i).map fun p => p.2.listed := by
    rw [listed, hfrom, List.map_map]
    rfl
  rw [hlisted, List.length_map] at hlen
  have hcount : (s.fromHead i).length = (L i).length := by rw [hfrom, List.length_map]
  have hnodes := hl.nodes
  rw [← List.take_append_drop howMany.toNat (L i)] at hnodes
  have hfirst := copyBindings_segment hnodes
  have hrest := ((Linked.segment_append ..).mp hnodes).2
  rw [← List.append_nil ((L i).drop howMany.toNat)] at hrest
  have hsecond := copyBindings_segment hrest
  rw [List.append_nil, List.length_drop] at hsecond
  rw [List.take_append_drop, List.length_take, ← hl.head] at hfirst
  have hsize : (L i).length - min howMany.toNat (L i).length = (L i).length - howMany.toNat := by
    omega
  rw [list, checkNatural_of_le hmany, hcount, checkNatural_of_le hlen]
  show (copyBindings s.heap (min howMany.toNat (L i).length) (s.context i).ends.head >>= fun r => _) = _
  rw [hfirst]
  show (copyBindings s.heap ((L i).length - min howMany.toNat (L i).length) _ >>= fun r => _) = _
  rw [hsize, hsecond, hlisted, ← List.map_take, ← List.map_drop]
  rfl

theorem list_error (i : Nat) {howMany : UInt32}
    (hbad : naturalLast < howMany.toNat ∨ naturalLast < (s.listed i).length) :
    s.list i howMany = .error .constraintError := by
  rw [list]
  by_cases hmany : howMany.toNat ≤ naturalLast
  · have hlen : naturalLast < (s.fromHead i).length := by
      have := hbad.resolve_left (Nat.not_lt.mpr hmany)
      rwa [listed, List.length_map] at this
    rw [checkNatural_of_le hmany, checkNatural_of_lt hlen]
    rfl
  · rw [checkNatural_of_lt (Nat.lt_of_not_le hmany)]
    rfl

end NamingState

/-! ## The iterator -/

namespace Listing

variable {l : Listing}

theorem next_error {c : IteratorCall} {e : Exn} {s : BindingIterator}
    (h : l.iterator.call c = (.error e, s)) : ¬l.Sound c := by
  rintro ⟨reply, hreply, -⟩
  rw [h] at hreply
  cases hreply

theorem next_ok {c : IteratorCall} {reply : IteratorReply} {s : BindingIterator}
    (h : l.iterator.call c = (.ok reply, s)) :
    l.next c = { l with received := l.received ++ reply.elements, iterator := s } := by
  rw [next, h]

theorem sound_iff {c : IteratorCall} {reply : IteratorReply} {s : BindingIterator}
    (h : l.iterator.call c = (.ok reply, s)) :
    l.Sound c ↔ l.received ++ reply.elements <+: l.bindings ∧
      (reply.returns = some false → l.received ++ reply.elements = l.bindings) := by
  rw [Sound, next_ok h, h]
  constructor
  · rintro ⟨reply', hreply, hs⟩
    cases hreply
    exact hs
  · exact fun hs => ⟨reply, rfl, hs⟩

theorem Inv.call (h : l.Inv) (c : IteratorCall) :
    (∃ reply s, l.iterator.perform c = .ok (reply, s) ∧ l.iterator.call c = (.ok reply, s)) ∨
      ∃ e, l.iterator.perform c = .error e ∧
        l.iterator.call c = (.error e, { l.iterator with entered := true }) := by
  rw [BindingIterator.call, if_neg (by rw [h.left]; decide)]
  cases hp : l.iterator.perform c with
  | ok r => exact .inl ⟨r.1, r.2, rfl, rfl⟩
  | error e => exact .inr ⟨e, rfl, rfl⟩

theorem Inv.advance (h : l.Inv) {table : List CosBinding} (ht : l.iterator.table = some table)
    (n : Nat) (hn : l.iterator.index + n ≤ table.length + 1) {elements : List CosBinding}
    (he : elements = (table.drop (l.iterator.index - 1)).take n) :
    l.received ++ elements <+: l.bindings ∧
      Inv { l with received := l.received ++ elements,
                   iterator := { l.iterator with index := l.iterator.index + n } } := by
  have hindex := h.index
  obtain ⟨-, hrest⟩ := h.table table ht
  have hsplit : l.received ++ elements ++ table.drop (l.iterator.index + n - 1) = l.bindings := by
    have hdrop : table.drop (l.iterator.index + n - 1) =
        (table.drop (l.iterator.index - 1)).drop n := by
      rw [List.drop_drop]
      congr 1
      omega
    rw [← hrest, hdrop, he, List.append_assoc, List.take_append_drop]
  have hbegin : l.received ++ elements <+: l.bindings := ⟨_, hsplit⟩
  refine ⟨hbegin, h.left, ?_, hbegin, ?_⟩
  · show 1 ≤ l.iterator.index + n
    omega
  · intro table' ht'
    rw [ht] at ht'
    obtain rfl := Option.some.inj ht'
    exact ⟨hn, hsplit⟩

theorem Inv.stay (h : l.Inv) {table : List CosBinding} (ht : l.iterator.table = some table) :
    l.received = l.bindings ↔ table.length < l.iterator.index := by
  have hindex := h.index
  obtain ⟨hle, hrest⟩ := h.table table ht
  rw [← hrest, List.self_eq_append_right, List.drop_eq_nil_iff]
  omega

theorem nextOne_step (h : l.Inv) :
    (l.Sound .nextOne → l.Proper .nextOne) ∧
      (l.Proper .nextOne → l.Sound .nextOne ∧ (l.next .nextOne).Inv) := by
  have hcall := h.call .nextOne
  rw [show l.iterator.perform .nextOne = l.iterator.nextOne from rfl, BindingIterator.nextOne] at hcall
  cases ht : l.iterator.table with
  | none =>
    rw [ht] at hcall
    obtain ⟨reply, s, hp, -⟩ | ⟨e, -, hcall⟩ := hcall
    · cases hp
    · refine ⟨fun hs => absurd hs (next_error hcall), ?_⟩
      rintro ⟨table, htable, -⟩
      rw [ht] at htable
      cases htable
  | some table =>
    rw [ht] at hcall
    dsimp only at hcall
    have hindex := h.index
    by_cases hle : l.iterator.index ≤ table.length
    · have hlt : l.iterator.index - 1 < table.length := by omega
      have hget : table[l.iterator.index - 1]? = some table[l.iterator.index - 1] :=
        List.getElem?_eq_getElem hlt
      rw [if_pos hle, hget] at hcall
      by_cases hlast : l.iterator.index < naturalLast
      · rw [show (some _ : Option CosBinding).elim _ _ = _ from rfl,
          checkNatural_of_le (show l.iterator.index + 1 ≤ naturalLast from hlast)] at hcall
        obtain ⟨reply, s, hp, hcall⟩ | ⟨e, hp, -⟩ := hcall
        · obtain ⟨rfl, rfl⟩ := Prod.mk.inj (Except.ok.inj hp)
          have hone : [table[l.iterator.index - 1]] =
              (table.drop (l.iterator.index - 1)).take 1 := by
            rw [List.drop_eq_getElem_cons (by omega)]
            rfl
          obtain ⟨hbegin, hinv⟩ := h.advance ht 1 (by omega) hone
          refine ⟨fun _ => ⟨table, ht, fun _ => hlast⟩, fun _ => ⟨?_, ?_⟩⟩
          · exact (sound_iff hcall).mpr ⟨hbegin, nofun⟩
          · rw [next_ok hcall, ← ht]
            exact hinv
        · cases hp
      · rw [show (some _ : Option CosBinding).elim _ _ = _ from rfl,
          checkNatural_of_lt (show naturalLast < l.iterator.index + 1 by omega)] at hcall
        obtain ⟨reply, s, hp, -⟩ | ⟨e, -, hcall⟩ := hcall
        · cases hp
        · refine ⟨fun hs => absurd hs (next_error hcall), ?_⟩
          rintro ⟨table', ht', hlt⟩
          rw [ht] at ht'
          obtain rfl := Option.some.inj ht'
          exact absurd (hlt hle) hlast
    · rw [if_neg hle] at hcall
      obtain ⟨reply, s, hp, hcall⟩ | ⟨e, hp, -⟩ := hcall
      · obtain ⟨rfl, rfl⟩ := Prod.mk.inj (Except.ok.inj hp)
        refine ⟨fun _ => ⟨table, ht, fun hle' => absurd hle' hle⟩, fun _ => ⟨?_, ?_⟩⟩
        · refine (sound_iff hcall).mpr ?_
          rw [IteratorReply.elements, List.append_nil]
          exact ⟨h.received, fun _ => (h.stay ht).mpr (by omega)⟩
        · rw [next_ok hcall, IteratorReply.elements, List.append_nil]
          exact h
      · cases hp

theorem nextN_step (h : l.Inv) (howMany : UInt32) :
    (l.Sound (.nextN howMany) → l.Proper (.nextN howMany)) ∧
      (l.Proper (.nextN howMany) → l.Sound (.nextN howMany) ∧ (l.next (.nextN howMany)).Inv) := by
  have hcall := h.call (.nextN howMany)
  rw [show l.iterator.perform (.nextN howMany) = l.iterator.nextN howMany from rfl,
    BindingIterator.nextN] at hcall
  have hindex := h.index
  -- an exception is raised while the mutex is held
  have hraise (hne : ¬l.Proper (.nextN howMany)) {e : Exn} {s : BindingIterator}
      (hcall : l.iterator.call (.nextN howMany) = (.error e, s)) :
      (l.Sound (.nextN howMany) → l.Proper (.nextN howMany)) ∧ (l.Proper (.nextN howMany) →
        l.Sound (.nextN howMany) ∧ (l.next (.nextN howMany)).Inv) :=
    ⟨fun hs => absurd hs (next_error hcall), fun hp => absurd hp hne⟩
  by_cases hsum : l.iterator.index + howMany.toNat ≤ naturalLast
  · rw [checkNatural_of_le (show howMany.toNat ≤ naturalLast by omega)] at hcall
    rw [show (Except.ok howMany.toNat >>= fun n => checkNatural (l.iterator.index + n) >>= _) =
        checkNatural (l.iterator.index + howMany.toNat) >>= _ from rfl,
      checkNatural_of_le hsum] at hcall
    cases ht : l.iterator.table with
    | none =>
      rw [ht] at hcall
      obtain ⟨reply, s, hp, -⟩ | ⟨e, -, hcall⟩ := hcall
      · cases hp
      · refine hraise ?_ hcall
        rintro ⟨table, htable, -⟩
        rw [ht] at htable
        cases htable
    | some table =>
      rw [ht] at hcall
      by_cases hle : l.iterator.index + howMany.toNat ≤ table.length + 1
      · rw [show (Except.ok (l.iterator.index + howMany.toNat) >>= _) = _ from
          if_pos (show l.iterator.index + howMany.toNat - 1 ≤ table.length by omega),
          checkNatural_of_le (show l.iterator.index + howMany.toNat - 1 + 1 ≤ naturalLast by omega)]
          at hcall
        obtain ⟨reply, s, hp, hcall⟩ | ⟨e, hp, -⟩ := hcall
        · obtain ⟨rfl, rfl⟩ := Prod.mk.inj (Except.ok.inj hp)
          obtain ⟨hbegin, hinv⟩ := h.advance ht howMany.toNat hle rfl
          have helements : (table.take (l.iterator.index + howMany.toNat - 1)).drop
              (l.iterator.index - 1) = (table.drop (l.iterator.index - 1)).take howMany.toNat := by
            rw [List.drop_take]
            congr 1
            omega
          refine ⟨fun _ => ⟨table, ht, hsum, .inl hle⟩, fun _ => ⟨?_, ?_⟩⟩
          · refine (sound_iff hcall).mpr ⟨?_, nofun⟩
            rw [IteratorReply.elements, helements]
            exact hbegin
          · rw [next_ok hcall, IteratorReply.elements, helements, ← ht,
              Nat.sub_add_cancel (show 1 ≤ l.iterator.index + howMany.toNat by omega)]
            exact hinv
        · cases hp
      · rw [show (Except.ok (l.iterator.index + howMany.toNat) >>= _) = _ from
          if_neg (show ¬l.iterator.index + howMany.toNat - 1 ≤ table.length by omega)] at hcall
        obtain ⟨reply, s, hp, hcall⟩ | ⟨e, hp, -⟩ := hcall
        · obtain ⟨rfl, rfl⟩ := Prod.mk.inj (Except.ok.inj hp)
          have hsound : l.Sound (.nextN howMany) ↔ table.length < l.iterator.index := by
            rw [sound_iff hcall, IteratorReply.elements, List.append_nil, ← h.stay ht]
            exact ⟨fun hs => hs.2 rfl, fun hs => ⟨h.received, fun _ => hs⟩⟩
          refine ⟨fun hs => ⟨table, ht, hsum, .inr (hsound.mp hs)⟩, ?_⟩
          rintro ⟨table', ht', -, hcases⟩
          rw [ht] at ht'
          obtain rfl := Option.some.inj ht'
          refine ⟨hsound.mpr (hcases.resolve_left hle), ?_⟩
          rw [next_ok hcall, IteratorReply.elements, List.append_nil]
          exact h
        · cases hp
  · have hne : ¬l.Proper (.nextN howMany) := by
      rintro ⟨-, -, hle, -⟩
      exact hsum hle
    by_cases hmany : howMany.toNat ≤ naturalLast
    · rw [checkNatural_of_le hmany] at hcall
      rw [show (Except.ok howMany.toNat >>= fun n => checkNatural (l.iterator.index + n) >>= _) =
          checkNatural (l.iterator.index + howMany.toNat) >>= _ from rfl,
        checkNatural_of_lt (Nat.lt_of_not_le hsum)] at hcall
      obtain ⟨reply, s, hp, -⟩ | ⟨e, -, hcall⟩ := hcall
      · cases hp
      · exact hraise hne hcall
    · rw [checkNatural_of_lt (Nat.lt_of_not_le hmany)] at hcall
      obtain ⟨reply, s, hp, -⟩ | ⟨e, -, hcall⟩ := hcall
      · cases hp
      · exact hraise hne hcall

theorem destroy_step (h : l.Inv) : l.Sound .destroy ∧ (l.next .destroy).Inv := by
  obtain ⟨reply, s, hp, hcall⟩ | ⟨e, hp, -⟩ := h.call .destroy
  · obtain ⟨rfl, rfl⟩ := Prod.mk.inj (Except.ok.inj hp)
    rw [sound_iff hcall, next_ok hcall, IteratorReply.elements, List.append_nil]
    exact ⟨⟨h.received, nofun⟩, h.left, h.index, h.received, nofun⟩
  · cases hp

theorem sound_run_iff (h : l.Inv) (calls : List IteratorCall) :
    Runs.Along next Sound l calls ↔ Runs.Along next Proper l calls := by
  refine Runs.along_iff (fun l c hinv _ => ?_) calls l h (Runs.along_true calls l)
  cases c with
  | nextOne => exact nextOne_step hinv
  | nextN howMany => exact nextN_step hinv howMany
  | destroy =>
    obtain ⟨hsound, hinv'⟩ := destroy_step hinv
    exact ⟨fun _ => trivial, fun _ => ⟨hsound, hinv'⟩⟩

end Listing

/-! ## The whole of it -/

namespace NamingState

variable {s : NamingState}

/-- `List` returns the first bindings, and what is called then is as it should be. -/
def Enumerates (s : NamingState) (i : Nat) (howMany : UInt32) (calls : List IteratorCall) : Prop :=
  ∃ bl iterator, s.list i howMany = .ok (bl, iterator) ∧ bl <+: s.listed i ∧
    Runs.Along Listing.next Listing.Sound ⟨s.listed i, bl, iterator⟩ calls

/-- The numbers of `List` are values of `Natural`, and the calls meet their condition. -/
def Accepts (s : NamingState) (i : Nat) (howMany : UInt32) (calls : List IteratorCall) : Prop :=
  howMany.toNat ≤ naturalLast ∧ (s.listed i).length ≤ naturalLast ∧
    Runs.Along Listing.next Listing.Proper ⟨s.listed i, (s.listed i).take howMany.toNat,
      .create ((s.listed i).drop howMany.toNat)⟩ calls

theorem enumerates_iff (ops : List NamingOperation) (i : Nat) (howMany : UInt32)
    (calls : List IteratorCall) :
    (after ops).Enumerates i howMany calls ↔ (after ops).Accepts i howMany calls := by
  have h := wellKept_after ops
  generalize after ops = s at h
  have hinv : Listing.Inv ⟨s.listed i, (s.listed i).take howMany.toNat,
      .create ((s.listed i).drop howMany.toNat)⟩ := by
    refine ⟨rfl, le_rfl, List.take_prefix _ _, fun table ht => ?_⟩
    obtain rfl := Option.some.inj ht
    exact ⟨Nat.le_add_left _ _, List.take_append_drop _ _⟩
  constructor
  · rintro ⟨bl, iterator, hlist, -, hrun⟩
    have hbounds : howMany.toNat ≤ naturalLast ∧ (s.listed i).length ≤ naturalLast := by
      by_contra hne
      rw [list_error i (by omega)] at hlist
      cases hlist
    rw [list_ok h i hbounds.1 hbounds.2] at hlist
    obtain ⟨rfl, rfl⟩ := Prod.mk.inj (Except.ok.inj hlist)
    exact ⟨hbounds.1, hbounds.2, (Listing.sound_run_iff hinv calls).mp hrun⟩
  · rintro ⟨hmany, hlen, hrun⟩
    exact ⟨_, _, list_ok h i hmany hlen, List.take_prefix _ _,
      (Listing.sound_run_iff hinv calls).mpr hrun⟩

def oneBinding : List NamingOperation :=
  [.create, .call (some 0) [⟨[97], []⟩] (.bind (.object 1))]

/-- The one binding that is left is not returned to a client that asks for two. -/
theorem not_enumerates : ¬∀ (ops : List NamingOperation) (i : Nat) (howMany : UInt32)
    (calls : List IteratorCall), (after ops).Enumerates i howMany calls := by
  intro h
  obtain ⟨bl, iterator, hlist, -, ⟨reply, hreply, -, hdone⟩, -⟩ := h oneBinding 0 0 [.nextN 2]
  have hone : (after oneBinding).list 0 0 =
      .ok ([], .create [⟨[⟨[97], []⟩], .nobject⟩]) := by decide
  obtain ⟨rfl, rfl⟩ := Prod.mk.inj (Except.ok.inj hlist)
  obtain rfl := Except.ok.inj hreply
  have hnone : ([] : List CosBinding) = (after oneBinding).listed 0 := hdone rfl
  revert hnone
  decide

end NamingState

end PolyORB
