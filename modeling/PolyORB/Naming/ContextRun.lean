import PolyORB.Naming.ContextTable
import PolyORB.Lib.Runs

/-!
# Runs of naming operations

The contexts of a process and the maps they stand for, side by side.  A context is a map as long as
no name is looked up while another one, with the same encoding, is bound in that context.
-/

namespace PolyORB

open Linked (Node IsList first last)

/-! ## Look-ups -/

namespace ContextOperations

variable {σ : Type} (ops : ContextOperations σ) (s : σ)

/-- The calls of `Resolve` that `Get_Ctx_And_Last_NC` makes. -/
def onTheWay : ContextRef → Name → List (Nat × NameComponent)
  | _, [] => []
  | _, [_] => []
  | ctx, c :: c' :: cs =>
    match ops.servant s ctx with
    | .error _ => []
    | .ok i =>
      (i, c) ::
        match ops.resolve s i c with
        | .error _ => []
        | .ok obj =>
          match obj.toRef with
          | none => []
          | some ctx' => onTheWay ctx' (c' :: cs)

/-- The context that the call is made in, unless it fails before it looks there. -/
def lastLookup (self : ContextRef) (n : Name) (r : NamingRequest) : List (Nat × NameComponent) :=
  match ops.getCtxAndLastNc s self n with
  | .error _ => []
  | .ok (ctx, last) =>
    match ops.servant s ctx with
    | .error _ => []
    | .ok i => if r = .bindNewContext ∧ (ops.newContext s).isNone = true then [] else [(i, last)]

/-- The components that an operation resolves before the last one, with their contexts. -/
def way : NamingOperation → List (Nat × NameComponent)
  | .create => []
  | .call self n _ =>
    match ops.servant s self with
    | .error _ => []
    | .ok _ => ops.onTheWay s self n

/-- The components that an operation looks up, with their contexts. -/
def lookups : NamingOperation → List (Nat × NameComponent)
  | .create => []
  | .call self n r =>
    match ops.servant s self with
    | .error _ => []
    | .ok _ => ops.onTheWay s self n ++ ops.lastLookup s self n r

end ContextOperations

/-- No other name that is bound in the context `i` has the encoding of `c`. -/
def Clean (m : List Directory) (i : Nat) (c : NameComponent) : Prop :=
  ∀ b ∈ Directories.directory m i, b.bn.entry = c.entry → b.bn = c

/-! ## The system -/

structure ContextSystem where
  state : NamingState
  maps : List Directory

/-- The bindings of a context in the order of its list. -/
def NamingState.bindings (s : NamingState) (i : Nat) : Directory :=
  (s.fromHead i).map BoundObject.binding

namespace ContextSystem

def start : ContextSystem := { state := .start, maps := [] }

def perform (s : ContextSystem) (op : NamingOperation) : ContextSystem :=
  { state := (NamingState.operations.perform s.state op).1
    maps := (Directories.operations.perform s.maps op).1 }

def reply (s : ContextSystem) (op : NamingOperation) : NamingReply :=
  (NamingState.operations.perform s.state op).2

/-- The contexts answer, and are left, as the maps say. -/
structure Correct (s : ContextSystem) (op : NamingOperation) : Prop where
  way : ∀ p ∈ NamingState.operations.way s.state op,
    s.state.resolve p.1 p.2 = Directories.resolve s.maps p.1 p.2
  result : s.reply op = (Directories.operations.perform s.maps op).2
  unchanged : ∀ e, s.reply op = .error e →
    ∀ i, (s.perform op).state.bindings i = s.state.bindings i
  /-- The lists have the bindings in their order, from both ends. -/
  fromHead : ∀ i, (s.perform op).state.bindings i = Directories.directory (s.perform op).maps i
  fromTail : ∀ i, ((s.perform op).state.fromTail i).map BoundObject.binding =
    (Directories.directory (s.perform op).maps i).reverse

def Sound (s : ContextSystem) (op : NamingOperation) : Prop :=
  ∀ p ∈ Directories.operations.lookups s.maps op, Clean s.maps p.1 p.2

def Inv (s : ContextSystem) : Prop := ∃ L, Represents s.state s.maps L

end ContextSystem

/-! ## One context -/

namespace Represents

variable {s : NamingState} {m : List Directory} {L : ContextNodes} {i : Nat}

theorem mem_directory (h : Represents s m L) {p : Nat × BoundObject} (hp : p ∈ L i) :
    p.2.binding ∈ Directories.directory m i := by
  rw [h.directory i]
  exact List.mem_map.mpr ⟨p, hp, rfl⟩

theorem find (h : Represents s m L) (hi : i < s.contexts.length) (c : NameComponent) :
    (s.lookForBo ((s.context i).encode c) = none ∧ s.boht ((s.context i).encode c) = none ∧
      (Directories.directory m i).find c = none ∧ Clean m i c) ∨
    ∃ l r a x, L i = l ++ (a, x) :: r ∧
      s.lookForBo ((s.context i).encode c) = some (a, ⟨x, last none l, first none r⟩) ∧
      ((x.bn = c ∧ (Directories.directory m i).find c = some x.binding ∧
          (Directories.directory m i).without c = (l ++ r).map (fun p => p.2.binding) ∧
          Clean m i c) ∨
        (Directories.directory m i).find c = none ∧ ¬Clean m i c) := by
  rcases h.lookForBo hi c with ⟨hl, hb, hne⟩ | ⟨l, r, a, x, hL, he, hl⟩
  · have hne' : ∀ b ∈ Directories.directory m i, b.bn.entry ≠ c.entry := by
      intro b hb
      rw [h.directory i] at hb
      obtain ⟨p, hp, rfl⟩ := List.mem_map.mp hb
      exact hne p hp
    refine .inl ⟨hl, hb, Directory.find_eq_none.mpr fun b hb hc => ?_, fun b hb hc => ?_⟩
    · exact hne' b hb (by rw [hc])
    · exact absurd hc (hne' b hb)
  · refine .inr ⟨l, r, a, x, hL, hl, ?_⟩
    have hx : (a, x) ∈ L i := by
      rw [hL]
      exact List.mem_append_right _ List.mem_cons_self
    -- any binding with the encoding of `c` is that of `x`
    have huniq : ∀ p ∈ L i, p.2.bn.entry = c.entry → p = (a, x) :=
      fun p hp hc => h.eq_of_entry hp hx (hc.trans he.symm)
    by_cases hc : x.bn = c
    · subst hc
      have hnd := (h.lists i hi).nodup
      rw [hL, Linked.addresses_append] at hnd
      obtain ⟨-, hnr, hlr⟩ := List.nodup_append.mp hnd
      have hdir : Directories.directory m i = l.map (fun p => p.2.binding) ++
          x.binding :: r.map fun p => p.2.binding := by
        rw [h.directory i, hL, List.map_append, List.map_cons]
      have hnl : ∀ b ∈ l.map (fun p => p.2.binding), b.bn ≠ x.binding.bn := by
        intro b hb hbn
        obtain ⟨p, hp, rfl⟩ := List.mem_map.mp hb
        have hpL : p ∈ L i := by
          rw [hL]
          exact List.mem_append_left _ hp
        obtain rfl := huniq p hpL (congrArg NameComponent.entry hbn)
        exact hlr a (Linked.mem_addresses hp) a List.mem_cons_self rfl
      have hnr' : ∀ b ∈ r.map (fun p => p.2.binding), b.bn ≠ x.binding.bn := by
        intro b hb hbn
        obtain ⟨p, hp, rfl⟩ := List.mem_map.mp hb
        have hpL : p ∈ L i := by
          rw [hL]
          exact List.mem_append_right _ (List.mem_cons_of_mem _ hp)
        obtain rfl := huniq p hpL (congrArg NameComponent.entry hbn)
        exact (List.nodup_cons.mp hnr).1 (Linked.mem_addresses hp)
      refine .inl ⟨rfl, ?_, ?_, ?_⟩
      · rw [hdir]
        exact Directory.find_middle hnl
      · rw [hdir, List.map_append]
        exact Directory.without_middle hnl hnr'
      · intro b hb hbe
        rw [h.directory i] at hb
        obtain ⟨p, hp, rfl⟩ := List.mem_map.mp hb
        obtain rfl := huniq p hp hbe
        rfl
    · refine .inr ⟨Directory.find_eq_none.mpr fun b hb hbc => ?_, fun hclean => ?_⟩
      · rw [h.directory i] at hb
        obtain ⟨p, hp, rfl⟩ := List.mem_map.mp hb
        obtain rfl := huniq p hp (congrArg NameComponent.entry hbc)
        exact hc hbc
      · exact hc (hclean _ (h.mem_directory hx) he)

theorem resolve_iff (h : Represents s m L) (hi : i < s.contexts.length) (c : NameComponent) :
    s.resolve i c = Directories.resolve m i c ↔ Clean m i c := by
  rw [NamingState.resolve, Directories.resolve]
  rcases h.find hi c with ⟨hl, -, hf, hclean⟩ | ⟨l, r, a, x, -, hl, hcases⟩
  · rw [hl, hf]
    exact iff_of_true rfl hclean
  · rw [hl]
    rcases hcases with ⟨-, hf, -, hclean⟩ | ⟨hf, hclean⟩
    · rw [hf]
      exact iff_of_true rfl hclean
    · rw [hf]
      exact iff_of_false (fun heq => nomatch heq) hclean

end Represents

/-- The outcome of a call in one context, against that in its map. -/
structure Agrees (m : List Directory) (i : Nat) (c : NameComponent) (r : NamingState × NamingReply)
    (r' : List Directory × NamingReply) : Prop where
  result : r.2 = r'.2 ↔ Clean m i c
  holds : Clean m i c → ∃ L, Represents r.1 r'.1 L

namespace Represents

variable {s : NamingState} {m : List Directory} {L : ContextNodes} {i : Nat}

theorem bind (h : Represents s m L) (hi : i < s.contexts.length) (c : NameComponent) (bt : BindingType)
    (obj : ObjectRef) : Agrees m i c (s.bind i c bt obj) (Directories.bind m i c bt obj) := by
  rw [NamingState.bind, Directories.bind]
  rcases h.find hi c with ⟨hl, hb, hf, hclean⟩ | ⟨l, r, a, x, -, hl, hcases⟩
  · rw [hl, hf]
    have happ := h.append hi (o := ⟨(s.context i).encode c, c, bt, obj⟩) rfl hb
    rw [List.map_append, ← h.directory i] at happ
    exact ⟨iff_of_true rfl hclean, fun _ => ⟨_, happ⟩⟩
  · rw [hl]
    rcases hcases with ⟨-, hf, -, hclean⟩ | ⟨hf, hclean⟩
    · rw [hf]
      exact ⟨iff_of_true rfl hclean, fun _ => ⟨L, h⟩⟩
    · rw [hf]
      exact ⟨iff_of_false (fun heq => nomatch heq) hclean, fun hc => absurd hc hclean⟩

theorem unbind (h : Represents s m L) (hi : i < s.contexts.length) (c : NameComponent) :
    Agrees m i c (s.unbind i c) (Directories.unbind m i c) := by
  rw [NamingState.unbind, Directories.unbind]
  rcases h.find hi c with ⟨hl, -, hf, hclean⟩ | ⟨l, r, a, x, hL, hl, hcases⟩
  · rw [hl, hf]
    exact ⟨iff_of_true rfl hclean, fun _ => ⟨L, h⟩⟩
  · rw [hl]
    rcases hcases with ⟨-, hf, hw, hclean⟩ | ⟨hf, hclean⟩
    · rw [hf, hw]
      exact ⟨iff_of_true rfl hclean, fun _ => ⟨_, h.remove hi hL⟩⟩
    · rw [hf]
      exact ⟨iff_of_false (fun heq => nomatch heq) hclean, fun hc => absurd hc hclean⟩

theorem rebind (h : Represents s m L) (hi : i < s.contexts.length) (c : NameComponent) (bt : BindingType)
    (obj : ObjectRef) : Agrees m i c (s.rebind i c bt obj) (Directories.rebind m i c bt obj) := by
  rw [NamingState.rebind, Directories.rebind]
  rcases h.find hi c with ⟨hl, -, hf, hclean⟩ | ⟨l, r, a, x, hL, hl, hcases⟩
  · rw [hl, hf]
    exact ⟨iff_of_true rfl hclean, fun _ => ⟨L, h⟩⟩
  · rw [hl]
    rcases hcases with ⟨hxc, hf, hw, hclean⟩ | ⟨hf, hclean⟩
    · rw [hf, hw]
      by_cases hbt : x.bt = bt
      · have hrem := h.remove hi hL
        have hr := NamingState.relisted (s := s) (i := i)
          (u := s.removeBoFromNc i (s.context i) a ⟨x, last none l, first none r⟩) rfl
        have hx : (a, x) ∈ L i := by
          rw [hL]
          exact List.mem_append_right _ List.mem_cons_self
        have hkey : x.key = (s.context i).encode c := by rw [h.encoded i _ hx, hxc]
        have happ := hrem.append (i := i) (o := ⟨(s.context i).encode c, c, bt, obj⟩)
          (by rw [hr.size]; exact hi)
          (by rw [NamingContext.encode, NamingContext.encode, hr.key i])
          (by
            show Function.update s.boht x.key none _ = none
            rw [hkey, Function.update_self])
        rw [Function.update_self, List.set_set, List.map_append] at happ
        dsimp only [BoundObject.binding]
        rw [if_neg (not_not_intro hbt), if_pos hbt]
        exact ⟨iff_of_true rfl hclean, fun _ => ⟨_, happ⟩⟩
      · dsimp only [BoundObject.binding]
        rw [if_pos hbt, if_neg hbt]
        exact ⟨iff_of_true rfl hclean, fun _ => ⟨L, h⟩⟩
    · rw [hf]
      refine ⟨iff_of_false (fun heq => ?_) hclean, fun hc => absurd hc hclean⟩
      -- a bound object was found, so that the reply is not `missing_node`
      dsimp only at heq
      split_ifs at heq
      cases bt <;> cases heq

end Represents

/-! ## The walk -/

namespace ContextOperations

variable {σ τ : Type} {o : ContextOperations σ} {u : ContextOperations τ} {s : σ} {t : τ}

theorem bindNewContext_none (h : o.newContext s = none) (i : Nat) (c : NameComponent) :
    o.bindNewContext s i c = (s, .error .programError) := by rw [bindNewContext, h]

theorem bindNewContext_some {s' : σ} (h : o.newContext s = some s') (i : Nat) (c : NameComponent) :
    o.bindNewContext s i c =
      ((o.bind s' i c .ncontext (.context (o.size s))).1,
        (o.bind s' i c .ncontext (.context (o.size s))).2.map
          fun _ => some (.context (o.size s))) := by rw [bindNewContext, h]

theorem servant_congr (hsize : o.size s = u.size t) (ctx : ContextRef) :
    o.servant s ctx = u.servant t ctx := by
  cases ctx with
  | none => rfl
  | some i => rw [servant, servant, hsize]

theorem lt_size {ctx : ContextRef} {i : Nat} (h : o.servant s ctx = .ok i) : i < o.size s := by
  cases ctx with
  | none => cases h
  | some j =>
    rw [servant] at h
    split_ifs at h with hj
    cases h
    exact hj

theorem onTheWay_lt {n : Name} : ∀ {ctx : ContextRef}, ∀ p ∈ o.onTheWay s ctx n, p.1 < o.size s := by
  induction n with
  | nil => intro _ p hp; cases hp
  | cons c n ih =>
    intro ctx p hp
    cases n with
    | nil => cases hp
    | cons c' cs =>
      rw [onTheWay] at hp
      cases hs : o.servant s ctx with
      | error e => rw [hs] at hp; cases hp
      | ok i =>
        rw [hs] at hp
        rcases List.mem_cons.mp hp with rfl | hp
        · exact lt_size hs
        cases hr : o.resolve s i c with
        | error e => rw [hr] at hp; cases hp
        | ok obj =>
          rw [hr] at hp
          dsimp only at hp
          cases ht : obj.toRef with
          | none => rw [ht] at hp; cases hp
          | some ctx' =>
            rw [ht] at hp
            exact ih p hp

theorem walk_congr (hsize : o.size s = u.size t) {n : Name} :
    ∀ {ctx : ContextRef}, (∀ p ∈ o.onTheWay s ctx n, o.resolve s p.1 p.2 = u.resolve t p.1 p.2) →
      o.onTheWay s ctx n = u.onTheWay t ctx n ∧
        o.getCtxAndLastNc s ctx n = u.getCtxAndLastNc t ctx n := by
  induction n with
  | nil => intro _ _; exact ⟨rfl, rfl⟩
  | cons c n ih =>
    intro ctx heq
    cases n with
    | nil => exact ⟨rfl, rfl⟩
    | cons c' cs =>
      rw [onTheWay] at heq
      rw [onTheWay, onTheWay, getCtxAndLastNc, getCtxAndLastNc, ← servant_congr hsize ctx]
      cases hs : o.servant s ctx with
      | error e => exact ⟨rfl, rfl⟩
      | ok i =>
        rw [hs] at heq
        dsimp only at heq ⊢
        rw [← heq (i, c) List.mem_cons_self]
        cases hr : o.resolve s i c with
        | error e => exact ⟨rfl, rfl⟩
        | ok obj =>
          rw [hr] at heq
          dsimp only at heq ⊢
          cases ht : obj.toRef with
          | none => exact ⟨rfl, rfl⟩
          | some ctx' =>
            rw [ht] at heq
            obtain ⟨hway, hlast⟩ := ih fun p hp => heq p (List.mem_cons_of_mem _ hp)
            exact ⟨congrArg ((i, c) :: ·) hway, hlast⟩

end ContextOperations

/-! ## One operation -/

namespace Directories

theorem directory_append_nil (m : List Directory) (i : Nat) :
    directory (m ++ [[]]) i = directory m i := getD_append_default m i []

variable {m : List Directory} {c : NameComponent}

theorem clean_append_nil {i : Nat} :
    Clean (m ++ [[]]) i c ↔ Clean m i c := by
  rw [Clean, directory_append_nil, Clean]

theorem bind_error {i : Nat} {bt : BindingType}
    {obj : ObjectRef} {e : NamingException} (h : (bind m i c bt obj).2 = .error e) :
    (bind m i c bt obj).1 = m := by
  rw [bind] at h ⊢
  cases hf : (directory m i).find c with
  | some b => rfl
  | none => rw [hf] at h; cases h

theorem serve_error {i : Nat} {r : NamingRequest}
    {e : NamingException} (h : (operations.serve m i c r).2 = .error e) (j : Nat) :
    directory (operations.serve m i c r).1 j = directory m j := by
  have hrebind : ∀ bt obj, (rebind m i c bt obj).2 = .error e → (rebind m i c bt obj).1 = m := by
    intro bt obj h
    rw [rebind] at h ⊢
    cases hf : (directory m i).find c with
    | none => rfl
    | some b =>
      rw [hf] at h
      dsimp only at h ⊢
      split_ifs at h ⊢ with hbt
      rfl
  cases r with
  | bind obj => exact congrArg (directory · j) (bind_error h)
  | bindContext nc => exact congrArg (directory · j) (bind_error h)
  | rebind obj => exact congrArg (directory · j) (hrebind _ _ h)
  | rebindContext nc => exact congrArg (directory · j) (hrebind _ _ h)
  | resolve => rfl
  | unbind =>
    refine congrArg (directory · j) (?_ : (unbind m i c).1 = m)
    replace h : (unbind m i c).2 = .error e := h
    rw [unbind] at h ⊢
    cases hf : (directory m i).find c with
    | none => rfl
    | some b => rw [hf] at h; cases h
  | bindNewContext =>
    show directory (operations.bindNewContext m i c).1 j = _
    replace h : (operations.bindNewContext m i c).2 = .error e := h
    cases hn : newContext m with
    | none => rw [ContextOperations.bindNewContext_none hn]
    | some m' =>
      rw [ContextOperations.bindNewContext_some hn] at h ⊢
      have hm : m' = m ++ [[]] := by
        rw [newContext] at hn
        split_ifs at hn with hlt
        exact (Option.some.inj hn).symm
      cases hb : (bind m' i c .ncontext (.context m.length)).2 with
      | ok o =>
        replace h : Except.map _ (bind m' i c .ncontext (.context m.length)).2 = _ := h
        rw [hb] at h
        cases h
      | error e' =>
        show directory (bind m' i c .ncontext (.context m.length)).1 j = _
        rw [bind_error hb, hm, directory_append_nil]

theorem perform_error {op : NamingOperation} {e : NamingException}
    (h : (operations.perform m op).2 = .error e) (j : Nat) :
    directory (operations.perform m op).1 j = directory m j := by
  cases op with
  | create =>
    show directory (operations.create m).1 j = _
    replace h : (operations.create m).2 = .error e := h
    rw [ContextOperations.create] at h ⊢
    cases hn : operations.newContext m with
    | none => rfl
    | some m' => rw [hn] at h; cases h
  | call self n r =>
    show directory (operations.call m self n r).1 j = _
    replace h : (operations.call m self n r).2 = .error e := h
    rw [ContextOperations.call] at h ⊢
    cases hs : operations.servant m self with
    | error e' => rfl
    | ok i₀ =>
      rw [hs] at h
      cases hg : operations.getCtxAndLastNc m self n with
      | error e' => rfl
      | ok p =>
        rw [hg] at h
        dsimp only at h ⊢
        cases hs' : operations.servant m p.1 with
        | error e' => rfl
        | ok i =>
          rw [hs'] at h
          exact serve_error h j

end Directories

namespace Represents

variable {s : NamingState} {m : List Directory} {L : ContextNodes}

theorem length_le (h : Represents s m L) (i : Nat) : (L i).length ≤ s.allocated := by
  by_cases hi : i < s.contexts.length
  · exact (h.lists i hi).length_le (h.fresh i)
  · rw [List.eq_nil_iff_forall_not_mem.mpr fun p hp => hi (h.inside i p hp)]
    exact Nat.zero_le _

theorem isList (h : Represents s m L) (i : Nat) : IsList s.heap (s.context i).ends (L i) := by
  by_cases hi : i < s.contexts.length
  · exact h.lists i hi
  · rw [List.eq_nil_iff_forall_not_mem.mpr fun p hp => hi (h.inside i p hp), NamingState.context,
      List.getD_eq_getElem?_getD, List.getElem?_eq_none (Nat.le_of_not_lt hi)]
    exact IsList.nil _

theorem bindings (h : Represents s m L) (i : Nat) : s.bindings i = Directories.directory m i := by
  rw [NamingState.bindings, NamingState.fromHead, (h.isList i).forward (h.length_le i), h.directory i,
    List.map_map]
  rfl

theorem bindingsFromTail (h : Represents s m L) (i : Nat) :
    (s.fromTail i).map BoundObject.binding = (Directories.directory m i).reverse := by
  rw [NamingState.fromTail, (h.isList i).backward (h.length_le i), h.directory i, List.map_reverse,
    List.map_map]
  rfl

theorem serve (h : Represents s m L) {i : Nat} (hi : i < s.contexts.length) (c : NameComponent)
    (r : NamingRequest) :
    let x := NamingState.operations.serve s i c r
    let y := Directories.operations.serve m i c r
    ((r = .bindNewContext ∧ (Directories.operations.newContext m).isNone = true) ∧ x.2 = y.2 ∧
        ∃ L, Represents x.1 y.1 L) ∨
      ¬(r = .bindNewContext ∧ (Directories.operations.newContext m).isNone = true) ∧
        Agrees m i c x y := by
  cases r with
  | bind obj => exact .inr ⟨(fun hb => nomatch hb.1), h.bind hi c _ _⟩
  | bindContext nc => exact .inr ⟨(fun hb => nomatch hb.1), h.bind hi c _ _⟩
  | rebind obj => exact .inr ⟨(fun hb => nomatch hb.1), h.rebind hi c _ _⟩
  | rebindContext nc => exact .inr ⟨(fun hb => nomatch hb.1), h.rebind hi c _ _⟩
  | unbind => exact .inr ⟨(fun hb => nomatch hb.1), h.unbind hi c⟩
  | resolve =>
    refine .inr ⟨(fun hb => nomatch hb.1), ?_, fun _ => ⟨L, h⟩⟩
    rw [← h.resolve_iff hi c]
    show (s.resolve i c).map some = (Directories.resolve m i c).map some ↔ _
    cases s.resolve i c <;> cases Directories.resolve m i c <;> simp [Except.map]
  | bindNewContext =>
    rcases h.newContext with ⟨hn, hn'⟩ | ⟨s', hn, hn', hlen, h'⟩
    · refine .inl ⟨⟨rfl, by rw [show Directories.operations.newContext m = none from hn']; rfl⟩, ?_⟩
      show (NamingState.operations.bindNewContext s i c).2 =
          (Directories.operations.bindNewContext m i c).2 ∧
        ∃ L, Represents (NamingState.operations.bindNewContext s i c).1
          (Directories.operations.bindNewContext m i c).1 L
      rw [ContextOperations.bindNewContext_none hn, ContextOperations.bindNewContext_none hn']
      exact ⟨rfl, L, h⟩
    · refine .inr ⟨fun hb => ?_, ?_⟩
      · rw [show Directories.operations.newContext m = some _ from hn'] at hb
        exact nomatch hb.2
      have hsize : NamingState.operations.size s = Directories.operations.size m := h.size.symm
      obtain ⟨hresult, hholds⟩ := h'.bind (i := i) (by rw [hlen]; exact Nat.lt_succ_of_lt hi) c .ncontext
        (.context (Directories.operations.size m))
      rw [Directories.clean_append_nil] at hresult hholds
      show Agrees m i c (NamingState.operations.bindNewContext s i c)
        (Directories.operations.bindNewContext m i c)
      rw [ContextOperations.bindNewContext_some hn, ContextOperations.bindNewContext_some hn', hsize]
      refine ⟨?_, hholds⟩
      rw [← hresult]
      show (s'.bind i c _ _).2.map _ = (Directories.bind _ i c _ _).2.map _ ↔ _
      have hnone : ∀ (k : NamingState) o, (k.bind i c .ncontext o).2 = .ok none ∨
          ∃ e, (k.bind i c .ncontext o).2 = .error e := by
        intro k o
        rw [NamingState.bind]
        split_ifs
        · exact .inr ⟨_, rfl⟩
        · exact .inl rfl
      have hnone' : ∀ o, (Directories.bind (m ++ [[]]) i c .ncontext o).2 = .ok none ∨
          ∃ e, (Directories.bind (m ++ [[]]) i c .ncontext o).2 = .error e := by
        intro o
        rw [Directories.bind]
        cases (Directories.directory (m ++ [[]]) i).find c with
        | none => exact .inl rfl
        | some b => exact .inr ⟨_, rfl⟩
      rcases hnone s' (.context (Directories.operations.size m)) with hx | ⟨e, hx⟩ <;>
        rcases hnone' (.context (Directories.operations.size m)) with hy | ⟨e', hy⟩ <;>
        rw [hx, hy] <;> simp [Except.map]

theorem clean_of_call (h : Represents s m L) (self : ContextRef) (n : Name) (r : NamingRequest)
    (hway : ∀ p ∈ NamingState.operations.way s (.call self n r),
      s.resolve p.1 p.2 = Directories.resolve m p.1 p.2)
    (hresult : (NamingState.operations.call s self n r).2 = (Directories.operations.call m self n r).2) :
    ∀ p ∈ Directories.operations.lookups m (.call self n r), Clean m p.1 p.2 := by
  have hsize : NamingState.operations.size s = Directories.operations.size m := h.size.symm
  have hservant := ContextOperations.servant_congr (o := NamingState.operations)
    (u := Directories.operations) hsize
  rw [ContextOperations.way, hservant] at hway
  rw [ContextOperations.call, ContextOperations.call, hservant] at hresult
  rw [ContextOperations.lookups]
  cases hs : Directories.operations.servant m self with
  | error e => intro p hp; cases hp
  | ok i₀ =>
    rw [hs] at hway hresult
    obtain ⟨hpath, hlast⟩ := ContextOperations.walk_congr (u := Directories.operations) hsize hway
    intro p hp
    rcases List.mem_append.mp hp with hp | hp
    · rw [← hpath] at hp
      exact (h.resolve_iff (ContextOperations.onTheWay_lt p hp) p.2).mp (hway p hp)
    · rw [hlast] at hresult
      rw [ContextOperations.lastLookup] at hp
      cases hg : Directories.operations.getCtxAndLastNc m self n with
      | error e => rw [hg] at hp; cases hp
      | ok q =>
        obtain ⟨ctx, last⟩ := q
        rw [hg] at hp hresult
        dsimp only at hp hresult
        rw [hservant] at hresult
        cases hs' : Directories.operations.servant m ctx with
        | error e => rw [hs'] at hp; cases hp
        | ok i =>
          rw [hs'] at hp hresult
          dsimp only at hp hresult
          have hi : i < s.contexts.length := by
            rw [← h.size]
            exact ContextOperations.lt_size hs'
          rcases h.serve hi last r with ⟨hno, -⟩ | ⟨hyes, hagrees⟩
          · rw [if_pos hno] at hp
            cases hp
          · rw [if_neg hyes] at hp
            obtain rfl := List.mem_singleton.mp hp
            exact hagrees.result.mp hresult

theorem call_of_clean (h : Represents s m L) (self : ContextRef) (n : Name) (r : NamingRequest)
    (hclean : ∀ p ∈ Directories.operations.lookups m (.call self n r), Clean m p.1 p.2) :
    (∀ p ∈ NamingState.operations.way s (.call self n r),
      s.resolve p.1 p.2 = Directories.resolve m p.1 p.2) ∧
    (NamingState.operations.call s self n r).2 = (Directories.operations.call m self n r).2 ∧
    ∃ L, Represents (NamingState.operations.call s self n r).1
      (Directories.operations.call m self n r).1 L := by
  have hsize : NamingState.operations.size s = Directories.operations.size m := h.size.symm
  have hservant := ContextOperations.servant_congr (o := NamingState.operations)
    (u := Directories.operations) hsize
  rw [ContextOperations.way, ContextOperations.call, ContextOperations.call, hservant]
  rw [ContextOperations.lookups] at hclean
  cases hs : Directories.operations.servant m self with
  | error e => exact ⟨(fun p hp => nomatch hp), rfl, L, h⟩
  | ok i₀ =>
    rw [hs] at hclean
    have hway : ∀ p ∈ Directories.operations.onTheWay m self n,
        Directories.resolve m p.1 p.2 = s.resolve p.1 p.2 := by
      intro p hp
      have hlt : p.1 < s.contexts.length := by
        rw [← h.size]
        exact ContextOperations.onTheWay_lt p hp
      exact ((h.resolve_iff hlt p.2).mpr (hclean p (List.mem_append_left _ hp))).symm
    obtain ⟨hpath, hlast⟩ := ContextOperations.walk_congr (u := NamingState.operations) hsize.symm hway
    rw [← hpath, ← hlast]
    refine ⟨fun p hp => (hway p hp).symm, ?_⟩
    rw [ContextOperations.lastLookup] at hclean
    cases hg : Directories.operations.getCtxAndLastNc m self n with
    | error e => exact ⟨rfl, L, h⟩
    | ok q =>
      obtain ⟨ctx, last⟩ := q
      rw [hg] at hclean
      dsimp only at hclean ⊢
      rw [hservant]
      cases hs' : Directories.operations.servant m ctx with
      | error e => exact ⟨rfl, L, h⟩
      | ok i =>
        rw [hs'] at hclean
        dsimp only at hclean ⊢
        have hi : i < s.contexts.length := by
          rw [← h.size]
          exact ContextOperations.lt_size hs'
        rcases h.serve hi last r with ⟨-, hresult, hholds⟩ | ⟨hyes, hagrees⟩
        · exact ⟨hresult, hholds⟩
        · rw [if_neg hyes] at hclean
          have hc := hclean (i, last) (List.mem_append_right _ List.mem_cons_self)
          exact ⟨hagrees.result.mpr hc, hagrees.holds hc⟩

end Represents

/-! ## Runs -/

namespace ContextSystem

theorem correct_of_sound {s : ContextSystem} (h : s.Inv) {op : NamingOperation} (hs : s.Sound op) :
    s.Correct op ∧ (s.perform op).Inv := by
  obtain ⟨L, h⟩ := h
  have hstep : (∀ p ∈ NamingState.operations.way s.state op,
        s.state.resolve p.1 p.2 = Directories.resolve s.maps p.1 p.2) ∧
      s.reply op = (Directories.operations.perform s.maps op).2 ∧ (s.perform op).Inv := by
    cases op with
    | call self n r => exact h.call_of_clean self n r hs
    | create =>
      refine ⟨(fun p hp => nomatch hp), ?_⟩
      show (NamingState.operations.create s.state).2 = (Directories.operations.create s.maps).2 ∧
        ∃ L, Represents (NamingState.operations.create s.state).1
          (Directories.operations.create s.maps).1 L
      rw [ContextOperations.create, ContextOperations.create]
      rcases h.newContext with ⟨hn, hn'⟩ | ⟨s', hn, hn', -, h'⟩
      · rw [show NamingState.operations.newContext s.state = none from hn,
          show Directories.operations.newContext s.maps = none from hn']
        exact ⟨rfl, L, h⟩
      · rw [show NamingState.operations.newContext s.state = some s' from hn,
          show Directories.operations.newContext s.maps = some _ from hn']
        exact ⟨congrArg (fun k => Except.ok (some (ObjectRef.context k))) h.size.symm, L, h'⟩
  obtain ⟨hway, hreply, L', h'⟩ := hstep
  refine ⟨⟨hway, hreply, fun e he i => ?_, h'.bindings, h'.bindingsFromTail⟩, L', h'⟩
  rw [h'.bindings i, h.bindings i]
  exact Directories.perform_error (hreply.symm.trans he) i

/-- The naming service does in a run what one map for each context does, just when no name is
looked up in a context in which another one, with the same encoding, is bound. -/
theorem contextRun_correct_iff (ops : List NamingOperation) :
    Runs.Along perform Correct start ops ↔ Runs.Along perform Sound start ops := by
  have hstep : ∀ s op, Inv s → True →
      (Correct s op → Sound s op) ∧ (Sound s op → Correct s op ∧ Inv (perform s op)) := by
    intro s op hs _
    refine ⟨fun hc => ?_, correct_of_sound hs⟩
    obtain ⟨L, h⟩ := hs
    cases op with
    | create => intro p hp; cases hp
    | call self n r => exact h.clean_of_call self n r hc.way hc.result
  exact Runs.along_iff hstep ops start ⟨_, Represents.start⟩ (Runs.along_true ops start)

/-- Two names with one encoding, a tabulation being in the id of one and in the kind of the other. -/
def collidingRun : List NamingOperation :=
  [.create, .call (some 0) [⟨[97, 9, 98], [99]⟩] (.bind (.object 1)),
    .call (some 0) [⟨[97], [98, 9, 99]⟩] (.bind (.object 2))]

theorem not_contextRun_correct : ¬∀ ops, Runs.Along perform Correct start ops := by
  intro h
  obtain ⟨-, -, hbind, -⟩ := h collidingRun
  have hreply : ((start.perform .create).perform
      (.call (some 0) [⟨[97, 9, 98], [99]⟩] (.bind (.object 1)))).reply
      (.call (some 0) [⟨[97], [98, 9, 99]⟩] (.bind (.object 2))) = .error .alreadyBound := by decide
  have hmap := hbind.result
  exact absurd hmap (by decide)

end ContextSystem

end PolyORB
