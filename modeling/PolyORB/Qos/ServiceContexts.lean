import Mathlib.Tactic

/-!
# Service contexts and QoS parameters

`Rebuild_Service_Contexts` and `Rebuild_QoS_Parameters` of PolyORB.QoS.Service_Contexts.  Apart from
the list of service contexts, a QoS parameter is what its converters take it for.
-/

namespace PolyORB

inductive QoSKind where
  | staticPriority
  | adaExceptionInformation
  | giopCodeSets
  | giopAddressingMode
  | giopServiceContexts
  | giopTaggedComponents
  | dsaTmInfo
  | compoundSecurity
  | transportSecurity
  | giopStaticBuffer
  deriving DecidableEq

/-- The range of the loop over `QoS_Kind`. -/
def QoSKind.all : List QoSKind :=
  [.staticPriority, .adaExceptionInformation, .giopCodeSets, .giopAddressingMode,
    .giopServiceContexts, .giopTaggedComponents, .dsaTmInfo, .compoundSecurity, .transportSecurity,
    .giopStaticBuffer]

theorem QoSKind.mem_all (k : QoSKind) : k ∈ all := by cases k <;> decide

structure ServiceContext where
  contextId : Nat
  contextData : Option (List UInt8)
  deriving DecidableEq

/-- `other` gives the parameters of the kinds other than `GIOP_Service_Contexts`. -/
structure QoSParameters (P : Type) where
  serviceContexts : Option (List ServiceContext)
  other : QoSKind → Option P

variable {P : Type}

structure ConverterRegistry (P : Type) where
  toServiceContext : QoSKind → Option (Option P → ServiceContext)
  toQoSParameter : List (Nat × (ServiceContext → Option (QoSKind × P)))

namespace ConverterRegistry
variable (R : ConverterRegistry P)

def getConverter (id : Nat) : Option (ServiceContext → Option (QoSKind × P)) :=
  (R.toQoSParameter.find? (·.1 = id)).map (·.2)

/-- What `Rebuild_QoS_Parameters` makes of a context. -/
def convert (c : ServiceContext) : Option (QoSKind × P) := (R.getConverter c.contextId).bind (· c)

/-- The loop over the list, and `Append` behind it. -/
def putContext (aux : ServiceContext) : List ServiceContext → List ServiceContext
  | [] => if aux.contextData = none then [] else [aux]
  | c :: l =>
    if c.contextId = aux.contextId then
      if aux.contextData = none then l else { c with contextData := aux.contextData } :: l
    else c :: putContext aux l

def rebuildKind (q : QoSParameters P) (l : List ServiceContext) (k : QoSKind) :
    List ServiceContext :=
  if k = .giopServiceContexts then l
  else (R.toServiceContext k).elim l fun conv => putContext (conv (q.other k)) l

def rebuildServiceContexts (q : QoSParameters P) : QoSParameters P :=
  let l := QoSKind.all.foldl (R.rebuildKind q) (q.serviceContexts.getD [])
  { q with serviceContexts := some l }

def rebuildQoSParameters (q : QoSParameters P) : QoSParameters P :=
  match q.serviceContexts with
  | none => q
  | some l => l.foldl (fun q c => (R.convert c).elim q fun aux =>
      { q with other := Function.update q.other aux.1 (some aux.2) }) q

end ConverterRegistry

/-- The converters come in pairs with distinct context ids.  An absent parameter gives a context
without data, a present one a context that is converted back to it.  There is no converter for the
list of contexts itself, which both operations pass over. -/
structure Converters (P : Type) extends ConverterRegistry P where
  contextId : QoSKind → Nat
  paired : ∀ id, (toConverterRegistry.getConverter id).isSome ↔
    ∃ k, (toServiceContext k).isSome ∧ contextId k = id
  distinct : ∀ k k', (toServiceContext k).isSome → (toServiceContext k').isSome →
    contextId k = contextId k' → k = k'
  absent : ∀ k, ∀ conv ∈ toServiceContext k, conv none = ⟨contextId k, none⟩
  present : ∀ k, ∀ conv ∈ toServiceContext k, ∀ p, (conv (some p)).contextId = contextId k ∧
    (conv (some p)).contextData ≠ none ∧
    toConverterRegistry.convert (conv (some p)) = some (k, p)
  proper : toServiceContext .giopServiceContexts = none

def contextsOf (l : List ServiceContext) (id : Nat) : List ServiceContext :=
  l.filter (·.contextId = id)

/-- QoS parameters with at most one context of each id. -/
structure SentParameters (P : Type) where
  params : QoSParameters P
  distinct : ∀ id, (contextsOf (params.serviceContexts.getD []) id).length ≤ 1

/-! ## One context -/

section
open ConverterRegistry
variable {aux : ServiceContext} {l : List ServiceContext}

theorem putContext_filter {p : ServiceContext → Bool}
    (hp : ∀ c : ServiceContext, c.contextId = aux.contextId → p c = false) :
    (putContext aux l).filter p = l.filter p := by
  induction l with
  | nil => unfold putContext; split <;> simp [hp aux rfl]
  | cons c l ih =>
    unfold putContext
    split
    · next hc => split <;> simp [hp c hc, hp ⟨c.contextId, aux.contextData⟩ hc]
    · rw [List.filter_cons, List.filter_cons, ih]

theorem contextsOf_putContext_of_ne {id : Nat} (h : aux.contextId ≠ id) :
    contextsOf (putContext aux l) id = contextsOf l id :=
  putContext_filter fun _ hc => decide_eq_false (hc ▸ h)

theorem contextsOf_putContext (h : (contextsOf l aux.contextId).length ≤ 1) :
    contextsOf (putContext aux l) aux.contextId =
      if aux.contextData = none then [] else [aux] := by
  unfold contextsOf at h ⊢
  induction l with
  | nil => unfold putContext; split <;> simp
  | cons c l ih =>
    unfold putContext
    by_cases hc : c.contextId = aux.contextId
    · rw [List.filter_cons_of_pos (by simp [hc]), List.length_cons] at h
      have hnil := List.eq_nil_of_length_eq_zero (Nat.le_zero.1 (Nat.le_of_succ_le_succ h))
      rw [if_pos hc]
      split
      · exact hnil
      · rw [List.filter_cons_of_pos (by simp [hc]), hnil, hc]
    · rw [List.filter_cons_of_neg (by simp [hc])] at h
      rw [if_neg hc, List.filter_cons_of_neg (by simp [hc]), ih h]

theorem putContext_distinct (h : ∀ id, (contextsOf l id).length ≤ 1) (id : Nat) :
    (contextsOf (putContext aux l) id).length ≤ 1 := by
  by_cases hid : aux.contextId = id
  · rw [← hid, contextsOf_putContext (h _)]
    split <;> simp
  · rw [contextsOf_putContext_of_ne hid]
    exact h id

theorem putContext_eq_self (h : contextsOf l aux.contextId =
    if aux.contextData = none then [] else [aux]) : putContext aux l = l := by
  unfold contextsOf at h
  induction l with
  | nil =>
    split at h
    · next hd => exact if_pos hd
    · nomatch h
  | cons c l ih =>
    unfold putContext
    by_cases hc : c.contextId = aux.contextId
    · rw [List.filter_cons_of_pos (by simp [hc])] at h
      split at h
      · nomatch h
      · next hd =>
        obtain rfl := (List.cons.inj h).1
        rw [if_pos rfl, if_neg hd]
    · rw [List.filter_cons_of_neg (by simp [hc])] at h
      rw [if_neg hc, ih h]

end

/-! ## The whole list -/

namespace Converters
variable (R : Converters P) (q : QoSParameters P)

def Converts (k : QoSKind) : Prop := (R.toServiceContext k).isSome

instance (k : QoSKind) : Decidable (R.Converts k) := inferInstanceAs (Decidable (_ = true))

/-- The context of a present parameter with a converter. -/
def sent (k : QoSKind) : List ServiceContext :=
  (R.toServiceContext k).elim [] fun conv => ((q.other k).map (conv ∘ some)).toList

variable {R q} {k : QoSKind} {l : List ServiceContext}

theorem rebuildKind_eq : R.rebuildKind q l k = (R.toServiceContext k).elim l
    fun conv => ConverterRegistry.putContext (conv (q.other k)) l := by
  unfold ConverterRegistry.rebuildKind
  split
  · next hk => rw [hk, R.proper]; rfl
  · rfl

theorem sent_eq {conv : Option P → ServiceContext} (h : R.toServiceContext k = some conv) :
    (conv (q.other k)).contextId = R.contextId k ∧
      R.sent q k = if (conv (q.other k)).contextData = none then [] else [conv (q.other k)] := by
  unfold sent
  rw [h]
  cases hp : q.other k with
  | none => simp [R.absent k conv h]
  | some p => simp [R.present k conv h p]

theorem rebuildKind_other {k' : QoSKind} (h : R.Converts k) (hne : k' ≠ k) :
    contextsOf (R.rebuildKind q l k') (R.contextId k) = contextsOf l (R.contextId k) := by
  rw [rebuildKind_eq]
  cases hk' : R.toServiceContext k' with
  | none => rfl
  | some conv =>
    refine contextsOf_putContext_of_ne ?_
    rw [(sent_eq hk').1]
    exact fun heq => hne (R.distinct k' k (by simp [hk']) h heq)

theorem rebuildKind_self (h : R.Converts k) (hd : ∀ id, (contextsOf l id).length ≤ 1) :
    contextsOf (R.rebuildKind q l k) (R.contextId k) = R.sent q k := by
  obtain ⟨conv, hconv⟩ := Option.isSome_iff_exists.1 h
  obtain ⟨hid, hsent⟩ := sent_eq (q := q) hconv
  rw [rebuildKind_eq, hconv, hsent, Option.elim_some, ← hid]
  exact contextsOf_putContext (hd _)

theorem rebuildKind_unregistered :
    (R.rebuildKind q l k).filter (fun c => (R.getConverter c.contextId).isNone) =
      l.filter (fun c => (R.getConverter c.contextId).isNone) := by
  rw [rebuildKind_eq]
  cases hk : R.toServiceContext k with
  | none => rfl
  | some conv =>
    refine putContext_filter fun c hc => ?_
    rw [hc, (sent_eq hk).1, Option.isNone_eq_false_iff, R.paired]
    exact ⟨k, by simp [hk], rfl⟩

theorem rebuildKind_distinct (h : ∀ id, (contextsOf l id).length ≤ 1) (id : Nat) :
    (contextsOf (R.rebuildKind q l k) id).length ≤ 1 := by
  rw [rebuildKind_eq]
  cases R.toServiceContext k with
  | none => exact h id
  | some conv => exact putContext_distinct h id

theorem foldl_rebuildKind (hd : ∀ id, (contextsOf l id).length ≤ 1) (ks : List QoSKind) :
    (∀ id, (contextsOf (ks.foldl (R.rebuildKind q) l) id).length ≤ 1) ∧
    (∀ k ∈ ks, R.Converts k →
      contextsOf (ks.foldl (R.rebuildKind q) l) (R.contextId k) = R.sent q k) ∧
    (ks.foldl (R.rebuildKind q) l).filter (fun c => (R.getConverter c.contextId).isNone) =
      l.filter (fun c => (R.getConverter c.contextId).isNone) := by
  induction ks using List.reverseRecOn with
  | nil => exact ⟨hd, nofun, rfl⟩
  | append_singleton ks k' ih =>
    obtain ⟨hdist, hsent, hrest⟩ := ih
    rw [List.foldl_append, List.foldl_cons, List.foldl_nil]
    refine ⟨rebuildKind_distinct hdist, fun k hk hc => ?_, rebuildKind_unregistered.trans hrest⟩
    by_cases heq : k' = k
    · rw [heq]
      exact rebuildKind_self hc hdist
    · rw [rebuildKind_other hc heq]
      refine hsent k ?_ hc
      exact (List.mem_append.1 hk).resolve_right fun h => heq (List.mem_singleton.1 h).symm

theorem rebuild_eq_self (h : ∀ k, R.Converts k → contextsOf l (R.contextId k) = R.sent q k) :
    QoSKind.all.foldl (R.rebuildKind q) l = l := by
  refine List.foldl_fixed' (fun k => ?_) _
  rw [rebuildKind_eq]
  cases hk : R.toServiceContext k with
  | none => rfl
  | some conv =>
    refine putContext_eq_self ?_
    rw [(sent_eq hk).1, h k (by simp [Converts, hk]), (sent_eq hk).2]

theorem foldl_convert (r : QoSParameters P)
    (h : ∀ c ∈ l, ∀ aux ∈ R.convert c, q.other aux.1 = some aux.2) :
    l.foldl (fun q c => (R.convert c).elim q fun aux =>
      { q with other := Function.update q.other aux.1 (some aux.2) }) r =
      { r with other := fun k =>
        if ∃ c ∈ l, (R.convert c).map (·.1) = some k then q.other k else r.other k } := by
  induction l generalizing r with
  | nil => simp
  | cons c l ih =>
    rw [List.foldl_cons, ih _ fun c hc => h c (List.mem_cons_of_mem _ hc)]
    cases hc : R.convert c with
    | none => simp only [List.exists_mem_cons_iff, hc, Option.elim_none, Option.map_none,
        reduceCtorEq, false_or]
    | some aux =>
      have haux := h c List.mem_cons_self aux hc
      simp only [List.exists_mem_cons_iff, hc, Option.elim_some, Option.map_some,
        Option.some.injEq]
      congr 1
      funext k
      by_cases hk : k = aux.1
      · simp [hk, haux]
      · simp only [Function.update_of_ne hk, Ne.symm hk, false_or]

theorem mem_sent {c : ServiceContext} (h : c ∈ R.sent q k) :
    ∃ p, q.other k = some p ∧ R.convert c = some (k, p) := by
  unfold sent at h
  cases hconv : R.toServiceContext k with
  | none => simp [hconv] at h
  | some conv =>
    cases hp : q.other k with
    | none => simp [hconv, hp] at h
    | some p =>
      obtain rfl : c = conv (some p) := by simpa [hconv, hp] using h
      exact ⟨p, rfl, (R.present k conv hconv p).2.2⟩

theorem sent_ne_nil {p : P} (hk : R.Converts k) (hp : q.other k = some p) :
    ∃ c, c ∈ R.sent q k := by
  obtain ⟨conv, hconv⟩ := Option.isSome_iff_exists.1 hk
  exact ⟨conv (some p), by simp [sent, hconv, hp]⟩

/-- What the peer has of the parameters: those that have a converter. -/
def received (R : Converters P) (q : QoSParameters P) (k : QoSKind) : Option P :=
  if R.Converts k then q.other k else none

/-- At most one context of each id; for each kind with a converter the context of its parameter if
that is present; the contexts of other ids as they were.  Nothing changes the second time, and the
peer gets the parameters with a converter. -/
theorem contexts_agree (R : Converters P) (q : SentParameters P) :
    ∃ l, R.rebuildServiceContexts q.params = { q.params with serviceContexts := some l } ∧
      (∀ id, (contextsOf l id).length ≤ 1) ∧
      (∀ k, R.Converts k → contextsOf l (R.contextId k) = R.sent q.params k) ∧
      l.filter (fun c => (R.getConverter c.contextId).isNone) =
        (q.params.serviceContexts.getD []).filter (fun c => (R.getConverter c.contextId).isNone) ∧
      R.rebuildServiceContexts (R.rebuildServiceContexts q.params) =
        R.rebuildServiceContexts q.params ∧
      R.rebuildQoSParameters ⟨some l, fun _ => none⟩ = ⟨some l, R.received q.params⟩ := by
  obtain ⟨hdist, hsent, hrest⟩ := foldl_rebuildKind (R := R) (q := q.params) q.distinct QoSKind.all
  replace hsent := fun k => hsent k k.mem_all
  refine ⟨_, rfl, hdist, hsent, hrest, ?_, ?_⟩
  · exact congrArg (QoSParameters.mk · _) (congrArg some (rebuild_eq_self hsent))
  · generalize QoSKind.all.foldl (R.rebuildKind q.params) _ = l at hsent
    have hconvert : ∀ c ∈ l, ∀ aux ∈ R.convert c,
        R.Converts aux.1 ∧ q.params.other aux.1 = some aux.2 := by
      intro c hc aux haux
      obtain ⟨conv, hconv, -⟩ := Option.bind_eq_some_iff.1 haux
      obtain ⟨k, hk, hid⟩ := (R.paired c.contextId).1 (by simp [hconv])
      have hmem : c ∈ R.sent q.params k := hsent k hk ▸ List.mem_filter.2 ⟨hc, by simp [hid]⟩
      obtain ⟨p, hp, hback⟩ := mem_sent hmem
      obtain rfl := Option.some.inj (hback.symm.trans haux)
      exact ⟨hk, hp⟩
    refine (foldl_convert _ fun c hc aux h => (hconvert c hc aux h).2).trans ?_
    congr 1
    funext k
    unfold received
    by_cases hk : R.Converts k
    · split
      · rfl
      · next hnone =>
        cases hp : q.params.other k with
        | none => rfl
        | some p =>
          obtain ⟨c, hc⟩ := sent_ne_nil hk hp
          obtain ⟨p', -, hback⟩ := mem_sent hc
          exact absurd ⟨c, List.mem_of_mem_filter (hsent k hk ▸ hc), by simp [hback]⟩ hnone
    · rw [if_neg hk, if_neg]
      rintro ⟨c, hc, hmap⟩
      obtain ⟨aux, haux, rfl⟩ := Option.map_eq_some_iff.1 hmap
      exact hk (hconvert c hc aux haux).1

/-- The converters of static priorities and of code sets, for parameters that are octets. -/
def priorityAndCodeSets : Converters (List UInt8) where
  toServiceContext
    | .staticPriority => some fun p => ⟨10, p⟩
    | .giopCodeSets => some fun p => ⟨1, p⟩
    | _ => none
  toQoSParameter :=
    [(10, fun c => c.contextData.map (.staticPriority, ·)),
      (1, fun c => c.contextData.map (.giopCodeSets, ·))]
  contextId k := if k = .staticPriority then 10 else 1
  paired id := by
    constructor
    · intro h
      simp only [ConverterRegistry.getConverter, Option.isSome_map, List.find?_isSome] at h
      simp only [List.mem_cons, List.not_mem_nil, or_false, exists_eq_or_imp, exists_eq_left,
        decide_eq_true_eq] at h
      rcases h with rfl | rfl
      · exact ⟨.staticPriority, rfl, rfl⟩
      · exact ⟨.giopCodeSets, rfl, rfl⟩
    · rintro ⟨k, hk, rfl⟩
      cases k <;> rfl
  distinct k k' := by
    cases k <;> cases k' <;> simp
  absent k := by
    cases k <;> simp
  present k := by
    cases k <;> rintro _ ⟨⟩ p <;> exact ⟨rfl, by simp, rfl⟩
  proper := rfl

/-- A priority, no code sets, and contexts of an id that is not known and of a priority that was
sent before. -/
def resentPriority : SentParameters (List UInt8) where
  params := ⟨some [⟨7, some [1]⟩, ⟨10, some [0]⟩], fun k => if k = .staticPriority then some [5]
    else none⟩
  distinct id := by
    unfold contextsOf
    by_cases h7 : 7 = id
    · subst h7
      decide
    · rw [Option.getD_some, List.filter_cons_of_neg (by simpa using h7)]
      exact List.length_filter_le _ _

theorem contexts_agree_resentPriority :
    ∃ l, priorityAndCodeSets.rebuildServiceContexts resentPriority.params =
        { resentPriority.params with serviceContexts := some l } ∧
      contextsOf l 10 = [⟨10, some [5]⟩] ∧ contextsOf l 1 = [] ∧
      l.filter (fun c => (priorityAndCodeSets.getConverter c.contextId).isNone) =
        [⟨7, some [1]⟩] ∧
      priorityAndCodeSets.rebuildQoSParameters ⟨some l, fun _ => none⟩ =
        ⟨some l, priorityAndCodeSets.received resentPriority.params⟩ := by
  obtain ⟨l, hbuilt, -, hsent, hrest, -, hread⟩ := contexts_agree priorityAndCodeSets resentPriority
  exact ⟨l, hbuilt, hsent .staticPriority rfl, hsent .giopCodeSets rfl, hrest, hread⟩

end Converters

end PolyORB
