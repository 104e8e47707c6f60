import PolyORB.Poa.FindServant

/-!
# The executor of a servant

`Find_Servant` also sets the executor of the servant that it returns, which decides how the servant
executes its requests.  Two POAs are at hand, the one that is called and the one that is found.
-/

namespace PolyORB

open Character Program

/-- An executor object: each POA has that of its thread policy. -/
abbrev ExecutorId := Nat

/-- What `Find_Servant` returns, and the executor that it has set on it. -/
inductive Dispatched where
  | servant (p : Servant) (executor : ExecutorId)
  | holdServant (executor : ExecutorId)
  | failure (error : ErrorId)
  deriving DecidableEq

/-- `Set_Executor`, with the executor of the POA that was called for a servant that the POA found
has looked up, and that of the latter for its hold servant. -/
def Reached.setExecutor (oaExecutor objExecutor : ExecutorId) : Reached → Dispatched
  | servant p => .servant p oaExecutor
  | holdServant => .holdServant objExecutor
  | failure e => .failure e

section Code

variable (host : Endianness) (answers : Nat → Answer)
  (incarnate : Nat → ObjectId → Option Servant × Option ErrorId) (executor : Nat → ExecutorId)

def executorAt (h : Hierarchy) (path : List AdapterName) : ExecutorId :=
  (h.poaAt path).elim 0 fun oa => executor oa.id

/-- `Find_Servant` on the POA at `path`, with `Set_Executor`. -/
def dispatch (depth : Nat) (v : PoaSystem) (path : List AdapterName) (key : ObjectId)
    (doCheck : Bool) : PoaSystem × Except Exn Dispatched :=
  match getCreator key with
  | .error e => (v, .error e)
  | .ok creator =>
    match v.search.findPoa answers depth path creator true none with
    | (s, .error e) => ({ v with search := s }, .error e)
    | (s, .ok (_, some e)) => ({ v with search := s }, .ok (.failure e))
    | (s, .ok (none, none)) => ({ v with search := s }, .ok (.failure .objectNotExistE))
    | (s, .ok (some id, none)) =>
      let (site, r) := (v.sites id).findServant host incarnate key doCheck
      ({ search := s, sites := Function.update v.sites id site },
        r.map (Reached.setExecutor (executorAt executor v.search.hierarchy path) (executor id)))

/-- The servant that a POA associates with a key: that of its object map, or the one that takes its
place by the request processing policy. -/
def Adapter.associated (a : Adapter) (key : ObjectId) : Option Servant :=
  (a.stored (keyOid host key)).or
    (match a.requestProcessing with
      | .activeObjectMapOnly => none
      | .useDefaultServant => a.defaultServant
      | .useServantManager =>
        match a.servantManager with
        | some ⟨manager, .servantActivator⟩ =>
          (a.incarnatedOid host key).bind fun oid => (incarnate manager oid).1
        | _ => none)

/-- The POA that the creator of a key names, by the children tables from the POA at `base` on. -/
def NamedFrom (h : Hierarchy) (base : List AdapterName) (key : ObjectId) (id : Nat) : Prop :=
  (h.follow base (components (keyCreator key))).map PoaNode.id = some id

/-- A servant is the one that the POA named by the key associates with it, or the hold servant of
its manager, and has the executor of that POA. -/
def RightlyDispatched (sites : Nat → PoaSite) (named : Nat → Prop) (key : ObjectId) :
    Dispatched → Prop
  | .servant p e => ∃ id, named id ∧ (sites id).manager.currentState = .active ∧
      (sites id).adapter.associated host incarnate key = some p ∧ e = executor id
  | .holdServant e => ∃ id, named id ∧ (sites id).manager.currentState = .holding ∧ e = executor id
  | .failure _ => True

/-- The POA that a creator names from `base`, in the hierarchy as it is or among the POAs that are
missing on the way from `path`, which the activators create with the next identities. -/
def NamedAfter (h : Hierarchy) (path base : List AdapterName) (key : ObjectId) (id : Nat) : Prop :=
  NamedFrom h base key id ∨ ∃ j < (h.missing path (components (keyCreator key))).2.length,
    base.map Subtype.val ++ components (keyCreator key) =
      (h.missing path (components (keyCreator key))).1.map Subtype.val ++
        (h.missing path (components (keyCreator key))).2.take (j + 1) ∧ id = h.next + j

/-- Two POAs make the same of a key. -/
def Alike (site site' : PoaSite) (key : ObjectId) : Prop :=
  site.manager.currentState = site'.manager.currentState ∧
    (site.manager.currentState = .active →
      site.adapter.associated host incarnate key = site'.adapter.associated host incarnate key)

/-- The POA reads the key and has a servant for it in its object map, or one that takes its place. -/
def Serves (a : Adapter) (key : ObjectId) : Prop :=
  ¬RefusedBody (keyBody key) ∧ CompleteBody (keyBody key) ∧
    (keyOid host key).persistencyFlag = a.getLifespanCookie ∧ MapReadable a (keyOid host key) ∧
    (a.stored (keyOid host key) = none →
      match a.requestProcessing with
      | .activeObjectMapOnly => False
      | .useDefaultServant => a.defaultServant ≠ none
      | .useServantManager => ∃ manager oid p, a.servantManager = some ⟨manager, .servantActivator⟩ ∧
          a.incarnatedOid host key = some oid ∧ incarnate manager oid = (some p, none))

/-- If the POA `f` has a servant for the key, or is holding, one of the POAs `named` makes the same of
the key, and the executor that is set is its own. -/
def SetsExecutor (sites : Nat → PoaSite) (named : Nat → Prop) (key : ObjectId)
    (oaExecutor : ExecutorId) (f : Nat) : Prop :=
  ((sites f).manager.currentState = .holding → ∃ id, named id ∧
    Alike host incarnate (sites id) (sites f) key ∧ executor f = executor id) ∧
  ((sites f).manager.currentState = .active → Serves host incarnate (sites f).adapter key →
    ∃ id, named id ∧ Alike host incarnate (sites id) (sites f) key ∧ oaExecutor = executor id)

end Code

/-! ## The servant that is found -/

section Adapter

variable {host : Endianness} {incarnate : Nat → ObjectId → Option Servant × Option ErrorId}
  {a a' : Adapter} {key : ObjectId} {p : Servant}

theorem incarnateServant_servant_iff
    (hread : oidToUOid host none key .fresh = .ok (keyOid host key, none)) :
    (∃ a', incarnateServant host incarnate key a = .ok (.ok (some p)) a') ↔
      ∃ manager oid, a.servantManager = some ⟨manager, .servantActivator⟩ ∧
        a.incarnatedOid host key = some oid ∧ incarnate manager oid = (some p, none) := by
  rw [incarnateServant, bind_get]
  rcases hm : a.servantManager with _ | ⟨manager, kind⟩
  · exact iff_of_false (by rintro ⟨_, ⟨⟩⟩) (by rintro ⟨_, _, ⟨⟩, -⟩)
  cases kind with
  | servantLocator | servantManager =>
    exact iff_of_false (by rintro ⟨_, ⟨⟩⟩) (by rintro ⟨_, _, ⟨⟩, -⟩)
  | servantActivator =>
    dsimp only
    cases hoid : a.incarnatedOid host key with
    | none =>
      obtain ⟨e, he⟩ := objectIdentifier_raises hread hoid
      rw [bind_error he]
      exact iff_of_false (by rintro ⟨_, ⟨⟩⟩) (by rintro ⟨_, _, -, ⟨⟩, -⟩)
    | some oid =>
      rw [bind_ok (objectIdentifier_ok hread hoid)]
      dsimp only
      have hsup : (∃ m oid', some (ServantManager.mk manager .servantActivator) =
          some ⟨m, .servantActivator⟩ ∧ some oid = some oid' ∧ incarnate m oid' = (some p, none)) ↔
            incarnate manager oid = (some p, none) := by
        constructor
        · rintro ⟨_, _, ⟨⟩, ⟨⟩, h⟩
          exact h
        · exact fun h => ⟨manager, oid, rfl, rfl, h⟩
      rw [hsup]
      rcases incarnate manager oid with ⟨servant, _ | e⟩
      · constructor
        · rintro ⟨_, ⟨⟩⟩
          rfl
        · rintro ⟨⟩
          exact ⟨a, rfl⟩
      · dsimp only
        split_ifs <;> exact iff_of_false (by rintro ⟨_, ⟨⟩⟩) (by rintro ⟨⟩)

theorem lookUpServant_ne_holdServant :
    lookUpServant host incarnate key a ≠ .ok .holdServant a' := by
  intro h
  obtain ⟨r, a₁, -, h⟩ := bind_eq_ok.mp h
  rcases r with e | _ | q
  · cases h
  · obtain ⟨r, a₂, -, h⟩ := bind_eq_ok.mp h
    rcases r with e | _ | q <;> cases h
  · cases h

/-- The POA returns a servant exactly if it serves the key, and then the associated one. -/
theorem lookUpServant_servant_iff (h : ReadableKey key) :
    (∃ a', lookUpServant host incarnate key a = .ok (.servant p) a') ↔
      Serves host incarnate a key ∧ a.associated host incarnate key = some p := by
  have hreads := oidToUOid_readsKey host h
  rw [Serves]
  generalize hx : oidToUOid host none key .fresh = x at hreads
  cases hreads with
  | @refused u hbad =>
    have hid : idToServant host key a = .ok (.error .invalidObjectIdE) a := by
      rw [idToServant, bind_evaluate hx]
      rfl
    rw [lookUpServant, bind_ok hid]
    exact iff_of_false (by rintro ⟨_, ⟨⟩⟩) fun hs => hs.1.1 hbad
  | @raised e hok hcut =>
    have hid : idToServant host key a = .error e a := by
      rw [idToServant, hx]
      exact bind_error (evaluate_error e a)
    rw [lookUpServant, bind_error hid]
    exact iff_of_false (by rintro ⟨_, ⟨⟩⟩) fun hs => hcut hs.1.2.1
  | complete hok hwhole =>
    have hid := idToServant_read (a := a) hx
    by_cases hlife : (keyOid host key).persistencyFlag ≠ a.getLifespanCookie
    · rw [if_pos hlife] at hid
      rw [lookUpServant, bind_ok hid]
      exact iff_of_false (by rintro ⟨_, ⟨⟩⟩) fun hs => hlife hs.1.2.2.1
    rw [if_neg hlife] at hid
    have hlife := not_not.1 hlife
    by_cases hmap : MapReadable a (keyOid host key)
    swap
    · obtain ⟨e, a₁, hraise⟩ := processingIdToServant_raises hlife hmap
      rw [lookUpServant, bind_error (hid.trans hraise)]
      exact iff_of_false (by rintro ⟨_, ⟨⟩⟩) fun hs => hmap hs.1.2.2.2.1
    rw [processingIdToServant_reads hlife hmap] at hid
    rw [and_iff_right hok, and_iff_right hwhole, and_iff_right hlife, and_iff_right hmap,
      Adapter.associated]
    cases hstored : a.stored (keyOid host key) with
    | some q =>
      rw [hstored] at hid
      rw [lookUpServant, bind_ok hid, and_iff_right (by rintro ⟨⟩)]
      constructor
      · rintro ⟨_, ⟨⟩⟩
        rfl
      · rintro ⟨⟩
        exact ⟨a, rfl⟩
    | none =>
      rw [hstored] at hid
      rw [imp_iff_right rfl, Option.none_or]
      cases hp : a.requestProcessing with
      | activeObjectMapOnly =>
        rw [hp] at hid
        rw [lookUpServant, bind_ok hid]
        exact iff_of_false (by rintro ⟨_, ⟨⟩⟩) fun hs => hs.1
      | useDefaultServant =>
        rw [hp] at hid
        cases hd : a.defaultServant with
        | none =>
          rw [hd] at hid
          rw [lookUpServant, bind_ok hid]
          exact iff_of_false (by rintro ⟨_, ⟨⟩⟩) fun hs => hs.1 rfl
        | some q =>
          rw [hd] at hid
          rw [lookUpServant, bind_ok hid, and_iff_right (by simp)]
          constructor
          · rintro ⟨_, ⟨⟩⟩
            rfl
          · rintro ⟨⟩
            exact ⟨a, rfl⟩
      | useServantManager =>
        rw [hp] at hid
        rw [lookUpServant, bind_ok hid]
        dsimp only
        refine Iff.trans (b := ∃ a', incarnateServant host incarnate key a = .ok (.ok (some p)) a')
          ⟨?_, ?_⟩ ((incarnateServant_servant_iff hx).trans ?_)
        · rintro ⟨a', hrun⟩
          obtain ⟨r, a₁, hinc, hret⟩ := bind_eq_ok.mp hrun
          rcases r with e | _ | q <;> cases hret
          exact ⟨_, hinc⟩
        · rintro ⟨a', hinc⟩
          exact ⟨a', by rw [bind_ok hinc]; rfl⟩
        constructor
        · rintro ⟨manager, oid, hm, hoid, hinc⟩
          exact ⟨⟨manager, oid, p, hm, hoid, hinc⟩, by rw [hm, hoid]; exact congrArg Prod.fst hinc⟩
        · rintro ⟨⟨manager, oid, q, hm, hoid, hinc⟩, hassoc⟩
          rw [hm, hoid] at hassoc
          change (incarnate manager oid).1 = some p at hassoc
          rw [hinc] at hassoc
          cases hassoc
          exact ⟨manager, oid, hm, hoid, hinc⟩

/-- What serves a key has a servant associated with it. -/
theorem serves_associated (hs : Serves host incarnate a key) :
    ∃ p, a.associated host incarnate key = some p := by
  obtain ⟨-, -, -, -, hsup⟩ := hs
  rw [Adapter.associated]
  cases hstored : a.stored (keyOid host key) with
  | some q => exact ⟨q, rfl⟩
  | none =>
    have hsup := hsup hstored
    rw [Option.none_or]
    cases hp : a.requestProcessing with
    | activeObjectMapOnly =>
      rw [hp] at hsup
      exact hsup.elim
    | useDefaultServant =>
      rw [hp] at hsup
      exact Option.ne_none_iff_exists'.1 hsup
    | useServantManager =>
      rw [hp] at hsup
      obtain ⟨manager, oid, p, hm, hoid, hinc⟩ := hsup
      exact ⟨p, by rw [hm, hoid]; exact congrArg Prod.fst hinc⟩

end Adapter

/-! ## Dispatching -/

section Dispatch

variable {host : Endianness} {answers : Nat → Answer}
  {incarnate : Nat → ObjectId → Option Servant × Option ErrorId} {executor : Nat → ExecutorId}
  {sites : Nat → PoaSite} {depth : Nat} {h : Hierarchy} {asked f : Nat}
  {path base : List AdapterName} {key : ObjectId}

theorem dispatch_ok_iff {v' : PoaSystem} {d : Dispatched} (hread : ReadableKey key)
    (hd : ∀ e, d ≠ .failure e) :
    dispatch host answers incarnate executor depth ⟨⟨h, asked⟩, sites⟩ path key true = (v', .ok d) ↔
      ∃ f, Search.findPoa answers depth ⟨h, asked⟩ path (keyCreator key) true none =
          (v'.search, .ok (some f, none)) ∧
        Function.update sites f ((sites f).findServant host incarnate key true).1 = v'.sites ∧
        ((sites f).findServant host incarnate key true).2.map
          (Reached.setExecutor (executorAt executor h path) (executor f)) = .ok d := by
  rw [dispatch, getCreator_eq_ok.2 ⟨hread, rfl⟩]
  dsimp only
  obtain ⟨s', sites'⟩ := v'
  rcases Search.findPoa answers depth ⟨h, asked⟩ path (keyCreator key) true none with
    ⟨t, e | ⟨_ | f, _ | e⟩⟩ <;> dsimp only
  case ok.some.none => simp [and_assoc, and_left_comm]
  all_goals
    refine iff_of_false ?_ (by rintro ⟨_, ⟨⟩, -⟩)
    rintro ⟨⟩
  all_goals exact hd _ rfl

theorem findServant_eq_ok {site : PoaSite} {r : Reached} :
    (site.findServant host incarnate key true).2 = .ok r ↔
      match site.manager.currentState with
      | .active => ∃ a, lookUpServant host incarnate key site.adapter = .ok r a
      | .holding => r = .holdServant
      | _ => r = .failure .transientE := by
  rw [PoaSite.findServant, if_pos rfl, BasicPoaManager.findServant]
  cases site.manager.currentState with
  | holding | discarding | inactive =>
    exact ⟨fun h => (Except.ok.inj h).symm, fun h => congrArg Except.ok h.symm⟩
  | active =>
    cases lookUpServant host incarnate key site.adapter with
    | ok r' a =>
      constructor
      · rintro ⟨⟩
        exact ⟨a, rfl⟩
      · rintro ⟨a', ⟨⟩⟩
        rfl
    | error e a =>
      constructor
      · rintro ⟨⟩
      · rintro ⟨a', ⟨⟩⟩

/-- What the POA `f` returns is right exactly under the conditions on it. -/
theorem setsExecutor_iff (hread : ReadableKey key) (named : Nat → Prop) (oaExecutor : ExecutorId) :
    (∀ d, ((sites f).findServant host incarnate key true).2.map
        (Reached.setExecutor oaExecutor (executor f)) = .ok d →
      RightlyDispatched host incarnate executor sites named key d) ↔
      SetsExecutor host incarnate executor sites named key oaExecutor f := by
  have hreach : (∀ d, ((sites f).findServant host incarnate key true).2.map
        (Reached.setExecutor oaExecutor (executor f)) = .ok d →
      RightlyDispatched host incarnate executor sites named key d) ↔
      ∀ r, ((sites f).findServant host incarnate key true).2 = .ok r →
        RightlyDispatched host incarnate executor sites named key
          (r.setExecutor oaExecutor (executor f)) := by
    cases ((sites f).findServant host incarnate key true).2 with
    | error e => exact iff_of_true (by rintro _ ⟨⟩) (by rintro _ ⟨⟩)
    | ok r => exact ⟨fun h r' hr => h _ (by rw [hr]; rfl), by rintro h _ ⟨⟩; exact h r rfl⟩
  rw [hreach, SetsExecutor]
  simp only [findServant_eq_ok]
  cases hstate : (sites f).manager.currentState with
  | discarding | inactive =>
    exact iff_of_true (by rintro _ rfl; trivial) ⟨by rintro ⟨⟩, by rintro ⟨⟩⟩
  | holding =>
    have hactive : PoaState.holding ≠ .active := by rintro ⟨⟩
    simp only [forall_eq, Alike, hstate, reduceCtorEq, false_implies, and_true, true_implies]
    refine exists_congr fun id => and_congr_right fun _ => and_congr_left fun _ => ?_
    exact (and_iff_left_of_imp fun hid ha => absurd (hid.symm.trans ha) hactive).symm
  | active =>
    simp only [reduceCtorEq, false_implies, true_and, true_implies]
    constructor
    · intro hall hserves
      obtain ⟨p, hp⟩ := serves_associated hserves
      obtain ⟨a, hlook⟩ := (lookUpServant_servant_iff hread).2 ⟨hserves, hp⟩
      obtain ⟨id, hnamed, hid, hassoc, he⟩ := hall (.servant p) ⟨a, hlook⟩
      exact ⟨id, hnamed, ⟨hid.trans hstate.symm, fun _ => hassoc.trans hp.symm⟩, he⟩
    · rintro hset (p | _ | e) ⟨a, hlook⟩
      · obtain ⟨hserves, hp⟩ := (lookUpServant_servant_iff hread).1 ⟨a, hlook⟩
        obtain ⟨id, hnamed, halike, he⟩ := hset hserves
        have hid := halike.1.trans hstate
        exact ⟨id, hnamed, hid, (halike.2 hid).trans hp, he⟩
      · exact absurd hlook lookUpServant_ne_holdServant
      · trivial

theorem isSome_of_searchEnds {cs : List Text} {r : Found}
    (hends : SearchEnds answers h asked path cs r) : (h.poaAt path).isSome = true := by
  cases hself : h.poaAt path with
  | some node => rfl
  | none =>
    obtain ⟨node, hnode, -⟩ := hends
    have hmissing : (h.missing path cs).1 = path := by
      cases cs with
      | nil => rfl
      | cons c cs =>
        rw [Hierarchy.missing]
        cases hc : h.childOf path c with
        | none => rfl
        | some child =>
          have hsome := (Hierarchy.childOf_eq_some.1 hc).2
          rw [Hierarchy.poaAt_of_append hself] at hsome
          cases hsome
    rw [hmissing, hself] at hnode
    cases hnode

theorem namedFrom_iff {id : Nat} : NamedFrom h base key id ↔
    ∃ p : List AdapterName, p.map Subtype.val = components (keyCreator key) ∧
      (h.poaAt (base ++ p)).map PoaNode.id = some id := by
  rw [NamedFrom]
  constructor
  · intro hid
    obtain ⟨n, hn, -⟩ := Option.map_eq_some_iff.1 hid
    obtain ⟨p, hp, hat⟩ := Hierarchy.exists_path hn
    exact ⟨p, hp, by rw [hat, ← hn, hid]⟩
  · rintro ⟨p, hp, hid⟩
    obtain ⟨n, hn, -⟩ := Option.map_eq_some_iff.1 hid
    rw [← hp, Hierarchy.follow_path (by rw [hn]; rfl), hid]

theorem namedAfter_iff {h' : Hierarchy} {id : Nat}
    (hg : h.Grown (h.missing path (components (keyCreator key))).1
      (h.missing path (components (keyCreator key))).2 h') :
    NamedFrom h' base key id ↔ NamedAfter h path base key id := by
  rw [NamedAfter, namedFrom_iff, namedFrom_iff]
  simp only [hg.poas, and_or_left, exists_or, List.map_append]
  refine or_congr_right ?_
  constructor
  · rintro ⟨p, hp, j, hj, heq, hid⟩
    rw [hp] at heq
    exact ⟨j, hj, heq, hid⟩
  · rintro ⟨j, hj, heq, hid⟩
    have hvalid : ∀ c ∈ components (keyCreator key), ValidAdapterName c := by
      intro c hc
      have hmem := heq ▸ List.mem_append_right (base.map Subtype.val) hc
      rcases List.mem_append.1 hmem with hq | hleft
      · obtain ⟨n, -, rfl⟩ := List.mem_map.1 hq
        exact n.2
      · exact hg.valid c (List.mem_of_mem_take hleft)
    obtain ⟨p, hp⟩ : ∃ p : List AdapterName, p.map Subtype.val = components (keyCreator key) :=
      CanLift.prf _ hvalid
    exact ⟨p, hp, j, hj, by rw [hp, heq], hid⟩

theorem missing_spec (h : Hierarchy) (path : List AdapterName) (cs : List Text) :
    path.map Subtype.val ++ cs = (h.missing path cs).1.map Subtype.val ++ (h.missing path cs).2 ∧
      h.follow path cs =
        if (h.missing path cs).2 = [] then h.poaAt (h.missing path cs).1 else none := by
  induction cs generalizing path with
  | nil => exact ⟨rfl, rfl⟩
  | cons c cs ih =>
    rw [Hierarchy.missing]
    cases hc : h.childOf path c with
    | none => exact ⟨rfl, Hierarchy.follow_eq_none hc cs⟩
    | some child =>
      obtain ⟨rfl, -⟩ := Hierarchy.childOf_eq_some.1 hc
      refine ⟨?_, (Hierarchy.follow_cons hc cs).trans (ih _).2⟩
      rw [← (ih _).1, List.map_append, List.append_assoc]
      rfl

/-- The identity of the POA that a search ends at. -/
theorem Ends.id_eq {cs : List Text} {k next : Nat} {node : PoaNode}
    (hends : Ends answers cs k next node (some f, none)) :
    f = if cs = [] then node.id else next + (cs.length - 1) := by
  generalize hr : ((some f, none) : Found) = r at hends
  induction hends with
  | complete =>
    cases hr
    rfl
  | claimed _ _ _ _ _ _ ih => exact ih hr
  | @created c cs k next node activator r _ _ _ _ _ _ ih =>
    rw [ih hr]
    cases cs with
    | nil => rfl
    | cons d cs =>
      simp only [List.length_cons, reduceCtorEq, if_false]
      omega
  | _ => cases hr

/-- The POA that a search from `path` ends at is the one that is named from there. -/
theorem namedAfter_called {id : Nat}
    (hends : SearchEnds answers h asked path (components (keyCreator key)) (some f, none)) :
    NamedAfter h path path key id ↔ id = f := by
  obtain ⟨node, hnode, hends⟩ := hends
  obtain ⟨hpath, hfollow⟩ := missing_spec h path (components (keyCreator key))
  rw [NamedAfter, NamedFrom, hfollow, hpath, hends.id_eq]
  cases (h.missing path (components (keyCreator key))).2 with
  | nil => simp [hnode, eq_comm]
  | cons c cs =>
    simp only [List.append_right_inj, reduceCtorEq, if_false, Option.map_none, false_or]
    constructor
    · rintro ⟨j, hj, htake, rfl⟩
      have hlen := congrArg List.length htake
      rw [List.length_take] at hlen
      omega
    · rintro rfl
      exact ⟨cs.length, Nat.lt_succ_self _, (List.take_length (l := c :: cs)).symm, rfl⟩

/-- Whatever a search leaves, the servants returned are right exactly under the conditions on the POA
that it ends at. -/
theorem rightlyDispatched_iff_setsExecutor (hi : h.Indexed) (base : List AdapterName) :
    (∀ depth v' d, dispatch host answers incarnate executor depth ⟨⟨h, asked⟩, sites⟩ path key true =
        (v', .ok d) →
      RightlyDispatched host incarnate executor sites (NamedFrom v'.search.hierarchy base key) key
        d) ↔
      (ReadableKey key → ∀ f, SearchEnds answers h asked path (components (keyCreator key))
          (some f, none) →
        SetsExecutor host incarnate executor sites (NamedAfter h path base key) key
          (executorAt executor h path) f) := by
  have hnamed {depth : Nat} {s' : Search} {f : Nat} (hfind : Search.findPoa answers depth ⟨h, asked⟩
      path (keyCreator key) true none = (s', .ok (some f, none)))
      (hends : SearchEnds answers h asked path (components (keyCreator key)) (some f, none)) :
      NamedFrom s'.hierarchy base key = NamedAfter h path base key := by
    obtain ⟨node, hnode⟩ := Option.isSome_iff_exists.1 (isSome_of_searchEnds hends)
    obtain ⟨depth', t, hfind', hgrown⟩ := Search.findPoa_of_searchEnds
      (s := ⟨h, asked⟩) hi rfl hnode hends
    obtain rfl : s' = t := congrArg Prod.fst ((Search.findPoa_mono (le_max_left _ _) hfind).symm.trans
      (Search.findPoa_mono (le_max_right _ _) hfind'))
    exact funext fun id => propext (namedAfter_iff (hgrown f rfl))
  constructor
  · intro hall hread f hends
    obtain ⟨node, hnode⟩ := Option.isSome_iff_exists.1 (isSome_of_searchEnds hends)
    obtain ⟨depth, s', hfind, -⟩ := Search.findPoa_of_searchEnds
      (s := ⟨h, asked⟩) hi rfl hnode hends
    refine (setsExecutor_iff hread _ _).1 fun d hd => ?_
    by_cases hfail : ∃ e, d = .failure e
    · obtain ⟨e, rfl⟩ := hfail
      trivial
    rw [← hnamed hfind hends]
    exact hall depth ⟨s', _⟩ d
      ((dispatch_ok_iff hread (not_exists.1 hfail)).2 ⟨f, hfind, rfl, hd⟩)
  · intro hcond depth v' d hrun
    by_cases hfail : ∃ e, d = .failure e
    · obtain ⟨e, rfl⟩ := hfail
      trivial
    have hread : ReadableKey key := by
      by_contra hnot
      cases hcreator : getCreator key with
      | ok creator => exact hnot (getCreator_eq_ok.1 hcreator).1
      | error e =>
        rw [dispatch, hcreator] at hrun
        cases hrun
    obtain ⟨f, hfind, -, hd⟩ := (dispatch_ok_iff hread (not_exists.1 hfail)).1 hrun
    cases hself : h.poaAt path with
    | none =>
      cases depth with
      | zero => cases congrArg Prod.snd hfind
      | succ depth =>
        rw [Search.findPoa] at hfind
        dsimp only at hfind
        rw [hself] at hfind
        cases congrArg Prod.snd hfind
    | some node =>
      have hends := (Search.findPoa_iff_searchEnds (s := ⟨h, asked⟩) hi rfl hself).1
        ⟨depth, _, hfind⟩
      rw [hnamed hfind hends]
      exact (setsExecutor_iff hread _ _).2 (hcond hread f hends) d hd

end Dispatch

/-- The key of the object with index 1 of the POA `A`, a child of the root POA. -/
def childKey : ObjectId := uOidToOid .littleEndian ⟨[49], [65], true, nullTimeStamp⟩

end PolyORB