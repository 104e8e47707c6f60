import PolyORB.Poa.BasicManager
import PolyORB.Poa.Effects
import PolyORB.Poa.Keys
import PolyORB.Poa.SearchResults

/-!
# Find_Servant

A key crosses `Get_Creator`, `Find_POA`, the POA manager, the policies of the POA and its servant
activator.  Each relies on what the ones before it have checked; what none has checked is an
exception.
-/

namespace PolyORB

open Character Literals Program

inductive Reached where
  | servant (p : Servant)
  | holdServant
  | failure (error : ErrorId)
  deriving DecidableEq

/-- A POA and its manager.  Its `POA_Lock`, which an exception in `Find_Servant` leaves taken, is not
in the state. -/
structure PoaSite where
  adapter : Adapter
  manager : BasicPoaManager

/-- The hierarchy, and each POA of it by its identity. -/
structure PoaSystem where
  search : Search
  sites : Nat → PoaSite

section Code

variable (host : Endianness) (answers : Nat → Answer)
  (incarnate : Nat → ObjectId → Option Servant × Option ErrorId)

/-- A servant activator is asked for the servant that is not there. -/
def incarnateServant (key : ObjectId) : PoaM (PoaOutcome (Option Servant)) := do
  match (← get).servantManager with
  | some ⟨manager, .servantActivator⟩ =>
    match ← objectIdentifier host (some key) none with
    | .error e => return .error e
    | .ok oid =>
      match incarnate manager oid with
      | (servant, none) => return .ok servant
      | (_, some e) => if e = .forwardRequestE then return .error e else throw .assertionError
  | _ => return .ok none

/-- `Find_Servant` on the POA that was found, once the state of its manager is checked. -/
def lookUpServant (key : ObjectId) : PoaM Reached := do
  match ← idToServant host key with
  | .error e => return .failure e
  | .ok (some p) => return .servant p
  | .ok none =>
    match ← incarnateServant host incarnate key with
    | .error e => return .failure e
    | .ok servant => return servant.elim (.failure .objectNotExistE) .servant

def PoaSite.findServant (site : PoaSite) (key : ObjectId) (doCheck : Bool) :
    PoaSite × Except Exn Reached :=
  match if doCheck = true then site.manager.findServant else .ofAdapter with
  | .failure e => (site, .ok (.failure e))
  | .holdServant => ({ site with manager := site.manager.getHoldServant }, .ok .holdServant)
  | .ofAdapter =>
    match lookUpServant host incarnate key site.adapter with
    | .ok r a => ({ site with adapter := a }, .ok r)
    | .error e a => ({ site with adapter := a }, .error e)

def findServant (depth : Nat) (v : PoaSystem) (path : List AdapterName) (key : ObjectId)
    (doCheck : Bool) : PoaSystem × Except Exn Reached :=
  match getCreator key with
  | .error e => (v, .error e)
  | .ok creator =>
    match v.search.findPoa answers depth path creator true none with
    | (s, .error e) => ({ v with search := s }, .error e)
    | (s, .ok (_, some e)) => ({ v with search := s }, .ok (.failure e))
    | (s, .ok (none, none)) => ({ v with search := s }, .ok (.failure .objectNotExistE))
    | (s, .ok (some id, none)) =>
      let (site, r) := (v.sites id).findServant host incarnate key doCheck
      ({ search := s, sites := Function.update v.sites id site }, r)

end Code

/-! ## Keys that are answered -/

def keyErrors : List ErrorId :=
  [.objectNotExistE, .invalidObjectIdE, .adapterNonExistentE, .transientE, .forwardRequestE]

/-- A servant, or one of the errors that answer a key. -/
def KeyAnswered : Except Exn Reached → Prop
  | .ok (.failure e) => e ∈ keyErrors
  | .ok _ => True
  | .error _ => False

section Conditions

variable (host : Endianness) (incarnate : Nat → ObjectId → Option Servant × Option ErrorId)

/-- The object map that is asked for an id is not locked, and a system map has an index of it. -/
def MapReadable (a : Adapter) (uOid : UnmarshalledOid) : Prop :=
  a.servantRetention = .retain → ∀ m, a.activeObjectMap = some m → a.mapLock = false ∧
    match m with
    | .system m => uOid.systemGenerated = true ∧
        ∃ j : Nat, integerValue uOid.id = some (j : Int) ∧ 0 < j ∧ j ≤ m.table.length
    | .user _ => True

/-- The servant that the object map has for an id. -/
def Adapter.stored (a : Adapter) (uOid : UnmarshalledOid) : Option Servant :=
  match a.servantRetention, a.activeObjectMap with
  | .retain, some (.system m) =>
    ((integerValue uOid.id).bind fun i => m.entryAt i.toNat).bind MapEntry.servant
  | .retain, some (.user m) => (UserObjectMap.getById m uOid).bind MapEntry.servant
  | _, _ => none

/-- The id that the servant activator is given: that of the user, in hexadecimal, or the key. -/
def Adapter.incarnatedOid (a : Adapter) (key : ObjectId) : Option ObjectId :=
  match a.idAssignment with
  | .systemId => some key
  | .userId => (hexStringToSea (keyOid host key).id).toOption

/-- Without a servant in the object map, the POA has a default servant, or the servant activator
gets its id and reports no error but a `ForwardRequest_E`. -/
def Substitutes (a : Adapter) (key : ObjectId) : Prop :=
  match a.requestProcessing with
  | .activeObjectMapOnly => False
  | .useDefaultServant => a.defaultServant ≠ none
  | .useServantManager => ∀ manager, a.servantManager = some ⟨manager, .servantActivator⟩ →
      ∃ oid, a.incarnatedOid host key = some oid ∧
        ((incarnate manager oid).2 = none ∨ (incarnate manager oid).2 = some .forwardRequestE)

/-- What follows the creator is refused; or it is complete and of another lifespan, or the object
map can be asked for it and has a servant, or else something that takes its place. -/
def AdapterAnswers (a : Adapter) (key : ObjectId) : Prop :=
  RefusedBody (keyBody key) ∨ CompleteBody (keyBody key) ∧
    ((keyOid host key).persistencyFlag ≠ a.getLifespanCookie ∨
      MapReadable a (keyOid host key) ∧
        (a.stored (keyOid host key) = none → Substitutes host incarnate a key))

/-- The manager is not active, or the POA answers. -/
def SiteAnswers (site : PoaSite) (key : ObjectId) (doCheck : Bool) : Prop :=
  (doCheck = true ∧ site.manager.currentState ≠ .active) ∨
    AdapterAnswers host incarnate site.adapter key

end Conditions

/-- The search for the creator ends, with an error that answers a key or at a POA that answers. -/
def FoundAnswers (host : Endianness) (incarnate : Nat → ObjectId → Option Servant × Option ErrorId)
    (sites : Nat → PoaSite) (key : ObjectId) (doCheck : Bool) : Found → Prop
  | (_, some e) => e ∈ keyErrors
  | (some id, none) => SiteAnswers host incarnate (sites id) key doCheck
  | (none, none) => True

/-! ## The object map -/

section Adapter

variable {host : Endianness} {incarnate : Nat → ObjectId → Option Servant × Option ErrorId}
  {a : Adapter} {key : ObjectId} {uOid : UnmarshalledOid}

theorem ensureLifespan_eq (a : Adapter) (uOid : UnmarshalledOid) :
    a.ensureLifespan uOid =
      if uOid.persistencyFlag ≠ a.getLifespanCookie then some .objectNotExistE else none := by
  rw [Adapter.ensureLifespan, Adapter.getLifespanCookie]
  cases a.lifespan <;> rfl

theorem getById_system {m : SystemObjectMap} {j : Nat} (hsys : uOid.systemGenerated = true)
    (hid : integerValue uOid.id = some (j : Int)) (h0 : 0 < j) (hj : j ≤ m.table.length) :
    m.getById uOid = .ok (m.entryAt j) := by
  have hindex : m.indexOf uOid = .ok j := by
    rw [SystemObjectMap.indexOf, hid]
    exact SystemObjectMap.checkIndex_eq_ok.2 ⟨h0, hj, rfl⟩
  rw [SystemObjectMap.getById, if_neg (by simp [hsys]), hindex]
  rfl

theorem getById_error {m : SystemObjectMap} (h : ¬(uOid.systemGenerated = true ∧
      ∃ j : Nat, integerValue uOid.id = some (j : Int) ∧ 0 < j ∧ j ≤ m.table.length)) :
    ∃ e, m.getById uOid = .error e := by
  rw [SystemObjectMap.getById]
  by_cases hsys : uOid.systemGenerated = false
  · exact ⟨_, if_pos hsys⟩
  rw [if_neg hsys]
  cases hindex : m.indexOf uOid with
  | error e => exact ⟨e, rfl⟩
  | ok j =>
    exfalso
    rw [SystemObjectMap.indexOf] at hindex
    cases hid : integerValue uOid.id with
    | none =>
      rw [hid] at hindex
      cases hindex
    | some i =>
      rw [hid] at hindex
      obtain ⟨h0, hj, rfl⟩ := SystemObjectMap.checkIndex_eq_ok.1 hindex
      exact h ⟨by simpa using hsys, j, hid, h0, hj⟩

theorem retainedIdToServant_reads (hlife : uOid.persistencyFlag = a.getLifespanCookie)
    (h : MapReadable a uOid) : retainedIdToServant uOid a = .ok (.ok (a.stored uOid)) a := by
  rw [retainedIdToServant, bind_get, Adapter.stored]
  cases hr : a.servantRetention with
  | nonRetain => rfl
  | retain =>
    rw [ensureLifespan_eq, if_neg (not_not.2 hlife)]
    cases hm : a.activeObjectMap with
    | none => rfl
    | some m =>
      obtain ⟨hl, hread⟩ := h hr m hm
      have hleave : ({ a with mapLock := false } : Adapter) = a := by rw [← hl]
      dsimp only
      rw [bind_ok (enterMap_apply hl)]
      cases m with
      | system m =>
        obtain ⟨hsys, j, hid, h0, hj⟩ := hread
        have hget : (ObjectMap.system m).getById uOid = .ok (m.entryAt j) :=
          getById_system hsys hid h0 hj
        rw [bind_evaluate hget]
        change EStateM.Result.ok _ ({ a with mapLock := false } : Adapter) = _
        rw [hleave, hid]
        rfl
      | user m =>
        change EStateM.Result.ok _ ({ a with mapLock := false } : Adapter) = _
        rw [hleave]

theorem retainedIdToServant_raises (hlife : uOid.persistencyFlag = a.getLifespanCookie)
    (h : ¬MapReadable a uOid) : ∃ e a', retainedIdToServant uOid a = .error e a' := by
  rw [MapReadable] at h
  push Not at h
  obtain ⟨hr, m, hm, hread⟩ := h
  rw [retainedIdToServant, bind_get, hr]
  rw [ensureLifespan_eq, if_neg (not_not.2 hlife), hm]
  dsimp only
  by_cases hl : a.mapLock = true
  · exact ⟨_, _, bind_error (enterMap_locked hl)⟩
  · rw [Bool.not_eq_true] at hl
    rw [bind_ok (enterMap_apply hl)]
    cases m with
    | system m =>
      obtain ⟨e, he⟩ := getById_error (m := m) (hread hl)
      exact ⟨e, _, bind_error (by rw [ObjectMap.getById, he]; rfl)⟩
    | user m => exact absurd trivial (hread hl)

theorem processingIdToServant_reads (hlife : uOid.persistencyFlag = a.getLifespanCookie)
    (h : MapReadable a uOid) :
    processingIdToServant uOid a = .ok
      (match a.stored uOid, a.requestProcessing with
        | some p, _ => .ok (some p)
        | none, .activeObjectMapOnly => .error .objectNotActiveE
        | none, .useDefaultServant => a.defaultServant.elim (.error .noServantE) fun p => .ok (some p)
        | none, .useServantManager => .ok none) a := by
  rw [processingIdToServant, bind_ok (retainedIdToServant_reads hlife h)]
  dsimp only
  rw [bind_get]
  cases a.stored uOid <;> cases a.requestProcessing <;> rfl

theorem processingIdToServant_raises (hlife : uOid.persistencyFlag = a.getLifespanCookie)
    (h : ¬MapReadable a uOid) : ∃ e a', processingIdToServant uOid a = .error e a' := by
  obtain ⟨e, a', hraise⟩ := retainedIdToServant_raises hlife h
  exact ⟨e, a', bind_error hraise⟩

theorem idToServant_read (hread : oidToUOid host none key .fresh = .ok (keyOid host key, none)) :
    idToServant host key a =
      if (keyOid host key).persistencyFlag ≠ a.getLifespanCookie then
        .ok (.error .objectNotExistE) a
      else processingIdToServant (keyOid host key) a := by
  rw [idToServant, bind_evaluate hread]
  dsimp only
  rw [bind_get, ensureLifespan_eq]
  split_ifs <;> rfl

/-! ## The servant activator -/

theorem objectIdentifier_ok (hread : oidToUOid host none key .fresh = .ok (keyOid host key, none))
    {oid : ObjectId} (hoid : a.incarnatedOid host key = some oid) :
    objectIdentifier host (some key) none a = .ok (.ok oid) a := by
  rw [Adapter.incarnatedOid] at hoid
  refine (bind_ok (evaluate_ok key a)).trans ?_
  rw [bind_get]
  cases ha : a.idAssignment with
  | systemId =>
    rw [ha] at hoid
    cases hoid
    rfl
  | userId =>
    rw [ha] at hoid
    dsimp only at hoid ⊢
    rw [bind_evaluate hread]
    cases hhex : hexStringToSea (keyOid host key).id with
    | ok oid' =>
      rw [hhex] at hoid
      cases hoid
      rfl
    | error e =>
      rw [hhex] at hoid
      cases hoid

theorem objectIdentifier_raises
    (hread : oidToUOid host none key .fresh = .ok (keyOid host key, none))
    (hoid : a.incarnatedOid host key = none) :
    ∃ e, objectIdentifier host (some key) none a = .error e a := by
  rw [Adapter.incarnatedOid] at hoid
  cases ha : a.idAssignment with
  | systemId =>
    rw [ha] at hoid
    cases hoid
  | userId =>
    rw [ha] at hoid
    cases hhex : hexStringToSea (keyOid host key).id with
    | ok oid' =>
      rw [hhex] at hoid
      cases hoid
    | error e =>
      refine ⟨e.exn, ?_⟩
      refine (bind_ok (evaluate_ok key a)).trans ?_
      rw [bind_get, ha]
      dsimp only
      rw [bind_evaluate hread, hhex]
      rfl

theorem quiet_incarnateServant (host : Endianness)
    (incarnate : Nat → ObjectId → Option Servant × Option ErrorId) (key : ObjectId) :
    Quiet (incarnateServant host incarnate key) := by
  refine quiet_bind quiet_get fun a => ?_
  rcases a.servantManager with _ | ⟨manager, _ | _ | _⟩
  · exact quiet_pure _
  · refine quiet_bind (quiet_objectIdentifier _ _) fun r => ?_
    cases r with
    | error e => exact quiet_pure _
    | ok oid =>
      dsimp only
      rcases incarnate manager oid with ⟨servant, _ | e⟩
      · exact quiet_pure _
      · dsimp only
        split_ifs
        · exact quiet_pure _
        · exact quiet_throw _
  · exact quiet_pure _
  · exact quiet_pure _

theorem incarnateServant_iff
    (hread : oidToUOid host none key .fresh = .ok (keyOid host key, none)) :
    (∃ r, incarnateServant host incarnate key a = .ok r a ∧ ∀ e, r = .error e → e ∈ keyErrors) ↔
      ∀ manager, a.servantManager = some ⟨manager, .servantActivator⟩ →
        ∃ oid, a.incarnatedOid host key = some oid ∧
          ((incarnate manager oid).2 = none ∨
            (incarnate manager oid).2 = some .forwardRequestE) := by
  rw [incarnateServant, bind_get]
  rcases hm : a.servantManager with _ | ⟨manager, kind⟩
  · exact iff_of_true ⟨_, rfl, by rintro _ ⟨⟩⟩ (by rintro _ ⟨⟩)
  cases kind with
  | servantLocator | servantManager =>
    exact iff_of_true ⟨_, rfl, by rintro _ ⟨⟩⟩ (by rintro _ ⟨⟩)
  | servantActivator =>
    dsimp only
    cases hoid : a.incarnatedOid host key with
    | none =>
      obtain ⟨e, he⟩ := objectIdentifier_raises hread hoid
      refine iff_of_false ?_ fun hsub => ?_
      · rw [bind_error he]
        rintro ⟨r, ⟨⟩, -⟩
      · obtain ⟨oid, hsome, -⟩ := hsub manager rfl
        cases hsome
    | some oid =>
      rw [bind_ok (objectIdentifier_ok hread hoid)]
      dsimp only
      rcases hinc : incarnate manager oid with ⟨servant, error⟩
      have hsub : (∀ m, some (ServantManager.mk manager .servantActivator) =
          some ⟨m, .servantActivator⟩ → ∃ oid', some oid = some oid' ∧
            ((incarnate m oid').2 = none ∨ (incarnate m oid').2 = some .forwardRequestE)) ↔
          error = none ∨ error = some .forwardRequestE := by
        constructor
        · intro hall
          obtain ⟨_, ⟨⟩, hor⟩ := hall manager rfl
          rwa [hinc] at hor
        · rintro hor _ ⟨⟩
          exact ⟨oid, rfl, by rwa [hinc]⟩
      rw [hsub]
      cases error with
      | none => exact iff_of_true ⟨_, rfl, by rintro _ ⟨⟩⟩ (.inl rfl)
      | some e =>
        dsimp only
        by_cases he : e = .forwardRequestE
        · subst he
          refine iff_of_true ⟨_, rfl, ?_⟩ (.inr rfl)
          rintro _ ⟨⟩
          simp [keyErrors]
        · rw [if_neg he]
          refine iff_of_false ?_ ?_
          · rintro ⟨r, ⟨⟩, -⟩
          · simpa using he

/-! ## The POA -/

/-- The result of a program on the POA. -/
def resultOf {α : Type} : EStateM.Result Exn Adapter α → Except Exn α
  | .ok r _ => .ok r
  | .error e _ => .error e

theorem lookUpServant_raises {e : Exn} {a' : Adapter} (h : idToServant host key a = .error e a') :
    ¬KeyAnswered (resultOf (lookUpServant host incarnate key a)) := by
  rw [lookUpServant, bind_error h]
  exact fun hk => hk

theorem lookUpServant_fails {e : ErrorId} (h : idToServant host key a = .ok (.error e) a) :
    KeyAnswered (resultOf (lookUpServant host incarnate key a)) ↔ e ∈ keyErrors := by
  rw [lookUpServant, bind_ok h]
  exact Iff.rfl

theorem lookUpServant_incarnates (h : idToServant host key a = .ok (.ok none) a)
    (hread : oidToUOid host none key .fresh = .ok (keyOid host key, none)) :
    KeyAnswered (resultOf (lookUpServant host incarnate key a)) ↔
      ∀ manager, a.servantManager = some ⟨manager, .servantActivator⟩ →
        ∃ oid, a.incarnatedOid host key = some oid ∧
          ((incarnate manager oid).2 = none ∨
            (incarnate manager oid).2 = some .forwardRequestE) := by
  rw [← incarnateServant_iff hread, lookUpServant, bind_ok h]
  dsimp only
  rw [bind_apply]
  cases hinc : incarnateServant host incarnate key a with
  | error e a' =>
    refine iff_of_false (fun hk => hk) ?_
    rintro ⟨r, ⟨⟩, -⟩
  | ok r a' =>
    have hstay : a' = a := by
      have := quiet_incarnateServant host incarnate key a
      rwa [hinc] at this
    subst hstay
    cases r with
    | error e =>
      constructor
      · exact fun hk => ⟨_, rfl, by rintro _ ⟨⟩; exact hk⟩
      · rintro ⟨r, heq, hall⟩
        cases heq
        exact hall e rfl
    | ok servant =>
      refine iff_of_true ?_ ⟨_, rfl, by rintro _ ⟨⟩⟩
      cases servant with
      | none => simp [KeyAnswered, resultOf, keyErrors]
      | some p => trivial

/-- The POA answers a key that `Get_Creator` reads exactly under the conditions on its parts. -/
theorem lookUpServant_answered_iff (h : ReadableKey key) :
    KeyAnswered (resultOf (lookUpServant host incarnate key a)) ↔
      AdapterAnswers host incarnate a key := by
  have hreads := oidToUOid_readsKey host h
  rw [AdapterAnswers]
  generalize hx : oidToUOid host none key .fresh = x at hreads
  cases hreads with
  | @refused u hbad =>
    have hid : idToServant host key a = .ok (.error .invalidObjectIdE) a := by
      rw [idToServant, bind_evaluate hx]
      rfl
    rw [lookUpServant_fails hid]
    exact iff_of_true (by simp [keyErrors]) (.inl hbad)
  | @raised e hok hcut =>
    have hid : idToServant host key a = .error e a := by
      rw [idToServant, hx]
      exact bind_error (evaluate_error e a)
    refine iff_of_false (lookUpServant_raises hid) ?_
    rintro (hbad | ⟨hwhole, -⟩)
    · exact hok hbad
    · exact hcut hwhole
  | complete hok hwhole =>
    rw [or_iff_right hok, and_iff_right hwhole]
    have hid := idToServant_read (a := a) hx
    by_cases hlife : (keyOid host key).persistencyFlag ≠ a.getLifespanCookie
    · rw [if_pos hlife] at hid
      rw [lookUpServant_fails hid]
      exact iff_of_true (by simp [keyErrors]) (.inl hlife)
    rw [if_neg hlife] at hid
    rw [or_iff_right hlife]
    have hlife' := not_not.1 hlife
    by_cases hmap : MapReadable a (keyOid host key)
    · rw [and_iff_right hmap]
      rw [processingIdToServant_reads hlife' hmap] at hid
      cases hstored : a.stored (keyOid host key) with
      | some p =>
        rw [hstored] at hid
        rw [lookUpServant, bind_ok hid]
        exact iff_of_true trivial (by rintro ⟨⟩)
      | none =>
        rw [hstored] at hid
        rw [imp_iff_right rfl, Substitutes]
        cases hp : a.requestProcessing with
        | activeObjectMapOnly =>
          rw [hp] at hid
          rw [lookUpServant_fails hid]
          simp [keyErrors]
        | useDefaultServant =>
          rw [hp] at hid
          cases hd : a.defaultServant with
          | none =>
            rw [hd] at hid
            rw [lookUpServant_fails hid]
            simp [keyErrors]
          | some p =>
            rw [hd] at hid
            rw [lookUpServant, bind_ok hid]
            exact iff_of_true trivial (by simp)
        | useServantManager =>
          rw [hp] at hid
          exact lookUpServant_incarnates hid hx
    · obtain ⟨e, a', hraise⟩ := processingIdToServant_raises hlife' hmap
      rw [hraise] at hid
      exact iff_of_false (lookUpServant_raises hid) fun hh => hmap hh.1

theorem findServant_answered_iff_site (h : ReadableKey key) (site : PoaSite) (doCheck : Bool) :
    KeyAnswered (site.findServant host incarnate key doCheck).2 ↔
      SiteAnswers host incarnate site key doCheck := by
  have hlook : KeyAnswered (match lookUpServant host incarnate key site.adapter with
      | .ok r a => (({ site with adapter := a } : PoaSite), (.ok r : Except Exn Reached))
      | .error e a => ({ site with adapter := a }, .error e)).2 ↔
      AdapterAnswers host incarnate site.adapter key := by
    rw [← lookUpServant_answered_iff h]
    cases lookUpServant host incarnate key site.adapter <;> exact Iff.rfl
  rw [PoaSite.findServant, SiteAnswers]
  cases doCheck with
  | false =>
    rw [if_neg (by simp), or_iff_right (by simp)]
    exact hlook
  | true =>
    rw [if_pos rfl, BasicPoaManager.findServant]
    cases site.manager.currentState with
    | holding => exact iff_of_true trivial (.inl ⟨rfl, by simp⟩)
    | discarding | inactive =>
      exact iff_of_true (by simp [KeyAnswered, keyErrors]) (.inl ⟨rfl, by simp⟩)
    | active =>
      rw [or_iff_right (by simp)]
      exact hlook

theorem findServant_found {answers : Nat → Answer} {depth : Nat} {v : PoaSystem}
    {path : List AdapterName} {doCheck : Bool} {s' : Search} {r : Found} (h : ReadableKey key)
    (hfind : v.search.findPoa answers depth path (keyCreator key) true none = (s', .ok r)) :
    KeyAnswered (findServant host answers incarnate depth v path key doCheck).2 ↔
      FoundAnswers host incarnate v.sites key doCheck r := by
  rw [findServant, getCreator_eq_ok.2 ⟨h, rfl⟩]
  dsimp only
  rw [hfind]
  rcases r with ⟨_ | id, _ | e⟩
  · exact iff_of_true (by simp [KeyAnswered, keyErrors]) trivial
  · exact Iff.rfl
  · exact findServant_answered_iff_site h (v.sites id) doCheck
  · exact Iff.rfl

end Adapter

/-- The persistent root POA with SYSTEM_ID, RETAIN and one object, whose index is 1. -/
def oneObjectRoot : Adapter :=
  { persistentRoot .multipleId with
    activeObjectMap := some (.system (SystemObjectMap.initialMap.setEntry 1
      (some ⟨⟨[49], [], true, nullTimeStamp⟩, some 5⟩))) }

/-- The key of an id, with the letter of `System_Generated`. -/
def rootKey (id : Text) (systemGenerated : Bool) : ObjectId :=
  uOidToOid .littleEndian ⟨id, [], systemGenerated, nullTimeStamp⟩

def rootSite (_ : Nat) : PoaSite := ⟨oneObjectRoot, ⟨.active, false, []⟩⟩

end PolyORB
