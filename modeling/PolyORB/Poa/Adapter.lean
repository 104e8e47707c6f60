import PolyORB.Poa.ObjectMaps
import PolyORB.Poa.RelativeUri

/-!
# The operations of a POA

PolyORB.POA with its policies: id assignment, id uniqueness, servant retention, request processing
and lifespan.  The policies work on the active object map under `Map_Lock`; an exception leaves the
lock taken.  An error is what an `Error_Container` holds when the operation returns.
-/

namespace PolyORB

inductive IdAssignment where
  | systemId
  | userId
  deriving DecidableEq

inductive IdUniqueness where
  | uniqueId
  | multipleId
  deriving DecidableEq

inductive ServantRetention where
  | retain
  | nonRetain
  deriving DecidableEq

inductive RequestProcessing where
  | activeObjectMapOnly
  | useDefaultServant
  | useServantManager
  deriving DecidableEq

inductive Lifespan where
  | transient
  | persistent
  deriving DecidableEq

inductive ManagerKind where
  | servantActivator
  | servantLocator
  | servantManager
  deriving DecidableEq

structure ServantManager where
  id : Nat
  kind : ManagerKind
  deriving DecidableEq

structure Adapter where
  absoluteAddress : Text
  bootTime : TimeStamp
  idAssignment : IdAssignment
  idUniqueness : IdUniqueness
  servantRetention : ServantRetention
  requestProcessing : RequestProcessing
  lifespan : Lifespan
  activeObjectMap : Option ObjectMap
  servantManager : Option ServantManager
  defaultServant : Option Servant
  mapLock : Bool
  deriving DecidableEq

/-- A POA with the SYSTEM_ID and RETAIN policies, as it is created. -/
def Adapter.systemRetained (absoluteAddress : Text) (bootTime : TimeStamp)
    (idUniqueness : IdUniqueness) (requestProcessing : RequestProcessing) (lifespan : Lifespan)
    (servantManager : Option ServantManager) (defaultServant : Option Servant) : Adapter where
  absoluteAddress := absoluteAddress
  bootTime := bootTime
  idAssignment := .systemId
  idUniqueness := idUniqueness
  servantRetention := .retain
  requestProcessing := requestProcessing
  lifespan := lifespan
  activeObjectMap := none
  servantManager := servantManager
  defaultServant := defaultServant
  mapLock := false

/-- The root of a persistent hierarchy. -/
def persistentRoot (idUniqueness : IdUniqueness) : Adapter :=
  .systemRetained [] nullTimeStamp idUniqueness .useServantManager .persistent none none

abbrev PoaM := EStateM Exn Adapter

/-- A value, or the error thrown. -/
abbrev PoaOutcome (α : Type) := Except ErrorId α

open Program

/-! ## Locks and maps -/

def enterMap : PoaM Unit := do
  raiseIf ((← get).mapLock = true) .blocked
  modify fun a => { a with mapLock := true }

def leaveMap : PoaM Unit := modify fun a => { a with mapLock := false }

def createObjectMap : IdAssignment → ObjectMap
  | .systemId => .system .initialMap
  | .userId => .user []

def createMapIfNull : PoaM Unit :=
  modify fun a => { a with
    activeObjectMap := some (a.activeObjectMap.getD (createObjectMap a.idAssignment)) }

def setMap (m : ObjectMap) : PoaM Unit := modify fun a => { a with activeObjectMap := some m }

/-! ## Lifespan -/

def Adapter.getLifespanCookie (a : Adapter) : TimeStamp :=
  match a.lifespan with
  | .transient => a.bootTime
  | .persistent => nullTimeStamp

def Adapter.ensureLifespan (a : Adapter) (uOid : UnmarshalledOid) : Option ErrorId :=
  match a.lifespan with
  | .transient => if uOid.persistencyFlag ≠ a.bootTime then some .objectNotExistE else none
  | .persistent => if uOid.persistencyFlag ≠ nullTimeStamp then some .objectNotExistE else none

/-! ## Id assignment -/

section Operations

variable (host : Endianness)

def Adapter.createId (a : Adapter) (name : Text) (systemGenerated : Bool) : UnmarshalledOid :=
  ⟨name, a.absoluteAddress, systemGenerated, a.getLifespanCookie⟩

/-- `Oid_To_Hex_String`, whose result is a `String (1 .. 2 * A'Length)`. -/
def oidToHexString (oid : ObjectId) : Except Exn Text :=
  if integerLast < 2 * oid.length then .error .constraintError else .ok (seaToHexString oid)

/-- The hint names the slot that is reserved. -/
def reserveSlot (m : SystemObjectMap) (hint : ObjectId) : PoaM (PoaOutcome UnmarshalledOid) := do
  let (uHint, error) ← evaluate (oidToUOid host none hint .fresh)
  if uHint.systemGenerated = false ∨ error.isSome = true then
    leaveMap
    return .error .badParamE
  else
    let index ← evaluate ((Literals.integerValue uHint.id).elim (.error .constraintError) .ok)
    let uOid := (← get).createId (Literals.decimal index.toNat) true
    let m ← evaluate (m.addAt ⟨uOid, none⟩ index)
    setMap (.system m)
    leaveMap
    return .ok uOid

def assignSystemId (hint : Option ObjectId) : PoaM (PoaOutcome UnmarshalledOid) := do
  enterMap
  createMapIfNull
  match (← get).activeObjectMap with
  | some (.system m) =>
    match hint with
    | some hint => reserveSlot host m hint
    | none =>
      let a ← get
      let (m, index) ← evaluate (m.add fun j => a.createId (Literals.decimal j) true)
      setMap (.system m)
      leaveMap
      return .ok (a.createId (Literals.decimal index) true)
  | _ =>
    leaveMap
    return .error .internalE

def assignUserId (hint : Option ObjectId) : PoaM (PoaOutcome UnmarshalledOid) := do
  match hint with
  | none => return .error .wrongPolicyE
  | some hint =>
    let name ← evaluate (oidToHexString hint)
    return .ok ((← get).createId name false)

def assignObjectIdentifier (hint : Option ObjectId) : PoaM (PoaOutcome UnmarshalledOid) := do
  match (← get).idAssignment with
  | .systemId => assignSystemId host hint
  | .userId => assignUserId hint

def reconstructObjectIdentifier (oid : ObjectId) : PoaM (PoaOutcome UnmarshalledOid) := do
  match (← get).idAssignment with
  | .systemId =>
    let (uOid, error) ← evaluate (oidToUOid host none oid .fresh)
    return error.elim (.ok uOid) .error
  | .userId =>
    let name ← evaluate (oidToHexString oid)
    return .ok ((← get).createId name false)

def Fault.exn : Fault → Exn
  | outside => .constraintError
  | raised e => e

def objectIdentifier (oid : Option ObjectId) (error : Option ErrorId) :
    PoaM (PoaOutcome ObjectId) := do
  -- a null identifier is dereferenced
  let oid ← evaluate (oid.elim (.error .constraintError) .ok)
  match (← get).idAssignment with
  | .systemId => return error.elim (.ok oid) .error
  | .userId =>
    let (uOid, error) ← evaluate (oidToUOid host error oid .fresh)
    match error with
    | some e => return .error e
    | none =>
      let result ← evaluate ((hexStringToSea uOid.id).mapError Fault.exn)
      return .ok result

/-! ## Uniqueness and retention -/

def ensureServantUniqueness (p : Servant) : PoaM (Option ErrorId) := do
  let a ← get
  match a.idUniqueness, a.activeObjectMap with
  | .uniqueId, some m =>
    enterMap
    leaveMap
    return if (m.getByServant p).isSome = true then some .servantAlreadyActiveE else none
  | _, _ => return none

/-- The map is of the kind that goes with the id. -/
def fitsId : ObjectMap → UnmarshalledOid → Bool
  | .system _, uOid => uOid.systemGenerated
  | .user _, uOid => !uOid.systemGenerated

/-- Store an entry that is not there, or complete one that is. -/
def storeEntry (p : Servant) (uOid : UnmarshalledOid) (m : ObjectMap) :
    Except Exn (PoaOutcome ObjectMap) := do
  match ← m.getById uOid with
  | none =>
    match m with
    | .system m =>
      let index ← (Literals.integerValue uOid.id).elim (.error .constraintError) .ok
      let m ← m.addAt ⟨uOid, some p⟩ index
      return .ok (.system m)
    | .user m => return .ok (.user (UserObjectMap.add m ⟨uOid, some p⟩))
  | some e =>
    if e.servant.isSome = true then return .error .objectAlreadyActiveE
    else
      match m with
      | .system m =>
        let j ← m.indexOf uOid
        return .ok (.system (m.setEntry j (some { e with servant := some p })))
      | .user m => return .ok (.user (UserObjectMap.setServant m uOid p))

def retainAssociation (p : Servant) (uOid : UnmarshalledOid) : PoaM (Option ErrorId) := do
  let error ← ensureServantUniqueness p
  if error.isSome = true then return error
  else
    enterMap
    createMapIfNull
    match (← get).activeObjectMap with
    | none => throw .assertionError
    | some m =>
      if fitsId m uOid = false then
        leaveMap
        return some .internalE
      else
        match ← evaluate (storeEntry p uOid m) with
        | .error e =>
          leaveMap
          return some e
        | .ok m =>
          setMap m
          leaveMap
          return none

def retainServantAssociation (p : Servant) (uOid : UnmarshalledOid) : PoaM (Option ErrorId) := do
  match (← get).servantRetention with
  | .retain => retainAssociation p uOid
  | .nonRetain => return none

def forgetServantAssociation (uOid : UnmarshalledOid) : PoaM (Option ErrorId) := do
  match (← get).servantRetention with
  | .nonRetain => return none
  | .retain =>
    enterMap
    -- a null map is dereferenced
    let m ← evaluate ((← get).activeObjectMap.elim (.error .constraintError) .ok)
    let (m, e) ← evaluate (m.removeById uOid)
    setMap m
    leaveMap
    return if e.isSome = true then none else some .objectNotActiveE

def retainedServantToId (p : Servant) : PoaM (Option ObjectId) := do
  let a ← get
  match a.servantRetention, a.activeObjectMap with
  | .retain, some m =>
    enterMap
    leaveMap
    return (m.getByServant p).map fun e => uOidToOid host e.oid
  | _, _ => return none

def retainedIdToServant (uOid : UnmarshalledOid) : PoaM (PoaOutcome (Option Servant)) := do
  let a ← get
  match a.servantRetention with
  | .nonRetain => return .ok none
  | .retain =>
    match a.ensureLifespan uOid with
    | some e => return .error e
    | none =>
      match a.activeObjectMap with
      | none => return .ok none
      | some m =>
        enterMap
        let e ← evaluate (m.getById uOid)
        leaveMap
        return .ok (e.bind MapEntry.servant)

def ServantRetention.ensureServantManagerType (policy : ServantRetention)
    (manager : ServantManager) : Option ErrorId :=
  match policy with
  | .retain => if manager.kind ≠ .servantActivator then some .objAdapterE else none
  | .nonRetain => if manager.kind ≠ .servantLocator then some .objAdapterE else none

/-! ## Request processing -/

def processingIdToServant (uOid : UnmarshalledOid) : PoaM (PoaOutcome (Option Servant)) := do
  match ← retainedIdToServant uOid with
  | .error e => return .error e
  | .ok servant =>
    let a ← get
    match a.requestProcessing, servant with
    | .activeObjectMapOnly, none => return .error .objectNotActiveE
    | .useDefaultServant, none =>
      return a.defaultServant.elim (.error .noServantE) fun p => .ok (some p)
    | _, servant => return .ok servant

def RequestProcessing.ensureServantManager : RequestProcessing → Option ErrorId
  | useServantManager => none
  | activeObjectMapOnly | useDefaultServant => some .wrongPolicyE

/-! ## The POA -/

def activateObject (p : Servant) (hint : Option ObjectId) : PoaM (PoaOutcome UnmarshalledOid) := do
  match ← assignObjectIdentifier host hint with
  | .error e => return .error e
  | .ok uOid =>
    match ← retainServantAssociation p uOid with
    | some e => return .error e
    | none => return .ok uOid

def idToServant (oid : ObjectId) : PoaM (PoaOutcome (Option Servant)) := do
  let (uOid, error) ← evaluate (oidToUOid host none oid .fresh)
  match error with
  | some e => return .error e
  | none =>
    match (← get).ensureLifespan uOid with
    | some e => return .error e
    | none => processingIdToServant uOid

/-- The servant manager is asked to etherealize, if it is an activator: the error found first. -/
def etherealize (uOid : UnmarshalledOid) : PoaM (Option ErrorId) := do
  match (← get).servantManager with
  | some ⟨_, .servantActivator⟩ =>
    match ← idToServant host (uOidToOid host uOid) with
    | .error e => return some e
    | .ok _ => return none
  | _ => return none

def deactivateObject (oid : ObjectId) : PoaM (Option ErrorId) := do
  match ← reconstructObjectIdentifier host oid with
  | .error e => return some e
  | .ok uOid =>
    match ← etherealize host uOid with
    | some e => return some e
    | none => forgetServantAssociation uOid

def activateAgain (p : Servant) (oid : Option ObjectId) : PoaM (PoaOutcome (Option ObjectId)) := do
  match (← get).idUniqueness, oid with
  | .uniqueId, some oid => return .ok (some oid)
  | _, _ =>
    match ← activateObject host p oid with
    | .error e => return .error e
    | .ok uOid => return .ok (some (uOidToOid host uOid))

/-- An identifier that is null is an error, and is handed on all the same. -/
def servantToId (p : Servant) : PoaM (PoaOutcome ObjectId) := do
  let tempOid ← retainedServantToId host p
  match ← activateAgain host p tempOid with
  | .error e => return .error e
  | .ok oid =>
    objectIdentifier host oid (if oid.isNone = true then some .servantNotActiveE else none)

def setServantManager (manager : ServantManager) : PoaM (Option ErrorId) := do
  let a ← get
  match a.requestProcessing.ensureServantManager with
  | some e => return some e
  | none =>
    set { a with servantManager := some manager }
    return a.servantRetention.ensureServantManagerType manager

end Operations

end PolyORB
