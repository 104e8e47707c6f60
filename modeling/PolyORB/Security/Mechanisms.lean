import PolyORB.Giop.Encapsulations

/-!
# Security mechanisms

The compound mechanisms that a target is configured with (PolyORB.QoS.Targets_Security), those of
the TAG_CSI_SEC_MECH_LIST component, and those that a client selects from
(PolyORB.QoS.Clients_Security).  Object identifiers are those of a library.  The options that the
accepting credentials of a transport support and require are given with it.
-/

namespace PolyORB

/-! ## Types -/

def establishTrustInClient : UInt16 := 64

def identityAssertionOption : UInt16 := 1024

def delegationByClient : UInt16 := 2048

def ittPrincipalName : UInt32 := 2

structure SocketName where
  hostName : List UInt8
  port : UInt16
  deriving DecidableEq

/-- The components for a transport mechanism; of one with another tag, the data is kept. -/
inductive TransportTag where
  | null
  | tls (targetSupports targetRequires : UInt16) (addresses : List SocketName)
  | unknown (tag : Nat) (data : List UInt8)
  deriving DecidableEq

/-- The BLOB of a name of the GSSUP mechanism is its scoped name. -/
structure ExportedName (O : Type) where
  mechanismOid : O
  nameBlob : List UInt8
  deriving DecidableEq

structure ServiceConfiguration where
  syntaxNumber : UInt32
  name : List UInt8
  deriving DecidableEq

/-! ## Targets -/

structure TargetTransport where
  targetSupports : UInt16
  targetRequires : UInt16
  addresses : List SocketName
  deriving DecidableEq

structure TargetAuthentication (O : Type) where
  mechanismOid : O
  targetName : ExportedName O
  deriving DecidableEq

/-- Of the trust evaluators, only whether there is one. -/
structure TargetMechanism (O : Type) where
  transport : Option TargetTransport
  authenticationMechanism : Option (TargetAuthentication O)
  authenticationRequired : Bool
  authorities : List ServiceConfiguration
  forwardTrustEvaluator : Bool
  backwardTrustEvaluator : Bool
  namingMechanisms : List O
  identityTypes : UInt32
  delegationRequired : Bool
  deriving DecidableEq

namespace TargetMechanism

variable {O : Type}

def transportTag (t : TargetMechanism O) : TransportTag :=
  match t.transport with
  | none => .null
  | some transport => .tls transport.targetSupports transport.targetRequires transport.addresses

def targetRequires (t : TargetMechanism O) : UInt16 :=
  (match t.transport with
    | some transport => transport.targetRequires
    | none => 0) |||
  (if t.authenticationMechanism.isSome = true ∧ t.authenticationRequired = true then
    establishTrustInClient else 0) |||
  (if t.authorities ≠ [] ∧ t.forwardTrustEvaluator = true ∧ t.delegationRequired = true then
    delegationByClient else 0)

end TargetMechanism

/-! ## The tagged component -/

structure CsiMechanism (O : Type) where
  targetRequires : UInt16
  transportMechanismTag : TransportTag
  authenticationTargetSupports : UInt16
  authenticationTargetRequires : UInt16
  authenticationMechanism : Option O
  authenticationTargetName : Option (ExportedName O)
  attributeTargetSupports : UInt16
  attributeTargetRequires : UInt16
  attributePrivilegeAuthorities : List ServiceConfiguration
  attributeNamingMechanisms : List O
  attributeIdentityTypes : UInt32
  deriving DecidableEq

structure CsiSecMechList (O : Type) where
  stateful : Bool
  mechanisms : List (CsiMechanism O)
  deriving DecidableEq

namespace CsiMechanism

variable {O : Type}

/-- A record as it is created: what has no default is set before it is read. -/
def new : CsiMechanism O where
  targetRequires := 0
  transportMechanismTag := .null
  authenticationTargetSupports := 0
  authenticationTargetRequires := 0
  authenticationMechanism := none
  authenticationTargetName := none
  attributeTargetSupports := 0
  attributeTargetRequires := 0
  attributePrivilegeAuthorities := []
  attributeNamingMechanisms := []
  attributeIdentityTypes := 0

/-- One round of the loop of `Fetch_Tagged_Component`.  The privilege authorities are appended to
those that are there, and the naming mechanisms are not reset. -/
def fetch (m : CsiMechanism O) (t : TargetMechanism O) : CsiMechanism O where
  targetRequires := t.targetRequires
  transportMechanismTag := t.transportTag
  authenticationTargetSupports :=
    if t.authenticationMechanism.isSome = true then establishTrustInClient else 0
  authenticationTargetRequires :=
    if t.authenticationMechanism.isSome = true ∧ t.authenticationRequired = true then
      establishTrustInClient else 0
  authenticationMechanism := t.authenticationMechanism.map TargetAuthentication.mechanismOid
  authenticationTargetName := t.authenticationMechanism.map TargetAuthentication.targetName
  attributeTargetSupports :=
    (if t.backwardTrustEvaluator = true ∨ t.forwardTrustEvaluator = true then
      identityAssertionOption else 0) |||
    (if t.authorities ≠ [] ∧ t.forwardTrustEvaluator = true then delegationByClient else 0)
  attributeTargetRequires :=
    if t.authorities ≠ [] ∧ t.forwardTrustEvaluator = true ∧ t.delegationRequired = true then
      delegationByClient else 0
  attributePrivilegeAuthorities := m.attributePrivilegeAuthorities ++ t.authorities
  attributeNamingMechanisms :=
    if t.backwardTrustEvaluator = true ∨ t.forwardTrustEvaluator = true then t.namingMechanisms
    else m.attributeNamingMechanisms
  attributeIdentityTypes :=
    if t.backwardTrustEvaluator = true ∨ t.forwardTrustEvaluator = true then t.identityTypes else 0

end CsiMechanism

/-- `M` is allocated once: all entries of the list are that one record, as the last round leaves
it. -/
def fetchTaggedComponent {O : Type} (stateful : Bool) (ts : List (TargetMechanism O)) :
    CsiSecMechList O where
  stateful := stateful
  mechanisms :=
    let m := ts.foldl CsiMechanism.fetch .new
    ts.map fun _ => m

/-! ## Clients -/

inductive ClientTransport where
  | unprotected
  | tls (targetSupports targetRequires : UInt16)
  deriving DecidableEq

structure CsiClient (O A P : Type) where
  createClientMechanism : Option O → ExportedName O → Except Exn (Option A)
  createClientAuthorityMechanism : UInt32 → List UInt8 → Option P

/-- `note` is the mechanism in the note that is attached. -/
structure ClientMechanism (O A P : Type) where
  stateful : Bool
  transport : Option ClientTransport
  authenticationMechanism : Option A
  authenticationRequired : Bool
  identityAssertion : Bool
  authorities : List P
  delegationSupported : Bool
  delegationRequired : Bool
  namingMechanisms : List O
  identityTypes : UInt32
  note : CsiMechanism O
  deriving DecidableEq

def isSetOption (flag flags : UInt16) : Bool := flag &&& flags == flag

def isSetIdentityType (flag flags : UInt32) : Bool := flag &&& flags == flag

namespace CsiClient

variable {O A P : Type}

/-- `TM_Constructor`, for the tags that are registered. -/
def createTransport : TransportTag → Option ClientTransport
  | .null => some .unprotected
  | .tls supports requires _ => some (.tls supports requires)
  | .unknown .. => none

/-- No name with the option is a failed check of an access value. -/
def clientAuthentication (client : CsiClient O A P) (m : CsiMechanism O) :
    Except Exn (Option A) :=
  if isSetOption establishTrustInClient m.authenticationTargetSupports = true then
    match m.authenticationTargetName with
    | none => .error .constraintError
    | some name => client.createClientMechanism m.authenticationMechanism name
  else .ok none

/-- One round of the loop of `Fetch_QoS`; `none` when the mechanism is not supported. -/
def clientMechanism (client : CsiClient O A P) (stateful : Bool) (m : CsiMechanism O) :
    Except Exn (Option (ClientMechanism O A P)) := do
  let transport := createTransport m.transportMechanismTag
  let authenticated := isSetOption establishTrustInClient m.authenticationTargetSupports
  let authentication ← client.clientAuthentication m
  let identityAssertion := isSetOption identityAssertionOption m.attributeTargetSupports
  let identityTypes := if identityAssertion = true then m.attributeIdentityTypes else 0
  let named := isSetIdentityType ittPrincipalName identityTypes
  let namingMechanisms := if named = true then m.attributeNamingMechanisms else []
  let created := m.attributePrivilegeAuthorities.map fun a =>
    client.createClientAuthorityMechanism a.syntaxNumber a.name
  let delegationSupported := isSetOption delegationByClient m.attributeTargetSupports &&
    m.attributePrivilegeAuthorities.length != 0
  let supported := transport.isSome && (!authenticated || authentication.isSome) &&
    (!named || namingMechanisms.length != 0) && created.all Option.isSome
  if supported = true then
    return some {
      stateful := stateful
      transport := transport
      authenticationMechanism := authentication
      authenticationRequired := authenticated &&
        isSetOption establishTrustInClient m.authenticationTargetRequires
      identityAssertion := identityAssertion
      authorities := created.filterMap id
      delegationSupported := delegationSupported
      delegationRequired := delegationSupported &&
        isSetOption delegationByClient m.attributeTargetRequires
      namingMechanisms := namingMechanisms
      identityTypes := identityTypes
      note := m }
  else return none

/-- `Fetch_QoS`: the mechanisms that the client supports, in order. -/
def fetchQos (client : CsiClient O A P) (c : CsiSecMechList O) :
    Except Exn (List (ClientMechanism O A P)) := do
  let mechanisms ← c.mechanisms.mapM (client.clientMechanism c.stateful)
  return mechanisms.filterMap id

end CsiClient

end PolyORB
