import PolyORB.Security.Mechanisms

/-!
# The TAG_CSI_SEC_MECH_LIST component

How exported names are encoded, and how the component is marshalled and unmarshalled.  The modules
of the transport mechanisms without tag and with the tag of TLS are registered.
-/

namespace PolyORB

open Buffer
open Program (raiseIf)

/-! ## Exported names -/

/-- What the ASN.1 library does with object identifiers, and the mechanisms whose names are those of
GSSUP. -/
structure SecurityNames (O : Type) where
  encode : O → List UInt8
  decode : List UInt8 → Option O
  registry : List O

namespace SecurityNames

variable {O : Type} (env : SecurityNames O)

/-- `Is_Equivalent` to a mechanism of the registry. -/
def registered (o : O) : Bool := env.registry.any fun r => env.encode r == env.encode o

def encodeName (n : ExportedName O) : List UInt8 :=
  let oid := env.encode n.mechanismOid
  [4, 1] ++ [UInt8.ofNat (oid.length / 2 ^ 8), UInt8.ofNat oid.length] ++ oid ++
    [UInt8.ofNat (n.nameBlob.length / 2 ^ 24), UInt8.ofNat (n.nameBlob.length / 2 ^ 16),
      UInt8.ofNat (n.nameBlob.length / 2 ^ 8), UInt8.ofNat n.nameBlob.length] ++ n.nameBlob

/-- The octet at some offset, with the check of the index. -/
def octetAt (item : List UInt8) (i : Nat) : Except Exn Nat :=
  match item[i]? with
  | some o => .ok o.toNat
  | none => .error .constraintError

/-- `none` when an error is thrown. -/
def decodeName (item : List UInt8) : Except Exn (Option (ExportedName O)) := do
  if item.length < 8 then return none
  if (← octetAt item 0) ≠ 4 ∨ (← octetAt item 1) ≠ 1 then return none
  let oidLength := (← octetAt item 2) * 2 ^ 8 + (← octetAt item 3)
  if item.length < 2 + 2 + oidLength + 4 - 1 then return none
  let blobLength := (← octetAt item (oidLength + 4)) * 2 ^ 24 +
    (← octetAt item (oidLength + 5)) * 2 ^ 16 + (← octetAt item (oidLength + 6)) * 2 ^ 8 +
    (← octetAt item (oidLength + 7))
  if 2 + 2 + oidLength + 4 + blobLength ≠ item.length then return none
  match env.decode ((item.drop 4).take oidLength) with
  | none => return none
  | some oid =>
    let blob := item.drop (oidLength + 8)
    if env.registered oid = true ∧ blob = [] then return none
    return some ⟨oid, blob⟩

end SecurityNames

/-! ## Transport mechanisms -/

def tagNullTag : Nat := 34

def tagTlsSecTrans : Nat := 36

section Transport

variable (host : Endianness)

def marshallSocket (sock : SocketName) : BufferProg Unit := do
  marshallLatin1String host sock.hostName
  marshallElementary host 2 sock.port.toNat

def unmarshallSocket : BufferProg SocketName := do
  let hostName ← unmarshallLatin1String host
  let port ← unmarshallElementary host 2
  return ⟨hostName, UInt16.ofNat port⟩

def marshallTls (supports requires : UInt16) (addresses : List SocketName) : BufferProg Unit := do
  marshallElementary host 2 supports.toNat
  marshallElementary host 2 requires.toNat
  marshallElementary host 4 (addresses.length % unsignedLongModulus)
  marshallAll (marshallSocket host) addresses

def unmarshallTls : BufferProg TransportTag := do
  let supports ← unmarshallElementary host 2
  let requires ← unmarshallElementary host 2
  let length ← unmarshallElementary host 4
  let addresses ← unmarshallTimes (unmarshallSocket host) length
  return .tls (UInt16.ofNat supports) (UInt16.ofNat requires) addresses

def marshallEncapsulation (m : BufferProg Unit) : BufferProg Unit :=
  match encapsulate host m with
  | .ok octets => marshallOctetArray host octets
  | .error e => throw e

def TransportTag.tag : TransportTag → Nat
  | .null => tagNullTag
  | .tls .. => tagTlsSecTrans
  | .unknown tag _ => tag

/-- `Marshall_Component_Data` of the three components. -/
def marshallTagData : TransportTag → BufferProg Unit
  | .null => marshallElementary host 4 0
  | .tls supports requires addresses =>
    marshallEncapsulation host (marshallTls host supports requires addresses)
  | .unknown _ data => marshallOctetArray host data

/-- `Unmarshall_Component_Data` of the component for a tag.  An error is met by an assertion of the
caller. -/
def unmarshallTagData (tag : Nat) : BufferProg TransportTag :=
  if tag = tagNullTag then do
    let aux ← unmarshallElementary host 4
    raiseIf (aux ≠ 0) .assertionError
    return .null
  else if tag = tagTlsSecTrans then do
    let tagBody ← unmarshallOctetArray host
    match unmarshallEncapsulated (unmarshallTls host) tagBody with
    | .ok c => return c
    | .error _ => throw .assertionError
  else do
    let data ← unmarshallOctetArray host
    return .unknown tag data

/-- `Marshall_Tagged_Component` -/
def marshallTransportTag (c : TransportTag) : BufferProg Unit := do
  marshallElementary host 4 c.tag
  marshallTagData host c

/-- `Unmarshall_Tagged_Component` -/
def unmarshallTransportTag : BufferProg TransportTag := do
  let tag ← unmarshallElementary host 4
  unmarshallTagData host tag

end Transport

/-! ## Mechanisms -/

section Mechanisms

variable {O : Type} (env : SecurityNames O) (host : Endianness)

def marshallServiceConfiguration (a : ServiceConfiguration) : BufferProg Unit := do
  marshallElementary host 4 a.syntaxNumber.toNat
  marshallOctetArray host a.name

def unmarshallServiceConfiguration : BufferProg ServiceConfiguration := do
  let syntaxNumber ← unmarshallElementary host 4
  let name ← unmarshallOctetArray host
  return ⟨UInt32.ofNat syntaxNumber, name⟩

def unmarshallOid : BufferProg O := do
  let aux ← unmarshallOctetArray host
  match env.decode aux with
  | some o => return o
  | none => throw .asn1Error

/-- No octets stand for the null identifier. -/
def unmarshallOptionalOid : BufferProg (Option O) := do
  let aux ← unmarshallOctetArray host
  if aux.length ≠ 0 then
    match env.decode aux with
    | some o => return some o
    | none => throw .asn1Error
  else return none

def unmarshallOptionalName : BufferProg (Option (ExportedName O)) := do
  let aux ← unmarshallOctetArray host
  if aux.length ≠ 0 then
    match env.decodeName aux with
    | .ok (some n) => return some n
    | .ok none => throw .programError
    | .error e => throw e
  else return none

def marshallMechanism (m : CsiMechanism O) : BufferProg Unit := do
  marshallElementary host 2 m.targetRequires.toNat
  marshallTransportTag host m.transportMechanismTag
  marshallElementary host 2 m.authenticationTargetSupports.toNat
  marshallElementary host 2 m.authenticationTargetRequires.toNat
  marshallOctetArray host ((m.authenticationMechanism.map env.encode).getD [])
  marshallOctetArray host ((m.authenticationTargetName.map env.encodeName).getD [])
  marshallElementary host 2 m.attributeTargetSupports.toNat
  marshallElementary host 2 m.attributeTargetRequires.toNat
  marshallElementary host 4 (m.attributePrivilegeAuthorities.length % unsignedLongModulus)
  marshallAll (marshallServiceConfiguration host) m.attributePrivilegeAuthorities
  marshallElementary host 4 (m.attributeNamingMechanisms.length % unsignedLongModulus)
  marshallAll (fun o => marshallOctetArray host (env.encode o)) m.attributeNamingMechanisms
  marshallElementary host 4 m.attributeIdentityTypes.toNat

def unmarshallMechanism : BufferProg (CsiMechanism O) := do
  let targetRequires ← unmarshallElementary host 2
  let transportMechanismTag ← unmarshallTransportTag host
  let authenticationTargetSupports ← unmarshallElementary host 2
  let authenticationTargetRequires ← unmarshallElementary host 2
  let authenticationMechanism ← unmarshallOptionalOid env host
  let authenticationTargetName ← unmarshallOptionalName env host
  let attributeTargetSupports ← unmarshallElementary host 2
  let attributeTargetRequires ← unmarshallElementary host 2
  let nAuthorities ← unmarshallElementary host 4
  let authorities ← unmarshallTimes (unmarshallServiceConfiguration host) nAuthorities
  let nNaming ← unmarshallElementary host 4
  let naming ← unmarshallTimes (unmarshallOid env host) nNaming
  let identityTypes ← unmarshallElementary host 4
  return {
    targetRequires := UInt16.ofNat targetRequires
    transportMechanismTag := transportMechanismTag
    authenticationTargetSupports := UInt16.ofNat authenticationTargetSupports
    authenticationTargetRequires := UInt16.ofNat authenticationTargetRequires
    authenticationMechanism := authenticationMechanism
    authenticationTargetName := authenticationTargetName
    attributeTargetSupports := UInt16.ofNat attributeTargetSupports
    attributeTargetRequires := UInt16.ofNat attributeTargetRequires
    attributePrivilegeAuthorities := authorities
    attributeNamingMechanisms := naming
    attributeIdentityTypes := UInt32.ofNat identityTypes }

/-! ## The component -/

def marshallMechanisms (c : CsiSecMechList O) : BufferProg Unit := do
  marshallBoolean host c.stateful
  marshallElementary host 4 (c.mechanisms.length % unsignedLongModulus)
  marshallAll (marshallMechanism env host) c.mechanisms

def unmarshallMechanisms : BufferProg (CsiSecMechList O) := do
  let stateful ← unmarshallBoolean host
  let len ← unmarshallElementary host 4
  let mechanisms ← unmarshallTimes (unmarshallMechanism env host) len
  return ⟨stateful, mechanisms⟩

def marshallComponentData (c : CsiSecMechList O) : BufferProg Unit :=
  marshallEncapsulation host (marshallMechanisms env host c)

def unmarshallComponentData : BufferProg (Except SysError (CsiSecMechList O)) := do
  let tagBody ← unmarshallOctetArray host
  match unmarshallEncapsulated (unmarshallMechanisms env host) tagBody with
  | .ok c => return .ok c
  | .error _ => return .error ⟨.badParamE, 10, .completedNo⟩

end Mechanisms

end PolyORB
