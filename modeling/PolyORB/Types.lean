import PolyORB.Lib.Program
import PolyORB.Lib.Octets

/-!
# Exceptions, errors and machine types

The subprograms are modelled as they run when the checks of the language and `pragma Assert` are
both enabled (switches `-gnato -gnata`): a failed check is `Exn.constraintError`, a failed
assertion `Exn.assertionError`.  A subprogram that fails leaves behind the state it had reached,
which is what `EStateM` does.

`Error_Container` arguments are not exceptions: they are carried in the state, as the optional
`SysError` that `Throw` stores and `Found` tests.
-/

namespace PolyORB

/-- The exceptions raised by the modelled code. -/
inductive Exn where
  | constraintError
  | programError
  | assertionError
  | typeCodeBounds
  | typeCodeBadKind
  | typeCodeBadTypeCode
  | giopError
  | bidirectionnalGiopNotImplemented
  | lengthError
  | miopPacketError
  | asn1Error
  | dnsError
  | httpError
  | indexError
  | patternError
  | taskingError
  /-- Not an exception of the source: the step bound of a recursive function was reached. -/
  | unfinished
  /-- Not an exception of the source: the task waits for a lock that is never released. -/
  | blocked
  deriving DecidableEq

inductive CompletionStatus where
  | completedYes
  | completedNo
  | completedMaybe
  deriving DecidableEq

inductive ErrorId where
  | noError
  | marshalE
  | dataConversionE
  | commFailureE
  | transientE
  | badParamE
  | unknownE
  | objectNotExistE
  | forwardRequestE
  | forwardRequestPermE
  | needsAddressingModeE
  | adapterInactiveE
  | badTypeCodeE
  | badInvOrderE
  | internalE
  | objAdapterE
  | adapterAlreadyExistsE
  | adapterNonExistentE
  | invalidPolicyE
  | noServantE
  | objectAlreadyActiveE
  | objectNotActiveE
  | servantAlreadyActiveE
  | servantNotActiveE
  | wrongAdapterE
  | wrongPolicyE
  | invalidObjectIdE
  | notAGroupObjectE
  deriving DecidableEq

/-- What an `Error_Container` holds once an error was thrown. -/
structure SysError where
  id : ErrorId
  minor : Nat
  completed : CompletionStatus
  deriving DecidableEq

inductive Endianness where
  | bigEndian
  | littleEndian
  deriving DecidableEq

def naturalLast : Nat := 2 ^ 31 - 1

def unsignedLongModulus : Nat := 2 ^ 32

/-- Subtraction of `Types.Unsigned_Long`, a modular type. -/
def subUnsignedLong (a b : Nat) : Nat := (a + (unsignedLongModulus - b % unsignedLongModulus)) %
  unsignedLongModulus

theorem subUnsignedLong_of_le {a b : Nat} (h : b ≤ a) (ha : a < unsignedLongModulus) :
    subUnsignedLong a b = a - b := by
  have hb : b % unsignedLongModulus = b := Nat.mod_eq_of_lt (by omega)
  rw [subUnsignedLong, hb]
  have : a + (unsignedLongModulus - b) = (a - b) + unsignedLongModulus := by omega
  rw [this, Nat.add_mod_right, Nat.mod_eq_of_lt (by omega)]

/-- The storage of an integer on `n` octets in the given byte order. -/
def orderedOctets (order : Endianness) (n v : Nat) : List UInt8 :=
  match order with
  | .littleEndian => Octets.toOctets n v
  | .bigEndian => (Octets.toOctets n v).reverse

/-- The integer whose storage in the given byte order is `bs`. -/
def fromOrderedOctets (order : Endianness) (bs : List UInt8) : Nat :=
  match order with
  | .littleEndian => Octets.ofOctets bs
  | .bigEndian => Octets.ofOctets bs.reverse

@[simp] theorem length_orderedOctets (order : Endianness) (n v : Nat) :
    (orderedOctets order n v).length = n := by
  cases order <;> simp [orderedOctets]

theorem fromOrderedOctets_orderedOctets {e : Endianness} {n v : Nat} (h : v < 256 ^ n) :
    fromOrderedOctets e (orderedOctets e n v) = v := by
  cases e <;> simp [fromOrderedOctets, orderedOctets, Octets.ofOctets_toOctets h]

theorem fromOrderedOctets_lt (order : Endianness) (bs : List UInt8) :
    fromOrderedOctets order bs < 256 ^ bs.length := by
  cases order with
  | littleEndian => exact Octets.ofOctets_lt bs
  | bigEndian =>
    have h := Octets.ofOctets_lt bs.reverse
    rwa [List.length_reverse] at h

/-- Swapping the octets of an item changes its byte order. -/
theorem orderedOctets_reverse {o o' : Endianness} (h : o ≠ o') (n v : Nat) :
    (orderedOctets o n v).reverse = orderedOctets o' n v := by
  cases o <;> cases o' <;> simp_all [orderedOctets]

end PolyORB
