import PolyORB.Types

/-!
# Integer constant expressions of iac

Values: the integer values of the IDL compiler, a 64-bit magnitude with a sign and a base, and the
operators on them.  Analyzer: how an integer value is converted into a type, and how an expression
is resolved.
-/

namespace PolyORB

/-- The node kinds of the integer types. -/
inductive IntegerKind where
  | short
  | long
  | longLong
  | unsignedShort
  | unsignedLong
  | unsignedLongLong
  | octet
  deriving DecidableEq

structure IntegerValue where
  k : IntegerKind
  /-- An `Unsigned_Long_Long`. -/
  iVal : Nat
  sign : Int
  base : Nat
  deriving DecidableEq

def IntegerKind.first : IntegerKind → Int
  | .short => -2 ^ 15
  | .long => -2 ^ 31
  | .longLong => -2 ^ 63
  | .unsignedShort | .unsignedLong | .unsignedLongLong | .octet => 0

def IntegerKind.last : IntegerKind → Nat
  | .short => 2 ^ 15 - 1
  | .long => 2 ^ 31 - 1
  | .longLong => 2 ^ 63 - 1
  | .unsignedShort => 2 ^ 16 - 1
  | .unsignedLong => 2 ^ 32 - 1
  | .unsignedLongLong => 2 ^ 64 - 1
  | .octet => 2 ^ 8 - 1

/-- `LULL`. -/
def lastUnsignedLongLong : Nat := 2 ^ 64 - 1

namespace IntegerValue

/-! ## Values -/

def mul (l r : IntegerValue) : IntegerValue :=
  { l with
    base := if l.base = r.base then 10 else l.base
    sign := l.sign * r.sign
    iVal := l.iVal * r.iVal % 2 ^ 64 }

def add (l r : IntegerValue) : IntegerValue :=
  let v := { r with base := if l.base ≠ r.base then 10 else r.base }
  if l.sign = r.sign then { v with iVal := (l.iVal + r.iVal) % 2 ^ 64 }
  else if r.iVal ≤ l.iVal then { v with sign := l.sign, iVal := l.iVal - r.iVal }
  else { v with sign := -l.sign, iVal := r.iVal - l.iVal }

def neg (r : IntegerValue) : IntegerValue := { r with sign := -r.sign }

def sub (l r : IntegerValue) : IntegerValue := l.add r.neg

def div (l r : IntegerValue) : Except Exn IntegerValue :=
  if r.iVal = 0 then .error .constraintError
  else .ok { l with
    base := if l.base = r.base then 10 else l.base
    sign := l.sign * r.sign
    iVal := l.iVal / r.iVal }

def mod (l r : IntegerValue) : Except Exn IntegerValue :=
  if r.iVal = 0 then .error .constraintError
  else .ok { l with
    base := if l.base ≠ r.base then 10 else l.base
    sign := l.sign * r.sign
    iVal := l.iVal % r.iVal }

/-- The magnitude of a negative operand is complemented. -/
def pattern (v : IntegerValue) : Nat :=
  if v.sign < 0 then lastUnsignedLongLong - v.iVal else v.iVal

/-- `"and"`, `"or"` and `"xor"`. -/
def bitwise (f : Nat → Nat → Nat) (l r : IntegerValue) : IntegerValue :=
  { l with
    base := if l.base ≠ r.base then 10 else l.base
    iVal := f l.pattern r.pattern
    sign := 1 }

def and (l r : IntegerValue) : IntegerValue := bitwise (· &&& ·) l r
def or (l r : IntegerValue) : IntegerValue := bitwise (· ||| ·) l r
def xor (l r : IntegerValue) : IntegerValue := bitwise (· ^^^ ·) l r

def not (r : IntegerValue) : Except Exn IntegerValue :=
  match r.k with
  | .longLong | .unsignedLongLong => .ok { r with iVal := 2 ^ 64 - 1 - r.iVal }
  | _ =>
    if r.iVal < 2 ^ 32 then .ok { r with iVal := 2 ^ 32 - 1 - r.iVal }
    else .error .constraintError

/-- `Natural (RV.IVal)`. -/
def amount (r : IntegerValue) : Except Exn Nat :=
  if r.iVal < 2 ^ 31 then .ok r.iVal else .error .constraintError

def shiftMagnitudeLeft (l r : IntegerValue) : Except Exn IntegerValue :=
  match r.amount with
  | .error e => .error e
  | .ok n => .ok { l with iVal := l.iVal * 2 ^ n % 2 ^ 64 }

def shiftMagnitudeRight (l r : IntegerValue) : Except Exn IntegerValue :=
  match r.amount with
  | .error e => .error e
  | .ok n => .ok { l with iVal := l.iVal / 2 ^ n }

def shiftLeft (l r : IntegerValue) : Except Exn IntegerValue :=
  if r.sign < 0 then shiftMagnitudeRight l r else shiftMagnitudeLeft l r

def shiftRight (l r : IntegerValue) : Except Exn IntegerValue :=
  if r.sign < 0 then shiftMagnitudeLeft l r else shiftMagnitudeRight l r

end IntegerValue

/-! ## Analyzer -/

def inRange (i : Nat) (s f : Int) (l : Nat) : Bool :=
  if s < 0 then decide (f < 0) && decide (i ≤ (-(f + 1)).toNat + 1) else decide (i ≤ l)

namespace IntegerValue

def fits (v : IntegerValue) (k : IntegerKind) : Bool := inRange v.iVal v.sign k.first k.last

def convertExactly (v : IntegerValue) (t : IntegerKind) : Option IntegerValue :=
  if v.fits t = true then some { v with k := t }
  else if v.k = t then some v
  else none

end IntegerValue

/-- The type of 32 or 64 bits that is tried first. -/
def IntegerKind.signed : IntegerKind → IntegerKind
  | .unsignedLongLong | .longLong => .longLong
  | _ => .long

/-- The type that is tried then. -/
def IntegerKind.unsigned : IntegerKind → IntegerKind
  | .unsignedLongLong | .longLong => .unsignedLongLong
  | _ => .unsignedLong

namespace IntegerValue

/-- `Convert` elsewhere. -/
def convert (v : IntegerValue) (t : IntegerKind) : Option IntegerValue :=
  if v.fits t.signed = true then some { v with k := t.signed }
  else if v.fits t.unsigned = true then some { v with k := t.unsigned }
  else if v.k = t.unsigned then some v
  else none

def smallest (v : IntegerValue) : IntegerValue :=
  if v.fits .octet = true then { v with k := .octet }
  else if v.fits .short = true then { v with k := .short }
  else if v.fits .unsignedShort = true then { v with k := .unsignedShort }
  else if v.fits .long = true then { v with k := .long }
  else if v.fits .unsignedLong = true then { v with k := .unsignedLong }
  else if v.fits .longLong = true then { v with k := .longLong }
  else if v.fits .unsignedLongLong = true then { v with k := .unsignedLongLong }
  else v

end IntegerValue

inductive UnaryOperator where
  | plus
  | minus
  | tilde
  deriving DecidableEq

inductive BinaryOperator where
  | star
  | slash
  | percent
  | plus
  | minus
  | lessLess
  | greaterGreater
  | ampersand
  | bar
  | circumflex
  deriving DecidableEq

def UnaryOperator.apply (op : UnaryOperator) (r : IntegerValue) : Except Exn IntegerValue :=
  match op with
  | .plus => .ok r
  | .minus => .ok r.neg
  | .tilde => r.not

def BinaryOperator.apply (op : BinaryOperator) (l r : IntegerValue) : Except Exn IntegerValue :=
  match op with
  | .star => .ok (l.mul r)
  | .slash => l.div r
  | .percent => l.mod r
  | .plus => .ok (l.add r)
  | .minus => .ok (l.sub r)
  | .lessLess => l.shiftLeft r
  | .greaterGreater => l.shiftRight r
  | .ampersand => .ok (l.and r)
  | .bar => .ok (l.or r)
  | .circumflex => .ok (l.xor r)

def IntegerValue.value (v : IntegerValue) : Int := v.sign * v.iVal

/-- A zero is positive. -/
structure IntegerValue.Normal (v : IntegerValue) : Prop where
  iVal : v.iVal < 2 ^ 64
  sign : v.sign = 1 ∨ (v.sign = -1 ∧ 0 < v.iVal)

/-- What was recorded for a constant that was accepted. -/
structure RecordedValue where
  val : IntegerValue
  normal : val.Normal
  range : val.k.first ≤ val.value ∧ val.value ≤ val.k.last

inductive ConstantExpression where
  | literal (base : Nat) (digits : List Nat)
  /-- A reference to another constant, that may have been in error. -/
  | scopedName (recorded : Option RecordedValue)
  | unary (op : UnaryOperator) (right : ConstantExpression)
  | binary (op : BinaryOperator) (left right : ConstantExpression)

/-- `Eval_Integer_From_Name_Buffer`. -/
def integerLiteralValue (base : Nat) (digits : List Nat) : Nat :=
  digits.foldl (fun v d => (v * base + d) % 2 ^ 64) 0

namespace ConstantExpression

/-- `Convert` of what was resolved. -/
def converted (t : IntegerKind) :
    Except Exn (Option IntegerValue) → Except Exn (Option IntegerValue)
  | .error e => .error e
  | .ok none => .ok none
  | .ok (some v) => .ok (v.convert t)

def resolveUnary (op : UnaryOperator) : Except Exn (Option IntegerValue) →
    Except Exn (Option IntegerValue)
  | .error e => .error e
  | .ok none => .ok none
  | .ok (some r) => (op.apply r).map fun v => some v.smallest

/-- The right operand is not resolved if there is an error in the left one. -/
def resolveBinary (op : BinaryOperator) (left right : Except Exn (Option IntegerValue)) :
    Except Exn (Option IntegerValue) :=
  match left with
  | .error e => .error e
  | .ok none => .ok none
  | .ok (some l) =>
    match right with
    | .error e => .error e
    | .ok none => .ok none
    | .ok (some r) =>
      if l.k ≠ r.k then .ok none else (op.apply l r).map fun v => some v.smallest

/-- `Resolve_Expr`: the value that is set, if there is no error. -/
def resolveExpr (t : IntegerKind) : ConstantExpression → Except Exn (Option IntegerValue)
  | .literal base digits =>
    .ok (some ⟨.unsignedLongLong, integerLiteralValue base digits, 1, base⟩)
  | .scopedName recorded => .ok (recorded.map RecordedValue.val)
  | .unary op right => resolveUnary op (converted t (resolveExpr t right))
  | .binary op left right =>
    resolveBinary op (converted t (resolveExpr t left)) (converted t (resolveExpr t right))

def operand (t : IntegerKind) (e : ConstantExpression) : Except Exn (Option IntegerValue) :=
  converted t (resolveExpr t e)

def declare (t : IntegerKind) (e : ConstantExpression) : Except Exn (Option IntegerValue) :=
  (resolveExpr t e).map fun o => o.bind (·.convertExactly t)

/-- For a case label: `K` is no `K_Constant_Declaration`. -/
def caseLabel (t : IntegerKind) (e : ConstantExpression) : Except Exn (Option IntegerValue) :=
  operand t e

/-- For an array bound, of type `unsigned long long`. -/
def arrayBound (e : ConstantExpression) : Except Exn (Option IntegerValue) :=
  resolveExpr .unsignedLongLong e

end ConstantExpression

end PolyORB
