import PolyORB.Any

/-!
# Argument reconciliation

PolyORB.Requests: the three procedures that pump the arguments of a source list up into those of a
destination list.  The lists are distinct ones, and each argument has its own Any.  What the
procedures use of Anys is a parameter: equality and kind of unwound typecodes, and the copy of a
value into an Any that has one.
-/

namespace PolyORB

abbrev Flags := Nat

def argIn : Flags := 0
def argOut : Flags := 1
def argInout : Flags := 2

/-- An argument.  `unwoundType` is the typecode of its Any, without typedefs, and `value` is `none`
when the Any is empty. -/
structure NamedValue (τ ν : Type) where
  name : String
  unwoundType : τ
  value : Option ν
  argModes : Flags
  deriving DecidableEq

structure AnyOperations (τ ν : Type) where
  equal : τ → τ → Bool
  kind : τ → TCKind
  /-- The new value of an Any that has one, when a value is copied into it. -/
  copyContent : τ → ν → τ → Option ν → Except Exn ν

structure PumpOptions where
  direction : Flags
  ignoreSrcMode : Bool
  canExtend : Bool

/-- The mode of an argument matches the direction. -/
def PumpOptions.concerns (o : PumpOptions) (mode : Flags) : Bool :=
  mode == argInout || mode == o.direction

/-- A source argument with its `Copied_Src_Args` flag. -/
structure SourceSlot (τ ν : Type) where
  arg : NamedValue τ ν
  copied : Bool

def argumentNotFound : SysError := { id := .badParamE, minor := 1, completed := .completedNo }

def wrongArgumentType : SysError := { id := .badTypeCodeE, minor := 1, completed := .completedNo }

/-- How one argument was dealt with, and what is left of the source list. -/
inductive Filling (τ ν σ : Type) where
  | filled (dst : NamedValue τ ν) (left : σ)
  | failed (e : SysError)

structure Pumped (τ ν σ : Type) where
  dst : List (NamedValue τ ν)
  left : σ
  error : Option SysError

variable {τ ν σ : Type}

def Pumped.cons (d : NamedValue τ ν) (r : Pumped τ ν σ) : Pumped τ ν σ :=
  { r with dst := d :: r.dst }

def Pumped.append (ext : σ → List (NamedValue τ ν)) (r : Pumped τ ν σ) : Pumped τ ν σ :=
  if r.error = none then { r with dst := r.dst ++ ext r.left } else r

namespace PumpOptions

variable (o : PumpOptions)

def toFill (d : NamedValue τ ν) : Bool := o.concerns d.argModes

def eligible (s : NamedValue τ ν) : Bool := o.ignoreSrcMode || o.concerns s.argModes

/-- The loop over the destination arguments, which leaves it at the first error. -/
def pumpUp (fill : NamedValue τ ν → σ → Except Exn (Filling τ ν σ)) :
    List (NamedValue τ ν) → σ → Except Exn (Pumped τ ν σ)
  | [], left => .ok { dst := [], left, error := none }
  | d :: ds, left =>
    if o.toFill d = true then
      match fill d left with
      | .error e => .error e
      | .ok (.failed e) => .ok { dst := d :: ds, left, error := some e }
      | .ok (.filled d' left) => (pumpUp fill ds left).map (.cons d')
    else (pumpUp fill ds left).map (.cons d)

end PumpOptions

namespace AnyOperations

variable (ops : AnyOperations τ ν)

/-- `Move_Any_Value`: both arguments afterwards. -/
def moveAnyValue (d s : NamedValue τ ν) : Except Exn (NamedValue τ ν × NamedValue τ ν) :=
  if ops.kind d.unwoundType ≠ ops.kind s.unwoundType then .error .typeCodeBadTypeCode
  else .ok ({ d with value := s.value }, { s with value := none })

def copyAnyValue (d : NamedValue τ ν) (v : ν) (s : NamedValue τ ν) :
    Except Exn (NamedValue τ ν × NamedValue τ ν) :=
  if ops.kind d.unwoundType ≠ ops.kind s.unwoundType then .error .typeCodeBadTypeCode
  else
    match ops.copyContent d.unwoundType v s.unwoundType s.value with
    | .ok v' => .ok ({ d with value := some v' }, s)
    | .error e => .error e

/-- The value is moved to an empty destination, and copied to another. -/
def transfer (d s : NamedValue τ ν) : Except Exn (NamedValue τ ν × NamedValue τ ν) :=
  match d.value with
  | none => ops.moveAnyValue d s
  | some v => ops.copyAnyValue d v s

def typesMatch (d s : NamedValue τ ν) : Bool := ops.equal d.unwoundType s.unwoundType

def argumentsMatch (d s : NamedValue τ ν) : Bool := ops.typesMatch d s && d.name == s.name

end AnyOperations

section Procedures

variable (ops : AnyOperations τ ν) (o : PumpOptions)

/-- The source arguments that `Can_Extend` appends, if it is set. -/
def PumpOptions.extension (src : List (NamedValue τ ν)) : List (NamedValue τ ν) :=
  if o.canExtend = true then src.filter o.eligible else []

/-! ## Pump_Up_Arguments_By_Position -/

structure SourceIterator (τ ν : Type) where
  passed : List (NamedValue τ ν)
  rest : List (NamedValue τ ν)

def fillByPosition (d : NamedValue τ ν) (passed : List (NamedValue τ ν)) :
    List (NamedValue τ ν) → Except Exn (Filling τ ν (SourceIterator τ ν))
  | [] => .error .constraintError
  | s :: rest =>
    if o.eligible s = true then
      match ops.transfer d s with
      | .ok (d', s') => .ok (.filled d' { passed := passed ++ [s'], rest })
      | .error e => .error e
    else if rest.isEmpty = true then .ok (.failed argumentNotFound)
    else fillByPosition d (passed ++ [s]) rest

def pumpUpArgumentsByPosition (dst src : List (NamedValue τ ν)) :
    Except Exn (Pumped τ ν (SourceIterator τ ν)) :=
  if o.direction ≠ argIn ∧ o.direction ≠ argOut then .error .assertionError
  else
    (o.pumpUp (fun d it => fillByPosition ops o d it.passed it.rest) dst
      { passed := [], rest := src }).map (.append fun it => o.extension it.rest)

/-! ## Pump_Up_Arguments_By_Name -/

/-- The argument at the iterator may be used. -/
def PumpOptions.unused (s : SourceSlot τ ν) : Bool := o.eligible s.arg && !s.copied

def startSlots (src : List (NamedValue τ ν)) : List (SourceSlot τ ν) := src.map (⟨·, false⟩)

/-- What the source list leaves for `Can_Extend`. -/
def PumpOptions.slotExtension (slots : List (SourceSlot τ ν)) : List (NamedValue τ ν) :=
  if o.canExtend = true then (slots.filter o.unused).map SourceSlot.arg else []

/-- The value is moved, and the source argument marked as copied. -/
def moveFromSlot (d : NamedValue τ ν) (passed : List (SourceSlot τ ν)) (s : SourceSlot τ ν)
    (rest : List (SourceSlot τ ν)) : Except Exn (Filling τ ν (List (SourceSlot τ ν))) :=
  match ops.moveAnyValue d s.arg with
  | .ok (d', arg) => .ok (.filled d' (passed ++ { arg, copied := true } :: rest))
  | .error e => .error e

/-- The inner loop, for at most `fuel` rounds. -/
def fillByName (d : NamedValue τ ν) :
    Nat → List (SourceSlot τ ν) → List (SourceSlot τ ν) →
      Except Exn (Filling τ ν (List (SourceSlot τ ν)))
  | 0, _, _ => .error .unfinished
  | _ + 1, _, [] => .error .constraintError
  | fuel + 1, passed, s :: rest =>
    if o.unused s = true then
      if ops.argumentsMatch d s.arg = true then moveFromSlot ops d passed s rest
      else if rest.isEmpty = true then .ok (.failed argumentNotFound)
      else fillByName d fuel (passed ++ [s]) rest
    else
      -- Neither the iterator nor the index is advanced.
      fillByName d fuel passed (s :: rest)

def pumpUpArgumentsByName (fuel : Nat) (dst src : List (NamedValue τ ν)) :
    Except Exn (Pumped τ ν (List (SourceSlot τ ν))) :=
  if o.direction ≠ argIn ∧ o.direction ≠ argOut then .error .assertionError
  else
    (o.pumpUp (fun d slots => fillByName ops o d fuel [] slots) dst (startSlots src)).map
      (.append o.slotExtension)

/-! ## Pump_Up_Arguments_Unspecified -/

/-- Whether arguments may still be identified by name, and by position. -/
structure Identification where
  byName : Bool
  byPosition : Bool
  deriving DecidableEq

def nameExists (name : String) (slots : List (SourceSlot τ ν)) : Bool :=
  slots.any (·.arg.name == name)

inductive Verdict where
  | copyArgument (ident : Identification)
  | goOn (ident : Identification)
  | deadEnd (e : SysError)

/-- What becomes of an unused source argument; `slots` starts with it. -/
def consider (ident : Identification) (d s : NamedValue τ ν) (slots : List (SourceSlot τ ν)) :
    Verdict :=
  if ops.typesMatch d s = true then
    if d.name = s.name then .copyArgument ident
    else if ident.byPosition = true ∧ ident.byName = false then .copyArgument ident
    else if ident.byName = true ∧ nameExists d.name slots = true then
      .goOn { ident with byPosition := false }
    else if ident.byPosition = true then .copyArgument { ident with byName := false }
    else .deadEnd wrongArgumentType
  else if ident.byName = true then
    if nameExists d.name slots = true then .goOn { ident with byPosition := false }
    else .deadEnd argumentNotFound
  else .deadEnd wrongArgumentType

structure UnspecifiedState (τ ν : Type) where
  ident : Identification
  slots : List (SourceSlot τ ν)

def fillUnspecified (d : NamedValue τ ν) :
    Identification → List (SourceSlot τ ν) → List (SourceSlot τ ν) →
      Except Exn (Filling τ ν (UnspecifiedState τ ν))
  | _, _, [] => .error .constraintError
  | ident, passed, s :: rest =>
    match if o.unused s = true then consider ops ident d s.arg (s :: rest) else .goOn ident with
    | .deadEnd e => .ok (.failed e)
    | .copyArgument ident =>
      match moveFromSlot ops d passed s rest with
      | .ok (.filled d' slots) => .ok (.filled d' { ident, slots })
      | .ok (.failed e) => .ok (.failed e)
      | .error e => .error e
    | .goOn ident =>
      if rest.isEmpty = true then .ok (.failed argumentNotFound)
      else fillUnspecified d ident (passed ++ [s]) rest

def pumpUpArgumentsUnspecified (dst src : List (NamedValue τ ν)) :
    Except Exn (Pumped τ ν (UnspecifiedState τ ν)) :=
  if o.direction ≠ argIn ∧ o.direction ≠ argOut then .error .assertionError
  else
    (o.pumpUp (fun d st => fillUnspecified ops o d st.ident [] st.slots) dst
      { ident := { byName := true, byPosition := true }, slots := startSlots src }).map
      (.append fun st => o.slotExtension st.slots)

end Procedures

end PolyORB
