import PolyORB.Naming.Names
import PolyORB.Lib.Linked

/-!
# Naming contexts

CosNaming.NamingContext.Impl.  The contexts of a process share the hash table `BOHT`; each has the
ends of the list of its bound objects.
-/

namespace PolyORB

inductive BindingType where
  | nobject
  | ncontext
  deriving DecidableEq

/-- A reference to a naming context of the process, by its number. -/
abbrev ContextRef := Option Nat

inductive ObjectRef where
  | nil
  | context (i : Nat)
  /-- An object that is not a naming context. -/
  | object (n : Nat)
  deriving DecidableEq

inductive NotFoundReason where
  | missingNode
  | notContext
  | notObject
  deriving DecidableEq

inductive NamingException where
  | alreadyBound
  | invalidName
  | notFound (why : NotFoundReason) (restOfName : Name)
  | invObjref
  | objectNotExist
  | programError
  deriving DecidableEq

/-- What a call returns, which is a reference for `Resolve` and `Bind_New_Context`. -/
abbrev NamingReply := Except NamingException (Option ObjectRef)

def ContextRef.toObject : ContextRef → ObjectRef
  | none => .nil
  | some i => .context i

/-- `NamingContext.Helper.To_Ref`; `none` is `Bad_Param`. -/
def ObjectRef.toRef : ObjectRef → Option ContextRef
  | .nil => some none
  | .context i => some (some i)
  | .object _ => none

/-- The calls of the interface.  A naming context refers to others, in which it makes calls with
names of one component. -/
inductive NamingRequest where
  | bind (obj : ObjectRef)
  | bindContext (nc : ContextRef)
  | bindNewContext
  | rebind (obj : ObjectRef)
  | rebindContext (nc : ContextRef)
  | unbind
  | resolve
  deriving DecidableEq

inductive NamingOperation where
  /-- A new context that is not bound anywhere. -/
  | create
  | call (self : ContextRef) (n : Name) (r : NamingRequest)
  deriving DecidableEq

/-! ## Names of several components -/

/-- What a call with a name of one component does in the context of a number. -/
structure ContextOperations (σ : Type) where
  size : σ → Nat
  resolve : σ → Nat → NameComponent → Except NamingException ObjectRef
  bind : σ → Nat → NameComponent → BindingType → ObjectRef → σ × NamingReply
  rebind : σ → Nat → NameComponent → BindingType → ObjectRef → σ × NamingReply
  unbind : σ → Nat → NameComponent → σ × NamingReply
  newContext : σ → Option σ

namespace ContextOperations

variable {σ : Type} (ops : ContextOperations σ) (s : σ)

/-- The context that a call through a reference reaches. -/
def servant : ContextRef → Except NamingException Nat
  | none => .error .invObjref
  | some i => if i < ops.size s then .ok i else .error .objectNotExist

def getCtxAndLastNc : ContextRef → Name → Except NamingException (ContextRef × NameComponent)
  | _, [] => .error .invalidName
  | ctx, [c] => .ok (ctx, c)
  | ctx, c :: c' :: cs =>
    match ops.servant s ctx with
    | .error e => .error e
    | .ok i =>
      match ops.resolve s i c with
      | .error e => .error e
      | .ok obj =>
        match obj.toRef with
        | none => .error (.notFound .notContext (c' :: cs))
        | some ctx' => getCtxAndLastNc ctx' (c' :: cs)

def bindNewContext (i : Nat) (last : NameComponent) : σ × NamingReply :=
  match ops.newContext s with
  | none => (s, .error .programError)
  | some s' =>
    let obj := .context (ops.size s)
    let r := ops.bind s' i last .ncontext obj
    (r.1, r.2.map fun _ => some obj)

def serve (i : Nat) (last : NameComponent) : NamingRequest → σ × NamingReply
  | .bind obj => ops.bind s i last .nobject obj
  | .bindContext nc => ops.bind s i last .ncontext nc.toObject
  | .bindNewContext => ops.bindNewContext s i last
  | .rebind obj => ops.rebind s i last .nobject obj
  | .rebindContext nc => ops.rebind s i last .ncontext nc.toObject
  | .unbind => ops.unbind s i last
  | .resolve => (s, (ops.resolve s i last).map some)

def call (self : ContextRef) (n : Name) (r : NamingRequest) : σ × NamingReply :=
  match ops.servant s self with
  | .error e => (s, .error e)
  | .ok _ =>
    match ops.getCtxAndLastNc s self n with
    | .error e => (s, .error e)
    | .ok (ctx, last) =>
      match ops.servant s ctx with
      | .error e => (s, .error e)
      | .ok i => ops.serve s i last r

def create : σ × NamingReply :=
  match ops.newContext s with
  | none => (s, .error .programError)
  | some s' => (s', .ok (some (.context (ops.size s))))

def perform : NamingOperation → σ × NamingReply
  | .create => ops.create s
  | .call self n r => ops.call s self n r

end ContextOperations

/-! ## One context -/

namespace Character

def ht : UInt8 := 9
def upperA : UInt8 := 65
def upperZ : UInt8 := 90

end Character

open Character

/-- What `Encode` writes after the key of the context. -/
def NameComponent.entry (n : NameComponent) : Text := ht :: n.id ++ ht :: n.kind ++ [semicolon]

structure BoundObject where
  key : Text
  bn : NameComponent
  bt : BindingType
  obj : ObjectRef
  deriving DecidableEq

structure NamingContext where
  key : Text
  ends : Linked.Ends
  deriving DecidableEq

def NamingContext.encode (ctx : NamingContext) (n : NameComponent) : Text := ctx.key ++ n.entry

/-- The key after `key`: its rightmost character that is not 'Z' is incremented, and those on the
right of it are set to 'A'. -/
def nextKey : Text → Option Text
  | [] => none
  | c :: cs =>
    match nextKey cs with
    | some cs' => some (c :: cs')
    | none => if c = upperZ then none else some ((c + 1) :: List.replicate cs.length upperA)

/-- The contexts of a process and the variables of the package. -/
structure NamingState where
  seed : Text
  contexts : List NamingContext
  boht : Text → Option Nat
  heap : Linked.Heap BoundObject
  /-- The address of the next allocated object; those of freed objects are not used again. -/
  allocated : Nat

namespace NamingState

def keySize : Nat := 4

def start : NamingState :=
  { seed := List.replicate keySize upperA, contexts := [], boht := fun _ => none,
    heap := fun _ => none, allocated := 0 }

def lookForBo (s : NamingState) (key : Text) : Option (Nat × Linked.Node BoundObject) :=
  (s.boht key).bind fun a => (s.heap a).map fun n => (a, n)

def appendBoToNc (s : NamingState) (i : Nat) (nc : NamingContext) (bo : BoundObject) : NamingState :=
  let l := Linked.append s.heap nc.ends s.allocated bo
  { s with
    boht := Function.update s.boht bo.key (some s.allocated)
    heap := l.1
    contexts := s.contexts.set i { nc with ends := l.2 }
    allocated := s.allocated + 1 }

def removeBoFromNc (s : NamingState) (i : Nat) (nc : NamingContext) (a : Nat)
    (bo : Linked.Node BoundObject) : NamingState :=
  let l := Linked.remove s.heap nc.ends a bo
  { s with
    boht := Function.update s.boht bo.content.key none
    heap := l.1
    contexts := s.contexts.set i { nc with ends := l.2 } }

/-- The context of a number; the calls reach existing ones only. -/
def context (s : NamingState) (i : Nat) : NamingContext := s.contexts.getD i ⟨[], ⟨none, none⟩⟩

def resolve (s : NamingState) (i : Nat) (last : NameComponent) : Except NamingException ObjectRef :=
  match s.lookForBo ((s.context i).encode last) with
  | none => .error (.notFound .missingNode [])
  | some (_, bo) => .ok bo.content.obj

def bind (s : NamingState) (i : Nat) (last : NameComponent) (bt : BindingType) (obj : ObjectRef) :
    NamingState × NamingReply :=
  let bon := (s.context i).encode last
  if (s.lookForBo bon).isSome = true then (s, .error .alreadyBound)
  else (s.appendBoToNc i (s.context i) ⟨bon, last, bt, obj⟩, .ok none)

/-- Why a binding of another type is refused. -/
def otherType : BindingType → NotFoundReason
  | .nobject => .notObject
  | .ncontext => .notContext

def rebind (s : NamingState) (i : Nat) (last : NameComponent) (bt : BindingType) (obj : ObjectRef) :
    NamingState × NamingReply :=
  let bon := (s.context i).encode last
  match s.lookForBo bon with
  | none => (s, .error (.notFound .missingNode []))
  | some (a, bo) =>
    if bo.content.bt ≠ bt then (s, .error (.notFound (otherType bt) []))
    else
      let s' := s.removeBoFromNc i (s.context i) a bo
      (s'.appendBoToNc i (s'.context i) ⟨bon, last, bt, obj⟩, .ok none)

def unbind (s : NamingState) (i : Nat) (last : NameComponent) : NamingState × NamingReply :=
  match s.lookForBo ((s.context i).encode last) with
  | none => (s, .error (.notFound .missingNode []))
  | some (a, bo) => (s.removeBoFromNc i (s.context i) a bo, .ok none)

/-- `New_Context`, whose key comes from `Allocate`; `none` is `Program_Error`. -/
def newContext (s : NamingState) : Option NamingState :=
  (nextKey s.seed).map fun seed =>
    { s with seed := seed, contexts := s.contexts ++ [⟨s.seed, ⟨none, none⟩⟩] }

def operations : ContextOperations NamingState :=
  { size := fun s => s.contexts.length
    resolve := resolve
    bind := bind
    rebind := rebind
    unbind := unbind
    newContext := newContext }

def fromHead (s : NamingState) (i : Nat) : List BoundObject :=
  Linked.follow s.heap Linked.Node.next s.allocated (s.context i).ends.head

def fromTail (s : NamingState) (i : Nat) : List BoundObject :=
  Linked.follow s.heap Linked.Node.prev s.allocated (s.context i).ends.tail

end NamingState

end PolyORB
