import PolyORB.Naming.Names

/-!
# Module initialization

PolyORB.Initialization: `Register_Module`, the three passes of `Initialize_World`, and
`Shutdown_World`.  A module is referred to by its name, which is unique; the list of all modules is
that of the registered ones followed by the virtual ones.  An `Init` procedure is an entry in the
order of initialization.
-/

namespace PolyORB

namespace Character

def exclamationMark : UInt8 := 33

def questionMark : UInt8 := 63

end Character

open Character

/-- `Module_Info`; `shutdown` says whether the module has a shutdown procedure. -/
structure ModuleInfo where
  name : Text
  provides : List Text
  depends : List Text
  conflicts : List Text
  implicit : Bool
  shutdown : Bool
  deriving DecidableEq

structure Dependency where
  target : Text
  optional : Bool
  deriving DecidableEq

structure ModuleRegistry where
  modules : List ModuleInfo
  nodup : (modules.map ModuleInfo.name).Nodup

/-- `Init_Info`, apart from the flags of the modules and the shutdown order. -/
structure World where
  registered : List ModuleInfo
  virtual : List Text
  deps : Text → List Dependency
  conflicts : Text → List Text

namespace World

def ofRegistry (r : ModuleRegistry) : World where
  registered := r.modules
  virtual := []
  deps := fun _ => []
  conflicts := fun n => ((r.modules.find? fun m => m.name == n).map ModuleInfo.conflicts).getD []

def names (w : World) : List Text := w.registered.map ModuleInfo.name ++ w.virtual

/-- `Lookup_Module`: whether there is a module of this name. -/
def lookupModule (w : World) (name : Text) : Bool := w.names.contains name

/-- The `Virtual` of the module of this name. -/
def isVirtual (w : World) (name : Text) : Bool :=
  !(w.registered.map ModuleInfo.name).contains name

def prependDep (w : World) (name : Text) (dep : Dependency) : World :=
  { w with deps := Function.update w.deps name (dep :: w.deps name) }

/-! ## Check_Conflicts -/

/-- The name of a virtual module, without the exclamation mark. -/
def provided (name : Text) : Text :=
  if name.getLast? = some exclamationMark then name.dropLast else name

/-- The module of this name, which is added if it is not there. -/
def ensureVirtual (w : World) (name : Text) : World :=
  if w.lookupModule name = true then w else { w with virtual := w.virtual ++ [name] }

/-- One name of `Provides`, whose last character is read. -/
def registerAlias (w : World) (current name : Text) : Except Exn World :=
  if name = [] then .error .constraintError
  else
    let w :=
      if name.getLast? = some exclamationMark then
        { w with
          conflicts := Function.update w.conflicts current
            (w.conflicts current ++ [provided name]) }
      else w
    .ok ((w.ensureVirtual (provided name)).prependDep (provided name) ⟨current, false⟩)

def registerProvides (w : World) (current : Text) : List Text → Except Exn World
  | [] => .ok w
  | name :: rest => do
    let w ← w.registerAlias current name
    registerProvides w current rest

def registerAliases (w : World) : List ModuleInfo → Except Exn World
  | [] => .ok w
  | m :: rest => do
    let w ← w.registerProvides m.name m.provides
    registerAliases w rest

def checkConflict (w : World) (current name : Text) : Except Exn Unit :=
  if w.lookupModule name = false then .ok ()
  else if w.isVirtual name = true then
    match w.deps name with
    | [] => .error .constraintError
    -- the only provider may conflict with other ones
    | firstProvider :: others =>
      if firstProvider.target = current ∧ others = [] then .ok () else .error .programError
  else .error .programError

def checkConflictsOf (w : World) (current : Text) : List Text → Except Exn Unit
  | [] => .ok ()
  | name :: rest => do
    w.checkConflict current name
    checkConflictsOf w current rest

def checkAllConflicts (w : World) : List ModuleInfo → Except Exn Unit
  | [] => .ok ()
  | m :: rest => do
    w.checkConflictsOf m.name (w.conflicts m.name)
    checkAllConflicts w rest

def checkConflicts (w : World) : Except Exn World := do
  let w ← w.registerAliases w.registered
  w.checkAllConflicts w.registered
  return w

/-! ## Resolve_Dependencies -/

def implicitDeps (w : World) : List Dependency :=
  (w.registered.filter ModuleInfo.implicit).map fun m => ⟨m.name, true⟩

def dependency (name : Text) : Dependency :=
  if name.getLast? = some questionMark then ⟨name.dropLast, true⟩ else ⟨name, false⟩

def prependDeps (w : World) (current : Text) : List Dependency → World
  | [] => w
  | dep :: rest => prependDeps (w.prependDep current dep) current rest

def resolveDependency (w : World) (current : ModuleInfo) (name : Text) : Except Exn World := do
  let dep := dependency name
  let w ←
    if w.lookupModule dep.target = true then .ok (w.prependDep current.name dep)
    else if dep.optional = false then .error .programError
    else .ok w
  -- the implicit dependencies are added once for each name, and not without any
  return if current.implicit = true then w else w.prependDeps current.name w.implicitDeps

def resolveDepends (w : World) (current : ModuleInfo) : List Text → Except Exn World
  | [] => .ok w
  | name :: rest => do
    let w ← w.resolveDependency current name
    resolveDepends w current rest

def resolveAll (w : World) : List ModuleInfo → Except Exn World
  | [] => .ok w
  | m :: rest => do
    let w ← w.resolveDepends m m.depends
    resolveAll w rest

def resolveDependencies (w : World) : Except Exn World := w.resolveAll w.registered

end World

/-! ## Visit -/

/-- The flags of the modules, and the modules in the order in which they were initialized. -/
structure InitState where
  visited : Text → Bool
  initialized : Text → Bool
  depsInProgress : Text → Bool
  order : List Text
  shutdownOrder : List Text

def InitState.initial : InitState := ⟨fun _ => false, fun _ => false, fun _ => false, [], []⟩

namespace World

section Visit

variable (w : World) (enabled : Text → Bool)

def hasShutdown (name : Text) : Bool := w.registered.any fun m => m.name == name && m.shutdown

/-- The loop of `Visit` over the dependencies: `none` when a cycle is detected, or the state and
`One_Dep_Initialized`. -/
def visitDeps (visit : InitState → Text → Except Exn (Option InitState)) (m : Text) :
    List Dependency → InitState → Bool → Except Exn (Option (InitState × Bool))
  | [], s, one => .ok (some (s, one))
  | dep :: rest, s, one =>
    if s.visited dep.target = false then do
      match ← visit s dep.target with
      | none => return none
      | some s =>
        if dep.optional = true ∨ w.isVirtual m = true ∨ s.initialized dep.target = true then
          visitDeps visit m rest s (one || s.initialized dep.target)
        else .error .programError
    else visitDeps visit m rest s (one || s.initialized dep.target)

/-- What is done for a module once its dependencies are. -/
def finish (s : InitState) (m : Text) (one : Bool) : InitState :=
  let s := { s with depsInProgress := Function.update s.depsInProgress m false }
  if enabled m = false then s
  else
    let s := { s with visited := Function.update s.visited m true }
    if w.isVirtual m = true then { s with initialized := Function.update s.initialized m one }
    else
      { s with
        initialized := Function.update s.initialized m true
        order := s.order ++ [m]
        shutdownOrder := if w.hasShutdown m = true then m :: s.shutdownOrder else s.shutdownOrder }

/-- `Visit`, to the given depth: `none` when a cycle is detected. -/
def visit : Nat → InitState → Text → Except Exn (Option InitState)
  | 0, _, _ => .error .unfinished
  | depth + 1, s, m =>
    if s.depsInProgress m = true then
      -- the message reads the `Info` of the module
      if w.isVirtual m = true then .error .constraintError else .ok none
    else do
      let started := { s with depsInProgress := Function.update s.depsInProgress m true }
      match ← w.visitDeps (visit depth) m (w.deps m) started false with
      | none => return none
      | some (s, one) => return some (w.finish enabled s m one)

def runInitializers (depth : Nat) : InitState → List Text → Except Exn InitState
  | s, [] => .ok s
  | s, m :: rest =>
    if s.visited m = false then do
      match ← w.visit enabled depth s m with
      | none => .error .programError
      | some s => runInitializers depth s rest
    else runInitializers depth s rest

end Visit

end World

def ModuleRegistry.initializeWorld (r : ModuleRegistry) (enabled : Text → Bool) (depth : Nat) :
    Except Exn InitState := do
  let w ← (World.ofRegistry r).checkConflicts
  let w ← w.resolveDependencies
  w.runInitializers enabled depth .initial w.names

/-- The shutdown procedures that `Shutdown_World` calls.  Without any module registered, `Init_Info`
is null. -/
def ModuleRegistry.shutdownWorld (r : ModuleRegistry) (s : InitState) : Except Exn (List Text) :=
  if r.modules = [] then .error .constraintError else .ok s.shutdownOrder

end PolyORB
