import PolyORB.Types

/-!
# Tasks and monitors of the ORB

Accesses to tasks and monitors are numbers.
-/

namespace PolyORB

inductive TaskKind where
  | permanent
  | transient
  deriving DecidableEq

inductive TaskState where
  | unscheduled
  | running
  | blocked
  | idle
  | terminated
  deriving DecidableEq

abbrev TaskId := Nat
abbrev MonitorId := Nat

/-- An asynchronous event source, with the tag of the monitors that accept it. -/
structure Source where
  number : Nat
  tag : Nat
  deriving DecidableEq

/-- The handler of an event on a source, or an `ORB.Request_Job`. -/
inductive Job where
  | event (source : Source)
  | request (number : Nat)
  deriving DecidableEq

abbrev maximumNumberOfMonitors : Nat := 2

abbrev AemIndex := Fin maximumNumberOfMonitors

end PolyORB
