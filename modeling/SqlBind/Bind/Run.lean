import SqlBind.Bytes.BigEndian
import SqlBind.Fault
import SqlBind.Format

/-!
# Runs of effects

Assembling a parameter is a sequence of effects: bytes are appended to a buffer, events are reported
to a log, and a fault ends the sequence early while what was done before it stays done.

* `Event`: what is reported about a column.
* `Effect`: one step of an assembly.
* `Run`: the steps that are carried out, and the fault that ended them if there was one.
* `Run.of effects`: carrying out a sequence of effects.
* `Run.bytes`, `Run.events`: what a run appends and what it reports.
-/

namespace SqlBind
set_option autoImplicit false

/-- What is reported about a column. -/
inductive Event where
  /-- A column was collected: whether it is NULL, and its format. -/
  | collected (column : Nat) (null : Bool) (format : Format)
  /-- A value is going to be written. -/
  | measured (column length : Nat)
  /-- NULL is going to be written. -/
  | null (column : Nat)
  deriving DecidableEq, Repr

/-- One step of an assembly. -/
inductive Effect where
  | write (bytes : Bytes)
  | report (event : Event)
  | stop (fault : Fault)
  deriving DecidableEq, Repr

namespace Effect

/-- The fault of a step that ends the assembly. -/
def fault? : Effect → Option Fault
  | stop fault => some fault
  | _ => none

def bytes : Effect → Bytes
  | write bytes => bytes
  | _ => []

def event? : Effect → Option Event
  | report event => some event
  | _ => none

end Effect

/-- What was carried out of a sequence of effects. -/
structure Run where
  done : List Effect
  /-- The fault that ended them, if there was one. -/
  fault : Option Fault

namespace Run

/-- Carries out effects up to the first fault. -/
def of (effects : List Effect) : Run where
  done := effects.takeWhile fun e => e.fault?.isNone
  fault := effects.findSome? Effect.fault?

def bytes (r : Run) : Bytes :=
  r.done.flatMap Effect.bytes

/-- The events that a run reports, in order. -/
def events (r : Run) : List Event :=
  r.done.filterMap Effect.event?

end Run

end SqlBind
