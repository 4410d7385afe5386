import SqlBind.Bind.Arrays
import SqlBind.Bind.Section

/-!
# The trace of an assembly

Both ways of assembling a parameter are traced: a span is opened and entered, every column is
reported within it, and the span is left at the end, also when a fault ends the assembly.

* `Trace.Entry`: one entry of the trace.
* `Trace.Entry.fields`: the named values of an entry, as text.
* `Param.arraysTrace`, `Param.sectionTrace`: the traces of the two assemblies.
-/

namespace SqlBind
set_option autoImplicit false

namespace Trace

/-- The component that reports. -/
def target : String := "pgparam::params"

/-- The level at which it reports. -/
def level : String := "TRACE"

/-- One entry of a trace. -/
inductive Entry where
  | span (name : String) (columns : Nat)
  | enter
  | event (event : Event)
  | exit
  deriving DecidableEq, Repr

/-- The named values of an event. -/
def eventFields : Event → List (String × String)
  | .collected column null format =>
    [("column", toString column), ("null", toString null), ("format", format.name)]
  | .measured column length => [("column", toString column), ("len", toString length)]
  | .null column => [("message", "NULL"), ("column", toString column)]

/-- The named values of an entry. -/
def Entry.fields : Entry → List (String × String)
  | span _ columns => [("columns", toString columns)]
  | event e => eventFields e
  | enter => []
  | exit => []

/-- The entries of a run within its span. -/
def spanned (name : String) (columns : Nat) (run : Run) : List Entry :=
  .span name columns :: .enter :: run.events.map .event ++ [.exit]

end Trace

namespace Param

/-- The trace of collecting the arrays. -/
def arraysTrace (p : Param) : List Trace.Entry :=
  Trace.spanned "param_arrays" p.columns p.arraysRun

/-- The trace of writing the section. -/
def sectionTrace (p : Param) : List Trace.Entry :=
  Trace.spanned "bind_params" p.columns p.sectionRun

end Param

end SqlBind
