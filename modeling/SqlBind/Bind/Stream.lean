import SqlBind.Bind.Section
import SqlBind.Encode.Value

/-!
# Several parameters in one buffer

Values are encoded one after another, and the section of each is appended to a common buffer. What
a failing item wrote before it failed stays there.

* `Stream.Item`: a value and how it is handed over.
* `Stream.Report`: what became of an item.
* `Stream.push`: encodes one item and appends its section.
* `Stream.pushAll`: does so for all items, from the first to the last.
-/

namespace SqlBind.Stream
set_option autoImplicit false

/-- A value and how it is handed over. -/
structure Item where
  passing : Passing
  value : Value

/-- How the processing of an item ended. -/
inductive Outcome where
  /-- The value has no parameter; nothing was written. -/
  | refused (error : EncodeError)
  | written
  /-- A fault ended the writing. -/
  | stopped (fault : Fault)
  deriving DecidableEq, Repr

/-- What became of an item. -/
structure Report where
  /-- What encoding the item logged. -/
  log : List String
  wrote : Bytes
  total : Nat
  outcome : Outcome

/-- Encodes one item and appends its section to a buffer. -/
def push (buffer : Bytes) (item : Item) : Bytes × Report :=
  let encoded := item.value.encode item.passing
  match encoded.result with
  | .error e => (buffer, ⟨encoded.log, [], buffer.length, .refused e⟩)
  | .ok p =>
    let run := p.sectionRun
    let buffer := buffer ++ run.bytes
    let outcome := match run.fault with
      | none => .written
      | some fault => .stopped fault
    (buffer, ⟨encoded.log, run.bytes, buffer.length, outcome⟩)

/-- Processes items in order: the final buffer, and a report on each. -/
def pushAll (buffer : Bytes) : List Item → Bytes × List Report
  | [] => (buffer, [])
  | item :: rest =>
    let first := push buffer item
    let others := pushAll first.1 rest
    (others.1, first.2 :: others.2)

end SqlBind.Stream
