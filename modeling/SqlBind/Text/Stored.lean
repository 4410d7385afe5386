import SqlBind.Steps
import SqlBind.Text.CText
import SqlBind.Text.Utf8

/-!
# Where a text column keeps its bytes

A short rendering is kept inside the column itself, right-aligned in a buffer of fixed length; a
longer one, or one that was handed over, lives on the heap; one that its owner keeps is borrowed.

* `StoredText`: the three places.
* `StoredText.bytes`: the column's bytes, terminator included, wherever they are kept.
* `StoredText.copy`, `StoredText.owned`, `StoredText.lent`, `StoredText.literal`: the ways in. A copy
  is written for any `Steps`; `copy_eq` is what it comes to.
-/

namespace SqlBind
set_option autoImplicit false

/-- The bytes of a text column, by the place that holds them. -/
inductive StoredText where
  /-- A view of bytes that somebody else keeps. -/
  | borrowed (bytes : Bytes)
  /-- The end of a buffer inside the column, from `offset` on. -/
  | small (offset : Nat) (buffer : Bytes)
  /-- An allocation of the column's own. -/
  | heap (bytes : Bytes)
  deriving DecidableEq, Repr

namespace StoredText

/-- Length of the buffer inside the column, the terminator included; any 64-bit integer fits. -/
def bufferLength : Nat := 23

/-- The bytes of the column, the terminating nul included. -/
def bytes : StoredText → Bytes
  | borrowed bs => bs
  | small offset buffer => buffer.drop offset
  | heap bs => bs

end StoredText

/-- A copy of `text` with a nul after it, at the end of the buffer if both fit, else on the heap.
The text must hold no nul. -/
def Steps.copy {m : Type → Type} [Monad m] (steps : Steps m) (text : Bytes) : m StoredText :=
  if StoredText.bufferLength ≤ text.length then
    pure (.heap (text ++ [0]))
  else do
    let offset ← steps.difference (StoredText.bufferLength - 1) text.length
    let buffer ← steps.overwrite (List.replicate StoredText.bufferLength 0) offset
      (StoredText.bufferLength - 1) text
    return .small offset buffer

namespace StoredText

def copy (text : Bytes) : StoredText :=
  (Steps.free.copy text).run

theorem copy_eq (text : Bytes) :
    copy text = if bufferLength ≤ text.length then heap (text ++ [0])
      else small (bufferLength - 1 - text.length)
        (List.replicate (bufferLength - 1 - text.length) 0 ++ text ++ [0]) := by
  unfold copy Steps.copy
  split
  · rfl
  · rename_i hshort
    have hoffset : bufferLength - 1 - text.length + (text.length + 1) = bufferLength := by omega
    exact congrArg (small _) (Steps.free_overwrite_zeros hoffset)

/-- Takes over a text together with its terminator. -/
def owned (t : CText) : StoredText :=
  heap t.terminated

/-- A view of a text whose owner keeps it. -/
def lent (t : CText) : StoredText :=
  borrowed t.terminated

/-- A view of a fixed text; the text must hold no nul. -/
def literal (s : String) : StoredText :=
  borrowed (utf8 s.toList ++ [0])

@[simp] theorem bytes_copy (text : Bytes) : (copy text).bytes = text ++ [0] := by
  rw [copy_eq]
  split
  · rfl
  · simp [bytes]

@[simp] theorem bytes_owned (t : CText) : (owned t).bytes = t.bytes ++ [0] := rfl

@[simp] theorem bytes_lent (t : CText) : (lent t).bytes = t.bytes ++ [0] := rfl

@[simp] theorem bytes_literal (s : String) : (literal s).bytes = utf8 s.toList ++ [0] := rfl

end StoredText

end SqlBind
