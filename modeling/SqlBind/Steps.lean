import SqlBind.Bytes.BigEndian

/-!
# Steps that have bounds

Numbers of a machine have a range, and so have the parts of a buffer. A procedure that takes such
steps is written once, for every way in which they can be carried out.

* `Steps m`: a way to carry them out.
* `Steps.free`: without a look at any bounds.
* `Steps.within limit`: a step that leaves its bounds has no result; `within_sum`,
  `within_difference` and `within_overwrite_zeros`: steps that do not.
-/

namespace SqlBind
set_option autoImplicit false

/-- A way to carry out the steps that have bounds. -/
structure Steps (m : Type → Type) where
  sum (a b : Nat) : m Nat
  difference (a b : Nat) : m Nat
  /-- Puts bytes over the part of a buffer from `start` to `stop`. -/
  overwrite (buffer : Bytes) (start stop : Nat) (bs : Bytes) : m Bytes

namespace Steps

def free : Steps Id where
  sum a b := a + b
  difference a b := a - b
  overwrite buffer start stop bs := buffer.take start ++ bs ++ buffer.drop stop

/-- Sums do not go above a limit and differences not below zero; a part of a buffer lies in it, and
is as long as what is put over it. -/
def within (limit : Nat) : Steps Option where
  sum a b := if a + b ≤ limit then some (free.sum a b) else none
  difference a b := if b ≤ a then some (free.difference a b) else none
  overwrite buffer start stop bs :=
    if start ≤ stop ∧ stop ≤ buffer.length ∧ bs.length = stop - start then
      some (free.overwrite buffer start stop bs)
    else none

theorem within_sum {limit a b : Nat} (h : a + b ≤ limit) : (within limit).sum a b = some (a + b) :=
  if_pos h

theorem within_difference {limit a b : Nat} (h : b ≤ a) :
    (within limit).difference a b = some (a - b) :=
  if_pos h

section

variable {size offset : Nat} {text : Bytes} (h : offset + (text.length + 1) = size)
include h

/-- A text that is put before the last of some zeros is followed by its terminator. -/
theorem free_overwrite_zeros :
    free.overwrite (List.replicate size 0) offset (size - 1) text =
      List.replicate offset 0 ++ text ++ [0] := by
  have hfront : min offset size = offset := by omega
  have hback : size - (size - 1) = 1 := by omega
  show (List.replicate size 0).take offset ++ text ++ (List.replicate size 0).drop (size - 1) = _
  rw [List.take_replicate, List.drop_replicate, hfront, hback]
  rfl

theorem within_overwrite_zeros (limit : Nat) :
    (within limit).overwrite (List.replicate size 0) offset (size - 1) text =
      some (List.replicate offset 0 ++ text ++ [0]) := by
  have hbounds : offset ≤ size - 1 ∧ size - 1 ≤ (List.replicate size (0 : UInt8)).length ∧
      text.length = size - 1 - offset := by
    rw [List.length_replicate]
    omega
  rw [← free_overwrite_zeros h]
  exact if_pos hbounds

end

end Steps

end SqlBind
