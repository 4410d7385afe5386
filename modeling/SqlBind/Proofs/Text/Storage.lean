import SqlBind.Text.Stored

/-!
# Copies of short and of long texts

A copy stands at the end of the buffer inside the column if it fits there together with its
terminator, which is a zero that the buffer holds from the start; else it is on the heap.

* `copy_within`: no step of the copy leaves its bounds.
* `exists_small_iff`, `copy_eq_heap`: which place is taken.
* `offset_add_of_copy`, `length_buffer_of_copy`: where the copy stands in the buffer.
* `bytes_small_of_getElem?_eq`: what the buffer holds before the copy plays no part.
-/

namespace SqlBind.StoredText
set_option autoImplicit false

variable {text buffer : Bytes} {offset : Nat}

/-! ## Steps within bounds -/

theorem copy_within (limit : Nat) (text : Bytes) :
    (Steps.within limit).copy text = some (copy text) := by
  rw [copy_eq, Steps.copy]
  split
  · rfl
  · rename_i hshort
    have hle : text.length ≤ bufferLength - 1 := Nat.le_sub_one_of_lt (Nat.not_le.1 hshort)
    have hoffset : bufferLength - 1 - text.length + (text.length + 1) = bufferLength := by omega
    rw [Steps.within_difference hle, Option.bind_eq_bind, Option.bind_some,
      Steps.within_overwrite_zeros hoffset]
    rfl

/-! ## The place of a copy -/

theorem copy_eq_heap (h : ¬text.length + 1 ≤ bufferLength) : copy text = heap (text ++ [0]) := by
  rw [copy_eq, if_pos (Nat.not_lt.1 h)]

theorem copy_eq_small_iff : copy text = small offset buffer ↔
    offset + (text.length + 1) = bufferLength ∧
      buffer = List.replicate offset 0 ++ text ++ [0] := by
  rw [copy_eq]
  split
  · rename_i hlong
    constructor
    · intro h
      cases h
    · rintro ⟨hoffset, -⟩
      omega
  · rename_i hshort
    constructor
    · intro h
      cases h
      exact ⟨by omega, rfl⟩
    · rintro ⟨hoffset, rfl⟩
      obtain rfl : offset = bufferLength - 1 - text.length := by omega
      rfl

theorem exists_small_iff :
    (∃ offset buffer, copy text = small offset buffer) ↔ text.length + 1 ≤ bufferLength := by
  simp only [copy_eq_small_iff]
  constructor
  · rintro ⟨offset, -, hoffset, -⟩
    omega
  · intro h
    exact ⟨bufferLength - (text.length + 1), _, by omega, rfl⟩

theorem offset_add_of_copy (h : copy text = small offset buffer) :
    offset + (text.length + 1) = bufferLength :=
  (copy_eq_small_iff.1 h).1

theorem length_buffer_of_copy (h : copy text = small offset buffer) :
    buffer.length = bufferLength := by
  obtain ⟨hoffset, rfl⟩ := copy_eq_small_iff.1 h
  rw [← hoffset, List.length_append, List.length_append, List.length_replicate,
    List.length_singleton, Nat.add_assoc]

theorem bytes_small_of_getElem?_eq {other : Bytes}
    (h : ∀ i, offset ≤ i → other[i]? = buffer[i]?) :
    (small offset other).bytes = (small offset buffer).bytes := by
  apply List.ext_getElem?
  intro i
  rw [bytes, bytes, List.getElem?_drop, List.getElem?_drop]
  exact h _ (Nat.le_add_right offset i)

end SqlBind.StoredText
