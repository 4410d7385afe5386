import SqlBind.Proofs.Bind.Sent
import SqlBind.Proofs.Encode.Text
import SqlBind.Proofs.Param.Columns

/-!
# The contract between a column and its readers

A reader of a text column looks for the nul at its end, and a reader of a binary column trusts its
declared length.

* `Shape.Regular`: what a shape may declare about its columns.
* `Param.KeepsContract p index`: the column is NULL, a text with one nul, which is its last byte, or
  binary data of the declared length.
* `KeepsContract.sent_whole`: of such a column all is sent but the final nul.
-/

namespace SqlBind
set_option autoImplicit false

/-- The widths of the binary columns: those of integers and floating-point numbers. -/
def binaryWidths : List Nat := [2, 4, 8]

/-! ## Shapes -/

namespace Shape

/-- Every column is text of length zero or binary of one of the usual widths. -/
def Regular (s : Shape) : Prop :=
  ∀ index < s.columns, (s.format index = .ok .text ∧ s.length index = .ok 0) ∨
    ∃ width ∈ binaryWidths, s.format index = .ok .binary ∧ s.length index = .ok (Int32.ofNat width)

theorem regular_null : null.Regular := by
  intro index hindex
  obtain rfl : index = 0 := Nat.lt_one_iff.1 hindex
  exact .inl ⟨rfl, rfl⟩

theorem regular_text : text.Regular := by
  intro index hindex
  obtain rfl : index = 0 := Nat.lt_one_iff.1 hindex
  exact .inl ⟨rfl, rfl⟩

theorem regular_binary {width : Nat} (h : width ∈ binaryWidths) : (binary width).Regular := by
  intro index hindex
  obtain rfl : index = 0 := Nat.lt_one_iff.1 hindex
  exact .inr ⟨width, h, rfl, rfl⟩

theorem regular_optional {inner : Shape} (hcolumns : inner.columns = 1) (h : inner.Regular) :
    (optional inner).Regular := by
  intro index hindex
  obtain rfl : index = 0 := Nat.lt_one_iff.1 hindex
  exact h 0 (by omega)

theorem regular_tuple {children : List Shape} (h : ∀ s ∈ children, s.Regular) :
    (tuple children).Regular := by
  induction children with
  | nil =>
    intro index hindex
    exact absurd hindex (Nat.not_lt_zero index)
  | cons s rest ih =>
    intro index hindex
    rw [columns_tuple_cons] at hindex
    by_cases hfirst : index < s.columns
    · rw [forwards_format.first hfirst, forwards_length.first hfirst]
      exact h s List.mem_cons_self index hfirst
    · obtain ⟨later, rfl⟩ : ∃ later, index = s.columns + later := ⟨index - s.columns, by omega⟩
      have hlater : later < (tuple rest).columns := by omega
      rw [forwards_format.later hlater, forwards_length.later hlater]
      exact ih (fun r hr => h r (List.mem_cons_of_mem s hr)) later hlater

end Shape

/-! ## Parameters -/

namespace Param

/-- The column is text, with one nul behind its content and none in it, or binary, as long as it is
declared to be; or it is NULL. -/
inductive KeepsContract (p : Param) (index : Nat) : Prop where
  | text (content : Option Bytes) : (∀ bs ∈ content, 0 ∉ bs) → p.format index = .ok .text →
    p.length index = .ok 0 → p.data index = .ok (content.map (· ++ [0])) → KeepsContract p index
  | binary (width : Nat) (bytes : Option Bytes) : width ∈ binaryWidths →
    (∀ bs ∈ bytes, bs.length = width) → p.format index = .ok .binary →
    p.length index = .ok (Int32.ofNat width) → p.data index = .ok bytes → KeepsContract p index

theorem KeepsContract.of_eq {p q : Param} {index index' : Nat}
    (hdata : q.data index' = p.data index) (hformat : q.format index' = p.format index)
    (hlength : q.length index' = p.length index) (h : p.KeepsContract index) :
    q.KeepsContract index' := by
  rcases h with ⟨content, hnul, hf, hl, hd⟩ | ⟨width, bytes, hwidth, hsize, hf, hl, hd⟩
  · exact .text content hnul (hformat.trans hf) (hlength.trans hl) (hdata.trans hd)
  · exact .binary width bytes hwidth hsize (hformat.trans hf) (hlength.trans hl) (hdata.trans hd)

theorem keepsContract_null : null.KeepsContract 0 :=
  .text none (by simp) rfl rfl rfl

theorem data_text {t : StoredText} {content : Bytes} (h : t.Holds content) :
    (text t).data 0 = .ok (some (content ++ [0])) := by
  rw [← h.bytes_eq]
  rfl

theorem keepsContract_text {t : StoredText} {content : Bytes} (h : t.Holds content) :
    (text t).KeepsContract 0 :=
  .text (some content) (by simpa using h.nul_free) rfl rfl (data_text h)

theorem keepsContract_binary {bytes : Bytes} (h : bytes.length ∈ binaryWidths) :
    (binary bytes).KeepsContract 0 :=
  .binary bytes.length (some bytes) h (by simp) rfl rfl rfl

theorem keepsContract_absent {inner : Shape} (hcolumns : inner.columns = 1) (h : inner.Regular) :
    (absent inner).KeepsContract 0 := by
  rcases h 0 (by omega) with ⟨hformat, hlength⟩ | ⟨width, hwidth, hformat, hlength⟩
  · exact .text none (by simp) hformat hlength rfl
  · exact .binary width none hwidth (by simp) hformat hlength rfl

theorem keepsContract_present {inner : Param} (h : inner.KeepsContract 0) :
    (present inner).KeepsContract 0 := by
  have hdata : (present inner).data 0 = inner.data 0 := rfl
  have hformat : (present inner).format 0 = inner.format 0 := rfl
  have hlength : (present inner).length 0 = inner.length 0 := rfl
  exact .of_eq hdata hformat hlength h

theorem keepsContract_cons {p : Param} {ps : List Param}
    (hfirst : ∀ index < p.columns, p.KeepsContract index)
    (hlater : ∀ index < (tuple ps).columns, (tuple ps).KeepsContract index) :
    ∀ index < (tuple (p :: ps)).columns, (tuple (p :: ps)).KeepsContract index := by
  intro index hindex
  rw [columns_tuple_cons] at hindex
  by_cases h : index < p.columns
  · exact .of_eq (childByChild_data.first h) (childByChild_format.first h)
      (childByChild_length.first h) (hfirst index h)
  · obtain ⟨later, rfl⟩ : ∃ later, index = p.columns + later := ⟨index - p.columns, by omega⟩
    have h : later < (tuple ps).columns := by omega
    exact .of_eq (childByChild_data.later h) (childByChild_format.later h)
      (childByChild_length.later h) (hlater later h)

/-! ## What is sent -/

theorem takeWhile_terminated {content : Bytes} (h : 0 ∉ content) :
    (content ++ [0]).takeWhile (· != 0) = content := by
  have hall : ∀ b ∈ content, (b != 0) = true := by
    intro b hb
    rw [bne_iff_ne]
    rintro rfl
    exact h hb
  rw [List.takeWhile_append_of_pos hall]
  simp

theorem sent_of_terminated {p : Param} {index : Nat} {content : Option Bytes}
    (hnul : ∀ bs ∈ content, 0 ∉ bs) (hformat : p.format index = .ok .text)
    (hdata : p.data index = .ok (content.map (· ++ [0]))) : p.sent index = .ok content := by
  cases content with
  | none => exact sent_of_null hdata
  | some content => rw [sent_of_text hdata hformat, takeWhile_terminated (hnul content rfl)]

theorem claimedEnd_ofNat {width : Nat} (h : width ∈ binaryWidths) :
    claimedEnd (Int32.ofNat width) = width := by
  have hall : ∀ width ∈ binaryWidths, claimedEnd (Int32.ofNat width) = width := by decide
  exact hall width h

theorem sent_of_width {p : Param} {index width : Nat} {bytes : Option Bytes}
    (hwidth : width ∈ binaryWidths) (hsize : ∀ bs ∈ bytes, bs.length = width)
    (hformat : p.format index = .ok .binary) (hlength : p.length index = .ok (Int32.ofNat width))
    (hdata : p.data index = .ok bytes) : p.sent index = .ok bytes := by
  cases bytes with
  | none => exact sent_of_null hdata
  | some bytes =>
    have hend : claimedEnd (Int32.ofNat width) = bytes.length :=
      (claimedEnd_ofNat hwidth).trans (hsize bytes rfl).symm
    rw [sent_of_binary hdata hformat hlength (Nat.le_of_eq hend), hend, List.take_length]

theorem sent_text {t : StoredText} {content : Bytes} (h : t.Holds content) :
    (text t).sent 0 = .ok (some content) := by
  have hnul : ∀ bs ∈ some content, 0 ∉ bs := by simpa using h.nul_free
  exact sent_of_terminated hnul rfl (data_text h)

theorem sent_binary {bytes : Bytes} (h : bytes.length ∈ binaryWidths) :
    (binary bytes).sent 0 = .ok (some bytes) := by
  have hsize : ∀ bs ∈ some bytes, bs.length = bytes.length := by simp
  exact sent_of_width h hsize rfl rfl rfl

theorem sent_present (p : Param) : (present p).sent 0 = p.sent 0 := rfl

/-- **All is sent but the final nul.** -/
theorem KeepsContract.sent_whole {p : Param} {index : Nat} (h : p.KeepsContract index) :
    (∃ content : Option Bytes, (∀ bs ∈ content, 0 ∉ bs) ∧ p.format index = .ok .text ∧
      p.length index = .ok 0 ∧ p.data index = .ok (content.map (· ++ [0])) ∧
      p.sent index = .ok content) ∨
    ∃ width ∈ binaryWidths, ∃ bytes : Option Bytes, (∀ bs ∈ bytes, bs.length = width) ∧
      p.format index = .ok .binary ∧ p.length index = .ok (Int32.ofNat width) ∧
      p.data index = .ok bytes ∧ p.sent index = .ok bytes := by
  rcases h with ⟨content, hnul, hf, hl, hd⟩ | ⟨width, bytes, hwidth, hsize, hf, hl, hd⟩
  · exact .inl ⟨content, hnul, hf, hl, hd, sent_of_terminated hnul hf hd⟩
  · exact .inr ⟨width, hwidth, bytes, hsize, hf, hl, hd, sent_of_width hwidth hsize hf hl hd⟩

theorem KeepsContract.sent_eq_ok {p : Param} {index : Nat} (h : p.KeepsContract index) :
    ∃ value, p.sent index = .ok value := by
  rcases h.sent_whole with ⟨content, -, -, -, -, hsent⟩ | ⟨_, -, bytes, -, -, -, -, hsent⟩
  · exact ⟨content, hsent⟩
  · exact ⟨bytes, hsent⟩

theorem KeepsContract.format_eq_ok {p : Param} {index : Nat} (h : p.KeepsContract index) :
    ∃ format, p.format index = .ok format := by
  rcases h with ⟨_, _, hformat, _, _⟩ | ⟨_, _, _, _, hformat, _, _⟩
  · exact ⟨.text, hformat⟩
  · exact ⟨.binary, hformat⟩

end Param

end SqlBind
