import SqlBind.Proofs.Bind.Outcome
import SqlBind.Proofs.Param.Contract

/-!
# Sections that end early

A fault ends the writing at once, and what was written and reported before it stays.

* `Run.of_append_stop`: a run is cut at its first fault.
* `Param.sectionRun_of_uncounted`: columns that cannot be counted are not begun.
* `Param.sectionRun_of_stop`: before the column that ends the writing everything is done.
* `Param.sectionRun_of_unsaid`: a value that is longer than its length field can say is reported and
  not written; `sectionRun_text_of_unsaid` is the section of such a text alone, and `longText` the
  shortest one of letters.
-/

namespace SqlBind
set_option autoImplicit false

theorem Run.of_append_stop {before after : List Effect} {fault : Fault}
    (h : ∀ e ∈ before, e.fault? = none) :
    Run.of (before ++ .stop fault :: after) = ⟨before, some fault⟩ := by
  have hpass : ∀ e ∈ before, e.fault?.isNone = true := fun e he =>
    Option.isNone_iff_eq_none.2 (h e he)
  have hfound : before.findSome? Effect.fault? = none := List.findSome?_eq_none_iff.2 h
  have hstop : List.findSome? Effect.fault? (.stop fault :: after) = some fault := rfl
  rw [Run.of, List.takeWhile_append_of_pos hpass, List.findSome?_append, hfound, hstop]
  simp [Effect.fault?]

theorem exists_range_eq_append_cons {index n : Nat} (h : index < n) :
    ∃ later, List.range n = List.range index ++ index :: later := by
  obtain ⟨count, rfl⟩ : ∃ count, n = index + (count + 1) := ⟨n - index - 1, by omega⟩
  refine ⟨(List.range count).map fun i => index + (i + 1), ?_⟩
  rw [List.range_add, List.range_succ_eq_map, List.map_cons, List.map_map]
  rfl

namespace Param

variable {p : Param}

theorem fault_startEffects {count : Nat}
    (hformats : ∀ index < p.columns, p.formatFault index = none)
    (hvalues : ∀ index < count, p.columnFault index = none) :
    ∀ e ∈ p.startEffects count, e.fault? = none := by
  intro e he
  simp only [startEffects, List.cons_append, List.mem_cons, List.mem_append, List.mem_map,
    List.mem_flatMap, List.mem_range] at he
  rcases he with rfl | ⟨index, hindex, rfl⟩ | rfl | ⟨index, hindex, he⟩
  · rfl
  · rw [fault_formatEffect, hformats index hindex]
  · rfl
  · have hfound := p.fault_columnEffects index
    rw [hvalues index hindex] at hfound
    exact List.findSome?_eq_none_iff.1 hfound e he

theorem exists_values_of_columnFault {n : Nat} (h : ∀ index < n, p.columnFault index = none) :
    ∃ values : List (Option Bytes), values.length = n ∧
      (List.range n).map p.sent = values.map .ok ∧
      ∀ value ∈ values, valueSize value ≤ longestValue := by
  have hanswer : ∀ answer ∈ (List.range n).map p.sent, ∃ value, answer = .ok value := by
    intro answer hmem
    obtain ⟨index, hindex, rfl⟩ := List.mem_map.1 hmem
    obtain ⟨value, hsent, -⟩ := columnFault_eq_none_iff.1 (h index (List.mem_range.1 hindex))
    exact ⟨value, hsent⟩
  obtain ⟨values, hvalues⟩ := exists_eq_map_ok hanswer
  refine ⟨values, by simpa using (congrArg List.length hvalues).symm, hvalues, ?_⟩
  intro value hvalue
  have hmem : Except.ok value ∈ (List.range n).map p.sent := hvalues ▸ List.mem_map_of_mem hvalue
  obtain ⟨index, hindex, hsent⟩ := List.mem_map.1 hmem
  obtain ⟨value', hsent', hfits⟩ := columnFault_eq_none_iff.1 (h index (List.mem_range.1 hindex))
  rw [hsent] at hsent'
  cases hsent'
  exact hfits

theorem sectionRun_of_uncounted (h : mostColumns < p.columns) :
    p.sectionRun = ⟨[], some .tooManyColumns⟩ := by
  rw [sectionRun, sectionEffects, if_neg (Nat.not_le.2 h)]
  rfl

/-- **A section that ends early.** All that comes before the column that ends it has been done, and
of that column what comes before the fault. -/
theorem sectionRun_of_stop {index : Nat} {before after : List Effect} {fault : Fault}
    (hcount : p.columns ≤ mostColumns)
    (hformats : ∀ index < p.columns, ∃ format, p.format index = .ok format)
    (hindex : index < p.columns) (hearlier : ∀ earlier < index, p.columnFault earlier = none)
    (hbefore : ∀ e ∈ before, e.fault? = none)
    (hcolumn : p.columnEffects index = before ++ .stop fault :: after) :
    p.sectionRun = ⟨p.startEffects index ++ before, some fault⟩ := by
  obtain ⟨later, hrange⟩ := exists_range_eq_append_cons hindex
  have hcolumns : (List.range p.columns).flatMap p.columnEffects =
      (List.range index).flatMap p.columnEffects ++
        (before ++ .stop fault :: (after ++ later.flatMap p.columnEffects)) := by
    rw [hrange, List.flatMap_append, List.flatMap_cons, hcolumn, List.append_assoc,
      List.cons_append]
  have heffects : p.sectionEffects = (p.startEffects index ++ before) ++
      .stop fault :: (after ++ later.flatMap p.columnEffects) := by
    rw [sectionEffects, if_pos hcount, hcolumns, startEffects]
    simp only [List.cons_append, List.append_assoc]
  have hstart := fault_startEffects
    (fun index hindex => formatFault_eq_none_iff.2 (hformats index hindex)) hearlier
  rw [sectionRun, heffects]
  apply Run.of_append_stop
  intro e he
  rcases List.mem_append.1 he with he | he
  · exact hstart e he
  · exact hbefore e he

/-! ## Values that are too long -/

/-- **A value that is too long.** It has been measured and reported when the writing ends, and
nothing of it is written. -/
theorem sectionRun_of_unsaid {index : Nat} {value : Bytes} (hcount : p.columns ≤ mostColumns)
    (hformats : ∀ index < p.columns, ∃ format, p.format index = .ok format)
    (hindex : index < p.columns) (hearlier : ∀ earlier < index, p.columnFault earlier = none)
    (hsent : p.sent index = .ok (some value)) (hlong : longestValue < value.length) :
    p.sectionRun = ⟨p.startEffects index ++ [.report (.measured index value.length)],
      some .valueTooLarge⟩ := by
  have heffects : p.columnEffects index =
      [.report (.measured index value.length)] ++ [.stop .valueTooLarge] := by
    rw [columnEffects, hsent]
    exact if_neg (Nat.not_le.2 hlong)
  exact sectionRun_of_stop hcount hformats hindex hearlier (by simp [Effect.fault?]) heffects

theorem columns_text_le (t : StoredText) : (text t).columns ≤ mostColumns := by
  show 1 ≤ 65535
  decide

theorem sectionRun_text_of_unsaid {t : StoredText} {content : Bytes} (ht : t.Holds content)
    (hlong : longestValue < content.length) :
    (text t).sectionRun = ⟨[.write (bigEndian 2 1), .write (bigEndian 2 0), .write (bigEndian 2 1),
      .report (.measured 0 content.length)], some .valueTooLarge⟩ := by
  have hindex : 0 < (text t).columns := Nat.one_pos
  have hformats : ∀ index < (text t).columns, ∃ format, (text t).format index = .ok format := by
    intro index hindex
    obtain rfl : index = 0 := Nat.lt_one_iff.1 hindex
    exact ⟨.text, rfl⟩
  exact sectionRun_of_unsaid (columns_text_le t) hformats hindex
    (fun earlier hlt => absurd hlt (Nat.not_lt_zero earlier)) (sent_text ht) hlong

theorem bytes_text_of_unsaid {t : StoredText} {content : Bytes} (ht : t.Holds content)
    (hlong : longestValue < content.length) :
    (text t).sectionRun.bytes = [0, 1, 0, 0, 0, 1] := by
  rw [sectionRun_text_of_unsaid ht hlong]
  rfl

theorem events_text_of_unsaid {t : StoredText} {content : Bytes} (ht : t.Holds content)
    (hlong : longestValue < content.length) :
    (text t).sectionRun.events = [.measured 0 content.length] := by
  rw [sectionRun_text_of_unsaid ht hlong]
  rfl

end Param

/-- A text of one letter more than its length field can say. -/
def longText : CText :=
  letters (longestValue + 1)

theorem longestValue_lt_longText : longestValue < longText.bytes.length := by
  rw [longText, length_letters]
  exact Nat.lt_succ_self longestValue

theorem fault_longText : (Param.text (.owned longText)).sectionRun.fault = some .valueTooLarge := by
  rw [Param.sectionRun_text_of_unsaid StoredText.Route.owned.holds longestValue_lt_longText]

end SqlBind
