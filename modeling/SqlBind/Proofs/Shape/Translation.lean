import SqlBind.Proofs.Result
import SqlBind.Proofs.Shape.Place

/-!
# Columns and places correspond

Every column below the total has one place, every place has one column, and the order of columns is
that of their places. The table of starts and the search in it stay within bounds on the way.

* `Place.Owns`: a place within one of the children, and the column of the whole that stands there.
* `locate_eq_ok_iff`: the search finds the place that owns a column, and no other.
* `Place.Before`: places in the order of the children, and within a child in that of its columns.
* `startsFrom_within`, `locateFrom_within`: the table and the search do not leave their bounds.
* `locate_corresponds`: the correspondence as a whole.
-/

namespace SqlBind
set_option autoImplicit false

/-! ## The table -/

theorem length_starts (widths : List Nat) : (starts widths).length = widths.length := by
  induction widths with
  | nil => rfl
  | cons width rest ih => rw [starts_cons, List.length_cons, List.length_map, ih, List.length_cons]

theorem getElem?_starts {widths : List Nat} {child : Nat} (h : child < widths.length) :
    (starts widths)[child]? = some (total (widths.take child)) := by
  induction widths generalizing child with
  | nil => exact absurd h (Nat.not_lt_zero child)
  | cons width rest ih =>
    rw [starts_cons]
    cases child with
    | zero => rfl
    | succ child =>
      rw [List.getElem?_cons_succ, List.getElem?_map, ih (Nat.lt_of_succ_lt_succ h),
        List.take_succ_cons, total_cons]
      rfl

/-! ## The place of a column -/

/-- A place is within one of the children, and `index` is the column of the whole that stands
there. -/
def Place.Owns (widths : List Nat) (place : Place) (index : Nat) : Prop :=
  ∃ width start, widths[place.child]? = some width ∧ (starts widths)[place.child]? = some start ∧
    place.inner < width ∧ start + place.inner = index

theorem owns_first {width inner index : Nat} {rest : List Nat} :
    Place.Owns (width :: rest) ⟨0, inner⟩ index ↔ inner < width ∧ inner = index := by
  rw [Place.Owns, starts_cons]
  simp

theorem owns_next {width index : Nat} {rest : List Nat} (place : Place) :
    place.next.Owns (width :: rest) index ↔
      ∃ later, place.Owns rest later ∧ width + later = index := by
  rw [Place.Owns, starts_cons]
  simp only [Place.next, List.getElem?_cons_succ, List.getElem?_map, Option.map_eq_some_iff]
  constructor
  · rintro ⟨own, _, hown, ⟨start, hstart, rfl⟩, hinner, hindex⟩
    exact ⟨start + place.inner, ⟨own, start, hown, hstart, hinner, rfl⟩, by omega⟩
  · rintro ⟨later, ⟨own, start, hown, hstart, hinner, rfl⟩, hindex⟩
    exact ⟨own, width + start, hown, ⟨start, hstart, rfl⟩, hinner, by omega⟩

theorem owns_of_lt {width index : Nat} {rest : List Nat} {place : Place} (h : index < width) :
    place.Owns (width :: rest) index ↔ place = ⟨0, index⟩ := by
  obtain ⟨child, inner⟩ := place
  rw [Place.mk.injEq]
  cases child with
  | zero =>
    rw [owns_first]
    omega
  | succ child =>
    refine ⟨fun howns => ?_, fun heq => absurd heq.1 (Nat.succ_ne_zero child)⟩
    -- A column of a later child is beyond the first one.
    obtain ⟨later, -, hindex⟩ := (owns_next ⟨child, inner⟩).1 howns
    omega

theorem owns_add {width later : Nat} {rest : List Nat} {place : Place} :
    place.Owns (width :: rest) (width + later) ↔
      ∃ found : Place, found.Owns rest later ∧ found.next = place := by
  obtain ⟨child, inner⟩ := place
  cases child with
  | zero =>
    rw [owns_first]
    constructor
    · omega
    · rintro ⟨found, -, hnext⟩
      cases hnext
  | succ child =>
    constructor
    · intro howns
      obtain ⟨index, hfound, hindex⟩ := (owns_next ⟨child, inner⟩).1 howns
      obtain rfl : index = later := by omega
      exact ⟨⟨child, inner⟩, hfound, rfl⟩
    · rintro ⟨found, hfound, hnext⟩
      rw [← hnext, owns_next]
      exact ⟨later, hfound, rfl⟩

theorem locate_eq_ok_iff {widths : List Nat} {index : Nat} {place : Place} :
    locate widths (starts widths) index = .ok place ↔ place.Owns widths index := by
  induction widths generalizing index place with
  | nil =>
    constructor
    · intro h
      cases h
    · rintro ⟨width, _, hwidth, _⟩
      cases hwidth
  | cons width rest ih =>
    by_cases hfirst : index < width
    · rw [locate_cons_lt rest hfirst, owns_of_lt hfirst, Except.ok.injEq, eq_comm]
    · obtain ⟨later, rfl⟩ : ∃ later, index = width + later := ⟨index - width, by omega⟩
      rw [locate_cons_add, Result.map_eq_ok, owns_add]
      simp only [ih]

theorem locate_eq_error_iff {widths : List Nat} {index : Nat} {fault : Fault} :
    locate widths (starts widths) index = .error fault ↔
      total widths ≤ index ∧ fault = .noOwner := by
  induction widths generalizing index with
  | nil =>
    show Except.error Fault.noOwner = Except.error fault ↔ _
    rw [Except.error.injEq, eq_comm]
    exact (and_iff_right (Nat.zero_le index)).symm
  | cons width rest ih =>
    rw [total_cons]
    by_cases hfirst : index < width
    · have hinside : ¬width + total rest ≤ index := by omega
      rw [locate_cons_lt rest hfirst]
      simp [hinside]
    · obtain ⟨later, rfl⟩ : ∃ later, index = width + later := ⟨index - width, by omega⟩
      rw [locate_cons_add, Result.map_eq_error, ih, Nat.add_le_add_iff_left]

theorem exists_place {widths : List Nat} {index : Nat} (h : index < total widths) :
    ∃ place, locate widths (starts widths) index = .ok place := by
  cases hfound : locate widths (starts widths) index with
  | ok place => exact ⟨place, rfl⟩
  | error fault => exact absurd (locate_eq_error_iff.1 hfound).1 (Nat.not_le.2 h)

theorem exists_owner {widths : List Nat} {place : Place} {width : Nat}
    (hwidth : widths[place.child]? = some width) (hinner : place.inner < width) :
    ∃ index, place.Owns widths index := by
  have hchild : place.child < widths.length := (List.getElem?_eq_some_iff.1 hwidth).1
  exact ⟨_, width, _, hwidth, getElem?_starts hchild, hinner, rfl⟩

/-! ## The order of places -/

/-- Places in the order of the children, and within a child in that of its columns. -/
def Place.Before (a b : Place) : Prop :=
  a.child < b.child ∨ a.child = b.child ∧ a.inner < b.inner

theorem before_of_lt {widths : List Nat} {index later : Nat} {a b : Place}
    (ha : a.Owns widths index) (hb : b.Owns widths later) (h : index < later) : a.Before b := by
  induction widths generalizing index later a b with
  | nil =>
    obtain ⟨width, _, hwidth, _⟩ := ha
    cases hwidth
  | cons width rest ih =>
    by_cases hfirst : later < width
    · rw [owns_of_lt (Nat.lt_trans h hfirst)] at ha
      rw [owns_of_lt hfirst] at hb
      rw [ha, hb]
      exact .inr ⟨rfl, h⟩
    · obtain ⟨j, rfl⟩ : ∃ j, later = width + j := ⟨later - width, by omega⟩
      obtain ⟨b', hlater, rfl⟩ := owns_add.1 hb
      by_cases hown : index < width
      · rw [owns_of_lt hown] at ha
        rw [ha]
        exact .inl (Nat.succ_pos b'.child)
      · obtain ⟨i, rfl⟩ : ∃ i, index = width + i := ⟨index - width, by omega⟩
        obtain ⟨a', hown, rfl⟩ := owns_add.1 ha
        exact (ih hown hlater (by omega)).imp Nat.succ_lt_succ fun h => ⟨congrArg Nat.succ h.1, h.2⟩

theorem lt_of_before {widths : List Nat} {index later : Nat} {a b : Place}
    (ha : a.Owns widths index) (hb : b.Owns widths later) (h : a.Before b) : index < later := by
  rcases Nat.lt_trichotomy index later with hlt | rfl | hgt
  · exact hlt
  · have hsame : a = b :=
      Except.ok.inj ((locate_eq_ok_iff.2 ha).symm.trans (locate_eq_ok_iff.2 hb))
    rw [hsame, Place.Before] at h
    omega
  · have hback := before_of_lt hb ha hgt
    rw [Place.Before] at h hback
    omega

/-! ## Bounds of the arithmetic -/

theorem startsFrom_within {limit start : Nat} {widths : List Nat}
    (h : start + total widths ≤ limit) :
    (Steps.within limit).startsFrom start widths = some (startsFrom start widths) := by
  induction widths generalizing start with
  | nil => rfl
  | cons width rest ih =>
    rw [total_cons, ← Nat.add_assoc] at h
    have hstop : start + width ≤ limit := Nat.le_trans (Nat.le_add_right _ _) h
    rw [Steps.startsFrom, Steps.within_sum hstop, startsFrom_cons]
    simp only [bind, Option.bind, ih h]
    rfl

theorem locateFrom_within {limit child start index : Nat} {widths : List Nat}
    (h : start + total widths ≤ limit) (hindex : start ≤ index) :
    (Steps.within limit).locateFrom child widths (startsFrom start widths) index =
      some (locateFrom child widths (startsFrom start widths) index) := by
  induction widths generalizing child start with
  | nil => rfl
  | cons width rest ih =>
    rw [total_cons, ← Nat.add_assoc] at h
    have hstop : start + width ≤ limit := Nat.le_trans (Nat.le_add_right _ _) h
    rw [startsFrom_cons, Steps.locateFrom, Steps.within_sum hstop, locateFrom_cons]
    by_cases hfirst : index < start + width
    · simp only [bind, Option.bind, if_pos hfirst, Steps.within_difference hindex]
      rfl
    · -- The index is beyond this child, so it is not before the start of the next one.
      simp only [bind, Option.bind, if_neg hfirst]
      exact ih h (Nat.not_lt.1 hfirst)

/-! ## The correspondence -/

/-- **Columns and places correspond.** A child starts where the widths before it end. A column has a
place just when it is below the total, and then it is the one place that owns it, within a child
that has columns at all. Every such place is the place of a column. The order of columns is that of
their places. And where a limit is not below the total, no number on the way is above that limit or
below zero. -/
theorem locate_corresponds (widths : List Nat) :
    ((starts widths).length = widths.length ∧
      ∀ child < widths.length, (starts widths)[child]? = some (total (widths.take child))) ∧
    (∀ index, (∃ fault, locate widths (starts widths) index = .error fault) ↔
      total widths ≤ index) ∧
    (∀ index < total widths, ∃ place, locate widths (starts widths) index = .ok place) ∧
    (∀ index place, locate widths (starts widths) index = .ok place ↔ place.Owns widths index) ∧
    (∀ (place : Place) (width : Nat), widths[place.child]? = some width → place.inner < width →
      ∃ index < total widths, locate widths (starts widths) index = .ok place) ∧
    (∀ index later a b, locate widths (starts widths) index = .ok a →
      locate widths (starts widths) later = .ok b → (index < later ↔ a.Before b)) ∧
    ∀ limit, total widths ≤ limit →
      (Steps.within limit).startsFrom 0 widths = some (starts widths) ∧
      ∀ index, (Steps.within limit).locateFrom 0 widths (starts widths) index =
        some (locate widths (starts widths) index) := by
  refine ⟨⟨length_starts widths, fun _ => getElem?_starts⟩, ?_, fun _ => exists_place,
    fun _ _ => locate_eq_ok_iff, ?_, ?_, ?_⟩
  · intro index
    constructor
    · rintro ⟨fault, hfault⟩
      exact (locate_eq_error_iff.1 hfault).1
    · exact fun h => ⟨.noOwner, locate_eq_error_iff.2 ⟨h, rfl⟩⟩
  · intro place width hwidth hinner
    obtain ⟨index, howns⟩ := exists_owner hwidth hinner
    have hplace := locate_eq_ok_iff.2 howns
    refine ⟨index, Nat.lt_of_not_le fun hbeyond => ?_, hplace⟩
    rw [locate_eq_error_iff.2 ⟨hbeyond, rfl⟩] at hplace
    cases hplace
  · intro index later a b ha hb
    have hown := locate_eq_ok_iff.1 ha
    have hown' := locate_eq_ok_iff.1 hb
    exact ⟨before_of_lt hown hown', lt_of_before hown hown'⟩
  · intro limit hlimit
    have hsum : 0 + total widths ≤ limit := by omega
    exact ⟨startsFrom_within hsum, fun index => locateFrom_within hsum (Nat.zero_le index)⟩

/-- Four columns of five children, two of which have none, in an arithmetic up to four. -/
theorem locate_corresponds_gaps :
    starts [1, 0, 2, 0, 1] = [0, 1, 1, 3, 3] ∧
      locate [1, 0, 2, 0, 1] (starts [1, 0, 2, 0, 1]) 2 = .ok ⟨2, 1⟩ ∧
      (⟨2, 1⟩ : Place).Owns [1, 0, 2, 0, 1] 2 ∧ (⟨2, 1⟩ : Place).Before ⟨4, 0⟩ ∧
      (∃ index < 4, locate [1, 0, 2, 0, 1] (starts [1, 0, 2, 0, 1]) index = .ok ⟨4, 0⟩) ∧
      (∃ fault, locate [1, 0, 2, 0, 1] (starts [1, 0, 2, 0, 1]) 4 = .error fault) ∧
      (Steps.within 4).startsFrom 0 [1, 0, 2, 0, 1] = some [0, 1, 1, 3, 3] := by
  obtain ⟨-, hbeyond, -, howns, hhit, horder, hwithin⟩ := locate_corresponds [1, 0, 2, 0, 1]
  exact ⟨rfl, rfl, (howns 2 _).1 rfl, (horder 2 3 _ _ rfl rfl).1 (by decide),
    hhit ⟨4, 0⟩ 1 rfl (by decide), (hbeyond 4).2 (by decide), (hwithin 4 (by decide)).1⟩

end SqlBind
