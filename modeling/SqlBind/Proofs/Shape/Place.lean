import SqlBind.Shape.Place

/-!
# Looking a column up child by child

The table of starts is a running total, so putting a child in front moves every other start by the
width of that child, and the search can be followed one child at a time.

* `Place.next`: the same place, seen with one more child in front.
* `locate_cons_lt`, `locate_cons_add`: a column of the first child, and a column of a later one.
* `exists_locate`: every column has a place, and what is read child by child is read there.
-/

namespace SqlBind
set_option autoImplicit false

/-- The same place, with one more child in front. -/
def Place.next (place : Place) : Place :=
  ⟨place.child + 1, place.inner⟩

theorem startsFrom_add (a b : Nat) (widths : List Nat) :
    startsFrom (a + b) widths = (startsFrom b widths).map (a + ·) := by
  induction widths generalizing b with
  | nil => rfl
  | cons width rest ih =>
    rw [startsFrom_cons, startsFrom_cons, Nat.add_assoc, ih]
    rfl

theorem starts_cons (width : Nat) (widths : List Nat) :
    starts (width :: widths) = 0 :: (starts widths).map (width + ·) := by
  have h := startsFrom_add width 0 widths
  rw [Nat.add_zero] at h
  rw [starts, startsFrom_cons, Nat.zero_add, h]
  rfl

/-! ## The search -/

theorem locateFrom_succ (child : Nat) (widths starts : List Nat) (index : Nat) :
    locateFrom (child + 1) widths starts index =
      (locateFrom child widths starts index).map Place.next := by
  induction widths generalizing child starts with
  | nil => cases starts <;> rfl
  | cons width rest ih =>
    cases starts with
    | nil => rfl
    | cons start starts =>
      rw [locateFrom_cons, locateFrom_cons]
      by_cases h : index < start + width
      · rw [if_pos h, if_pos h]
        rfl
      · rw [if_neg h, if_neg h]
        exact ih (child + 1) starts

theorem locateFrom_add (child a : Nat) (widths starts : List Nat) (index : Nat) :
    locateFrom child widths (starts.map (a + ·)) (a + index) =
      locateFrom child widths starts index := by
  induction widths generalizing child starts with
  | nil => cases starts <;> rfl
  | cons width rest ih =>
    cases starts with
    | nil => rfl
    | cons start starts =>
      rw [List.map_cons, locateFrom_cons, locateFrom_cons]
      by_cases h : index < start + width
      · have h' : a + index < a + start + width := by omega
        have hinner : a + index - (a + start) = index - start := by omega
        rw [if_pos h, if_pos h', hinner]
      · have h' : ¬a + index < a + start + width := by omega
        rw [if_neg h, if_neg h']
        exact ih (child + 1) starts

theorem locate_cons_lt {width index : Nat} (widths : List Nat) (h : index < width) :
    locate (width :: widths) (starts (width :: widths)) index = .ok ⟨0, index⟩ := by
  rw [locate, starts_cons, locateFrom_cons, Nat.zero_add, if_pos h, Nat.sub_zero]

theorem locate_cons_add (width : Nat) (widths : List Nat) (index : Nat) :
    locate (width :: widths) (starts (width :: widths)) (width + index) =
      (locate widths (starts widths) index).map Place.next := by
  have h : ¬width + index < 0 + width := by omega
  rw [locate, starts_cons, locateFrom_cons, if_neg h, locateFrom_add, locateFrom_succ]
  rfl

/-- A reading `f` of several things side by side that reads the first of them as `g` does, and the
later ones like itself, reads every column at its place as `g` does. -/
theorem exists_locate {τ β : Type} {columns : τ → Nat} {f : List τ → Nat → β} {g : τ → Nat → β}
    (first : ∀ {t : τ} {rest : List τ} {i : Nat}, i < columns t → f (t :: rest) i = g t i)
    (later : ∀ {t : τ} {rest : List τ} {i : Nat}, i < total (rest.map columns) →
      f (t :: rest) (columns t + i) = f rest i)
    {ts : List τ} {i : Nat} (h : i < total (ts.map columns)) :
    ∃ place t, locate (ts.map columns) (starts (ts.map columns)) i = .ok place ∧
      ts[place.child]? = some t ∧ place.inner < columns t ∧ f ts i = g t place.inner := by
  induction ts generalizing i with
  | nil => exact absurd h (Nat.not_lt_zero i)
  | cons t rest ih =>
    rw [List.map_cons, total_cons] at h
    rw [List.map_cons]
    by_cases hfirst : i < columns t
    · exact ⟨⟨0, i⟩, t, locate_cons_lt _ hfirst, rfl, hfirst, first hfirst⟩
    · obtain ⟨j, rfl⟩ : ∃ j, i = columns t + j := ⟨i - columns t, by omega⟩
      have hj : j < total (rest.map columns) := by omega
      obtain ⟨place, u, hplace, hget, hlt, hread⟩ := ih hj
      refine ⟨place.next, u, ?_, hget, hlt, (later hj).trans hread⟩
      rw [locate_cons_add, hplace]
      rfl

end SqlBind
