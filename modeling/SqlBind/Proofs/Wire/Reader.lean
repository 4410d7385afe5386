/-!
# Readers

* `Reader σ α`: reads something off the front of a row of symbols and leaves what follows.
* `Reads read row a`: whatever follows `row`, the reader takes `row` and nothing else, and makes `a`
  of it.
* `ReadsBefore stop read row a`: the same where the row ends or goes on with a symbol of some kind,
  for readers that stop at such a symbol.
* `takeWhile_append_of_head`: where a run of symbols of one kind ends.
* `Reads.eq_of_append`: no row that a reader takes is a beginning of another one;
  `Reads.flatten_inj`: rows that stand one after another fall apart in one way only.
-/

namespace SqlBind
set_option autoImplicit false

variable {σ α β : Type}

/-- Reads something off the front of a row of symbols, and leaves what follows it. -/
abbrev Reader (σ α : Type) := StateT (List σ) Option α

def Reader.next : Reader σ σ := fun row =>
  match row with
  | [] => none
  | a :: rest => some (a, rest)

def Reader.take (n : Nat) : Reader σ (List σ) := fun row =>
  if n ≤ row.length then some (row.take n, row.drop n) else none

/-- Takes one symbol, which must be this one. -/
def Reader.expect [DecidableEq σ] (a : σ) : Reader σ Unit := fun row =>
  match row with
  | [] => none
  | b :: rest => if b = a then some ((), rest) else none

/-- Takes nothing, and has a result if there is one. -/
def Reader.ofOption (result : Option α) : Reader σ α := fun row =>
  result.map (·, row)

/-- The same reader `n` times over. -/
def Reader.times (read : Reader σ α) : Nat → Reader σ (List α)
  | 0 => pure []
  | n + 1 => do
    let a ← read
    let rest ← times read n
    return a :: rest

/-- What is read off a row if nothing of it is left over. -/
def Reader.whole (read : Reader σ α) (row : List σ) : Option α :=
  match read.run row with
  | some (a, []) => some a
  | _ => none

/-- The reader takes exactly this row and makes this of it, whatever follows. -/
def Reads (read : Reader σ α) (row : List σ) (a : α) : Prop :=
  ∀ rest, read.run (row ++ rest) = some (a, rest)

namespace Reads

variable {read : Reader σ α}

theorem pure (a : α) : Reads (pure a : Reader σ α) [] a := fun _ => rfl

theorem bind {next : α → Reader σ β} {row row' : List σ} {a : α} {b : β} (h : Reads read row a)
    (hnext : Reads (next a) row' b) : Reads (read >>= next) (row ++ row') b := by
  intro rest
  rw [StateT.run_bind, List.append_assoc, h (row' ++ rest)]
  exact hnext rest

theorem map {row : List σ} {a : α} (f : α → β) (h : Reads read row a) :
    Reads (f <$> read) row (f a) := by
  intro rest
  rw [StateT.run_map, h rest]
  rfl

theorem of_map {f : α → β} (hf : Function.Injective f) {row : List σ} {a : α}
    (h : Reads (f <$> read) row (f a)) : Reads read row a := by
  intro rest
  have hread := h rest
  rw [StateT.run_map] at hread
  obtain ⟨⟨a', rest'⟩, hrun, heq⟩ := Option.map_eq_some_iff.1 hread
  obtain ⟨hfirst, hsecond⟩ := Prod.mk.inj heq
  exact hrun.trans (congrArg Option.some (Prod.ext (hf hfirst) hsecond))

theorem take (row : List σ) : Reads (Reader.take row.length) row row := by
  intro rest
  show Reader.take row.length (row ++ rest) = some (row, rest)
  rw [Reader.take, if_pos (by simp), List.take_left, List.drop_left]

theorem times {write : α → List σ} (as : List α) (h : ∀ a ∈ as, Reads read (write a) a) :
    Reads (read.times as.length) (as.flatMap write) as := by
  induction as with
  | nil => exact pure []
  | cons a rest ih =>
    have hrest := ih fun b hb => h b (List.mem_cons_of_mem a hb)
    have hcons : Reads (read.times rest.length >>= fun bs => Pure.pure (a :: bs))
        (rest.flatMap write ++ []) (a :: rest) := hrest.bind (pure (a :: rest))
    rw [List.append_nil] at hcons
    exact (h a List.mem_cons_self).bind hcons

theorem next (a : σ) : Reads Reader.next [a] a := fun _ => rfl

theorem expect [DecidableEq σ] (a : σ) : Reads (Reader.expect a) [a] () := fun _ => if_pos rfl

theorem ofOption {result : Option α} {a : α} (h : result = some a) :
    Reads (σ := σ) (Reader.ofOption result) [] a := by
  subst h
  exact fun _ => rfl

/-! ## Where a row ends -/

theorem eq_of_append {row row' rest rest' : List σ} {a b : α} (h : Reads read row a)
    (h' : Reads read row' b) (heq : row ++ rest = row' ++ rest') : row = row' ∧ rest = rest' := by
  have hread : some (a, rest) = some (b, rest') := by rw [← h rest, ← h' rest', heq]
  have hrest : rest = rest' := congrArg Prod.snd (Option.some.inj hread)
  subst hrest
  exact ⟨List.append_cancel_right heq, rfl⟩

theorem eq_of_begins {row row' : List σ} {a b : α} (h : Reads read row a) (h' : Reads read row' b)
    (hbegins : row <+: row') : row = row' := by
  obtain ⟨rest, hrest⟩ := hbegins
  exact (h.eq_of_append h' (hrest.trans (List.append_nil row').symm)).1

theorem flatten_inj {rows rows' : List (List σ)}
    (h : ∀ row ∈ rows, row ≠ [] ∧ ∃ a, Reads read row a)
    (h' : ∀ row ∈ rows', row ≠ [] ∧ ∃ a, Reads read row a) (heq : rows.flatten = rows'.flatten) :
    rows = rows' := by
  induction rows generalizing rows' with
  | nil =>
    cases rows' with
    | nil => rfl
    | cons row' rest' =>
      have hempty := (h' row' List.mem_cons_self).1
      rw [List.flatten_nil, List.flatten_cons] at heq
      exact absurd (List.append_eq_nil_iff.1 heq.symm).1 hempty
  | cons row rest ih =>
    cases rows' with
    | nil =>
      have hempty := (h row List.mem_cons_self).1
      rw [List.flatten_nil, List.flatten_cons] at heq
      exact absurd (List.append_eq_nil_iff.1 heq).1 hempty
    | cons row' rest' =>
      obtain ⟨_, a, ha⟩ := h row List.mem_cons_self
      obtain ⟨_, b, hb⟩ := h' row' List.mem_cons_self
      rw [List.flatten_cons, List.flatten_cons] at heq
      obtain ⟨hrow, hrest⟩ := ha.eq_of_append hb heq
      have hih := ih (fun r hr => h r (List.mem_cons_of_mem row hr))
        (fun r hr => h' r (List.mem_cons_of_mem row' hr)) hrest
      rw [hrow, hih]

end Reads

/-! ## Readers that stop at a symbol -/

/-- A run of symbols of one kind ends where a symbol of another kind follows. -/
theorem takeWhile_append_of_head {p : σ → Bool} {row rest : List σ} (hrow : ∀ a ∈ row, p a = true)
    (hrest : ∀ a ∈ rest.head?, p a = false) :
    (row ++ rest).takeWhile p = row ∧ (row ++ rest).dropWhile p = rest := by
  have hempty : rest.takeWhile p = [] ∧ rest.dropWhile p = rest := by
    cases rest with
    | nil => exact ⟨rfl, rfl⟩
    | cons a rest =>
      have ha : ¬p a = true := by
        rw [hrest a rfl]
        exact Bool.false_ne_true
      exact ⟨List.takeWhile_cons_of_neg ha, List.dropWhile_cons_of_neg ha⟩
  rw [List.takeWhile_append_of_pos hrow, List.dropWhile_append_of_pos hrow, hempty.1, hempty.2,
    List.append_nil]
  exact ⟨rfl, rfl⟩

/-- As `Reads`, where the row ends or goes on with such a symbol. -/
def ReadsBefore (stop : σ → Prop) (read : Reader σ α) (row : List σ) (a : α) : Prop :=
  ∀ rest, (∀ b ∈ rest.head?, stop b) → read.run (row ++ rest) = some (a, rest)

theorem Reads.before {stop : σ → Prop} {read : Reader σ α} {row : List σ} {a : α}
    (h : Reads read row a) : ReadsBefore stop read row a := fun rest _ => h rest

theorem Reads.bindBefore {stop : σ → Prop} {read : Reader σ α} {next : α → Reader σ β}
    {row row' : List σ} {a : α} {b : β} (h : Reads read row a)
    (hnext : ReadsBefore stop (next a) row' b) :
    ReadsBefore stop (read >>= next) (row ++ row') b := by
  intro rest hrest
  rw [StateT.run_bind, List.append_assoc, h (row' ++ rest)]
  exact hnext rest hrest

namespace ReadsBefore

variable {stop : σ → Prop} {read : Reader σ α}

theorem bind {next : α → Reader σ β} {row row' : List σ} {a : α} {b : β} {c : σ}
    (h : ReadsBefore stop read row a) (hc : stop c) (hnext : Reads (next a) (c :: row') b) :
    Reads (read >>= next) (row ++ c :: row') b := by
  intro rest
  have hread := h (c :: row' ++ rest) (by simpa using hc)
  rw [StateT.run_bind, List.append_assoc, hread]
  exact hnext rest

theorem bindPure {next : α → Reader σ β} {row : List σ} {a : α} {b : β}
    (h : ReadsBefore stop read row a) (hnext : next a = pure b) :
    ReadsBefore stop (read >>= next) row b := by
  intro rest hrest
  rw [StateT.run_bind, h rest hrest, Option.bind_eq_bind, Option.bind_some, hnext]
  rfl

theorem whole {row : List σ} {a : α} (h : ReadsBefore stop read row a) :
    read.whole row = some a := by
  have hread := h [] (by simp)
  rw [List.append_nil] at hread
  rw [Reader.whole, hread]

end ReadsBefore

theorem Reads.whole {read : Reader σ α} {row : List σ} {a : α} (h : Reads read row a) :
    read.whole row = some a :=
  (h.before : ReadsBefore (fun _ => True) read row a).whole

end SqlBind
