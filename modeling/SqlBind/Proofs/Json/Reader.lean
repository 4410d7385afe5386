import SqlBind.Proofs.Json.Texts
import SqlBind.Proofs.Text.Readings
import SqlBind.Proofs.Wire.Reader

/-!
# Reading JSON

A reader of JSON texts that loses nothing: the entries of an object stay in order, repeated names
included, and the token of a number stays as it is written. Which characters it skips between tokens
is a parameter; a text that is read with no such character has no insignificant blanks.

* `Meaning`: what a reader finds.
* `isNumber token`: the number tokens of JSON.
* `Parse.string`, `Parse.value`: readers of string literals and of values.
* `read? blank cs`: the meaning of a text that is one value.
* `Parse.Stands`: a text that is read as a value wherever no number goes on behind it; `stands_null`
  and its siblings: the texts that a writer puts together.
-/

namespace SqlBind.Json
set_option autoImplicit false

/-- What a JSON text means. -/
inductive Meaning where
  | null
  | bool (b : Bool)
  /-- A number, by its token. -/
  | number (token : List Char)
  | string (cs : List Char)
  | array (items : List Meaning)
  /-- Entries in order; names may repeat. -/
  | object (entries : List (List Char × Meaning))

/-! ## Number tokens -/

def isDigits (cs : List Char) : Bool :=
  !cs.isEmpty && cs.all Char.isDigit

/-- Digits, without a zero in front of others. -/
def isWhole (cs : List Char) : Bool :=
  isDigits cs && (cs == ['0'] || cs.head? != some '0')

/-- Nothing, or an `e` and digits, which may have a sign. -/
def isExponent : List Char → Bool
  | [] => true
  | mark :: '+' :: digits => (mark == 'e' || mark == 'E') && isDigits digits
  | mark :: '-' :: digits => (mark == 'e' || mark == 'E') && isDigits digits
  | mark :: digits => (mark == 'e' || mark == 'E') && isDigits digits

/-- What may stand behind the whole part: a point and digits, and an exponent. -/
def isFraction : List Char → Bool
  | '.' :: cs => isDigits (cs.takeWhile Char.isDigit) && isExponent (cs.dropWhile Char.isDigit)
  | cs => isExponent cs

def isUnsigned (cs : List Char) : Bool :=
  isWhole (cs.takeWhile Char.isDigit) && isFraction (cs.dropWhile Char.isDigit)

/-- The number tokens of JSON. -/
def isNumber : List Char → Bool
  | '-' :: cs => isUnsigned cs
  | cs => isUnsigned cs

/-- The characters of number tokens. -/
def numberChar (c : Char) : Bool :=
  c.isDigit || c == '-' || c == '+' || c == '.' || c == 'e' || c == 'E'

/-- The characters that may stand between tokens. -/
def isBlank (c : Char) : Bool :=
  c == ' ' || c == '\t' || c == '\n' || c == '\r'

namespace Parse

/-! ## String literals -/

def hexNumber? (cs : List Char) : Option Nat :=
  cs.foldlM (fun n c => (Hex.digit? c.toLower).map (16 * n + ·)) 0

/-- Four hexadecimal digits. -/
def codeUnit : Reader Char Nat :=
  Reader.take 4 >>= fun digits => Reader.ofOption (hexNumber? digits)

/-- A character by its code, or by two surrogates. -/
def unicode : Reader Char Char := do
  let first ← codeUnit
  if 0xD800 ≤ first ∧ first < 0xDC00 then
    Reader.expect '\\'
    Reader.expect 'u'
    let second ← codeUnit
    if 0xDC00 ≤ second ∧ second < 0xE000 then
      return Char.ofNat (0x10000 + 0x400 * (first - 0xD800) + (second - 0xDC00))
    else failure
  else if 0xDC00 ≤ first ∧ first < 0xE000 then failure
  else return Char.ofNat first

/-- The character that a backslash and what follows it stand for. -/
def escape : Reader Char Char := do
  let mark ← Reader.next
  match mark with
  | '"' => return '"'
  | '\\' => return '\\'
  | '/' => return '/'
  | 'b' => return '\x08'
  | 'f' => return '\x0c'
  | 'n' => return '\n'
  | 'r' => return '\r'
  | 't' => return '\t'
  | 'u' => unicode
  | _ => failure

/-- So many characters at most, and the quote behind them. -/
def characters : Nat → Reader Char (List Char)
  | 0 => failure
  | limit + 1 => do
    let c ← Reader.next
    if c = '"' then return []
    else if c = '\\' then
      let c ← escape
      (c :: ·) <$> characters limit
    else if c.toNat < 0x20 then failure
    else (c :: ·) <$> characters limit

/-- A string literal behind its opening quote. No text holds more characters than are left. -/
def string : Reader Char (List Char) := fun row =>
  (characters row.length).run row

/-! ## Values -/

def literal (rest : List Char) (m : Meaning) : Reader Char Meaning := do
  let cs ← Reader.take rest.length
  if cs = rest then return m else failure

/-- A number token, which goes as far as its characters go. -/
def number (first : Char) : Reader Char Meaning := fun row =>
  if isNumber (first :: row.takeWhile numberChar) then
    some (.number (first :: row.takeWhile numberChar), row.dropWhile numberChar)
  else none

variable (blank : Char → Bool)

def blanks : Reader Char Unit := fun row =>
  some ((), row.dropWhile blank)

/-- Members with commas between them, so many at most, and the bracket behind them. -/
def members {α : Type} (item : Reader Char α) (close : Char) : Nat → Reader Char (List α)
  | 0 => failure
  | limit + 1 => do
    let a ← item
    blanks blank
    let mark ← Reader.next
    if mark = ',' then (a :: ·) <$> members item close limit
    else if mark = close then return [a]
    else failure

/-- The members between two brackets, behind the opening one. -/
def bracket {α : Type} (item : Reader Char α) (close : Char) : Reader Char (List α) := do
  blanks blank
  fun row =>
    match row with
    | [] => none
    | c :: rest =>
      if c = close then some ([], rest)
      else (members blank item close row.length).run row

/-- An entry of an object: a name, a colon and a value. -/
def namedMember (item : Reader Char Meaning) : Reader Char (List Char × Meaning) := do
  blanks blank
  Reader.expect '"'
  let name ← string
  blanks blank
  Reader.expect ':'
  let m ← item
  return (name, m)

/-- A value behind its first character; `inner` reads the values in it. -/
def startingWith (inner : Reader Char Meaning) (first : Char) : Reader Char Meaning :=
  match first with
  | 'n' => literal ['u', 'l', 'l'] .null
  | 't' => literal ['r', 'u', 'e'] (.bool true)
  | 'f' => literal ['a', 'l', 's', 'e'] (.bool false)
  | '"' => Meaning.string <$> string
  | '[' => Meaning.array <$> bracket blank inner ']'
  | '\x7b' => Meaning.object <$> bracket blank (namedMember blank inner) '\x7d'
  | first => number first

/-- A value in which brackets are nested less deep than the limit. -/
def value : Nat → Reader Char Meaning
  | 0 => failure
  | limit + 1 => do
    blanks blank
    let first ← Reader.next
    startingWith blank (value limit) first

end Parse

/-- The meaning of a text that is one value, with such characters between its tokens. The text has
fewer brackets than characters. -/
def read? (blank : Char → Bool) (cs : List Char) : Option Meaning :=
  Reader.whole (Parse.value blank cs.length >>= fun m => do
    Parse.blanks blank
    return m) cs

namespace Parse

/-! ## String literals read back -/

theorem hexNumber?_control {n : Nat} (h : n < 0x20) :
    hexNumber? ['0', '0', Nat.digitChar (n / 16), Nat.digitChar (n % 16)] = some n := by
  have hall : ∀ n < 0x20,
      hexNumber? ['0', '0', Nat.digitChar (n / 16), Nat.digitChar (n % 16)] = some n := by decide
  exact hall n h

theorem reads_unicode {c : Char} (h : c.toNat < 0x20) :
    Reads unicode ['0', '0', Nat.digitChar (c.toNat / 16), Nat.digitChar (c.toNat % 16)] c := by
  have hunit : Reads codeUnit
      (['0', '0', Nat.digitChar (c.toNat / 16), Nat.digitChar (c.toNat % 16)] ++ []) c.toNat := by
    have htake := Reads.take ['0', '0', Nat.digitChar (c.toNat / 16), Nat.digitChar (c.toNat % 16)]
    exact htake.bind (Reads.ofOption (hexNumber?_control h))
  have hhigh : ¬(0xD800 ≤ c.toNat ∧ c.toNat < 0xDC00) := by omega
  have hlow : ¬(0xDC00 ≤ c.toNat ∧ c.toNat < 0xE000) := by omega
  refine hunit.bind ?_
  rw [if_neg hhigh, if_neg hlow, Char.ofNat_toNat]
  exact Reads.pure c

/-- A character is escaped by a backslash and what it is read from, or it stands for itself. -/
theorem escaped_cases (c : Char) :
    (∃ rest, escaped c = '\\' :: rest ∧ Reads escape rest c) ∨
      escaped c = [c] ∧ c ≠ '"' ∧ c ≠ '\\' ∧ ¬c.toNat < 0x20 := by
  unfold escaped
  split_ifs with h1 h2 h3 h4 h5 h6 h7 hcontrol
  · subst h1
    exact .inl ⟨['"'], rfl, (Reads.next '"').bind (Reads.pure _)⟩
  · subst h2
    exact .inl ⟨['\\'], rfl, (Reads.next '\\').bind (Reads.pure _)⟩
  · subst h3
    exact .inl ⟨['b'], rfl, (Reads.next 'b').bind (Reads.pure _)⟩
  · subst h4
    exact .inl ⟨['f'], rfl, (Reads.next 'f').bind (Reads.pure _)⟩
  · subst h5
    exact .inl ⟨['n'], rfl, (Reads.next 'n').bind (Reads.pure _)⟩
  · subst h6
    exact .inl ⟨['r'], rfl, (Reads.next 'r').bind (Reads.pure _)⟩
  · subst h7
    exact .inl ⟨['t'], rfl, (Reads.next 't').bind (Reads.pure _)⟩
  · exact .inl ⟨_, rfl, (Reads.next 'u').bind (reads_unicode hcontrol)⟩
  · exact .inr ⟨rfl, h1, h2, hcontrol⟩

theorem reads_characters {cs : List Char} {limit : Nat} (h : cs.length < limit) :
    Reads (characters limit) (cs.flatMap escaped ++ ['"']) cs := by
  induction cs generalizing limit with
  | nil =>
    obtain ⟨limit, rfl⟩ := Nat.exists_eq_succ_of_ne_zero (Nat.ne_of_gt h)
    exact (Reads.next '"').bind (Reads.pure [])
  | cons c cs ih =>
    obtain ⟨limit, rfl⟩ := Nat.exists_eq_succ_of_ne_zero (Nat.ne_of_gt (Nat.zero_lt_of_lt h))
    have hrest := ih (Nat.lt_of_succ_lt_succ h)
    rw [List.flatMap_cons, List.append_assoc]
    rcases escaped_cases c with ⟨rest, hescaped, hread⟩ | ⟨hescaped, hquote, hbackslash, hprintable⟩
    · rw [hescaped, List.cons_append, ← List.singleton_append]
      exact (Reads.next '\\').bind (hread.bind (hrest.map _))
    · rw [hescaped]
      refine (Reads.next c).bind ?_
      rw [if_neg hquote, if_neg hbackslash, if_neg hprintable]
      exact hrest.map _

theorem length_le_escaped (cs : List Char) : cs.length ≤ (cs.flatMap escaped).length := by
  induction cs with
  | nil => exact Nat.le_refl 0
  | cons c cs ih =>
    have hpos : 0 < (escaped c).length := by
      rcases escaped_cases c with ⟨rest, hescaped, -⟩ | ⟨hescaped, -⟩ <;> simp [hescaped]
    rw [List.flatMap_cons, List.length_append, List.length_cons]
    omega

theorem reads_string (cs : List Char) : Reads string (cs.flatMap escaped ++ ['"']) cs := by
  intro rest
  have hlimit : cs.length < (cs.flatMap escaped ++ ['"'] ++ rest).length := by
    have hle := length_le_escaped cs
    simp only [List.length_append, List.length_singleton]
    omega
  exact reads_characters hlimit rest

/-! ## Values read back -/

theorem reads_literal (rest : List Char) (m : Meaning) : Reads (literal rest m) rest m := by
  have hread : Reads (literal rest m) (rest ++ []) m := by
    refine (Reads.take rest).bind ?_
    rw [if_pos rfl]
    exact Reads.pure m
  rwa [List.append_nil] at hread

theorem length_le_commaSeparated (texts : List (List Char)) :
    texts.length ≤ (commaSeparated texts).length + 1 := by
  induction texts with
  | nil => exact Nat.zero_le _
  | cons text rest ih =>
    cases rest with
    | nil => simp
    | cons next rest =>
      simp only [commaSeparated, List.length_append, List.length_cons] at ih ⊢
      omega

/-- The characters with which values begin. -/
def Opens (c : Char) : Prop :=
  c ∈ ['n', 't', 'f', '"', '[', '\x7b', '-'] ∨ c.isDigit = true

theorem Opens.ne_close {c : Char} (h : Opens c) : c ≠ ']' ∧ c ≠ '\x7d' := by
  constructor
  · rintro rfl
    revert h
    simp [Opens]
  · rintro rfl
    revert h
    simp [Opens]

/-- The characters at which a number token ends. -/
def EndsNumber (c : Char) : Prop := numberChar c = false

theorem opens_of_isUnsigned {cs : List Char} (h : isUnsigned cs = true) :
    ∃ c rest, cs = c :: rest ∧ c.isDigit = true := by
  simp only [isUnsigned, isWhole, isDigits, Bool.and_eq_true, Bool.not_eq_true',
    List.isEmpty_eq_false_iff] at h
  cases cs with
  | nil => exact absurd rfl h.1.1.1
  | cons c rest =>
    refine ⟨c, rest, rfl, ?_⟩
    by_contra hc
    exact h.1.1.1 (List.takeWhile_cons_of_neg hc)

theorem opens_of_isNumber {token : List Char} (h : isNumber token = true) :
    ∃ c rest, token = c :: rest ∧ (c = '-' ∨ c.isDigit = true) := by
  unfold isNumber at h
  split at h
  · exact ⟨_, _, rfl, .inl rfl⟩
  · obtain ⟨c, rest, rfl, hc⟩ := opens_of_isUnsigned h
    exact ⟨c, rest, rfl, .inr hc⟩

/-- A text that is read as this value, wherever no number goes on behind it. -/
structure Stands (blank : Char → Bool) (limit : Nat) (cs : List Char) (m : Meaning) : Prop where
  opens : ∃ c rest, cs = c :: rest ∧ Opens c
  reads : ReadsBefore EndsNumber (value blank limit) cs m

section

variable {blank : Char → Bool} (hblank : ∀ c, blank c = true → isBlank c = true)
include hblank

theorem not_blank {c : Char} (h : isBlank c = false) : blank c = false := by
  rw [← Bool.not_eq_true]
  intro hc
  rw [hblank c hc] at h
  cases h

theorem not_blank_of_opens {c : Char} (h : Opens c) : blank c = false := by
  apply not_blank hblank
  rcases h with h | h
  · simp only [List.mem_cons, List.not_mem_nil, or_false] at h
    rcases h with rfl | rfl | rfl | rfl | rfl | rfl | rfl <;> rfl
  · have hc := Char.isDigit_iff_toNat.1 h
    simp only [isBlank, Bool.or_eq_false_iff, beq_eq_false_iff_ne, ne_eq]
    refine ⟨⟨⟨?_, ?_⟩, ?_⟩, ?_⟩ <;> rintro rfl <;> revert hc <;> decide

end

section

variable {α : Type} {blank : Char → Bool} {c : Char} (hc : blank c = false)
include hc

theorem run_afterBlanks (next : Reader Char α) (row : List Char) :
    (blanks blank >>= fun _ => next).run (c :: row) = next.run (c :: row) := by
  have hkept : (c :: row).dropWhile blank = c :: row :=
    List.dropWhile_cons_of_neg (by rw [hc]; exact Bool.false_ne_true)
  rw [StateT.run_bind]
  show Option.bind (some ((), (c :: row).dropWhile blank)) _ = _
  rw [hkept]
  rfl

theorem afterBlanks {next : Reader Char α} {row : List Char} {a : α}
    (h : Reads next (c :: row) a) : Reads (blanks blank >>= fun _ => next) (c :: row) a := by
  intro rest
  rw [List.cons_append, run_afterBlanks hc]
  exact h rest

theorem afterBlanksBefore {next : Reader Char α} {stop : Char → Prop} {row : List Char} {a : α}
    (h : ReadsBefore stop next (c :: row) a) :
    ReadsBefore stop (blanks blank >>= fun _ => next) (c :: row) a := by
  intro rest hrest
  rw [List.cons_append, run_afterBlanks hc]
  exact h rest hrest

end

section

variable {blank : Char → Bool} (hblank : ∀ c, blank c = true → isBlank c = true) {limit : Nat}
include hblank

theorem stands_of_startingWith {c : Char} {rest : List Char} {m : Meaning} (hc : Opens c)
    (h : ReadsBefore EndsNumber (startingWith blank (value blank limit) c) rest m) :
    Stands blank (limit + 1) (c :: rest) m := by
  refine ⟨⟨c, rest, rfl, hc⟩, ?_⟩
  refine afterBlanksBefore (not_blank_of_opens hblank hc) ?_
  rw [← List.singleton_append]
  exact (Reads.next c).bindBefore h

theorem stands_null : Stands blank (limit + 1) nullText .null := by
  show Stands blank (limit + 1) ('n' :: ['u', 'l', 'l']) .null
  exact stands_of_startingWith hblank (.inl (by simp)) (reads_literal _ _).before

theorem stands_bool (b : Bool) : Stands blank (limit + 1) (boolText b) (.bool b) := by
  cases b with
  | false =>
    show Stands blank (limit + 1) ('f' :: ['a', 'l', 's', 'e']) (.bool false)
    exact stands_of_startingWith hblank (.inl (by simp)) (reads_literal _ _).before
  | true =>
    show Stands blank (limit + 1) ('t' :: ['r', 'u', 'e']) (.bool true)
    exact stands_of_startingWith hblank (.inl (by simp)) (reads_literal _ _).before

theorem stands_string (cs : List Char) : Stands blank (limit + 1) (quoted cs) (.string cs) :=
  stands_of_startingWith hblank (.inl (by simp)) ((reads_string cs).map Meaning.string).before

theorem stands_number {token : List Char} (h : isNumber token = true)
    (hchars : ∀ c ∈ token, numberChar c = true) :
    Stands blank (limit + 1) token (.number token) := by
  obtain ⟨c, rest, rfl, hc⟩ := opens_of_isNumber h
  -- No other value begins with a minus sign or a digit.
  have hstart : startingWith blank (value blank limit) c = number c := by
    unfold startingWith
    split
    all_goals first | rfl | exact absurd hc (by decide)
  have hrest : ∀ c ∈ rest, numberChar c = true := fun c hc => hchars c (List.mem_cons_of_mem _ hc)
  refine stands_of_startingWith hblank (hc.imp (by rintro rfl; simp) id) ?_
  rw [hstart]
  intro more hmore
  obtain ⟨htake, hdrop⟩ := takeWhile_append_of_head hrest hmore
  simp only [number, StateT.run]
  rw [htake, hdrop, if_pos h]

section

variable {α : Type} {item : Reader Char α} {close : Char} (hends : EndsNumber close)
  (hcomma : close ≠ ',') (hclose : isBlank close = false) {as : List α} {texts : List (List Char)}
include hends hcomma hclose

theorem reads_members (h : List.Forall₂ (fun a text => ReadsBefore EndsNumber item text a) as texts)
    (hne : texts ≠ []) {most : Nat} (hmost : texts.length ≤ most) :
    Reads (members blank item close most) (commaSeparated texts ++ [close]) as := by
  induction h generalizing most with
  | nil => exact absurd rfl hne
  | @cons a text as texts hfirst hrest ih =>
    rw [List.length_cons] at hmost
    obtain ⟨most, rfl⟩ : ∃ n, most = n + 1 := ⟨most - 1, by omega⟩
    cases hrest with
    | nil =>
      refine hfirst.bind hends (afterBlanks (not_blank hblank hclose) ((Reads.next close).bind ?_))
      rw [if_neg hcomma, if_pos rfl]
      exact Reads.pure [a]
    | @cons b next bs texts hnext hrest =>
      have hmembers := ih (List.cons_ne_nil _ _) (Nat.le_of_succ_le_succ hmost)
      have hshape : commaSeparated (text :: next :: texts) ++ [close] =
          text ++ ([','] ++ (commaSeparated (next :: texts) ++ [close])) := by
        simp [commaSeparated]
      rw [hshape]
      refine hfirst.bind rfl (afterBlanks (not_blank hblank rfl) ((Reads.next ',').bind ?_))
      rw [if_pos rfl]
      exact hmembers.map _

theorem reads_bracket (h : List.Forall₂ (fun a text => ReadsBefore EndsNumber item text a) as texts)
    (hopens : ∀ text ∈ texts, ∃ c rest, text = c :: rest ∧ Opens c ∧ c ≠ close) :
    Reads (bracket blank item close) (commaSeparated texts ++ [close]) as := by
  cases h with
  | nil =>
    refine afterBlanks (not_blank hblank hclose) fun rest => ?_
    exact if_pos rfl
  | @cons a text as texts hfirst hrest =>
    obtain ⟨c, rest, rfl, hc, hne⟩ := hopens text List.mem_cons_self
    have hshape : commaSeparated ((c :: rest) :: texts) =
        c :: (commaSeparated ((c :: rest) :: texts)).tail := by
      cases texts <;> rfl
    rw [hshape, List.cons_append]
    refine afterBlanks (not_blank_of_opens hblank hc) fun more => ?_
    have hmost : ((c :: rest) :: texts).length ≤
        (commaSeparated ((c :: rest) :: texts) ++ [close] ++ more).length := by
      have hle := length_le_commaSeparated ((c :: rest) :: texts)
      simp only [List.length_append, List.length_singleton]
      omega
    have hmembers := reads_members hblank hends hcomma hclose (.cons hfirst hrest)
      (List.cons_ne_nil _ _) hmost more
    rw [hshape] at hmembers
    exact (if_neg hne).trans hmembers

end

theorem stands_array {ms : List Meaning} {texts : List (List Char)}
    (h : List.Forall₂ (fun m text => Stands blank limit text m) ms texts) :
    Stands blank (limit + 1) (bracketed texts) (.array ms) := by
  have hopens : ∀ text ∈ texts, ∃ c rest, text = c :: rest ∧ Opens c ∧ c ≠ ']' := by
    refine forall_of_forall₂ h ?_
    intro m _ text hm
    obtain ⟨c, rest, rfl, hc⟩ := hm.opens
    exact ⟨c, rest, rfl, hc, hc.ne_close.1⟩
  refine stands_of_startingWith hblank (.inl (by simp)) ?_
  have hends : EndsNumber ']' := rfl
  exact ((reads_bracket hblank hends (by decide) rfl (h.imp fun _ _ hm => hm.reads) hopens).map
    Meaning.array).before

theorem readsBefore_namedMember {inner : Reader Char Meaning} {name text : List Char} {m : Meaning}
    (h : ReadsBefore EndsNumber inner text m) :
    ReadsBefore EndsNumber (namedMember blank inner) (entry (quoted name) text) (name, m) := by
  have hshape : entry (quoted name) text =
      '"' :: ((name.flatMap escaped ++ ['"']) ++ ':' :: text) := by
    simp [entry, quoted]
  rw [hshape]
  refine afterBlanksBefore (not_blank hblank rfl) ?_
  rw [← List.singleton_append]
  refine (Reads.expect '"').bindBefore ((reads_string name).bindBefore ?_)
  refine afterBlanksBefore (not_blank hblank rfl) ?_
  rw [← List.singleton_append]
  exact (Reads.expect ':').bindBefore (h.bindPure rfl)

theorem stands_object {entries : List (List Char × Meaning)} {texts : List (List Char)}
    (h : List.Forall₂ (fun e text => ∃ v, text = entry (quoted e.1) v ∧ Stands blank limit v e.2)
      entries texts) :
    Stands blank (limit + 1) (braced texts) (.object entries) := by
  have hopens : ∀ text ∈ texts, ∃ c rest, text = c :: rest ∧ Opens c ∧ c ≠ '\x7d' := by
    refine forall_of_forall₂ h ?_
    rintro e _ _ ⟨v, rfl, -⟩
    exact ⟨'"', _, rfl, .inl (by simp), by decide⟩
  have hentries : List.Forall₂ (fun e text =>
      ReadsBefore EndsNumber (namedMember blank (value blank limit)) text e) entries texts := by
    refine h.imp ?_
    rintro ⟨name, m⟩ _ ⟨v, rfl, hv⟩
    exact readsBefore_namedMember hblank hv.reads
  refine stands_of_startingWith hblank (.inl (by simp)) ?_
  have hends : EndsNumber '\x7d' := rfl
  exact ((reads_bracket hblank hends (by decide) rfl hentries hopens).map Meaning.object).before

end

/-! ## Values of any depth -/

/-- A text that is read as this value with every limit that is not below its length. -/
def Means (blank : Char → Bool) (cs : List Char) (m : Meaning) : Prop :=
  ∀ limit, cs.length ≤ limit + 1 → Stands blank (limit + 1) cs m

theorem read?_of_means {blank : Char → Bool} {cs : List Char} {m : Meaning}
    (h : Means blank cs m) : read? blank cs = some m := by
  obtain ⟨c, rest, rfl, -⟩ := (h (cs.length) (Nat.le_succ _)).opens
  have hrun := (h rest.length (Nat.le_refl _)).reads [] (by simp)
  rw [List.append_nil] at hrun
  rw [read?, Reader.whole, List.length_cons, StateT.run_bind, hrun]
  rfl

/-- Blanks are read by those readers that skip them, and zeros in front of a number by none. -/
example : (read? isBlank "[ -1 ]".toList).isSome = true ∧
    (read? (fun _ => false) "[ -1 ]".toList).isSome = false ∧
    (read? isBlank "[01]".toList).isSome = false := by
  decide

theorem length_le_of_mem {text : List Char} {texts : List (List Char)} (h : text ∈ texts) :
    text.length ≤ (commaSeparated texts).length := by
  induction texts with
  | nil => cases h
  | cons first rest ih =>
    cases rest with
    | nil => exact Nat.le_of_eq (congrArg List.length (List.mem_singleton.1 h))
    | cons next rest =>
      simp only [commaSeparated, List.length_append, List.length_cons]
      rcases List.mem_cons.1 h with rfl | h
      · omega
      · have hle := ih h
        omega

section

variable {blank : Char → Bool} (hblank : ∀ c, blank c = true → isBlank c = true)
include hblank

/-- A text in brackets leaves a limit for what is in it. -/
theorem means_array {ms : List Meaning} {texts : List (List Char)}
    (h : List.Forall₂ (fun m text => Means blank text m) ms texts) :
    Means blank (bracketed texts) (.array ms) := by
  intro limit hlimit
  simp only [bracketed, List.length_append, List.length_cons, List.length_nil] at hlimit
  obtain ⟨limit, rfl⟩ : ∃ n, limit = n + 1 := ⟨limit - 1, by omega⟩
  refine stands_array hblank (forall₂_imp_of_mem h fun m _ text htext hm => hm limit ?_)
  have hle := length_le_of_mem htext
  omega

theorem means_object {entries : List (List Char × Meaning)} {texts : List (List Char)}
    (h : List.Forall₂ (fun e text => ∃ v, text = entry (quoted e.1) v ∧ Means blank v e.2)
      entries texts) :
    Means blank (braced texts) (.object entries) := by
  intro limit hlimit
  simp only [braced, List.length_append, List.length_cons, List.length_nil] at hlimit
  obtain ⟨limit, rfl⟩ : ∃ n, limit = n + 1 := ⟨limit - 1, by omega⟩
  refine stands_object hblank (forall₂_imp_of_mem h ?_)
  rintro e - _ htext ⟨v, rfl, hv⟩
  refine ⟨v, rfl, hv limit ?_⟩
  have hle := length_le_of_mem htext
  simp only [entry, List.length_append, List.length_cons] at hle
  omega

end

end Parse

end SqlBind.Json
