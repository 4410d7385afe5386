import Mathlib.Data.List.Lex
import SqlBind.Proofs.Text.NulFree

/-!
# Texts in order

Texts are compared byte by byte, and a text stands before those that it begins. For numerals of one
width this is the order of the numbers, and zeros at the end of a fraction play no part in it.

* `Precedes cs ds`, `BytesPrecede as bs`: the order of texts and that of byte strings;
  `bytesPrecede_utf8`: the one becomes the other where all characters are ASCII.
* `length_padded`, `read?_padded`: numerals that are filled up with zeros; `precedes_padded`: their
  order.
* `precedes_of_zeros`: the order of fractions without the zeros at their end.
-/

namespace SqlBind
set_option autoImplicit false

def CharPrecedes (c d : Char) : Prop := c.toNat < d.toNat

def BytePrecedes (a b : UInt8) : Prop := a.toNat < b.toNat

/-- The order of texts by the codes of their characters. -/
def Precedes : List Char → List Char → Prop :=
  List.Lex CharPrecedes

/-- Byte-wise order. -/
def BytesPrecede : Bytes → Bytes → Prop :=
  List.Lex BytePrecedes

instance : Std.Asymm CharPrecedes := ⟨fun _ _ => Nat.lt_asymm⟩

instance : Std.Asymm BytePrecedes := ⟨fun _ _ => Nat.lt_asymm⟩

instance : Std.Trichotomous CharPrecedes where
  trichotomous c d hcd hdc := by
    have hnat : c.toNat = d.toNat := Nat.le_antisymm (Nat.not_lt.1 hdc) (Nat.not_lt.1 hcd)
    exact Char.ext (UInt32.toNat_inj.1 hnat)

theorem Precedes.asymm {cs ds : List Char} (h : Precedes cs ds) : ¬Precedes ds cs :=
  (List.Lex.asymm CharPrecedes).asymm cs ds h

theorem Precedes.irrefl (cs : List Char) : ¬Precedes cs cs := fun h => h.asymm h

theorem BytesPrecede.asymm {as bs : Bytes} (h : BytesPrecede as bs) : ¬BytesPrecede bs as :=
  (List.Lex.asymm BytePrecedes).asymm as bs h

theorem Precedes.append_left {cs ds : List Char} (h : Precedes cs ds) (front : List Char) :
    Precedes (front ++ cs) (front ++ ds) :=
  List.Lex.append_left CharPrecedes h front

/-- Two texts of one length differ before they end, so it does not matter what follows. -/
theorem Precedes.append {cs ds : List Char} (h : Precedes cs ds) (hlength : cs.length = ds.length)
    (back back' : List Char) : Precedes (cs ++ back) (ds ++ back') := by
  induction h with
  | nil => cases hlength
  | cons _ ih => exact .cons (ih (Nat.succ.inj hlength))
  | rel hcd => exact .rel hcd

/-! ## Bytes of a text -/

theorem utf8EncodeChar_of_ascii {c : Char} (h : c.toNat < 128) :
    ∃ b : UInt8, String.utf8EncodeChar c = [b] ∧ b.toNat = c.toNat := by
  have hval : c.val.toNat < 128 := h
  refine ⟨_, by rw [String.utf8EncodeChar, if_pos (Nat.le_of_lt_succ hval)], ?_⟩
  rw [UInt8.toNat_ofNat']
  exact Nat.mod_eq_of_lt (by omega)

theorem bytesPrecede_utf8 {cs ds : List Char} (hcs : ∀ c ∈ cs, c.toNat < 128)
    (hds : ∀ c ∈ ds, c.toNat < 128) (h : Precedes cs ds) : BytesPrecede (utf8 cs) (utf8 ds) := by
  induction h with
  | @nil d ds =>
    obtain ⟨b, hb, -⟩ := utf8EncodeChar_of_ascii (hds d List.mem_cons_self)
    rw [utf8_cons, hb]
    exact .nil
  | @cons c cs ds _ ih =>
    obtain ⟨b, hb, -⟩ := utf8EncodeChar_of_ascii (hcs c List.mem_cons_self)
    rw [utf8_cons, utf8_cons, hb]
    exact .cons (ih (fun c hc => hcs c (List.mem_cons_of_mem _ hc))
      fun c hc => hds c (List.mem_cons_of_mem _ hc))
  | @rel c cs d ds hcd =>
    obtain ⟨a, ha, hac⟩ := utf8EncodeChar_of_ascii (hcs c List.mem_cons_self)
    obtain ⟨b, hb, hbd⟩ := utf8EncodeChar_of_ascii (hds d List.mem_cons_self)
    have hab : BytePrecedes a b := by
      rw [BytePrecedes, hac, hbd]
      exact hcd
    rw [utf8_cons, utf8_cons, ha, hb]
    exact .rel hab

theorem length_utf8_of_ascii {cs : List Char} (h : ∀ c ∈ cs, c.toNat < 128) :
    (utf8 cs).length = cs.length := by
  induction cs with
  | nil => rfl
  | cons c cs ih =>
    obtain ⟨hc, hrest⟩ := List.forall_mem_cons.1 h
    obtain ⟨b, hb, -⟩ := utf8EncodeChar_of_ascii hc
    rw [utf8_cons, hb, List.length_append, ih hrest, List.length_singleton, List.length_cons,
      Nat.add_comm]

theorem Numeral.toNat_of_isDigit {c : Char} (h : c.isDigit = true) :
    48 ≤ c.toNat ∧ c.toNat ≤ 57 := by
  simpa [Char.isDigit, UInt32.le_iff_toNat_le] using h

theorem coversNumerals_ascii : CoversNumerals fun c => c.toNat < 128 where
  digit := fun hc => Nat.lt_of_le_of_lt (Numeral.toNat_of_isDigit hc).2 (by decide)
  minus := by decide
  point := by decide
  exponent := by decide

/-! ## Numerals of one width -/

namespace Numeral

theorem length_padded {width n : Nat} (hwidth : 0 < width) (h : n < 10 ^ width) :
    (padded width n).length = width := by
  have hle : (ofNat n).length ≤ width := (Nat.length_toDigits_le_iff (by decide) hwidth).2 h
  rw [padded, List.length_append, List.length_replicate, Nat.sub_add_cancel hle]

theorem isDigit_of_mem_padded {width n : Nat} {c : Char} (hc : c ∈ padded width n) :
    c.isDigit = true := by
  rcases List.mem_append.1 hc with hc | hc
  · rw [List.eq_of_mem_replicate hc]
    decide
  · exact isDigit_of_mem_ofNat hc

theorem padded_ne_nil (width n : Nat) : padded width n ≠ [] := by
  simp [padded, ofNat_ne_nil]

theorem ofDigitChars_padded (width n : Nat) : Nat.ofDigitChars 10 (padded width n) 0 = n := by
  rw [padded, Nat.ofDigitChars_append, Nat.ofDigitChars_replicate_zero, Nat.mul_zero, ofNat,
    Nat.ofDigitChars_ten_toDigits]

theorem read?_padded (width n : Nat) : read? (padded width n) = some n := by
  rw [read?_eq_some (padded_ne_nil width n) fun _ => isDigit_of_mem_padded, ofDigitChars_padded]

/-- A number that is ahead stays ahead when both are continued by as many digits. -/
theorem ofDigitChars_lt {cs ds : List Char} (hcs : ∀ c ∈ cs, c.isDigit = true)
    (hlength : cs.length = ds.length) {m n : Nat} (h : m < n) :
    Nat.ofDigitChars 10 cs m < Nat.ofDigitChars 10 ds n := by
  induction cs generalizing ds m n with
  | nil =>
    obtain rfl := List.length_eq_zero_iff.1 hlength.symm
    simpa using h
  | cons c cs ih =>
    cases ds with
    | nil => cases hlength
    | cons d ds =>
      have hc := toNat_of_isDigit (hcs c List.mem_cons_self)
      rw [Nat.ofDigitChars_cons, Nat.ofDigitChars_cons]
      apply ih (fun c hc => hcs c (List.mem_cons_of_mem _ hc)) (Nat.succ.inj hlength)
      simp only [Char.reduceToNat]
      omega

theorem ofDigitChars_lt_of_precedes {cs ds : List Char} (h : Precedes cs ds)
    (hlength : cs.length = ds.length) (hcs : ∀ c ∈ cs, c.isDigit = true) (m : Nat) :
    Nat.ofDigitChars 10 cs m < Nat.ofDigitChars 10 ds m := by
  induction h generalizing m with
  | nil => cases hlength
  | @cons c cs ds _ ih =>
    rw [Nat.ofDigitChars_cons, Nat.ofDigitChars_cons]
    exact ih (Nat.succ.inj hlength) (fun c hc => hcs c (List.mem_cons_of_mem _ hc)) _
  | @rel c cs d ds hcd =>
    have hc := toNat_of_isDigit (hcs c List.mem_cons_self)
    have hlt : c.toNat < d.toNat := hcd
    rw [Nat.ofDigitChars_cons, Nat.ofDigitChars_cons]
    apply ofDigitChars_lt (fun c hc => hcs c (List.mem_cons_of_mem _ hc)) (Nat.succ.inj hlength)
    simp only [Char.reduceToNat]
    omega

theorem precedes_padded {width m n : Nat} (hwidth : 0 < width) (h : m < n) (hn : n < 10 ^ width) :
    Precedes (padded width m) (padded width n) := by
  have hlength : (padded width n).length = (padded width m).length := by
    rw [length_padded hwidth hn, length_padded hwidth (Nat.lt_trans h hn)]
  -- Numerals of one width that are in the other order, or the same, are those of other numbers.
  by_contra hnot
  have hle : n ≤ m := by
    by_cases hback : Precedes (padded width n) (padded width m)
    · have hlt := ofDigitChars_lt_of_precedes hback hlength (fun _ => isDigit_of_mem_padded) 0
      rw [ofDigitChars_padded, ofDigitChars_padded] at hlt
      exact Nat.le_of_lt hlt
    · have heq : padded width m = padded width n :=
        (List.Lex.trichotomous CharPrecedes).trichotomous _ _ hnot hback
      have hvalue := congrArg (Nat.ofDigitChars 10 · 0) heq
      simp only [ofDigitChars_padded] at hvalue
      exact Nat.le_of_eq hvalue.symm
  omega

/-! ## Fractions without the zeros at their end -/

theorem not_precedes_zeros {cs : List Char} {n : Nat} (hcs : ∀ c ∈ cs, c.isDigit = true)
    (hlength : n ≤ cs.length) : ¬Precedes cs (List.replicate n '0') := by
  induction cs generalizing n with
  | nil =>
    obtain rfl := Nat.le_zero.1 hlength
    exact Precedes.irrefl []
  | cons c cs ih =>
    cases n with
    | zero => exact fun h => by cases h
    | succ n =>
      intro h
      cases h with
      | cons h =>
        have hrest : ∀ a ∈ cs, a.isDigit = true := fun a ha => hcs a (List.mem_cons_of_mem _ ha)
        exact ih hrest (Nat.le_of_succ_le_succ hlength) h
      | rel h =>
        have hc := toNat_of_isDigit (hcs c List.mem_cons_self)
        have hlt : c.toNat < 48 := h
        omega

/-- Where a numeral ends and the other goes on, the zeros that are left out do not change the order
of the two, as long as what follows the numerals stands before every digit. -/
theorem precedes_of_zeros {cs ds back : List Char} {y z : Nat}
    (hcs : ∀ c ∈ cs, c.isDigit = true) (hds : ∀ c ∈ ds, c.isDigit = true)
    (hback : ∀ d rest, d.isDigit = true → Precedes back (d :: rest))
    (hlength : cs.length + y = ds.length + z)
    (h : Precedes (cs ++ List.replicate y '0') (ds ++ List.replicate z '0')) :
    Precedes (cs ++ back) (ds ++ back) := by
  induction cs generalizing ds with
  | nil =>
    cases ds with
    | nil =>
      obtain rfl : y = z := by simpa using hlength
      exact absurd h (Precedes.irrefl _)
    | cons d ds => exact hback d _ (hds d List.mem_cons_self)
  | cons c cs ih =>
    cases ds with
    | nil =>
      -- Only zeros are left on the other side, and no digits stand before those.
      have hdigits : ∀ a ∈ c :: cs ++ List.replicate y '0', a.isDigit = true := by
        intro a ha
        rcases List.mem_append.1 ha with ha | ha
        · exact hcs a ha
        · rw [List.eq_of_mem_replicate ha]
          decide
      refine absurd h (not_precedes_zeros hdigits ?_)
      rw [List.length_append, List.length_replicate, hlength]
      simp
    | cons d ds =>
      cases h with
      | cons h =>
        have hrest : ∀ a ∈ cs, a.isDigit = true := fun a ha => hcs a (List.mem_cons_of_mem _ ha)
        have hrest' : ∀ a ∈ ds, a.isDigit = true := fun a ha => hds a (List.mem_cons_of_mem _ ha)
        have htotal : cs.length + y = ds.length + z := by
          simp only [List.length_cons] at hlength
          omega
        exact .cons (ih hrest hrest' htotal h)
      | rel h => exact .rel h

end Numeral

end SqlBind
