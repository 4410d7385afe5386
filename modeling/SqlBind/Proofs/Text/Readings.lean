import SqlBind.Bytes.Hex
import SqlBind.Text.Numeral
import SqlBind.Text.Utf8

/-!
# Reading texts back

* `ofUtf8? bs`: the text of a byte string that is in UTF-8; `ofUtf8?_utf8`.
* `Numeral.readInt? cs`: the number of a decimal numeral with or without a minus sign;
  `readInt?_ofInt`.
* `Hex.read? cs`: the bytes of a text of hexadecimal digits, two for each; `read?_digits`.
-/

namespace SqlBind
set_option autoImplicit false

/-- The text of a byte string, if that is well-formed UTF-8. -/
def ofUtf8? (bs : Bytes) : Option (List Char) :=
  bs.toByteArray.utf8Decode?.map Array.toList

theorem ofUtf8?_utf8 (cs : List Char) : ofUtf8? (utf8 cs) = some cs := by
  have hencode : (utf8 cs).toByteArray = cs.utf8Encode := rfl
  rw [ofUtf8?, hencode, List.utf8Decode?_utf8Encode]
  rfl

/-! ## Numerals -/

namespace Numeral

/-- The number of a decimal numeral, which may follow a minus sign. -/
def readInt? : List Char → Option Int
  | '-' :: digits => (read? digits).map fun n : Nat => -(n : Int)
  | digits => (read? digits).map fun n : Nat => (n : Int)

theorem readInt?_ofNat (n : Nat) : readInt? (ofNat n) = some (n : Int) := by
  have hread := read?_ofNat n
  have hdigit : '-' ∉ ofNat n := by
    intro hmem
    exact absurd (isDigit_of_mem_ofNat hmem) (by decide)
  -- A numeral that does not begin with a minus sign is read as it stands.
  unfold readInt?
  split
  · rename_i digits heq
    rw [heq] at hdigit
    exact absurd List.mem_cons_self hdigit
  · rw [hread]
    rfl

theorem readInt?_ofInt (n : Int) : readInt? (ofInt n) = some n := by
  unfold ofInt
  by_cases h : n < 0
  · have hneg : -(n.natAbs : Int) = n := by omega
    rw [if_pos h, readInt?, read?_ofNat, Option.map_some, hneg]
  · have hnonneg : (n.natAbs : Int) = n := by omega
    rw [if_neg h, readInt?_ofNat, hnonneg]

end Numeral

/-! ## Hexadecimal digits -/

namespace Hex

/-- The value of a lower-case hexadecimal digit. -/
def digit? (c : Char) : Option Nat :=
  if '0' ≤ c ∧ c ≤ '9' then some (c.toNat - '0'.toNat)
  else if 'a' ≤ c ∧ c ≤ 'f' then some (c.toNat - 'a'.toNat + 10)
  else none

/-- The bytes of a text of digits, two for each byte. -/
def read? : List Char → Option Bytes
  | [] => some []
  | [_] => none
  | high :: low :: rest => do
    let high ← digit? high
    let low ← digit? low
    let bs ← read? rest
    return UInt8.ofNat (16 * high + low) :: bs

theorem digit?_digitChar {n : Nat} (h : n < 16) : digit? (Nat.digitChar n) = some n := by
  have hall : ∀ n < 16, digit? (Nat.digitChar n) = some n := by decide
  exact hall n h

theorem read?_pair_append (b : UInt8) (cs : List Char) :
    read? (pair b ++ cs) = (read? cs).map (b :: ·) := by
  have hhigh : b.toNat / 16 < 16 := by
    have := b.toNat_lt
    omega
  have hlow : b.toNat % 16 < 16 := Nat.mod_lt _ (by decide)
  have hhalves : 16 * (b.toNat / 16) + b.toNat % 16 = b.toNat := Nat.div_add_mod b.toNat 16
  show read? (Nat.digitChar (b.toNat / 16) :: Nat.digitChar (b.toNat % 16) :: cs) = _
  rw [read?, digit?_digitChar hhigh, digit?_digitChar hlow]
  cases hrest : read? cs with
  | none => rfl
  | some bs =>
    show some (UInt8.ofNat (16 * (b.toNat / 16) + b.toNat % 16) :: bs) = some (b :: bs)
    rw [hhalves, UInt8.ofNat_toNat]

theorem read?_digits (bs : Bytes) : read? (digits bs) = some bs := by
  induction bs with
  | nil => rfl
  | cons b bs ih => rw [digits, List.flatMap_cons, read?_pair_append, ← digits, ih, Option.map_some]

end Hex

end SqlBind
