import SqlBind.Bytes.Network

/-!
# Reading big-endian words

* `ofBigEndian bs`: the number that a byte string stands for, most significant byte first;
  `ofBigEndian_bigEndian` reads back a number that fits its width.
* `twosComplement bs`: the same bytes as a signed number; `twosComplement_int16` and its siblings
  read back the signed integers of the wire.
-/

namespace SqlBind
set_option autoImplicit false

/-- The number that bytes stand for, most significant first. -/
def ofBigEndian : Bytes → Nat
  | [] => 0
  | b :: rest => b.toNat * 256 ^ rest.length + ofBigEndian rest

theorem ofBigEndian_bigEndian_mod (n v : Nat) : ofBigEndian (bigEndian n v) = v % 256 ^ n := by
  induction n with
  | zero => simp [bigEndian, ofBigEndian, Nat.mod_one]
  | succ n ih =>
    have hbyte : (UInt8.ofNat (v / 256 ^ n)).toNat = v / 256 ^ n % 256 := UInt8.toNat_ofNat'
    have hsplit : v % 256 ^ (n + 1) = v % 256 ^ n + 256 ^ n * (v / 256 ^ n % 256) := by
      rw [Nat.pow_succ, Nat.mod_mul]
    rw [bigEndian, ofBigEndian, length_bigEndian, ih, hbyte, hsplit, Nat.mul_comm, Nat.add_comm]

theorem ofBigEndian_bigEndian {n v : Nat} (h : v < 256 ^ n) : ofBigEndian (bigEndian n v) = v := by
  rw [ofBigEndian_bigEndian_mod, Nat.mod_eq_of_lt h]

/-- Bytes as a signed number in two's complement: the upper half of the range counts as negative. -/
def twosComplement (bs : Bytes) : Int :=
  if 2 * ofBigEndian bs < 256 ^ bs.length then ofBigEndian bs
  else ofBigEndian bs - 256 ^ bs.length

theorem twosComplement_bigEndian {n v : Nat} (h : v < 256 ^ n) :
    twosComplement (bigEndian n v) = if 2 * v < 256 ^ n then (v : Int) else v - 256 ^ n := by
  rw [twosComplement, ofBigEndian_bigEndian h, length_bigEndian]

theorem twosComplement_int16 (n : Int16) : twosComplement (Network.int16 n) = n.toInt := by
  have hlt : n.toUInt16.toNat < 256 ^ 2 := n.toUInt16.toNat_lt
  rw [Network.int16, twosComplement_bigEndian hlt, ← Int16.toInt_toBitVec,
    BitVec.toInt_eq_toNat_cond, Int16.toNat_toBitVec]
  rfl

theorem twosComplement_int32 (n : Int32) : twosComplement (Network.int32 n) = n.toInt := by
  have hlt : n.toUInt32.toNat < 256 ^ 4 := n.toUInt32.toNat_lt
  rw [Network.int32, twosComplement_bigEndian hlt, ← Int32.toInt_toBitVec,
    BitVec.toInt_eq_toNat_cond, Int32.toNat_toBitVec]
  rfl

theorem twosComplement_int64 (n : Int64) : twosComplement (Network.int64 n) = n.toInt := by
  have hlt : n.toUInt64.toNat < 256 ^ 8 := n.toUInt64.toNat_lt
  rw [Network.int64, twosComplement_bigEndian hlt, ← Int64.toInt_toBitVec,
    BitVec.toInt_eq_toNat_cond, Int64.toNat_toBitVec]
  rfl

end SqlBind
