import SqlBind.Bytes.BigEndian

/-!
# Numbers in network order

* `Network.int16`, `Network.int32`, `Network.int64`: signed integers in two's complement, most
  significant byte first.
* `Network.word32`, `Network.word64`: the integers that carry the bit patterns of floating-point
  numbers.
-/

namespace SqlBind.Network
set_option autoImplicit false

def int16 (n : Int16) : Bytes :=
  bigEndian 2 n.toUInt16.toNat

def int32 (n : Int32) : Bytes :=
  bigEndian 4 n.toUInt32.toNat

def int64 (n : Int64) : Bytes :=
  bigEndian 8 n.toUInt64.toNat

/-- The integer of the same bits as a single-precision pattern. -/
def word32 (bits : UInt32) : Int32 :=
  bits.toInt32

/-- The integer of the same bits as a double-precision pattern. -/
def word64 (bits : UInt64) : Int64 :=
  bits.toInt64

@[simp] theorem length_int16 (n : Int16) : (int16 n).length = 2 := length_bigEndian ..

@[simp] theorem length_int32 (n : Int32) : (int32 n).length = 4 := length_bigEndian ..

@[simp] theorem length_int64 (n : Int64) : (int64 n).length = 8 := length_bigEndian ..

end SqlBind.Network
