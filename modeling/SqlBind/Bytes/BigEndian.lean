/-!
# Big-endian words

Every fixed-width number on the wire is written most significant byte first.

* `Bytes`: a byte string.
* `bigEndian n v`: the low `n` bytes of `v`, most significant first; `length_bigEndian` is its
  width.
-/

namespace SqlBind
set_option autoImplicit false

-- Powers of numbers are those of the core library, also where other powers are in scope.
attribute [instance (2000), default_instance 20000] instPowNat

/-- A byte string. -/
abbrev Bytes := List UInt8

/-- The low `n` bytes of `v`, most significant first; higher bytes of `v` are dropped. -/
def bigEndian : Nat → Nat → Bytes
  | 0, _ => []
  | n + 1, v => UInt8.ofNat (v / 256 ^ n) :: bigEndian n v

@[simp] theorem length_bigEndian (n v : Nat) : (bigEndian n v).length = n := by
  induction n with
  | zero => rfl
  | succ n ih => simp [bigEndian, ih]

end SqlBind
