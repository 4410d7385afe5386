import SqlBind.Bytes.BigEndian

/-!
# Nul-terminated text

A text column ends at its first nul byte, so the text itself must hold none.

* `CText`: bytes without a nul.
* `CText.ofBytes bs`: checks a byte string, and tells where its first nul stands if there is one.
* `CText.terminated t`: the text followed by its nul.
-/

namespace SqlBind
set_option autoImplicit false

/-- Text bytes without a nul. -/
structure CText where
  bytes : Bytes
  nul_free : 0 ∉ bytes

namespace CText

/-- The bytes as a text if no nul is among them, else the offset of the first nul. -/
def ofBytes (bs : Bytes) : Except Nat CText :=
  if h : 0 ∈ bs then .error (bs.idxOf 0) else .ok ⟨bs, h⟩

/-- The bytes followed by the terminating nul. -/
def terminated (t : CText) : Bytes :=
  t.bytes ++ [0]

theorem ofBytes_ok {bs : Bytes} (h : 0 ∉ bs) : ofBytes bs = .ok ⟨bs, h⟩ := by
  simp [ofBytes, h]

theorem ofBytes_error {bs : Bytes} (h : 0 ∈ bs) : ofBytes bs = .error (bs.idxOf 0) := by
  simp [ofBytes, h]

end CText

end SqlBind
