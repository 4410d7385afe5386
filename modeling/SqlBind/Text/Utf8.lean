import SqlBind.Bytes.BigEndian

/-!
# UTF-8

* `utf8 cs`: the UTF-8 bytes of a text.
-/

namespace SqlBind
set_option autoImplicit false

/-- The UTF-8 bytes of a text. -/
def utf8 (cs : List Char) : Bytes :=
  cs.flatMap String.utf8EncodeChar

@[simp] theorem utf8_nil : utf8 [] = [] := rfl

@[simp] theorem utf8_cons (c : Char) (cs : List Char) :
    utf8 (c :: cs) = String.utf8EncodeChar c ++ utf8 cs := rfl

@[simp] theorem utf8_append (cs ds : List Char) : utf8 (cs ++ ds) = utf8 cs ++ utf8 ds := by
  simp [utf8, List.flatMap_append]

end SqlBind
