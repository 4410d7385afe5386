import SqlBind.Bytes.Quoted
import SqlBind.Param.Basic

/-!
# Descriptions of parameters

* `Param.debug`: the description of a parameter for diagnostics. It shows the content of a text
  column and not where the column keeps it.
-/

namespace SqlBind.Param
set_option autoImplicit false

mutual
/-- The description of a parameter. -/
def debug : Param → Debug
  | null => .atom "Null"
  | text value => .record "Text" "value" (.atom (Quoted.text value.bytes))
  | binary bytes => .record "Binary" "bytes" (.bytes bytes)
  | absent _ => .record "Optional" "inner" (.option none)
  | present inner => .record "Optional" "inner" (.option (some inner.debug))
  | tuple children => .wrap "Tuple" (.tuple (debugAll children))
  | foreign param => param.debug
def debugAll : List Param → List Debug
  | [] => []
  | p :: rest => p.debug :: debugAll rest
end

theorem debugAll_eq_map (params : List Param) : debugAll params = params.map debug := by
  induction params with
  | nil => rfl
  | cons p rest ih => rw [debugAll, ih, List.map_cons]

end SqlBind.Param
