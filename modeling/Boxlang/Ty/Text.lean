import Boxlang.Ty.Basic

/-!
# How types are written

`Ty.text` is the form in which diagnostics and symbol names show a type.  The
storage mark is not part of what a program says about a type, so it leaves no
trace in the text.
-/

namespace Boxlang

namespace Ty

mutual

def text : Ty → String
  | .error => "<error>"
  | .nothing => "Nothing"
  | .int => "Int"
  | .real => "Real"
  | .bool => "Bool"
  | .byte => "Byte"
  | .symbol => "Symbol"
  | .something => "Something"
  | .object name [] | .value name [] => name
  | .object name args | .value name args =>
    name ++ "<" ++ ", ".intercalate (textAll args) ++ ">"
  | .enum name | .protocol name => name
  | .generic _ name | .localGeneric _ name => name
  | .callable params ret =>
    "(" ++ ", ".intercalate (textAll params) ++ ") -> " ++ text ret
  | .optional inner => "?" ++ text inner
  | .typeValue inner => "Type<" ++ text inner ++ ">"
  | .boxed inner => text inner

def textAll : List Ty → List String
  | [] => []
  | t :: ts => text t :: textAll ts

end

theorem textAll_eq_map (ts : List Ty) : textAll ts = ts.map text := by
  induction ts with
  | nil => rfl
  | cons t ts ih => simp [textAll, ih]

end Ty

end Boxlang
