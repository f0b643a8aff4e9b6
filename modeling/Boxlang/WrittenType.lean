import Boxlang.Span

/-!
# Types as written

The type expressions of the source, before names are resolved.
-/

namespace Boxlang

inductive WrittenType where
  | named (span : Span) (name : String) (args : List WrittenType)
  | optional (span : Span) (inner : WrittenType)
  | callable (span : Span) (params : List WrittenType) (ret : WrittenType)
  deriving Inhabited

def WrittenType.span : WrittenType → Span
  | .named span _ _ | .optional span _ | .callable span _ _ => span

end Boxlang
