/-!
# Places in a source text

Offsets and lengths count bytes of the source in UTF-8.
-/

namespace Boxlang

structure Span where
  offset : Nat
  length : Nat
  deriving DecidableEq, Inhabited

structure Ident where
  name : String
  span : Span
  deriving DecidableEq, Inhabited

end Boxlang
