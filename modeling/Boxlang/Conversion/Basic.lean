import Boxlang.Storage

/-!
# Conversions

A `Conversion` is one step that changes how a value is held.  Callables are
adapted as a whole: the adapted callable converts each argument to what the
wrapped callable expects, invokes it, and converts its result.

`consumes` and `produces` say which storage a conversion starts from and ends in.
-/

namespace Boxlang

/-- A change of the representation of a value. -/
inductive Conversion where
  /--
  A simple value into a box, tagged with the meta of `valueType`, or with its
  conformance to a protocol when the box is to be held as that protocol.
  -/
  | box (valueType : Ty) (protocol : Option String)
  /-- A simple optional into a box; where there is no value, the tag is the null meta. -/
  | boxOptional (valueType : Ty)
  /-- A box into a box tagged with the conformance to a protocol. -/
  | rebox (protocol : String)
  /-- A box into a simple value; its tag is checked at run time. -/
  | unbox (target : Ty)
  /-- A box into a simple optional. -/
  | unboxOptional (target : Ty)
  /-- A simple value into a simple optional that holds it. -/
  | wrapOptional
  /-- The value of a simple optional; that there is one is checked at run time. -/
  | unwrapOptional
  /-- A boxed optional as the box of its value; that there is one is checked at run time. -/
  | unwrapBoxOptional
  /--
  A callable held as `source` into one that is invoked as `target`.  There is one
  entry for each parameter, from the caller's representation to that of the
  wrapped callable, and one for the result, the other way; `none` converts nothing.
  -/
  | adaptCallable (source target : Ty) (args : List (Option Conversion)) (ret : Option Conversion)
  deriving Inhabited

namespace Conversion

def entryCount : Conversion → Nat
  | .adaptCallable _ _ args ret => args.countP (·.isSome) + if ret.isSome then 1 else 0
  | _ => 0

def consumes : Conversion → Storage
  | .box _ _ | .wrapOptional => .simple
  | .boxOptional _ | .unwrapOptional => .simpleOptional
  | .rebox _ | .unbox _ | .unboxOptional _ | .unwrapBoxOptional | .adaptCallable _ _ _ _ => .box

def produces : Conversion → Storage
  | .unbox _ | .unwrapOptional => .simple
  | .unboxOptional _ | .wrapOptional => .simpleOptional
  | .box _ _ | .boxOptional _ | .rebox _ | .unwrapBoxOptional | .adaptCallable _ _ _ _ => .box

end Conversion

end Boxlang
