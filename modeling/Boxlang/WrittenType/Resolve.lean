import Boxlang.Diagnostic
import Boxlang.Package
import Boxlang.WrittenType

/-!
# Resolving written types

What a written type means inside a function.  Built-in names come first, then the
function's own generic parameters, those of its owner, and declared types.
-/

namespace Boxlang

def Ty.builtin? : String → Option Ty
  | "Int" => some .int
  | "Real" => some .real
  | "Bool" => some .bool
  | "Byte" => some .byte
  | "Symbol" => some .symbol
  | "Something" => some .something
  | "Nothing" => some .nothing
  | _ => none

namespace Signature

def ownerGenerics (f : Signature) (d : Declarations) : List String :=
  match f.owner? with
  | some owner => d.genericsOf owner.unboxed
  | none => []

/-- The type that a name, applied to arguments, means inside the function. -/
def named? (f : Signature) (d : Declarations) (name : String) (args : List Ty) : Option Ty :=
  match Ty.builtin? name with
  | some t => some t
  | none =>
    match (f.generics.map (·.name)).findIdx? (· == name) with
    | some i => some (.localGeneric i name)
    | none =>
      match (f.ownerGenerics d).findIdx? (· == name) with
      | some i => some (.generic i name)
      | none =>
        (d.type? name).map fun
          | .object n _ => .object n args
          | .value n _ => .value n args
          | t => t

mutual

/-- The meaning of a written type inside the function, or the name that means nothing there. -/
def resolve (f : Signature) (d : Declarations) : WrittenType → Except SemanticError Ty
  | .optional _ inner => do
    return .optional (← resolve f d inner)
  | .callable _ params ret => do
    let ps ← resolveAll f d params
    return .callable ps (← resolve f d ret)
  | .named span name args => do
    let ts ← resolveAll f d args
    match f.named? d name ts with
    | some t => return t
    | none => throw (.unresolved .type name span)

/-- The meanings of the written types of a list, or the first name that means nothing. -/
def resolveAll (f : Signature) (d : Declarations) :
    List WrittenType → Except SemanticError (List Ty)
  | [] => return []
  | t :: ts => do
    let u ← resolve f d t
    return u :: (← resolveAll f d ts)

end

end Signature

end Boxlang
