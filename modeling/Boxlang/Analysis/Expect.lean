import Boxlang.Analysis.Compliance
import Boxlang.Inference

/-!
# Expected types

Analysing an expression against what its use site expects.  How the expression
itself is analysed is a parameter of every function here.
-/

namespace Boxlang

/-- A way of typing the expression in a slot, given what its use site expects. -/
abbrev Visit := Slot → Option Expectation → Analysis Ty

namespace Analysis

/-- Fails unless a value of type `actual` can stand where `expected` is asked for. -/
def requireSubtype (actual expected : Ty) (span : Span) : Analysis Unit := do
  let env ← read
  unless env.declarations.isSubtype env.context actual expected do
    throw (.mismatch expected actual span)

/-- Types the expression in `slot`, checks its type and makes it meet the expectation. -/
def expect (visit : Visit) (e : Expectation) (slot : Slot) : Analysis Ty := do
  let actual ← visit slot (some e)
  requireSubtype actual e.type (← spanOf slot)
  comply actual e slot

/-- As `expect`, in the storage that the type itself asks for. -/
def expectType (visit : Visit) (t : Ty) (slot : Slot) : Analysis Ty :=
  expect visit { type := t } slot

/--
Types the expression in `slot` and adds what stands in its type where `t` has one
of the callee's own variables to the candidates of that variable.  Nothing is
checked or inserted.
-/
def collectFrom (visit : Visit) (t : Ty) (slot : Slot) (all : List Candidates) :
    Analysis (Ty × List Candidates) := do
  let actual ← visit slot none
  let env ← read
  return (actual, Candidates.collect env.declarations env.context t actual all)

def noValueType (e? : Option Expectation) (span : Span) : Analysis Ty :=
  match e? with
  | none => throw (.noValueWithoutOptional span)
  | some e =>
    match e.type.unboxed with
    | .optional _ => return e.type.heldIn (e.target e.type)
    | .error => return .error
    | _ => throw (.noValueWithoutOptional span)

def formType (form : TypeForm) (e? : Option Expectation) (span : Span) : Analysis Ty := do
  match form with
  | .explicit written => resolveType written
  | .inferred =>
    match e?.map Expectation.type |>.map Ty.unboxed with
    | some (.typeValue t) => return t
    | _ => throw (.unresolved .type "_" span)
  | .this =>
    match (← read).function.owner? with
    | some t => return t
    | none => throw (.unresolved .type "This" span)

/-- Refuses types that have no single meta at run time. -/
def validateMetability (t : Ty) (span : Span) : Analysis Unit :=
  match t.unboxed with
  | .protocol _ | .optional _ | .callable _ _ | .something | .nothing | .typeValue _ =>
    throw (.notMetable t.text span)
  | _ => return ()

/-- The type that the type expression in `slot` denotes, with its generic variables bounded. -/
def denotedType (visit : Visit) (slot : Slot) (e : Expectation) : Analysis Ty := do
  match ← visit slot (some e) with
  | .typeValue t => return (← read).context.upperBound t
  | .error => return .error
  | actual => throw (.mismatch (.typeValue .something) actual (← spanOf slot))

end Analysis

end Boxlang
