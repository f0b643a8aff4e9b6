import Boxlang.Declarations
import Boxlang.GenericContext

/-!
# Subtyping

`isSubtype` decides whether a value of one type can stand where another is
expected, whatever its storage; `commonSupertype?` finds the least type above
two types.  Both work on types without storage marks.

A generic variable is below whatever its constraint is below, so comparing a
variable goes on with its constraint, which may be larger than the variable.
Constraints add no types beyond their own parts, so a comparison that ends meets
each pair of parts at most once on the way down.  That gives the step bound of
`isSubtype`; the step-counted function is `isSubtypeWithin`.
-/

namespace Boxlang

namespace Declarations

variable (d : Declarations) (c : GenericContext)

/-- Subtyping of types without storage marks, decided within a number of nested steps. -/
def isSubtypeWithin : Nat → Ty → Ty → Bool
  | 0, _, _ => false
  | steps + 1, sub, sup =>
    if sub.isError || sup.isError || sub == sup then true
    else
      match sub, sup with
      | .optional _, .something | .typeValue _, .something | .nothing, .something => false
      | _, .something => true
      | .optional a, .optional b => isSubtypeWithin steps a b
      | .optional _, _ => false
      | a, .optional b => isSubtypeWithin steps a b
      | .localGeneric _ _, b | .generic _ _, b =>
        match c.constraint? sub with
        | some bound => bound != sub && isSubtypeWithin steps bound b
        | none => false
      | .object _ _, .object _ _ => d.hasAncestor sub (· == sup)
      | a, .protocol name => d.conformsTo a name
      | .callable params ret, .callable params' ret' =>
        params.length == params'.length
          && (params'.zip params).all (fun (p', p) => isSubtypeWithin steps p' p)
          && isSubtypeWithin steps ret ret'
      | .typeValue a, .typeValue b => isSubtypeWithin steps a b
      | _, _ => false

/--
The number of nested steps that suffices to compare two types.  All types met are
the top or parts of the two types and of the constraints, and no pair of them is met
again below itself.
-/
def subtypeSteps (a b : Ty) : Nat :=
  let parts := 1 + a.size + b.size + Ty.sizeAll c.constraints + Ty.sizeAll c.ownerConstraints
  parts * parts + 1

def isSubtypeErased (sub sup : Ty) : Bool :=
  d.isSubtypeWithin c (subtypeSteps c sub sup) sub sup

/-- Whether a value of type `sub` can be used where `sup` is expected, in whatever storage. -/
def isSubtype (sub sup : Ty) : Bool :=
  d.isSubtypeErased c sub.erased sup.erased

/-! ### Common supertypes -/

/--
The least type above two types neither of which is above the other and which are
not optional: the nearest common ancestor, else a protocol of both, else the top.
-/
def nominalJoin (a b : Ty) : Ty :=
  match d.findAncestor? a (d.isSubtypeErased c b) with
  | some ancestor => ancestor
  | none =>
    match (d.protocolsOf a).find? (d.protocolsOf b).contains with
    | some name => .protocol name
    | none => .something

def commonErased? (a b : Ty) : Option Ty :=
  if a.isError then some b
  else if d.isSubtypeErased c a b then some b
  else if d.isSubtypeErased c b a then some a
  else
    match a, b with
    | .optional x, .optional y => (commonErased? x y).map .optional
    | .optional x, y => (commonErased? x y).map .optional
    | x, .optional y => (commonErased? y x).map .optional
    | .typeValue x, .typeValue y => (commonErased? x y).map .typeValue
    | .typeValue _, _ | .nothing, _ | _, .typeValue _ | _, .nothing => none
    | x, y => some (d.nominalJoin c x y)
termination_by a.size + b.size
decreasing_by all_goals simp only [Ty.size]; omega

/-- The least common supertype of two types, or `none` if no type is above both. -/
def commonSupertype? (a b : Ty) : Option Ty :=
  d.commonErased? c a.erased b.erased

end Declarations

end Boxlang
