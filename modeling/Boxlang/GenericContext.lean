import Boxlang.Ty.Basic

/-!
# Generic contexts

What is known about generic variables at some place: the type that owns the
function (whose arguments stand for the owner's variables), the arguments of the
function's own variables, and the constraints of both kinds.

`instantiate` replaces variables by their arguments as a callee sees them, in
boxes, because a function is compiled once for all its instantiations.
`upperBound` replaces every variable, by its constraint if it has no argument.
-/

namespace Boxlang

/-- What is known about the generic variables in scope. -/
structure GenericContext where
  /-- The type that owns the function. -/
  owner : Option Ty := none
  ownerConstraints : List Ty := []
  /-- The arguments of the function's own variables. -/
  args : List Ty := []
  constraints : List Ty := []
  deriving DecidableEq, Inhabited

namespace GenericContext

/-- The type argument that the owner has for its `i`-th variable. -/
def ownerArg? (c : GenericContext) (i : Nat) : Option Ty :=
  match c.owner.map Ty.unboxed with
  | some (.object _ args) | some (.value _ args) => args[i]?
  | _ => none

/-- The constraint of the owner's `i`-th variable. -/
def ownerConstraint (c : GenericContext) (i : Nat) : Ty :=
  c.ownerConstraints.getD i .something

/-- The constraint of the function's own `i`-th variable. -/
def localConstraint (c : GenericContext) (i : Nat) : Ty :=
  c.constraints.getD i .something

def constraint? (c : GenericContext) : Ty → Option Ty
  | .localGeneric i _ => some (c.localConstraint i)
  | .generic i _ => some (c.ownerConstraint i)
  | _ => none

/--
Replaces the variables whose arguments are known.  Substituted positions stay in
box storage: the callee is compiled once and only ever sees boxes there.
-/
def instantiate (c : GenericContext) (t : Ty) : Ty :=
  t.subst (fun i => (c.ownerArg? i).map Ty.inBox) (fun i => c.args[i]?.map Ty.inBox)

/-- Replaces each variable by its argument where known, and by its constraint otherwise. -/
def upperBound (c : GenericContext) (t : Ty) : Ty :=
  t.subst
    (fun i => some ((c.ownerArg? i).getD (c.ownerConstraint i)))
    (fun i => some (c.args[i]?.getD (c.localConstraint i)))

end GenericContext

end Boxlang
