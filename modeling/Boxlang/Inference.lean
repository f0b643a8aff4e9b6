import Boxlang.Subtyping

/-!
# Inferring generic arguments

A `Candidates` value folds the types observed for one generic parameter at one
call into their least common supertype.  The first pair without a common
supertype is kept and later candidates no longer matter.

`Candidates.collect` walks a declared type and an actual type side by side and
adds every type found where the declared type has a variable.
-/

namespace Boxlang

/-- What the candidates seen for one generic parameter amount to. -/
inductive Candidates where
  /-- No candidate was seen. -/
  | unseen
  /-- All candidates are below this type. -/
  | common (t : Ty)
  /-- No type is above the candidates: `common` holds for those before `candidate`. -/
  | conflict (common candidate : Ty)
  deriving DecidableEq, Inhabited

/-- Why no argument can be inferred for a generic parameter. -/
inductive InferenceProblem where
  | noCandidates
  | conflict (common candidate : Ty)
  deriving DecidableEq

namespace InferenceProblem

def message : InferenceProblem → String
  | .noCandidates => "no argument mentions it"
  | .conflict common candidate =>
    common.text ++ " and " ++ candidate.text ++ " have no common supertype"

end InferenceProblem

namespace Candidates

variable (d : Declarations) (c : GenericContext)

def add (candidates : Candidates) (t : Ty) : Candidates :=
  match candidates with
  | .unseen => .common t.erased
  | .common u =>
    match d.commonSupertype? c u t.erased with
    | some wider => .common wider
    | none => .conflict u t.erased
  | .conflict u v => .conflict u v

def result : Candidates → Except InferenceProblem Ty
  | .unseen => .error .noCandidates
  | .common t => .ok t
  | .conflict u v => .error (.conflict u v)

mutual

/--
Adds the types that stand in `actual` where `declared` has one of the function's
own variables, to the candidates of that variable.
-/
def collect (declared actual : Ty) (all : List Candidates) : List Candidates :=
  match _h : declared.unboxed, actual.unboxed with
  | .localGeneric i _, t => all.modify i (·.add d c t)
  | .optional x, .optional y => collect x y all
  | .optional x, y => collect x y all
  | .object n xs, .object m ys | .object n xs, .value m ys
  | .value n xs, .object m ys | .value n xs, .value m ys =>
    if n = m ∧ xs.length = ys.length then collectAll xs ys all else all
  | .callable params ret, .callable params' ret' =>
    if params.length = params'.length then
      collect ret ret' (collectAll params params' all)
    else all
  | .typeValue x, .typeValue y => collect x y all
  | _, _ => all
termination_by 2 * declared.size
decreasing_by
  all_goals
    have hle := Ty.size_unboxed_le declared
    simp only [_h, Ty.size] at hle
    omega

def collectAll : List Ty → List Ty → List Candidates → List Candidates
  | x :: xs, y :: ys, all => collectAll xs ys (collect x y all)
  | _, _, all => all
termination_by declared => 2 * Ty.sizeAll declared + 1
decreasing_by
  all_goals
    have := Ty.size_pos x
    simp only [Ty.sizeAll]
    omega

end

end Candidates

end Boxlang
