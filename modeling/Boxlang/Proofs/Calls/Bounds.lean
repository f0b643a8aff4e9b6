import Boxlang.Proofs.Calls.Candidates
import Boxlang.Proofs.Calls.Run
import Boxlang.Proofs.Elaboration.Settled
import Boxlang.Proofs.Types.Variables

/-!
# Bounds of generic arguments

The generic arguments of a call, written or inferred, are each below the constraint of
their parameter, in which the variables of the owner stand for their arguments.  A
variable of the callee itself stands for its constraint there, and not for the argument
that was found for it, so a constraint that mentions other parameters bounds the argument
by less than it says (`isSubtype_upperBound_of_ensureGenericArguments`).
-/

namespace Boxlang

namespace Candidates

variable (d : Declarations) (c : GenericContext)

theorem length_addFound (found : List (Nat × Ty)) (all : List Candidates) :
    (addFound d c found all).length = all.length := by
  induction found generalizing all with
  | nil => rfl
  | cons q found ih => exact (ih _).trans (List.length_modify _ _ _)

end Candidates

namespace Analysis

variable {env : Environment} {s s' : AnalysisState} {visit : Visit} {slot : Slot} {target : Signature}
  {receiver? : Option Ty} {arguments : Arguments} {types : List Ty}

def MeetBounds (env : Environment) (c : GenericContext) (generics : List GenericParam) (types : List Ty) :
    Prop :=
  List.Forall₂ (fun generic t => env.declarations.isSubtype env.context t (c.upperBound generic.constraint) = true)
    generics types

theorem meetBounds_of_checkGenericArguments
    (hrun : (checkGenericArguments target receiver? arguments).runIn env s = (.ok types, s')) :
    MeetBounds env (env.calleeContext receiver? target) target.generics types := by
  unfold checkGenericArguments at hrun
  dsimp only at hrun
  split at hrun
  · rw [runIn_bind] at hrun
    simp at hrun
  next hlen =>
    have hlen : arguments.written.length = target.generics.length := Decidable.not_not.mp hlen
    rw [runIn_bind, runIn_read] at hrun
    have hall := forall₂_of_runIn_mapM_ok (P := fun q t => env.declarations.isSubtype env.context t
      ((env.calleeContext receiver? target).upperBound q.2.constraint) = true)
      (fun q _ s₁ t s₂ hq => by
        obtain ⟨u, s₃, -, hcheck⟩ := runIn_bind_ok.mp hq
        obtain ⟨⟨⟩, s₄, hsub, hreturn⟩ := runIn_bind_ok.mp hcheck
        obtain ⟨rfl, -⟩ : u = t ∧ s₄ = s₂ := by simpa using hreturn
        exact Declarations.isSubtype_iff.mpr (runIn_requireSubtype_ok hsub).1) hrun
    rw [MeetBounds, ← List.map_snd_zip hlen.ge]
    exact List.forall₂_map_left_iff.mpr hall

theorem length_of_collectCandidates {c : GenericContext} {all : List Candidates}
    (hrun : (collectCandidates visit c target arguments).runIn env s = (.ok all, s')) :
    all.length = target.generics.length := by
  rw [runIn_collectCandidates] at hrun
  obtain ⟨observed, -, rfl⟩ := runIn_map_ok.mp hrun
  rw [collectThrough_eq, Candidates.length_addFound, List.length_map]

theorem meetBounds_of_inferGenericArguments
    (hrun : (inferGenericArguments visit target receiver? arguments).runIn env s = (.ok types, s')) :
    MeetBounds env (env.calleeContext receiver? target) target.generics types := by
  unfold inferGenericArguments at hrun
  rw [runIn_bind, runIn_read] at hrun
  dsimp only at hrun
  obtain ⟨all, s₁, hcollect, hinfer⟩ := runIn_bind_ok.mp hrun
  have hall := forall₂_of_runIn_mapM_ok (P := fun q t => env.declarations.isSubtype env.context t
      ((env.calleeContext receiver? target).upperBound q.1.constraint) = true)
    (fun ⟨generic, candidates⟩ _ s₂ t s₃ hq => (inferredArgument_ok hq).2.2) hinfer
  rw [MeetBounds, ← List.map_fst_zip (length_of_collectCandidates hcollect).ge]
  exact List.forall₂_map_left_iff.mpr hall

theorem eq_of_keepGenericArguments {found : List Ty}
    (hkeep : (do
        modifyKind slot (·.withGenericArguments found)
        return found : Analysis (List Ty)).runIn env s = (.ok types, s')) : found = types := by
  obtain ⟨⟨⟩, s₁, -, hreturn⟩ := runIn_bind_ok.mp hkeep
  obtain ⟨rfl, -⟩ : found = types ∧ s₁ = s' := by simpa using hreturn
  rfl

theorem meetBounds_of_ensureGenericArguments
    (hrun : (ensureGenericArguments visit slot receiver? target).runIn env s = (.ok types, s')) :
    MeetBounds env (env.calleeContext receiver? target) target.generics types := by
  unfold ensureGenericArguments at hrun
  obtain ⟨arguments, s₁, -, hrun⟩ := runIn_bind_ok.mp hrun
  dsimp only at hrun
  split at hrun
  · obtain ⟨found, s₂, hfound, hkeep⟩ := runIn_bind_ok.mp hrun
    rw [← eq_of_keepGenericArguments hkeep]
    exact meetBounds_of_checkGenericArguments hfound
  · split at hrun
    · obtain ⟨found, s₂, hfound, hkeep⟩ := runIn_bind_ok.mp hrun
      rw [← eq_of_keepGenericArguments hkeep]
      exact meetBounds_of_inferGenericArguments hfound
    next hgeneric =>
      obtain ⟨found, s₂, hfound, hkeep⟩ := runIn_bind_ok.mp hrun
      obtain ⟨rfl, -⟩ : [] = found ∧ s₁ = s₂ := by simpa using hfound
      have hnone : target.generics = [] := by simpa [Signature.isGeneric] using hgeneric
      rw [← eq_of_keepGenericArguments hkeep, hnone]
      exact .nil

end Analysis

/-! ### Bounds once the arguments are known -/

namespace GenericContext

/-- If the type is a variable of the callee, its argument is what its constraint says, in whatever storage. -/
def StandsForConstraint (c : GenericContext) (types : List Ty) : Ty → Prop
  | .localGeneric j _ => (types[j]?.getD (c.localConstraint j)).erased = (c.localConstraint j).erased
  | _ => True

/-- Arguments make no difference to a bound in which they are what the constraints say. -/
theorem erased_upperBound_congr {c : GenericContext} (hargs : c.args = []) {types : List Ty} {t : Ty}
    (h : t.Every (c.StandsForConstraint types)) :
    (({ c with args := types } : GenericContext).upperBound t).erased = (c.upperBound t).erased := by
  rw [upperBound, upperBound, Ty.erased_subst, Ty.erased_subst]
  apply Ty.subst_congr
  apply Ty.every_erased (p := c.StandsForConstraint types) _ t h
  intro v hv hunmarked
  cases v with
  | localGeneric j n =>
      simpa [Ty.erased, Ty.ReplacedAlike, hargs, localConstraint, StandsForConstraint] using hv
  | boxed inner => exact hunmarked.elim
  | _ => first | rfl | trivial

end GenericContext

namespace Analysis

variable {env : Environment} {s s' : AnalysisState} {visit : Visit} {slot : Slot} {target : Signature}
  {receiver? : Option Ty} {types : List Ty}

/--
Each generic argument of a call is below its constraint, with the constraints of the
callee's own variables in their place.  It is below the constraint with their arguments
in their place where these are what the constraints say, as where it mentions none.
-/
theorem isSubtype_upperBound_of_ensureGenericArguments
    (hrun : (ensureGenericArguments visit slot receiver? target).runIn env s = (.ok types, s')) :
    let c := env.calleeContext receiver? target
    MeetBounds env c target.generics types ∧
      List.Forall₂ (fun generic t => generic.constraint.Every (c.StandsForConstraint types) →
        env.declarations.isSubtype env.context t
          (({ c with args := types } : GenericContext).upperBound generic.constraint) = true)
        target.generics types := by
  intro c
  have hmeet : MeetBounds env c target.generics types := meetBounds_of_ensureGenericArguments hrun
  have hargs : c.args = [] := by cases receiver? <;> rfl
  refine ⟨hmeet, ?_⟩
  apply List.Forall₂.imp _ hmeet
  intro generic t hbound hstands
  rw [Declarations.isSubtype, GenericContext.erased_upperBound_congr hargs hstands]
  exact hbound

end Analysis

def boundedPackage : Package where
  functions := [
    { name := "pair", generics := [⟨"T", .something⟩, ⟨"U", .localGeneric 0 "T"⟩],
      params := [⟨"a", .localGeneric 0 "T"⟩, ⟨"b", .localGeneric 1 "U"⟩] },
    { name := "main" }]

/-- `pair(1, "s")` -/
def callPair : Body where
  arena := { nodes := #[
    { span := ⟨0, 1⟩, kind := .int 1 },
    { span := ⟨10, 1⟩, kind := .string "s" },
    { span := ⟨20, 1⟩, kind := .call ⟨"pair", ⟨20, 1⟩⟩ { span := ⟨20, 1⟩, args := [0, 1] } none }] }
  stmts := [.expr 2]

open Analysis

/-- The integer is below the constraint of its parameter, which mentions no other. -/
theorem isSubtype_upperBound_of_pair :
    let env : Environment := { package := boundedPackage, function := boundedPackage.signature 1 }
    let ensuring := ensureGenericArguments analyseExpr 2 none (boundedPackage.signature 0)
    (ensuring.runIn env (.start env.function callPair [])).1.toOption = some [.int, .string] ∧
      env.declarations.isSubtype env.context .int .something = true := by
  intro env ensuring
  have htypes : (ensuring.runIn env (.start env.function callPair [])).1.toOption = some [.int, .string] := by
    decide +kernel
  refine ⟨htypes, ?_⟩
  rcases hrun : ensuring.runIn env (.start env.function callPair []) with ⟨_ | types, s'⟩
  · rw [hrun] at htypes
    cases htypes
  · obtain rfl : types = [.int, .string] := by
      rw [hrun] at htypes
      exact Option.some.inj htypes
    obtain ⟨-, hall⟩ := isSubtype_upperBound_of_ensureGenericArguments hrun
    cases hall with
    | cons hfirst _ => exact hfirst trivial

/-- The string is accepted, although it is not below the argument that bounds it. -/
theorem not_isSubtype_upperBound_of_pair :
    let env : Environment := { package := boundedPackage, function := boundedPackage.signature 1 }
    let target := boundedPackage.signature 0
    let types := [Ty.int, .string]
    ((ensureGenericArguments analyseExpr 2 none target).runIn env
        (.start env.function callPair [])).1.toOption = some types ∧
      target.generics[1]? = some ⟨"U", .localGeneric 0 "T"⟩ ∧
      ({ env.calleeContext none target with args := types } : GenericContext).upperBound
        (.localGeneric 0 "T") = .int ∧
      env.declarations.isSubtype env.context .string .int = false ∧
      (boundedPackage.analyseDefinition true [] ⟨1, callPair⟩).2 = [] := by
  decide +kernel

end Boxlang
