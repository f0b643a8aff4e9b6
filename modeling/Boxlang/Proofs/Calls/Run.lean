import Boxlang.Analysis.Expr
import Boxlang.Proofs.Analysis.Run

/-!
# Runs of calls

A call of a known function runs in two parts: `prepareCall` finds out whether it may be
made and what its generic parameters stand for, `checkArguments` makes its arguments
meet the parameters as the call sees them.
-/

namespace Boxlang

namespace Analysis

variable {α β γ : Type} {env : Environment} {s s' : AnalysisState} {visit : Visit} {slot : Slot}
  {receiver? : Option Ty} {target : Signature} {arguments : Arguments} {generics : List Ty}

/-- The arguments and generic arguments of the call in `slot`, which may be made. -/
def prepareCall (visit : Visit) (slot : Slot) (receiver? : Option Ty) (target : Signature) :
    Analysis (Arguments × List Ty) := do
  let arguments ← argumentsOf slot target
  checkUse target arguments.span
  if arguments.args.length ≠ target.params.length then
    throw (.argumentCount target.qualifiedName target.params.length arguments.args.length
      arguments.span)
  let generics ← ensureGenericArguments visit slot receiver? target
  return (arguments, generics)

/-- Makes arguments meet parameters, where the call sees the types of the target through `view`. -/
def checkArguments (visit : Visit) (view : Ty → Ty) (target : Signature) (arguments : Arguments) :
    Analysis Ty := do
  (target.params.zip arguments.args).forM fun (param, arg) =>
    discard (expectType visit (view param.type) arg)
  return view target.ret

/-- A call is checked against the parameters as the callee's context gives them. -/
theorem analyseFunctionCall_eq : analyseFunctionCall visit slot receiver? target = (do
    let (arguments, generics) ← prepareCall visit slot receiver? target
    let c := { (← read).calleeContext receiver? target with args := generics }
    checkArguments visit c.instantiate target arguments) := by
  simp only [analyseFunctionCall, prepareCall, checkArguments, bind_assoc]
  refine bind_congr fun arguments => bind_congr fun _ => ?_
  split <;> simp only [bind_assoc, pure_bind]

theorem inferredArgument_ok {c : GenericContext} {span : Span} {generic : GenericParam} {candidates : Candidates}
    {t : Ty} (h : (inferredArgument c target span generic candidates).runIn env s = (.ok t, s')) :
    s' = s ∧ candidates.result = .ok t ∧
      env.declarations.isSubtype env.context t (c.upperBound generic.constraint) = true := by
  unfold inferredArgument at h
  dsimp only at h
  split at h
  · simp at h
  next u hu =>
    rw [runIn_bind, runIn_read] at h
    dsimp only at h
    split at h
    next hsub =>
      obtain ⟨rfl, rfl⟩ : u = t ∧ s = s' := by simpa using h
      exact ⟨rfl, hu, hsub⟩
    next =>
      rw [runIn_bind] at h
      simp at h

end Analysis

end Boxlang
