import Boxlang.Analysis.Package
import Boxlang.Proofs.Analysis.Run
import Boxlang.Proofs.Types.Walk

/-!
# The candidates of a call

Generic arguments are inferred from what the arguments show where the parameter types
have variables of the callee.  The parameter types are instantiated for the receiver
first, so a variable of the caller that stands in the receiver's type is taken for one of
the callee.  The candidates are those of the declared types exactly if nothing that stands
for a variable of the owner adds any (`addsNothing_iff_of_collectCandidates`); so they are
where no variable of a function stands in the receiver's type.
-/

namespace Boxlang

namespace Analysis

variable {env : Environment} {s s' : AnalysisState} {visit : Visit} {target : Signature}
  {arguments : Arguments} {receiver? : Option Ty}

/-- Types the arguments that candidates come from, each with the declared type of its parameter. -/
def observeArguments (visit : Visit) (target : Signature) (arguments : Arguments) :
    Analysis (List (Ty × Ty)) :=
  ((target.params.zip arguments.args).filter (·.1.type.mentionsLocalGenerics)).mapM fun (param, arg) => do
    return (param.type, ← visit arg none)

/-- Collects from the declared types in order, as they are seen through `view`. -/
def collectThrough (env : Environment) (view : Ty → Ty) (observed : List (Ty × Ty))
    (all : List Candidates) : List Candidates :=
  observed.foldl (fun all q => Candidates.collect env.declarations env.context (view q.1) q.2 all) all

theorem collectThrough_cons (view : Ty → Ty) (q : Ty × Ty) (observed : List (Ty × Ty))
    (all : List Candidates) : collectThrough env view (q :: observed) all =
      collectThrough env view observed
        (Candidates.collect env.declarations env.context (view q.1) q.2 all) :=
  rfl

/-- Collecting first types the arguments and then walks what was seen. -/
theorem runIn_collectCandidates (c : GenericContext) :
    (collectCandidates visit c target arguments).runIn env s =
      ((collectThrough env c.instantiate · (target.generics.map fun _ => .unseen)) <$>
        observeArguments visit target arguments).runIn env s := by
  simp only [collectCandidates, observeArguments, collectFrom, map_eq_pure_bind, bind_assoc, pure_bind]
  generalize target.generics.map (fun _ => Candidates.unseen) = all
  induction target.params.zip arguments.args generalizing s all with
  | nil => rfl
  | cons q l ih =>
      rw [List.foldlM_cons, List.filter_cons]
      by_cases hm : q.1.type.mentionsLocalGenerics
      · simp only [hm, if_true, List.mapM_cons, bind_assoc, pure_bind]
        rw [runIn_bind, runIn_bind]
        rcases (visit q.2 none).runIn env s with ⟨_ | actual, s₁⟩
        · rfl
        · dsimp only
          rw [runIn_bind, runIn_read]
          simp only [collectThrough_cons]
          exact ih _
      · simp only [hm, Bool.false_eq_true, if_false, pure_bind]
        exact ih all

theorem collectThrough_eq (view : Ty → Ty) (observed : List (Ty × Ty)) (all : List Candidates) :
    collectThrough env view observed all = Candidates.addFound env.declarations env.context
      (observed.flatMap fun q => Ty.found (view q.1) q.2) all := by
  simp only [collectThrough, Candidates.collect_eq_addFound, Candidates.addFound_flatMap]

theorem forall_of_observeArguments {p : Ty → Prop} {observed : List (Ty × Ty)}
    (hp : ∀ param ∈ target.params, p param.type)
    (h : (observeArguments visit target arguments).runIn env s = (.ok observed, s')) :
    ∀ q ∈ observed, p q.1 := by
  have hall := forall₂_of_runIn_mapM_ok (P := fun _ q => p q.1) (fun q hq s₁ b s₂ hstep => by
    obtain ⟨actual, s₃, -, hreturn⟩ := runIn_bind_ok.mp hstep
    obtain ⟨rfl, -⟩ : (q.1.type, actual) = b ∧ s₃ = s₂ := by simpa using hreturn
    exact hp q.1 (List.of_mem_zip (List.mem_filter.mp hq).1).1) h
  intro q hq
  obtain ⟨i, hi, rfl⟩ := List.mem_iff_getElem.mp hq
  exact hall.get (hall.length_eq ▸ hi) hi

/-- Before the generic arguments are known, only the variables of the owner are replaced. -/
theorem instantiate_eq_subst (t : Ty) : (env.calleeContext receiver? target).instantiate t =
    t.subst (fun i => ((env.calleeContext receiver? target).ownerArg? i).map Ty.inBox) fun _ => none := by
  have hargs : (env.calleeContext receiver? target).args = [] := by cases receiver? <;> rfl
  simp only [GenericContext.instantiate, hargs, List.getElem?_nil, Option.map_none]

/--
The candidates of a call are those that its arguments show where the instances of the
declared types have own variables of the callee.  They are the candidates of the declared
types themselves exactly if what stands for the variables of the owner adds none; then,
as where no variable of a function stands for them, collecting from the declared types
gives the same.
-/
theorem addsNothing_iff_of_collectCandidates {all : List Candidates}
    (hparams : ∀ param ∈ target.params, param.type.Every Ty.IsMarkedOnce)
    (hrun : (collectCandidates visit (env.calleeContext receiver? target) target arguments).runIn env s =
      (.ok all, s')) :
    let c := env.calleeContext receiver? target
    let unseen := target.generics.map fun _ => Candidates.unseen
    ∃ observed, (observeArguments visit target arguments).runIn env s = (.ok observed, s') ∧
      all = Candidates.addFound env.declarations env.context
        (observed.flatMap fun q => Ty.found (c.instantiate q.1) q.2) unseen ∧
      ((observed.flatMap fun q => Ty.found (c.instantiate q.1) q.2) =
          (observed.flatMap fun q => Ty.found q.1 q.2) ↔
        ∀ q ∈ observed, ∀ v ∈ Ty.walk q.1 q.2, Ty.AddsNothing c.ownerArg? v) ∧
      ((∀ q ∈ observed, ∀ v ∈ Ty.walk q.1 q.2, Ty.AddsNothing c.ownerArg? v) →
        all = collectThrough env id observed unseen) ∧
      ((∀ i a, c.ownerArg? i = some a → a.mentionsLocalGenerics = false) →
        all = collectThrough env id observed unseen) := by
  intro c unseen
  rw [runIn_collectCandidates] at hrun
  obtain ⟨observed, hobserve, rfl⟩ := runIn_map_ok.mp hrun
  have hmarks := forall_of_observeArguments hparams hobserve
  have hiff : (observed.flatMap fun q => Ty.found (c.instantiate q.1) q.2) =
      (observed.flatMap fun q => Ty.found q.1 q.2) ↔
        ∀ q ∈ observed, ∀ v ∈ Ty.walk q.1 q.2, Ty.AddsNothing c.ownerArg? v := by
    simp only [c, instantiate_eq_subst]
    rw [Ty.flatMap_eq_flatMap_iff fun q hq => Ty.found_sublist_found_subst _ q.2 (hmarks q hq)]
    refine forall₂_congr fun q hq => (Ty.found_subst_eq_iff _ q.2 (hmarks q hq)).trans ?_
    exact forall₂_congr fun v _ => Ty.addsNothing_map_inBox_iff
  have hsame (h : ∀ q ∈ observed, ∀ v ∈ Ty.walk q.1 q.2, Ty.AddsNothing c.ownerArg? v) :
      collectThrough env c.instantiate observed unseen = collectThrough env id observed unseen := by
    rw [collectThrough_eq, collectThrough_eq, hiff.mpr h]
    rfl
  refine ⟨observed, hobserve, collectThrough_eq _ _ _, hiff, hsame, fun hno => hsame ?_⟩
  intro q _ v _ i n a _ ha
  exact Ty.found_eq_nil (hno i a ha) v.2

end Analysis

def mapPackage : Package where
  declarations := Declarations.prelude.addClass "Node" { generics := ["E"] }
  functions := [
    { name := "map", owner? := some (.object "Node" [.generic 0 "E"]), generics := [⟨"V", .something⟩],
      params := [⟨"f", .callable [.generic 0 "E"] (.localGeneric 0 "V")⟩] },
    { name := "bounded", generics := [⟨"T", .object "Node" [.localGeneric 0 "T"]⟩],
      params := [⟨"x", .localGeneric 0 "T"⟩, ⟨"f", .callable [.localGeneric 0 "T"] .bool⟩] },
    { name := "plain", params := [⟨"x", .object "Node" [.int]⟩, ⟨"f", .callable [.int] .bool⟩] }]

/-- `x.map(f)` -/
def callMap : Body where
  arena := { nodes := #[
    { span := ⟨0, 1⟩, kind := .localRef ⟨"x", ⟨0, 1⟩⟩ none },
    { span := ⟨10, 1⟩, kind := .localRef ⟨"f", ⟨10, 1⟩⟩ none },
    { span := ⟨20, 1⟩, kind := .methodCall 0 ⟨"map", ⟨20, 1⟩⟩ { span := ⟨20, 1⟩, args := [1] } none }] }
  stmts := [.expr 2]

open Analysis

/-- A node of integers adds nothing for its variable. -/
theorem collectThrough_eq_of_plain :
    let env : Environment := { package := mapPackage, function := mapPackage.signature 2 }
    let target := mapPackage.signature 0
    let arguments : Arguments := { span := ⟨20, 1⟩, args := [1] }
    let s : AnalysisState := .start env.function callMap []
    ∃ observed, ((observeArguments analyseExpr target arguments).runIn env s).1 = .ok observed ∧
      ((collectCandidates analyseExpr (env.calleeContext (some (.object "Node" [.int])) target) target
        arguments).runIn env s).1.toOption = some [.common .bool] ∧
      collectThrough env id observed [.unseen] = [.common .bool] := by
  intro env target arguments s
  have hall : ((collectCandidates analyseExpr (env.calleeContext (some (.object "Node" [.int])) target) target
      arguments).runIn env s).1.toOption = some [.common .bool] := by
    decide +kernel
  rcases hrun : (collectCandidates analyseExpr (env.calleeContext (some (.object "Node" [.int])) target) target
    arguments).runIn env s with ⟨_ | all, s'⟩
  · rw [hrun] at hall
    cases hall
  · obtain rfl : all = [.common .bool] := by
      rw [hrun] at hall
      exact Option.some.inj hall
    obtain ⟨observed, hobserve, -, -, -, hsame⟩ := addsNothing_iff_of_collectCandidates
      (by simp [target, mapPackage, Package.signature, Ty.Every, Ty.EveryAll, Ty.IsMarkedOnce]) hrun
    refine ⟨observed, congrArg Prod.fst hobserve, rfl, (hsame fun i a ha => ?_).symm⟩
    cases i <;> cases ha
    rfl

/--
A variable of the caller that stands for the node's variable is taken for the one of the
method, so that what the callable takes is a candidate beside what it returns.
-/
theorem collectThrough_ne_of_bounded :
    let env : Environment := { package := mapPackage, function := mapPackage.signature 1 }
    let receiver : Ty := .object "Node" [.localGeneric 0 "T"]
    let target := mapPackage.signature 0
    let arguments : Arguments := { span := ⟨20, 1⟩, args := [1] }
    let s : AnalysisState := .start env.function callMap []
    let observed := [(Ty.callable [.generic 0 "E"] (.localGeneric 0 "V"), Ty.callable [.localGeneric 0 "T"] .bool)]
    env.context.upperBound (.localGeneric 0 "T") = receiver ∧
      ((observeArguments analyseExpr target arguments).runIn env s).1.toOption = some observed ∧
      ((collectCandidates analyseExpr (env.calleeContext (some receiver) target) target arguments).runIn
        env s).1.toOption = some [.common .something] ∧
      collectThrough env id observed [.unseen] = [.common .bool] := by
  decide +kernel

end Boxlang
