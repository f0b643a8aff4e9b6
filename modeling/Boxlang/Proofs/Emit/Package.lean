import Boxlang.Emit.Package
import Boxlang.Proofs.Elaboration.Complete
import Boxlang.Proofs.Emit.Body

/-!
# Code for accepted bodies

Bodies that analysis accepts can be generated exactly if none of their closures
captures a variable of type nothing.  The context of a closure leaves out values of
type void, and so the function of the closure binds nothing for them, whereas a
function of the package binds its parameters of that type.
-/

namespace Boxlang

def Body.CapturesNothing (b : Body) : Prop :=
  ∃ stmt ∈ Stmt.generated b.stmts, ∃ slot ∈ stmt.slots, b.arena.CapturesNothing slot

namespace Package

open Emit

/--
The body of a function as analysis left it, without errors: it was fresh before, and
nothing but warnings was reported.
-/
structure Accepts (p : Package) (after : Definition) : Prop where
  exists_before : ∃ warnDeprecated reports before, before.function < p.functions.length ∧
    before.body.IsFresh ∧ p.AnalysesCleanly warnDeprecated reports before ∧
      after = (p.analyseDefinition warnDeprecated reports before).1

theorem Accepts.stmtsOk {p : Package} {d : Definition} (h : p.Accepts d) (hp : p.ErrorFree) :
    StmtsOk p (p.signature d.function).ret d.body.arena (.ofSignature (p.signature d.function))
      d.body.stmts := by
  obtain ⟨warnDeprecated, reports, before, hf, hb, hclean, rfl⟩ := h.exists_before
  exact (elaboratedFrom_analyseDefinition hp warnDeprecated reports hf hb hclean).stmts

def functionEnv (p : Package) (definition : Definition) : FunctionEnv where
  package := p
  name := (p.signature definition.function).qualifiedName
  arena := definition.body.arena
  variableCount := definition.body.variableCount
  style := styleOf (p.signature definition.function)

def functionStart (p : Package) (definition : Definition) (m : ModuleState) : World where
  function := .start definition.body.variableCount
  refs := ((noteDefined (p.signature definition.function).qualifiedName).run m).2

theorem run_emitDefinition (p : Package) (definition : Definition) (m : ModuleState) :
    (p.emitDefinition definition).run.run m =
      let r := (genFunction (p.signature definition.function) definition.body.stmts).runIn
        (p.functionEnv definition) (p.functionStart definition m)
      (r.1, r.2.refs) :=
  rfl

theorem exists_runIn_of_emitDefinition {p : Package} {d : Definition} {m m' : ModuleState}
    {f : Llvm.FunctionDef} (h : (p.emitDefinition d).run.run m = (.ok f, m')) :
    ∃ w, (genFunction (p.signature d.function) d.body.stmts).runIn (p.functionEnv d)
      (p.functionStart d m) = (.ok f, w) ∧ w.refs = m' :=
  ⟨_, Prod.ext (Prod.mk.inj h).1 rfl, (Prod.mk.inj h).2⟩

section Sequences

variable {α β : Type} {step : ExceptT EmitError ModuleM α} {next : α → ExceptT EmitError ModuleM β}
  {m m' : ModuleState}

theorem run_bind_of_ok {a : α} (h : step.run.run m = (.ok a, m')) :
    (step >>= next).run.run m = (next a).run.run m' := by
  rw [ExceptT.run_bind, StateT.run_bind, h]
  rfl

theorem run_bind_of_error {e : EmitError} (h : step.run.run m = (.error e, m')) :
    (step >>= next).run.run m = (.error e, m') := by
  rw [ExceptT.run_bind, StateT.run_bind, h]
  rfl

/-- A loop that succeeds is its first step, and then the others from where that one ends. -/
theorem exists_of_run_mapM_cons {f : α → ExceptT EmitError ModuleM β} {a : α} {l : List α}
    {bs : List β} (hrun : ((a :: l).mapM f).run.run m = (.ok bs, m')) :
    ∃ b m₁ rest, (f a).run.run m = (.ok b, m₁) ∧ (l.mapM f).run.run m₁ = (.ok rest, m') ∧
      bs = b :: rest := by
  rw [List.mapM_cons] at hrun
  rcases hfirst : (f a).run.run m with ⟨e | b, m₁⟩
  · rw [run_bind_of_error hfirst] at hrun
    cases hrun
  · rw [run_bind_of_ok hfirst] at hrun
    rcases hothers : (l.mapM f).run.run m₁ with ⟨e | rest, m₂⟩
    · rw [run_bind_of_error hothers] at hrun
      cases hrun
    · rw [run_bind_of_ok hothers] at hrun
      cases hrun
      exact ⟨b, m₁, rest, rfl, hothers, rfl⟩

/-- What each step of a loop keeps is kept by the loop, and each result is that of its step. -/
theorem forall₂_of_run_mapM {f : α → ExceptT EmitError ModuleM β} {I : ModuleState → Prop}
    {P : α → β → Prop} {l : List α} {bs : List β}
    (h : ∀ a ∈ l, ∀ m b m', I m → (f a).run.run m = (.ok b, m') → P a b ∧ I m')
    (hm : I m) (hrun : (l.mapM f).run.run m = (.ok bs, m')) :
    List.Forall₂ P l bs ∧ I m' := by
  induction l generalizing m bs with
  | nil =>
    cases hrun
    exact ⟨.nil, hm⟩
  | cons a l ih =>
    obtain ⟨ha, hl⟩ := List.forall_mem_cons.mp h
    obtain ⟨b, m₁, rest, hfirst, hothers, rfl⟩ := exists_of_run_mapM_cons hrun
    obtain ⟨hb, hm₁⟩ := ha m b m₁ hm hfirst
    obtain ⟨hrest, hm'⟩ := ih hl hm₁ hothers
    exact ⟨.cons hb hrest, hm'⟩

end Sequences

section Accepted

variable {p : Package} (hp : p.ErrorFree)
include hp

theorem meets_emitDefinition {d : Definition} (h : p.Accepts d) (m : ModuleState) :
    Meets (p.functionEnv d) (p.functionStart d m)
      (genFunction (p.signature d.function) d.body.stmts) (¬ d.body.CapturesNothing)
      fun definition w' =>
        definition.ret = p.declarations.llvmType (p.signature d.function).ret ∧
          definition.WellTyped ∧
          Appends (Synthesized.IsMade p d.body.arena) m.synthesized w'.refs.synthesized := by
  have hok : StmtsOk (p.functionEnv d).package (p.signature d.function).ret
      (p.functionEnv d).arena (.ofSignature (p.signature d.function)) d.body.stmts := h.stmtsOk hp
  refine Meets.congr ((meets_genBody (generates_genExpr _ _) rfl hok).mono
    fun definition w' ⟨hret, _, htyped, hmade⟩ => ⟨hret, htyped, hmade⟩) ?_
  simp only [Body.CapturesNothing, not_exists, not_and]
  rfl

theorem run_emitDefinition_cases {d : Definition} (h : p.Accepts d) (m : ModuleState) :
    (¬ d.body.CapturesNothing ∧ ∃ f m', (p.emitDefinition d).run.run m = (.ok f, m')) ∨
      d.body.CapturesNothing ∧
        ∃ id m', (p.emitDefinition d).run.run m = (.error (.unboundVariable id), m') := by
  rw [run_emitDefinition]
  by_cases hcaptures : d.body.CapturesNothing
  · obtain ⟨id, w', hrun⟩ := (meets_emitDefinition hp h m).exists_error (not_not.mpr hcaptures)
    exact .inr ⟨hcaptures, id, w'.refs, by rw [hrun]⟩
  · obtain ⟨f, w', hrun, -⟩ := (meets_emitDefinition hp h m).exists_ok hcaptures
    exact .inl ⟨hcaptures, f, w'.refs, by rw [hrun]⟩

theorem run_emitDefinitions_cases {definitions : List Definition}
    (h : ∀ d ∈ definitions, p.Accepts d) (m : ModuleState) :
    ((∀ d ∈ definitions, ¬ d.body.CapturesNothing) ∧
        ∃ fs m', (definitions.mapM p.emitDefinition).run.run m = (.ok fs, m')) ∨
      (∃ d ∈ definitions, d.body.CapturesNothing) ∧ ∃ id m',
        (definitions.mapM p.emitDefinition).run.run m = (.error (.unboundVariable id), m') := by
  induction definitions generalizing m with
  | nil => exact .inl ⟨by simp, [], m, rfl⟩
  | cons d definitions ih =>
      obtain ⟨hd, hrest⟩ := List.forall_mem_cons.mp h
      rw [List.mapM_cons, List.forall_mem_cons]
      rcases run_emitDefinition_cases hp hd m with ⟨hnot, f, m₁, hrun⟩ | ⟨hcaptures, id, m₁, hrun⟩
      · rw [run_bind_of_ok hrun]
        rcases ih hrest m₁ with ⟨hnots, fs, m₂, hrun'⟩ | ⟨⟨d', hd', hcaptures⟩, id, m₂, hrun'⟩
        · exact .inl ⟨⟨hnot, hnots⟩, f :: fs, m₂, run_bind_of_ok hrun'⟩
        · exact .inr ⟨⟨d', List.mem_cons_of_mem d hd', hcaptures⟩, id, m₂, run_bind_of_error hrun'⟩
      · exact .inr ⟨⟨d, List.mem_cons_self, hcaptures⟩, id, m₁, run_bind_of_error hrun⟩

/--
Accepted bodies can be generated exactly if no closure captures a variable of type
nothing.  If one does, the reason given is that a variable is not bound.
-/
theorem isOk_emit_iff (triple : String) {definitions : List Definition}
    (h : ∀ d ∈ definitions, p.Accepts d) :
    ((p.emit triple definitions).isOk = true ↔ ∀ d ∈ definitions, ¬ d.body.CapturesNothing) ∧
      ∀ e, p.emit triple definitions = .error e → ∃ id, e = .unboundVariable id := by
  have hemit {r : Except EmitError (List Llvm.FunctionDef)} {m' : ModuleState}
      (hrun : (definitions.mapM p.emitDefinition).run.run {} = (r, m')) :
      p.emit triple definitions = r.map (m'.text p.name triple) := by
    unfold emit emitModule
    cases r with
    | error e => exact congrArg Prod.fst (run_bind_of_error hrun)
    | ok fs => exact congrArg Prod.fst (run_bind_of_ok hrun)
  rcases run_emitDefinitions_cases hp h {} with ⟨hnots, fs, m', hrun⟩ | ⟨⟨d, hd, hcaptures⟩, id, m', hrun⟩
  · rw [hemit hrun]
    exact ⟨iff_of_true rfl hnots, fun e he => by cases he⟩
  · rw [hemit hrun]
    refine ⟨iff_of_false Bool.false_ne_true fun hnots => hnots d hd hcaptures, fun e he => ?_⟩
    cases he
    exact ⟨id, rfl⟩

end Accepted

theorem accepts_shownLiteral :
    showPackage.Accepts (showPackage.analyseDefinition true [] shownLiteral).1 :=
  ⟨true, [], shownLiteral, by decide, isFresh_shownLiteral, by decide, rfl⟩

theorem isOk_emit_shownLiteral :
    let definitions := [(showPackage.analyseDefinition true [] shownLiteral).1]
    let triple := "x86_64-unknown-linux-gnu"
    showPackage.ErrorFree ∧ (∀ d ∈ definitions, showPackage.Accepts d) ∧
      ((showPackage.emit triple definitions).isOk = true ↔
        ∀ d ∈ definitions, ¬ d.body.CapturesNothing) ∧
      ∀ e, showPackage.emit triple definitions = .error e → ∃ id, e = .unboundVariable id := by
  have haccepts (d : Definition)
      (hd : d ∈ [(showPackage.analyseDefinition true [] shownLiteral).1]) :
      showPackage.Accepts d := by
    obtain rfl := List.mem_singleton.mp hd
    exact accepts_shownLiteral
  exact ⟨errorFree_showPackage, haccepts, isOk_emit_iff errorFree_showPackage _ haccepts⟩

def deferPackage : Package where
  functions := [{
    name := "main", params := [⟨"x", .nothing⟩], ret := .callable [] .nothing }]

/-- The body `return { x }`, where `x` is of type nothing. -/
def capturedNothing : Definition where
  function := 0
  body :=
    { arena := { nodes := #[
        { span := ⟨0, 1⟩, kind := .localRef ⟨"x", ⟨0, 1⟩⟩ none },
        { span := ⟨10, 1⟩, kind := .closure {
            params := [], ret := .named ⟨0, 7⟩ "Nothing" [], body := 0 } }] }
      stmts := [.ret { span := ⟨5, 1⟩, value? := some 1 }] }

theorem isFresh_capturedNothing : capturedNothing.body.IsFresh := by
  decide

/-- A closure that captures a value of type nothing is accepted, but has no code. -/
theorem emit_capturedNothing :
    deferPackage.ErrorFree ∧ capturedNothing.function < deferPackage.functions.length ∧
      capturedNothing.body.IsFresh ∧ deferPackage.AnalysesCleanly true [] capturedNothing ∧
      deferPackage.emit "x86_64-unknown-linux-gnu"
        [(deferPackage.analyseDefinition true [] capturedNothing).1] = .error (.unboundVariable 0) := by
  exact ⟨by decide, by decide, isFresh_capturedNothing, by decide +kernel, by decide +kernel⟩

end Package

end Boxlang
