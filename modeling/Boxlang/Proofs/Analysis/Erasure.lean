import Boxlang.Proofs.Analysis.Frame
import Boxlang.Proofs.Arena.Unfolding
import Mathlib.Tactic.IntervalCases

/-!
# Analysis only adds conversions

The expressions of an analysed body, without annotations and without the
conversions that were put in, are those of the original body.
-/

namespace Boxlang

/--
Analysis only adds conversions: statements are the same up to annotations, every
slot of the original arena unfolds into the same tree, without annotations and
without the conversions that were put in, and every original node is in exactly one
place, with nothing but such conversions beside them.
-/
theorem tree_eq_of_analyseDefinition (p : Package) (warnDeprecated : Bool)
    (reports : List Report) (definition : Definition) (hin : definition.body.InRange)
    (hac : definition.body.arena.IsAcyclic) :
    let before := definition.body
    let after := (p.analyseDefinition warnDeprecated reports definition).1.body
    after.stmts.map Stmt.bare = before.stmts.map Stmt.bare ∧
      (∀ slot < before.arena.size, ∃ t, before.arena.tree before.arena.size slot = some t ∧
        after.arena.tree before.arena.size slot = some t) ∧
      ∃ home, before.arena.Rewrites after.arena home := by
  let env : Environment :=
    { package := p, function := p.signature definition.function, warnDeprecated }
  let s := AnalysisState.start env.function definition.body reports
  have hkeeps := Analysis.keeps_analyseBody env s hin
  refine ⟨hkeeps.stmts, fun slot hs => ?_, ?_⟩
  · exact hkeeps.arena.tree_eq (fun _ h => h) hin.arena hac hs
  · exact hkeeps.arena.exists_rewrites fun _ h => h

/-- The body of `show(3)`, where the function takes something. -/
def shownLiteral : Definition where
  function := 1
  body :=
    { arena := { nodes := #[
        { span := ⟨5, 1⟩, kind := .int 3 },
        { span := ⟨0, 7⟩, kind := .call ⟨"show", ⟨0, 4⟩⟩ { span := ⟨5, 1⟩, args := [0] } none }] }
      stmts := [.expr 1] }

/-- A package of `show` and a function that calls it. -/
def showPackage : Package where
  functions := [{ name := "show", params := [⟨"x", .something⟩] }, { name := "main" }]

theorem inRange_shownLiteral : shownLiteral.body.InRange := by
  decide

theorem isAcyclic_shownLiteral : shownLiteral.body.arena.IsAcyclic := by
  refine ⟨id, fun slot c hc => ?_⟩
  have hs : slot < 2 := Arena.lt_size_of_mem_operands hc
  revert c
  interval_cases slot <;> decide

theorem tree_eq_of_analyse_shownLiteral :
    shownLiteral.body.InRange ∧ shownLiteral.body.arena.IsAcyclic ∧
      let before := shownLiteral.body
      let after := (showPackage.analyseDefinition true [] shownLiteral).1.body
      after.stmts.map Stmt.bare = before.stmts.map Stmt.bare ∧
        (∀ slot < before.arena.size, ∃ t, before.arena.tree before.arena.size slot = some t ∧
          after.arena.tree before.arena.size slot = some t) ∧
        ∃ home, before.arena.Rewrites after.arena home :=
  ⟨inRange_shownLiteral, isAcyclic_shownLiteral,
    tree_eq_of_analyseDefinition showPackage true [] shownLiteral inRange_shownLiteral
      isAcyclic_shownLiteral⟩

end Boxlang
