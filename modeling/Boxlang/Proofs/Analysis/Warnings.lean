import Boxlang.Proofs.Analysis.Listing

/-!
# Analysis without warnings

Turning warnings off is no more than a filter: the bodies come out the same, and of
the reports all but the warnings are left, in their order.  Since the sort is stable,
it makes no difference whether warnings are dropped before the listing or from it.
-/

namespace Boxlang

theorem Interleaves.filter {α : Type} {ls : List (List α)} {l : List α} (h : Interleaves ls l)
    (keep : α → Bool) : Interleaves (ls.map (·.filter keep)) (l.filter keep) := by
  induction h with
  | done h =>
    refine .done fun l hl => ?_
    obtain ⟨l', hl', rfl⟩ := List.mem_map.mp hl
    rw [h l' hl', List.filter_nil]
  | @next before after a l rest _ ih =>
    rw [List.map_append, List.map_cons] at ih ⊢
    by_cases ha : keep a = true
    · rw [List.filter_cons_of_pos ha, List.filter_cons_of_pos ha]
      exact .next ih
    · rw [List.filter_cons_of_neg ha, List.filter_cons_of_neg ha]
      exact ih

theorem Report.sort_filter (reports : List Report) (keep : Report → Bool) :
    sort (reports.filter keep) = (sort reports).filter keep := by
  refine eq_of_pairwise_of_filter_eq le_total (pairwise_sort _) ((pairwise_sort _).filter _)
    fun a => ?_
  rw [le_and_le_eq, filter_sort, List.filter_comm, ← filter_sort, List.filter_comm]

namespace Package

variable (p : Package)

theorem analysedOf_false (d : Definition) : p.analysedOf false d = p.analysedOf true d := by
  obtain ⟨analysed, new, -, hrun⟩ := p.exists_analyseDefinition_eq d
  rw [analysedOf, analysedOf, hrun, hrun]

theorem reportsOf_false (d : Definition) :
    p.reportsOf false d = (p.reportsOf true d).filter (!·.error.isWarning) := by
  obtain ⟨analysed, new, -, hrun⟩ := p.exists_analyseDefinition_eq d
  rw [reportsOf, reportsOf, hrun, hrun]
  rfl

theorem map_reportsOf_false (ds : List Definition) :
    ds.map (p.reportsOf false) =
      (ds.map (p.reportsOf true)).map (·.filter (!·.error.isWarning)) := by
  rw [List.map_map]
  exact List.map_congr_left fun d _ => p.reportsOf_false d

theorem reports_analyse_false (ds : List Definition) :
    (p.analyse false ds []).2 = (p.analyse true ds []).2.filter (!·.error.isWarning) := by
  simp only [analyse_eq, List.nil_append, map_reportsOf_false, List.filter_flatten]

/--
Without warnings the analysed bodies are the same, and the reports are those with
warnings, less the warnings and in the same order: as they are made when bodies are
analysed one after the other, in the listing, and in every other order in which the
reports on different bodies may come.
-/
theorem analyse_without_warnings (ds : List Definition) :
    (p.analyse false ds []).1 = (p.analyse true ds []).1 ∧
    (p.analyse false ds []).2 = (p.analyse true ds []).2.filter (!·.error.isWarning) ∧
    Report.sort (p.analyse false ds []).2 =
      (Report.sort (p.analyse true ds []).2).filter (!·.error.isWarning) ∧
    ∀ reports, Interleaves (ds.map (p.reportsOf true)) reports →
      Interleaves (ds.map (p.reportsOf false)) (reports.filter (!·.error.isWarning)) ∧
      Report.sort (reports.filter (!·.error.isWarning)) =
        (Report.sort reports).filter (!·.error.isWarning) := by
  refine ⟨?_, p.reports_analyse_false ds, ?_, fun reports hreports => ⟨?_, ?_⟩⟩
  · rw [analyse_eq, analyse_eq]
    exact List.map_congr_left fun d _ => p.analysedOf_false d
  · rw [p.reports_analyse_false ds, Report.sort_filter]
  · rw [map_reportsOf_false]
    exact hreports.filter _
  · exact Report.sort_filter reports _

end Package

def withDeprecated : Package where
  functions := [{ name := "first" }, { name := "second" }, { name := "old", deprecated? := some "" }]

/-- The body `x; old()`, where there is no variable `x`. -/
def usesDeprecated (function : FunctionId) : Definition where
  function := function
  body :=
    { arena := { nodes := #[
        { span := ⟨3, 5⟩, kind := .call ⟨"old", ⟨3, 3⟩⟩ { span := ⟨6, 2⟩, args := [] } none },
        { span := ⟨0, 1⟩, kind := .localRef ⟨"x", ⟨0, 1⟩⟩ none }] }
      stmts := [.expr 1, .expr 0] }

/-- Of the reports on two bodies, taken in turn, the warnings are left out. -/
theorem Package.analyse_without_warnings_usesDeprecated :
    let ds := [usesDeprecated 0, usesDeprecated 1]
    let warning (function : String) : Report := { function, error := .deprecated "old" none ⟨6, 2⟩ }
    let inTurn :=
      [unknownIn "first" 1, unknownIn "second" 1, warning "first", warning "second"]
    Interleaves (ds.map (withDeprecated.reportsOf true)) inTurn ∧
      Interleaves (ds.map (withDeprecated.reportsOf false))
        [unknownIn "first" 1, unknownIn "second" 1] ∧
      (withDeprecated.analyse false ds []).2 ≠ (withDeprecated.analyse true ds []).2 := by
  intro ds warning inTurn
  have hreports : ds.map (withDeprecated.reportsOf true) =
      [[unknownIn "first" 1, warning "first"], [unknownIn "second" 1, warning "second"]] := by
    decide
  have hinTurn : Interleaves (ds.map (withDeprecated.reportsOf true)) inTurn := by
    rw [hreports]
    -- Each of the two lists gives its next report in turn.
    refine @Interleaves.next _ [] _ _ _ _ (@Interleaves.next _ [_] [] _ _ _ ?_)
    refine @Interleaves.next _ [] _ _ _ _ (@Interleaves.next _ [_] [] _ _ _ ?_)
    exact .done (by simp)
  refine ⟨hinTurn, ((withDeprecated.analyse_without_warnings ds).2.2.2 inTurn hinTurn).1, ?_⟩
  decide

end Boxlang
