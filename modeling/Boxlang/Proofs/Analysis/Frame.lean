import Boxlang.Analysis.Package
import Boxlang.Proofs.Analysis.Statement
import Boxlang.Proofs.Analysis.Walk
import Boxlang.Proofs.Arena.Forest

/-!
# The frame of the analysis of a body

What analysing a whole body does to its nodes and statements: nodes and statements
get annotations, conversions are put in front of nodes, and nothing else changes.
Reports are added to those made before.  This holds for bodies with errors as well
as without.
-/

namespace Boxlang

def Stmt.bare : Stmt → Stmt
  | .letStmt s => .letStmt { s with id? := none, resolved? := none }
  | .assign s => .assign { s with id? := none }
  | .expr slot => .expr slot
  | .ret s => .ret s

@[simp]
theorem Stmt.slots_bare (stmt : Stmt) : stmt.bare.slots = stmt.slots := by
  cases stmt <;> rfl

/--
A state whose body differs by edits in `W` and annotations of statements, and which
may have more reports.
-/
structure AnalysisState.Keeps (W : Slot → Prop) (s s' : AnalysisState) : Prop where
  arena : Arena.Edits W s.body.arena s'.body.arena
  stmts : s'.body.stmts.map Stmt.bare = s.body.stmts.map Stmt.bare
  reports : s.reports <+: s'.reports

namespace AnalysisState.Keeps

variable {W : Slot → Prop} {s s' s'' : AnalysisState}

theorem refl (s : AnalysisState) : s.Keeps W s :=
  ⟨.refl, rfl, List.prefix_refl _⟩

theorem trans (h : s.Keeps W s') (h' : s'.Keeps W s'') : s.Keeps W s'' :=
  ⟨h.arena.trans h'.arena, h'.stmts.trans h.stmts, h.reports.trans h'.reports⟩

theorem of_progress (h : s.Progress W s') : s.Keeps W s' :=
  ⟨h.arena, by rw [h.stmts_eq], h.reports_prefix⟩

end AnalysisState.Keeps

namespace Analysis

variable {α β : Type} {W : Slot → Prop} {env : Environment} {a₀ : Arena}

/-- A step that keeps nodes and statements, from every state that came from `a₀` by edits. -/
def KeepsNodes (a₀ : Arena) (W : Slot → Prop) (env : Environment) (step : Analysis α) : Prop :=
  ∀ s : AnalysisState, s.body.arena.HoldsNodesOf a₀ → s.Keeps W (step.runIn env s).2

namespace KeepsNodes

theorem of_walks {step : Analysis α} (h : Walks a₀ W env step) : KeepsNodes a₀ W env step :=
  fun s hs => .of_progress (h s hs).progress

theorem of_body_eq {step : Analysis α} (h : ∀ s, (step.runIn env s).2.body = s.body)
    (hreports : ∀ s, (step.runIn env s).2.reports = s.reports) : KeepsNodes a₀ W env step := by
  intro s _
  exact ⟨by rw [h s]; exact .refl, by rw [h s], by rw [hreports s]⟩

theorem attempt {step : Analysis α} (h : KeepsNodes a₀ W env step) :
    KeepsNodes a₀ W env (attempt step) :=
  fun s hs => by simpa using h s hs

theorem report (e : SemanticError) : KeepsNodes a₀ W env (report e) :=
  fun _ _ => ⟨.refl, rfl, List.prefix_append _ _⟩

theorem record (i : Incident) : KeepsNodes a₀ W env (record i) :=
  of_body_eq (fun _ => rfl) fun _ => rfl

variable (hW : ∀ slot, W slot → slot < a₀.size)
include hW

theorem bind {step : Analysis α} {next : α → Analysis β} (h : KeepsNodes a₀ W env step)
    (hnext : ∀ a, KeepsNodes a₀ W env (next a)) : KeepsNodes a₀ W env (step >>= next) := by
  intro s hs
  have hstep := h s hs
  rw [runIn_bind]
  rcases hrun : step.runIn env s with ⟨_ | a, s₁⟩ <;> rw [hrun] at hstep
  · exact hstep
  · exact hstep.trans (hnext a s₁ (hs.edits hstep.arena hW))

theorem mapM {l : List α} {step : α → Analysis β} (h : ∀ a ∈ l, KeepsNodes a₀ W env (step a)) :
    KeepsNodes a₀ W env (l.mapM step) := by
  induction l with
  | nil => exact fun s _ => .refl s
  | cons a l ih =>
      rw [List.mapM_cons]
      refine (h a List.mem_cons_self).bind hW fun b => ?_
      refine (ih fun c hc => h c (List.mem_cons_of_mem a hc)).bind hW fun bs => ?_
      exact fun s _ => .refl s

theorem reportFailure {step : Analysis Unit} (h : KeepsNodes a₀ W env step) :
    KeepsNodes a₀ W env (reportFailure step) := by
  unfold Analysis.reportFailure
  refine h.attempt.bind hW fun result => ?_
  cases result with
  | ok _ => exact fun s _ => .refl s
  | error e => exact report e

end KeepsNodes

/-! ### Statements -/

theorem keepsNodes_expectType (hW : a₀.IsRegion W) {slot : Slot} (hs : W slot) (t : Ty) :
    KeepsNodes a₀ W env (discard (expectType analyseExpr t slot)) :=
  .of_walks fun s h => (walks_expectType hW.lt (walks_analyseExpr hW) hs t s h).discard

theorem keepsNodes_letType (hW : a₀.IsRegion W) (stmt : LetStmt)
    (hs : ∀ slot ∈ (Stmt.letStmt stmt).slots, W slot) : KeepsNodes a₀ W env (letType stmt) := by
  unfold letType
  split
  next written _ _ => exact .of_walks fun s _ => .resolveType written
  next written init _ hinit =>
    have hi : W init := hs init (by simp [Stmt.slots, hinit])
    refine KeepsNodes.bind hW.lt (.of_walks fun s _ => .resolveType written) fun declared => ?_
    refine ((keepsNodes_expectType hW hi declared).reportFailure hW.lt).bind hW.lt fun _ => ?_
    exact fun s _ => .refl s
  next init _ hinit =>
    have hi : W init := hs init (by simp [Stmt.slots, hinit])
    refine KeepsNodes.bind hW.lt (.of_walks (walks_analyseExpr hW init hi none)) fun t => ?_
    exact .of_walks (walks_comply hi t _)
  next => exact .of_walks fun s _ => .throw rfl

theorem keepsNodes_declareLet (hW : a₀.IsRegion W) (stmt : LetStmt) (isTyped : Bool) (t : Ty) :
    KeepsNodes a₀ W env (declareLet stmt isTyped t) := by
  refine KeepsNodes.bind hW.lt (.of_body_eq (fun _ => rfl) fun _ => rfl) fun id => ?_
  dsimp only
  split
  · exact KeepsNodes.bind hW.lt (.of_body_eq (fun _ => rfl) fun _ => rfl) fun _ s _ => .refl s
  · exact (KeepsNodes.record _).bind hW.lt fun _ s _ => .refl s

theorem keepsNodes_analyseLet (hW : a₀.IsRegion W) (stmt : LetStmt)
    (hs : ∀ slot ∈ (Stmt.letStmt stmt).slots, W slot) : KeepsNodes a₀ W env (analyseLet stmt) := by
  rw [analyseLet_eq]
  refine (keepsNodes_letType hW stmt hs).attempt.bind hW.lt fun result => ?_
  cases result with
  | ok t => exact keepsNodes_declareLet hW stmt true t
  | error e => exact (KeepsNodes.report e).bind hW.lt fun _ => keepsNodes_declareLet hW stmt false .error

theorem keepsNodes_assignTo (hW : a₀.IsRegion W) (b : Binding) (stmt : AssignStmt)
    (hs : W stmt.value) : KeepsNodes a₀ W env (assignTo b stmt) := by
  unfold assignTo
  refine KeepsNodes.bind hW.lt (.of_body_eq (fun _ => rfl) fun _ => rfl) fun s => ?_
  dsimp only
  split
  · exact .of_walks fun s _ => .throw_bind rfl
  · exact (keepsNodes_expectType hW hs b.type).bind hW.lt fun _ => .record _

theorem keepsNodes_analyseAssign (hW : a₀.IsRegion W) (stmt : AssignStmt) (hs : W stmt.value) :
    KeepsNodes a₀ W env (analyseAssign stmt) := by
  unfold analyseAssign
  refine KeepsNodes.bind hW.lt (.of_walks fun s _ => .resolveName _) fun b? => ?_
  split
  · exact (KeepsNodes.report _).bind hW.lt fun _ s _ => .refl s
  next b =>
    exact ((keepsNodes_assignTo hW b stmt hs).reportFailure hW.lt).bind hW.lt fun _ s _ => .refl s

theorem keepsNodes_analyseReturn (hW : a₀.IsRegion W) (stmt : ReturnStmt)
    (hs : ∀ slot ∈ (Stmt.ret stmt).slots, W slot) : KeepsNodes a₀ W env (analyseReturn stmt) := by
  unfold analyseReturn
  refine (KeepsNodes.record _).bind hW.lt fun _ => ?_
  refine KeepsNodes.bind hW.lt (.of_body_eq (fun _ => rfl) fun _ => rfl) fun env' => ?_
  dsimp only
  split
  next value hvalue =>
    exact keepsNodes_expectType hW (hs value (by simp [Stmt.slots, hvalue])) _
  next =>
    split
    · exact .of_walks fun s _ => .throw rfl
    · exact fun s _ => .refl s

theorem keepsNodes_analyseStmt (hW : a₀.IsRegion W) (stmt : Stmt)
    (hs : ∀ slot ∈ stmt.slots, W slot) : KeepsNodes a₀ W env (analyseStmt stmt) := by
  cases stmt with
  | letStmt stmt =>
      exact (keepsNodes_analyseLet hW stmt hs).bind hW.lt fun _ s _ => .refl s
  | assign stmt =>
      exact (keepsNodes_analyseAssign hW stmt (hs _ (by simp [Stmt.slots]))).bind hW.lt
        fun _ s _ => .refl s
  | expr slot =>
      have hslot : W slot := hs slot (by simp [Stmt.slots])
      have hvisit : KeepsNodes a₀ W env (discard (analyseExpr slot none)) :=
        .of_walks fun s h => (walks_analyseExpr hW slot hslot none s h).discard
      exact (hvisit.reportFailure hW.lt).bind hW.lt fun _ s _ => .refl s
  | ret stmt =>
      exact ((keepsNodes_analyseReturn hW stmt hs).reportFailure hW.lt).bind hW.lt
        fun _ s _ => .refl s

/-- A statement comes back with annotations and otherwise as it was. -/
theorem bare_eq_of_runIn_analyseStmt {s s' : AnalysisState} {stmt stmt' : Stmt}
    (h : (analyseStmt stmt).runIn env s = (.ok stmt', s')) : stmt'.bare = stmt.bare := by
  cases stmt with
  | letStmt stmt =>
      rw [runIn_analyseStmt_let] at h
      cases h
      rfl
  | assign stmt =>
      rw [runIn_analyseStmt_assign] at h
      dsimp only at h
      split at h
      all_goals
        cases h
        rfl
  | expr slot =>
      rw [runIn_analyseStmt_expr] at h
      cases h
      rfl
  | ret stmt =>
      rw [runIn_analyseStmt_ret] at h
      cases h
      rfl

theorem map_bare_eq_of_runIn_mapM {s s' : AnalysisState} {stmts stmts' : List Stmt}
    (h : (stmts.mapM analyseStmt).runIn env s = (.ok stmts', s')) :
    stmts'.map Stmt.bare = stmts.map Stmt.bare := by
  induction stmts generalizing s stmts' with
  | nil =>
      obtain ⟨rfl, -⟩ : [] = stmts' ∧ s = s' := by simpa using h
      rfl
  | cons stmt stmts ih =>
      rw [List.mapM_cons] at h
      obtain ⟨stmt', s₁, hstmt, h⟩ := runIn_bind_ok.mp h
      obtain ⟨rest, s₂, hrest, h⟩ := runIn_bind_ok.mp h
      obtain ⟨rfl, rfl⟩ : stmt' :: rest = stmts' ∧ s₂ = s' := by simpa using h
      rw [List.map_cons, List.map_cons, bare_eq_of_runIn_analyseStmt hstmt, ih hrest]

/-! ### Bodies -/

variable (env) in
theorem keeps_analyseBody (s : AnalysisState) (hin : s.body.InRange) :
    s.Keeps (· < s.body.arena.size) (analyseBody.runIn env s).2 := by
  have hW := hin.arena.isRegion
  have hstmts : KeepsNodes s.body.arena (· < s.body.arena.size) env
      (s.body.stmts.mapM analyseStmt) :=
    KeepsNodes.mapM hW.lt fun stmt hstmt => keepsNodes_analyseStmt hW stmt (hin.stmts stmt hstmt)
  obtain ⟨stmts, s₁, new, hrun, hbody, -⟩ := exists_runIn_analyseBody env s
  have hkeeps := hstmts s (.refl _)
  rw [hrun] at hkeeps
  rw [hbody]
  exact ⟨hkeeps.arena, map_bare_eq_of_runIn_mapM hrun,
    hkeeps.reports.trans (List.prefix_append _ _)⟩

end Analysis

end Boxlang
