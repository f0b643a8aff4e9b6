import Boxlang.Proofs.Analysis.Run

/-!
# Running the analysis of statements

Statements are analysed without failing: what goes wrong in one is reported.  The
lemmas here give the result and the state after each kind of statement in terms of
the run of the expressions in it.
-/

namespace Boxlang

namespace AnalysisState

def withReport (s : AnalysisState) (env : Environment) (e : SemanticError) : AnalysisState :=
  { s with reports := s.reports ++ [{ function := env.function.qualifiedName, error := e }] }

def reporting {α : Type} (env : Environment) : Except SemanticError α × AnalysisState → AnalysisState
  | (.ok _, s) => s
  | (.error e, s) => s.withReport env e

def declaring (s : AnalysisState) (stmt : LetStmt) (t : Ty) (isDeferred : Bool) : AnalysisState :=
  let s' := { s with scope := (s.scope.declare stmt.name.name t stmt.isMutable).2 }
  if isDeferred then
    { s' with
      deferred := s.deferred ++ [{
        id := s.scope.count, name := stmt.name.name, isMutable := stmt.isMutable,
        span := stmt.span }] }
  else { s' with path := s.path.record (.initialized s.scope.count) }

def uninitialized (s : AnalysisState) : List DeferredBinding :=
  s.deferred.filter fun b => !b.isMutable && !s.path.hasCertainly (.initialized b.id)

variable {s : AnalysisState}

theorem scope_declaring (stmt : LetStmt) (t : Ty) (isDeferred : Bool) :
    (s.declaring stmt t isDeferred).scope =
      (s.scope.declare stmt.name.name t stmt.isMutable).2 := by
  cases isDeferred <;> rfl

theorem body_declaring (stmt : LetStmt) (t : Ty) (isDeferred : Bool) :
    (s.declaring stmt t isDeferred).body = s.body := by
  cases isDeferred <;> rfl

theorem reports_declaring (stmt : LetStmt) (t : Ty) (isDeferred : Bool) :
    (s.declaring stmt t isDeferred).reports = s.reports := by
  cases isDeferred <;> rfl

end AnalysisState

namespace Analysis

variable {env : Environment} {s : AnalysisState}

@[simp]
theorem runIn_report (e : SemanticError) :
    (report e).runIn env s = (.ok (), s.withReport env e) := rfl

@[simp]
theorem runIn_record (i : Incident) :
    (record i).runIn env s = (.ok (), { s with path := s.path.record i }) := rfl

theorem runIn_reportFailure (step : Analysis Unit) :
    (reportFailure step).runIn env s = (.ok (), .reporting env (step.runIn env s)) := by
  unfold reportFailure
  rw [runIn_bind, runIn_attempt]
  rcases step.runIn env s with ⟨_ | _, _⟩ <;> rfl

/-- Declares a binding of the type.  One that has neither an initial value nor a wrong type is deferred. -/
def declareLet (stmt : LetStmt) (isTyped : Bool) (t : Ty) : Analysis LetStmt := do
  let id ← declare stmt.name.name t stmt.isMutable
  if isTyped && stmt.init?.isNone then
    let binding := { id, name := stmt.name.name, isMutable := stmt.isMutable, span := stmt.span }
    modify fun s => { s with deferred := s.deferred ++ [binding] }
  else
    record (.initialized id)
  return { stmt with id? := some id, resolved? := some t }

theorem analyseLet_eq (stmt : LetStmt) :
    analyseLet stmt = (do
      match ← attempt (letType stmt) with
      | .ok t => declareLet stmt true t
      | .error e =>
        report e
        declareLet stmt false .error) := by
  unfold analyseLet
  refine congrArg (attempt (letType stmt) >>= ·) (funext fun result => ?_)
  cases result <;> rfl

def bindingType : Except SemanticError Ty → Ty
  | .ok t => t
  | .error _ => .error

theorem runIn_declareLet (stmt : LetStmt) (isTyped : Bool) (t : Ty) :
    (declareLet stmt isTyped t).runIn env s =
      (.ok { stmt with id? := some s.scope.count, resolved? := some t },
        s.declaring stmt t (isTyped && stmt.init?.isNone)) := by
  unfold declareLet
  rw [runIn_bind, runIn_declare]
  cases isTyped && stmt.init?.isNone <;> rfl

theorem runIn_analyseLet (stmt : LetStmt) :
    (analyseLet stmt).runIn env s =
      let run := (letType stmt).runIn env s
      let s₁ := AnalysisState.reporting env run
      (.ok { stmt with id? := some s₁.scope.count, resolved? := some (bindingType run.1) },
        s₁.declaring stmt (bindingType run.1) (run.1.isOk && stmt.init?.isNone)) := by
  rw [analyseLet_eq, runIn_bind, runIn_attempt]
  rcases (letType stmt).runIn env s with ⟨e | t, s₁⟩
  · dsimp only
    rw [runIn_bind, runIn_report]
    exact runIn_declareLet stmt false .error
  · exact runIn_declareLet stmt true t

theorem runIn_analyseAssign (stmt : AssignStmt) :
    (analyseAssign stmt).runIn env s =
      let s₁ := { s with scope := (s.scope.resolve stmt.target.name).2 }
      match (s.scope.resolve stmt.target.name).1 with
      | none =>
        (.ok stmt,
          s₁.withReport env (.unresolved .variableName stmt.target.name stmt.target.span))
      | some b =>
        (.ok { stmt with id? := some b.id }, .reporting env ((assignTo b stmt).runIn env s₁)) := by
  unfold analyseAssign
  rw [runIn_bind, runIn_resolveName]
  rcases (s.scope.resolve stmt.target.name).1 with _ | b
  · rfl
  · dsimp only
    rw [runIn_bind, runIn_reportFailure]
    rfl

/-! ### Statements -/

theorem runIn_analyseStmt_let (stmt : LetStmt) :
    (analyseStmt (.letStmt stmt)).runIn env s =
      let run := (letType stmt).runIn env s
      let s₁ := AnalysisState.reporting env run
      (.ok (.letStmt
          { stmt with id? := some s₁.scope.count, resolved? := some (bindingType run.1) }),
        s₁.declaring stmt (bindingType run.1) (run.1.isOk && stmt.init?.isNone)) := by
  show (analyseLet stmt >>= fun r => pure (Stmt.letStmt r)).runIn env s = _
  rw [runIn_bind, runIn_analyseLet]
  rfl

theorem runIn_analyseStmt_assign (stmt : AssignStmt) :
    (analyseStmt (.assign stmt)).runIn env s =
      let s₁ := { s with scope := (s.scope.resolve stmt.target.name).2 }
      match (s.scope.resolve stmt.target.name).1 with
      | none =>
        (.ok (.assign stmt),
          s₁.withReport env (.unresolved .variableName stmt.target.name stmt.target.span))
      | some b =>
        (.ok (.assign { stmt with id? := some b.id }),
          .reporting env ((assignTo b stmt).runIn env s₁)) := by
  show (analyseAssign stmt >>= fun r => pure (Stmt.assign r)).runIn env s = _
  rw [runIn_bind, runIn_analyseAssign]
  rcases (s.scope.resolve stmt.target.name).1 with _ | b <;> rfl

theorem runIn_analyseStmt_expr (slot : Slot) :
    (analyseStmt (.expr slot)).runIn env s =
      (.ok (.expr slot), .reporting env ((discard (analyseExpr slot none)).runIn env s)) := by
  show (reportFailure (discard (analyseExpr slot none)) >>= fun _ => pure _).runIn env s = _
  rw [runIn_bind, runIn_reportFailure]
  rfl

theorem runIn_analyseStmt_ret (stmt : ReturnStmt) :
    (analyseStmt (.ret stmt)).runIn env s =
      (.ok (.ret stmt), .reporting env ((analyseReturn stmt).runIn env s)) := by
  show (reportFailure (analyseReturn stmt) >>= fun _ => pure _).runIn env s = _
  rw [runIn_bind, runIn_reportFailure]
  rfl

variable (env) in
theorem exists_runIn_analyseStmt (s : AnalysisState) (stmt : Stmt) :
    ∃ stmt' s', (analyseStmt stmt).runIn env s = (.ok stmt', s') := by
  cases stmt with
  | letStmt stmt => exact ⟨_, _, runIn_analyseStmt_let stmt⟩
  | assign stmt =>
      rw [runIn_analyseStmt_assign]
      dsimp only
      split
      · exact ⟨_, _, rfl⟩
      · exact ⟨_, _, rfl⟩
  | expr slot => exact ⟨_, _, runIn_analyseStmt_expr slot⟩
  | ret stmt => exact ⟨_, _, runIn_analyseStmt_ret stmt⟩

variable (env) in
theorem exists_runIn_mapM_analyseStmt (s : AnalysisState) (stmts : List Stmt) :
    ∃ stmts' s', (stmts.mapM analyseStmt).runIn env s = (.ok stmts', s') := by
  induction stmts generalizing s with
  | nil => exact ⟨[], s, by simp⟩
  | cons stmt stmts ih =>
      obtain ⟨stmt', s₁, hstmt⟩ := exists_runIn_analyseStmt env s stmt
      obtain ⟨stmts', s₂, hstmts⟩ := ih s₁
      refine ⟨stmt' :: stmts', s₂, ?_⟩
      rw [List.mapM_cons]
      exact runIn_bind_ok.mpr ⟨stmt', s₁, hstmt, runIn_bind_ok.mpr ⟨stmts', s₂, hstmts, rfl⟩⟩

/-! ### Bodies -/

def OnlyReports (env : Environment) (step : Analysis Unit) : Prop :=
  ∀ s, ∃ new, step.runIn env s = (.ok (), { s with reports := s.reports ++ new })

variable (env) in
theorem onlyReports_checkReturned : OnlyReports env checkReturned := by
  intro s
  unfold checkReturned
  rw [runIn_bind, runIn_read]
  dsimp only
  rw [runIn_bind, runIn_get]
  dsimp only
  split
  · exact ⟨_, rfl⟩
  · exact ⟨[], by simp⟩

/-- Immutable bindings without a value are reported, in order of declaration. -/
theorem runIn_checkInitialized :
    checkInitialized.runIn env s = (.ok (), { s with
      reports := s.reports ++ s.uninitialized.map fun b =>
        { function := env.function.qualifiedName, error := .neverInitialized b.name b.span } }) := by
  unfold checkInitialized
  rw [runIn_bind, runIn_get]
  show (s.uninitialized.forM fun b => report (.neverInitialized b.name b.span)).runIn env s = _
  generalize s.uninitialized = missing
  induction missing generalizing s with
  | nil => simp
  | cons b missing ih =>
      show (report _ >>= fun _ => missing.forM _).runIn env s = _
      rw [runIn_bind, runIn_report]
      exact ih.trans (by simp [AnalysisState.withReport])

variable (env) in
/--
Analysing a body is analysing its statements, and two checks at the end, the second
of which reports what is still uninitialised.
-/
theorem exists_runIn_analyseBody (s : AnalysisState) :
    ∃ stmts s₁ new, (s.body.stmts.mapM analyseStmt).runIn env s = (.ok stmts, s₁) ∧
      analyseBody.runIn env s = (.ok (), { s₁ with
        body := { s₁.body with stmts, variableCount := s₁.scope.count }
        reports := s₁.reports ++ new }) ∧
      ∀ b ∈ s₁.uninitialized,
        { function := env.function.qualifiedName, error := .neverInitialized b.name b.span } ∈ new := by
  obtain ⟨stmts, s₁, hrun⟩ := exists_runIn_mapM_analyseStmt env s s.body.stmts
  let s₂ : AnalysisState := { s₁ with body := { s₁.body with stmts } }
  obtain ⟨new, hreturned⟩ := onlyReports_checkReturned env s₂
  refine ⟨stmts, s₁, new ++ s₁.uninitialized.map fun b =>
    { function := env.function.qualifiedName, error := .neverInitialized b.name b.span }, hrun, ?_,
    fun b hb => List.mem_append_right _ (List.mem_map_of_mem hb)⟩
  unfold analyseBody
  rw [runIn_bind, runIn_get]
  dsimp only
  rw [runIn_bind, hrun]
  dsimp only
  rw [runIn_bind, runIn_modify]
  dsimp only
  rw [runIn_bind, hreturned]
  dsimp only
  rw [runIn_bind, runIn_checkInitialized]
  simp [s₂, AnalysisState.uninitialized]

end Analysis

end Boxlang
