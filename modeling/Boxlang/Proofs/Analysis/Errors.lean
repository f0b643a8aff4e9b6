import Boxlang.Proofs.Analysis.Frame
import Boxlang.Proofs.Analysis.Reports
import Boxlang.Proofs.Calls.Prepared
import Mathlib.Tactic.IntervalCases

/-!
# One error for each statement

Expressions add no reports but warnings: what is wrong in them is returned.  A statement
reports what its expressions return, and does so once, whether it is the statement itself or
the initial value of a binding of a written type that is wrong.  So the reports on a body are
those on its statements, at most one error for each, and those that are made at its end.
-/

namespace Boxlang

open Analysis

namespace AnalysisState

/-- `s'` has the reports of `s`, and new ones of which at most `n` are not warnings. -/
def AddsErrors (n : Nat) (s s' : AnalysisState) : Prop :=
  ∃ new, s'.reports = s.reports ++ new ∧ (Report.shown false new).length ≤ n

/-- As `AddsErrors`, where no binding was declared without a value. -/
structure Faults (n : Nat) (s s' : AnalysisState) : Prop where
  addsErrors : s.AddsErrors n s'
  deferred_eq : s'.deferred = s.deferred

namespace Faults

variable {s s' s'' : AnalysisState} {n m : Nat} {W : Slot → Prop} {env : Environment}

theorem trans (h : s.Faults n s') (h' : s'.Faults m s'') : s.Faults (n + m) s'' := by
  obtain ⟨new, hnew, hlen⟩ := h.addsErrors
  obtain ⟨new', hnew', hlen'⟩ := h'.addsErrors
  refine ⟨⟨new ++ new', by rw [hnew', hnew, List.append_assoc], ?_⟩, h'.deferred_eq.trans h.deferred_eq⟩
  rw [Report.shown_append, List.length_append]
  exact Nat.add_le_add hlen hlen'

theorem of_eq (hreports : s'.reports = s.reports) (hdeferred : s'.deferred = s.deferred) : s.Faults 0 s' :=
  ⟨⟨[], by simp [hreports], by simp⟩, hdeferred⟩

/-- Expressions add nothing but warnings. -/
theorem of_progress (h : s.Progress W s') : s.Faults 0 s' := by
  obtain ⟨new, hnew, hwarn⟩ := h.reports
  refine ⟨⟨new, hnew, Nat.le_of_eq (List.length_eq_zero_iff.mpr ?_)⟩, h.deferred_eq⟩
  exact List.filter_eq_nil_iff.mpr fun r hr => by simp [hwarn r hr]

theorem withReport (s : AnalysisState) (env : Environment) (e : SemanticError) : s.Faults 1 (s.withReport env e) :=
  ⟨⟨_, rfl, List.length_filter_le _ _⟩, rfl⟩

theorem reporting {α : Type} {run : Except SemanticError α × AnalysisState} (h : s.Faults n run.2) :
    s.Faults (n + 1) (.reporting env run) := by
  obtain ⟨_ | _, s'⟩ := run
  · exact h.trans (withReport s' env _)
  · obtain ⟨new, hnew, hlen⟩ := h.addsErrors
    exact ⟨⟨new, hnew, Nat.le_succ_of_le hlen⟩, h.deferred_eq⟩

end Faults

end AnalysisState

def Stmt.deferred? : Stmt → Option DeferredBinding
  | .letStmt { name, isMutable, init? := none, id? := some id, span, .. } =>
    some { id, name := name.name, isMutable, span }
  | _ => none

namespace Analysis

open AnalysisState

variable {env : Environment} {s s' : AnalysisState}

/-! ### Statements -/

section Statements

variable (hin : s.body.arena.InRange)
include hin

omit hin in
/-- A step that only edits the arena adds nothing but warnings. -/
theorem faults_of_walks {α : Type} {step : Analysis α}
    (h : Walks s.body.arena (· < s.body.arena.size) env step) : s.Faults 0 (step.runIn env s).2 :=
  .of_progress (h s (.refl _)).progress

theorem faults_expectType {c : Slot} (hc : c < s.body.arena.size) (t : Ty) :
    s.Faults 0 ((discard (expectType analyseExpr t c)).runIn env s).2 :=
  faults_of_walks fun s h =>
    (walks_expectType hin.isRegion.lt (walks_analyseExpr hin.isRegion) hc t s h).discard

/-- What is wrong with the initial value of a binding of a written type is reported at once, and only that. -/
theorem faults_letType {stmt : LetStmt} (hslots : ∀ c ∈ (Stmt.letStmt stmt).slots, c < s.body.arena.size) :
    s.Faults 1 (.reporting env ((letType stmt).runIn env s)) := by
  unfold letType
  split
  next written _ _ =>
    rw [runIn_resolveType]
    exact .reporting (.of_eq rfl rfl)
  next written init _ hinit =>
    rw [runIn_bind, runIn_resolveType]
    cases env.function.resolve env.declarations written with
    | error e => exact .reporting (.of_eq rfl rfl)
    | ok t =>
      have hinit' : init < s.body.arena.size := hslots init (by simp [Stmt.slots, hinit])
      have hreported : s.Faults 1 (.reporting env ((discard (expectType analyseExpr t init)).runIn env s)) :=
        .reporting (faults_expectType hin hinit' t)
      dsimp only
      rw [runIn_bind, runIn_reportFailure]
      exact hreported
  next init _ hinit =>
    have hinit' : init < s.body.arena.size := hslots init (by simp [Stmt.slots, hinit])
    exact .reporting (faults_of_walks ((walks_analyseExpr hin.isRegion init hinit' none).bind hin.isRegion.lt
      fun t => walks_comply (W := (· < s.body.arena.size)) hinit' t _))
  next => exact .reporting (.of_eq rfl rfl)

theorem faults_assignTo {stmt : AssignStmt} (hvalue : stmt.value < s.body.arena.size) (b : Binding) :
    s.Faults 0 ((assignTo b stmt).runIn env s).2 := by
  have hvisit : s.Faults 0 ((discard (expectType analyseExpr b.type stmt.value)).runIn env s).2 :=
    faults_expectType hin hvalue b.type
  unfold assignTo
  rw [runIn_bind, runIn_get]
  dsimp only
  split
  · exact .of_eq rfl rfl
  · rw [runIn_bind]
    generalize (discard (expectType analyseExpr b.type stmt.value)).runIn env s = run at hvisit
    obtain ⟨_ | _, s₁⟩ := run
    · exact hvisit
    · refine hvisit.trans (m := 0) ?_
      exact .of_eq rfl rfl

theorem faults_analyseReturn {stmt : ReturnStmt} (hslots : ∀ c ∈ (Stmt.ret stmt).slots, c < s.body.arena.size) :
    s.Faults 0 ((analyseReturn stmt).runIn env s).2 := by
  let s₁ : AnalysisState := { s with path := s.path.record .returned }
  have hs₁ : s.Faults 0 s₁ := .of_eq rfl rfl
  unfold analyseReturn
  rw [runIn_bind, runIn_record]
  dsimp only
  rw [runIn_bind, runIn_read]
  dsimp only
  split
  next value hvalue =>
    exact hs₁.trans (faults_expectType (s := s₁) hin (hslots value (by simp [Stmt.slots, hvalue])) _)
  next => split <;> exact hs₁

/-- A statement reports at most one error, and a binding that it declares is found in it afterwards. -/
theorem faults_analyseStmt {stmt stmt' : Stmt} (hslots : ∀ c ∈ stmt.slots, c < s.body.arena.size)
    (hrun : (analyseStmt stmt).runIn env s = (.ok stmt', s')) :
    s.AddsErrors 1 s' ∧ s'.deferred.Sublist (s.deferred ++ stmt'.deferred?.toList) := by
  have of_faults (h : s.Faults 1 s') :
      s.AddsErrors 1 s' ∧ s'.deferred.Sublist (s.deferred ++ stmt'.deferred?.toList) :=
    ⟨h.addsErrors, h.deferred_eq ▸ List.sublist_append_left _ _⟩
  cases stmt with
  | letStmt stmt =>
    have hlet : s.Faults 1 (.reporting env ((letType stmt).runIn env s)) := faults_letType hin hslots
    rw [runIn_analyseStmt_let] at hrun
    dsimp only at hrun
    generalize (letType stmt).runIn env s = run at hlet hrun
    obtain ⟨hstmt, rfl⟩ := Prod.mk.inj hrun
    obtain rfl := Except.ok.inj hstmt
    refine ⟨?_, ?_⟩
    · obtain ⟨new, hnew, hlen⟩ := hlet.addsErrors
      exact ⟨new, (reports_declaring stmt _ _).trans hnew, hlen⟩
    · rw [← hlet.deferred_eq]
      cases hisDeferred : run.1.isOk && stmt.init?.isNone with
      | false => exact List.sublist_append_left _ _
      | true =>
        have hinit : stmt.init? = none := by simpa using (Bool.and_eq_true_iff.mp hisDeferred).2
        simp only [Stmt.deferred?, hinit]
        exact List.Sublist.refl _
  | assign stmt =>
    rw [runIn_analyseStmt_assign] at hrun
    dsimp only at hrun
    let s₁ : AnalysisState := { s with scope := (s.scope.resolve stmt.target.name).2 }
    have hs₁ : s.Faults 0 s₁ := .of_eq rfl rfl
    split at hrun
    · obtain ⟨-, rfl⟩ := Prod.mk.inj hrun
      exact of_faults (hs₁.trans (.withReport s₁ env _))
    · obtain ⟨-, rfl⟩ := Prod.mk.inj hrun
      exact of_faults (hs₁.trans (faults_assignTo (s := s₁) hin (hslots _ (by simp [Stmt.slots])) _).reporting)
  | expr slot =>
    rw [runIn_analyseStmt_expr] at hrun
    obtain ⟨-, rfl⟩ := Prod.mk.inj hrun
    exact of_faults (.reporting (faults_of_walks fun s h =>
      (walks_analyseExpr hin.isRegion slot (hslots slot (by simp [Stmt.slots])) none s h).discard))
  | ret stmt =>
    rw [runIn_analyseStmt_ret] at hrun
    obtain ⟨-, rfl⟩ := Prod.mk.inj hrun
    exact of_faults (faults_analyseReturn hin hslots).reporting

end Statements

theorem inRange_of_keepsNodes {α : Type} {step : Analysis α} {result : Except SemanticError α}
    (hin : s.body.arena.InRange) (h : KeepsNodes s.body.arena (· < s.body.arena.size) env step)
    (hrun : step.runIn env s = (result, s')) : s'.body.arena.InRange ∧ s.body.arena.size ≤ s'.body.arena.size := by
  have hedits := (h s (.refl _)).arena
  rw [hrun] at hedits
  exact ⟨hin.edits hedits fun _ hx => hx, hedits.size_le⟩

variable (env) in
/-- Whatever statements come before it, a statement reports at most one error. -/
theorem exists_addsErrors_analyseStmt {earlier : List Stmt} {stmt : Stmt} (hin : s.body.arena.InRange)
    (hslots : ∀ stmt' ∈ earlier ++ [stmt], ∀ c ∈ stmt'.slots, c < s.body.arena.size) :
    ∃ earlier' s₁, (earlier.mapM analyseStmt).runIn env s = (.ok earlier', s₁) ∧
      s₁.AddsErrors 1 ((analyseStmt stmt).runIn env s₁).2 := by
  obtain ⟨earlier', s₁, hrun⟩ := exists_runIn_mapM_analyseStmt env s earlier
  have hregion := hin.isRegion
  obtain ⟨hin₁, hle⟩ := inRange_of_keepsNodes hin (KeepsNodes.mapM hregion.lt fun stmt' hmem =>
    keepsNodes_analyseStmt hregion stmt' (hslots stmt' (List.mem_append_left _ hmem))) hrun
  have hslots₁ (c : Slot) (hc : c ∈ stmt.slots) : c < s₁.body.arena.size :=
    Nat.lt_of_lt_of_le (hslots stmt (List.mem_append_right _ List.mem_cons_self) c hc) hle
  obtain ⟨stmt', s₂, hstmt⟩ := exists_runIn_analyseStmt env s₁ stmt
  refine ⟨earlier', s₁, hrun, ?_⟩
  rw [hstmt]
  exact (faults_analyseStmt hin₁ hslots₁ hstmt).1

theorem deferred_of_runIn_mapM {stmts stmts' : List Stmt} (hin : s.body.arena.InRange)
    (hslots : ∀ stmt ∈ stmts, ∀ c ∈ stmt.slots, c < s.body.arena.size)
    (hrun : (stmts.mapM analyseStmt).runIn env s = (.ok stmts', s')) :
    s'.deferred.Sublist (s.deferred ++ stmts'.filterMap Stmt.deferred?) := by
  induction stmts generalizing s stmts' with
  | nil =>
    obtain ⟨rfl, rfl⟩ : [] = stmts' ∧ s = s' := by simpa using hrun
    simp
  | cons stmt stmts ih =>
    rw [List.mapM_cons] at hrun
    obtain ⟨stmt', s₁, hstmt, hrun⟩ := runIn_bind_ok.mp hrun
    obtain ⟨rest, s₂, hrest, hrun⟩ := runIn_bind_ok.mp hrun
    obtain ⟨rfl, rfl⟩ : stmt' :: rest = stmts' ∧ s₂ = s' := by simpa using hrun
    have hslots₀ := hslots stmt List.mem_cons_self
    obtain ⟨hin₁, hle⟩ := inRange_of_keepsNodes hin (keepsNodes_analyseStmt hin.isRegion stmt hslots₀) hstmt
    have hfirst := (faults_analyseStmt hin hslots₀ hstmt).2
    have hothers := ih hin₁ (fun stmt hmem c hc =>
      Nat.lt_of_lt_of_le (hslots stmt (List.mem_cons_of_mem _ hmem) c hc) hle) hrest
    refine hothers.trans ((hfirst.append_right _).trans ?_)
    rw [List.append_assoc]
    cases hdeferred : stmt'.deferred? <;> simp [hdeferred]

/-! ### Bodies -/

variable (env) in
theorem exists_runIn_checkReturned (s : AnalysisState) :
    ∃ missing : List Report, checkReturned.runIn env s = (.ok (), { s with reports := s.reports ++ missing }) ∧
      (missing = [] ∨ missing = [{
        function := env.function.qualifiedName
        error := .missingReturn env.function.qualifiedName env.function.span }]) := by
  unfold checkReturned
  rw [runIn_bind, runIn_read]
  dsimp only
  rw [runIn_bind, runIn_get]
  dsimp only
  split
  · exact ⟨_, rfl, .inr rfl⟩
  · exact ⟨[], by simp, .inl rfl⟩

variable (env) in
/-- A body ends with at most one report of its own, and those on bindings that are still without a value. -/
theorem reports_analyseBody (s : AnalysisState) :
    ∃ stmts s₁ missing, (s.body.stmts.mapM analyseStmt).runIn env s = (.ok stmts, s₁) ∧
      (missing = [] ∨ missing = [{
        function := env.function.qualifiedName
        error := .missingReturn env.function.qualifiedName env.function.span }]) ∧
      (analyseBody.runIn env s).2.body.stmts = stmts ∧
      (analyseBody.runIn env s).2.reports = s₁.reports ++ missing ++ s₁.uninitialized.map fun b =>
        { function := env.function.qualifiedName, error := .neverInitialized b.name b.span } := by
  obtain ⟨stmts, s₁, hrun⟩ := exists_runIn_mapM_analyseStmt env s s.body.stmts
  obtain ⟨missing, hcheck, hmissing⟩ :=
    exists_runIn_checkReturned env { s₁ with body := { s₁.body with stmts } }
  have hbody : analyseBody.runIn env s = (.ok (), { s₁ with
      body := { s₁.body with stmts, variableCount := s₁.scope.count }
      reports := s₁.reports ++ missing ++ s₁.uninitialized.map fun b =>
        { function := env.function.qualifiedName, error := .neverInitialized b.name b.span } }) := by
    unfold analyseBody
    rw [runIn_bind, runIn_get]
    dsimp only
    rw [runIn_bind, hrun]
    dsimp only
    rw [runIn_bind, runIn_modify]
    dsimp only
    rw [runIn_bind, hcheck]
    dsimp only
    rw [runIn_bind, runIn_checkInitialized]
    simp [uninitialized]
  refine ⟨stmts, s₁, missing, hrun, hmissing, ?_, ?_⟩
  · rw [hbody]
  · rw [hbody]

end Analysis

namespace Package

/--
The analysis of each statement of a body makes at most one report that is not a warning, whatever is
wrong in it.  What is reported besides is, at most once, that the body does not return, and for each
immutable binding that is declared without a value at most once that it never gets one.  And where the
body is a forest, a call in it that fails before its arguments are checked leaves the conversion depth of
each argument as it was, whatever analysis has made of the nodes of the body by then.
-/
theorem errors_of_analyseDefinition (p : Package) (warnDeprecated : Bool) (before : List Report) (d : Definition)
    (hin : d.body.InRange) :
    let env : Environment := { package := p, function := p.signature d.function, warnDeprecated }
    let start := AnalysisState.start env.function d.body before
    let after := (p.analyseDefinition warnDeprecated before d)
    (∀ earlier stmt later, d.body.stmts = earlier ++ stmt :: later →
      ∃ earlier' s, (earlier.mapM analyseStmt).runIn env start = (.ok earlier', s) ∧
        s.AddsErrors 1 ((analyseStmt stmt).runIn env s).2) ∧
    (∃ (s : AnalysisState) (missing : List Report) (unset : List DeferredBinding),
      (d.body.stmts.mapM analyseStmt).runIn env start = (.ok after.1.body.stmts, s) ∧
      after.2 = s.reports ++ missing ++ unset.map (fun b =>
        { function := p.ownerName d, error := .neverInitialized b.name b.span }) ∧
      (missing = [] ∨ missing = [{
        function := p.ownerName d, error := .missingReturn (p.ownerName d) env.function.span }]) ∧
      unset.Sublist ((after.1.body.stmts.filterMap Stmt.deferred?).filter (!·.isMutable))) ∧
    (d.body.arena.IsForest (d.body.stmts.flatMap Stmt.slots) → d.body.arena.IsAcyclic →
      ∀ root ∈ d.body.stmts.flatMap Stmt.slots, ∀ slot, d.body.arena.Reaches root slot →
      ∀ s, Arena.Edits (· < d.body.arena.size) d.body.arena s.body.arena →
        let call := s.body.arena.get slot
        call.type? = none → ∀ n step err s',
          prepareCall? (analyseExprWithin n) slot call.span call.kind = some step →
          step.runIn env s = (.error err, s') →
          (∀ e?, (analyseExprWithin (n + 1) slot e?).runIn env s = (.error err, s')) ∧
            ∀ arg ∈ call.kind.passed, s'.body.arena.conversionDepth arg = s.body.arena.conversionDepth arg) := by
  intro env start after
  refine ⟨fun earlier stmt later hstmts => ?_, ?_, ?_⟩
  · refine exists_addsErrors_analyseStmt (s := start) env hin.arena fun stmt' hmem => hin.stmts stmt' ?_
    rw [hstmts, List.append_cons]
    exact List.mem_append_left _ hmem
  · obtain ⟨stmts, s, missing, hrun, hmissing, hstmts, hreports⟩ := reports_analyseBody env start
    obtain rfl : after.1.body.stmts = stmts := hstmts
    refine ⟨s, missing, s.uninitialized, hrun, hreports, hmissing, ?_⟩
    have hdeferred := deferred_of_runIn_mapM (s := start) hin.arena hin.stmts hrun
    have hsub : s.uninitialized.Sublist (s.deferred.filter (!·.isMutable)) := by
      refine List.monotone_filter_right s.deferred fun b hb => ?_
      exact (Bool.and_eq_true_iff.mp hb).1
    exact hsub.trans (hdeferred.filter _)
  · intro hf hacyclic root hroot slot hreaches s hedits call htype n step err s' hstep hrun
    obtain ⟨k, -, hslot⟩ := Arena.IsForest.exists_level_of_reaches (.root hroot) hreaches
    have hcall := conversionDepth_eq_of_prepareCall?_error hf hacyclic hslot hedits htype hstep hrun
    exact ⟨fun e? => (hcall e?).1, (hcall none).2⟩

end Package

def unusedPackage : Package where
  declarations := {}
  functions := [
    { name := "unused", generics := [⟨"T", .something⟩], params := [⟨"n", .int⟩] },
    { name := "main" }]

/-- `unused(1)`. -/
def callUnused : Body where
  arena := { nodes := #[
    { span := ⟨0, 1⟩, kind := .int 1 },
    { span := ⟨10, 1⟩, kind := .call ⟨"unused", ⟨10, 1⟩⟩ { span := ⟨10, 1⟩, args := [0] } none }] }
  stmts := [.expr 1]

theorem isFresh_callUnused : callUnused.IsFresh := by
  decide

/-- Nothing determines the generic argument, which is one error, and the argument of the call is not converted. -/
theorem errors_of_analyseDefinition_unused :
    let env : Environment := { package := unusedPackage, function := unusedPackage.signature 1 }
    let start := AnalysisState.start env.function callUnused []
    callUnused.InRange ∧
      start.AddsErrors 1 ((analyseStmt (.expr 1)).runIn env start).2 ∧
      ∃ err s', (∀ e?, (analyseExprWithin 2 1 e?).runIn env start = (.error err, s')) ∧
        s'.body.arena.conversionDepth 0 = start.body.arena.conversionDepth 0 := by
  intro env start
  let d : Definition := { function := 1, body := callUnused }
  have hin := isFresh_callUnused.inRange
  obtain ⟨hstmts, -, hcalls⟩ := unusedPackage.errors_of_analyseDefinition true [] d hin
  have hacyclic : callUnused.arena.IsAcyclic := by
    refine ⟨id, fun slot c hc => ?_⟩
    have hlt : slot < 2 := Arena.lt_size_of_mem_operands hc
    interval_cases slot <;> simp_all [callUnused, Arena.get, ExprKind.operands]
  refine ⟨hin, ?_, ?_⟩
  · obtain ⟨earlier', s, hrun, herrors⟩ := hstmts [] (.expr 1) [] rfl
    cases hrun
    exact herrors
  · obtain ⟨step, hstep, hfails⟩ : ∃ step, prepareCall? (analyseExprWithin 1) 1 (start.body.arena.get 1).span
        (start.body.arena.get 1).kind = some step ∧ (step.runIn env start).1.isOk = false :=
      ⟨_, rfl, by decide +kernel⟩
    rcases hrun : step.runIn env start with ⟨err | rest, s'⟩
    · obtain ⟨hfails, hdepth⟩ := hcalls isFresh_callUnused.isForest hacyclic 1 (by decide) 1 (.refl _ _) start .refl
        rfl 1 step err s' hstep hrun
      exact ⟨err, s', hfails, hdepth 0 (by decide)⟩
    · rw [hrun] at hfails
      cases hfails

end Boxlang
