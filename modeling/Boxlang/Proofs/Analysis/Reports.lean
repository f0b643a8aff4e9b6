import Boxlang.Analysis.Package
import Boxlang.Proofs.Analysis.Progress
import Boxlang.Proofs.Analysis.Statement

/-!
# The reports of one body

Analysis writes reports and never reads them.  A step does the same whatever was
reported before, and the reports it makes are about the function whose body is
analysed and follow those made before.  So each body of a package has a sequence of
reports of its own, and analysing bodies in order strings these together.

Whether warnings are on is read where a warning is made and nowhere else: without
them, a step does the same and makes the same reports less the warnings.
-/

namespace Boxlang

/-- The reports that are left of those given: all of them, or all but the warnings. -/
def Report.shown (warnDeprecated : Bool) (reports : List Report) : List Report :=
  if warnDeprecated then reports else reports.filter (!·.error.isWarning)

namespace Report

variable {warnDeprecated : Bool}

@[simp]
theorem shown_nil : shown warnDeprecated [] = [] := by
  cases warnDeprecated <;> rfl

@[simp]
theorem shown_append (reports reports' : List Report) :
    shown warnDeprecated (reports ++ reports') =
      shown warnDeprecated reports ++ shown warnDeprecated reports' := by
  cases warnDeprecated
  · exact List.filter_append reports reports'
  · rfl

theorem shown_singleton_of_isError {r : Report} (h : r.error.isWarning = false) :
    shown warnDeprecated [r] = [r] := by
  cases warnDeprecated <;> simp [shown, h]

theorem mem_of_mem_shown {r : Report} {reports : List Report}
    (h : r ∈ shown warnDeprecated reports) : r ∈ reports := by
  cases warnDeprecated
  · exact List.mem_of_mem_filter h
  · exact h

end Report

def AnalysisState.reported (s : AnalysisState) (reports : List Report) : AnalysisState :=
  { s with reports }

def Environment.warning (env : Environment) (warnDeprecated : Bool) : Environment :=
  { env with warnDeprecated }

namespace Analysis

variable {α β : Type} {env : Environment} {s s' : AnalysisState}

/--
From the state `s`, the step leads to the state `s'` and makes the reports `new` about
the function, whatever was reported before; with warnings off it leaves these out.
It fails with errors, not with warnings, and the arena only grows.
-/
structure AddsFrom (env : Environment) (s : AnalysisState) (step : Analysis α)
    (result : Except SemanticError α) (s' : AnalysisState) (new : List Report) : Prop where
  isError : ∀ e, result = .error e → e.isWarning = false
  function_eq : ∀ r ∈ new, r.function = env.function.qualifiedName
  size_le : s.body.arena.size ≤ s'.body.arena.size
  runIn_eq : ∀ warnDeprecated before,
    step.runIn (env.warning warnDeprecated) (s.reported before) =
      (result, s'.reported (before ++ Report.shown warnDeprecated new))

/-- A step that only adds: reports to those made before, and nodes to the arena. -/
def Adds (env : Environment) (step : Analysis α) : Prop :=
  ∀ s, ∃ result s' new, AddsFrom env s step result s' new

namespace Adds

theorem size_le {step : Analysis α} (h : Adds env step) (s : AnalysisState) :
    s.body.arena.size ≤ (step.runIn env s).2.body.arena.size := by
  obtain ⟨result, s', new, hs⟩ := h s
  have hrun : step.runIn env s = (result, s'.reported _) :=
    hs.runIn_eq env.warnDeprecated s.reports
  rw [hrun]
  exact hs.size_le

theorem of_runIn {step : Analysis α}
    (hfail : ∀ s e, (step.runIn env s).1 = .error e → e.isWarning = false)
    (hsize : ∀ s, s.body.arena.size ≤ (step.runIn env s).2.body.arena.size)
    (h : ∀ s warnDeprecated before,
      step.runIn (env.warning warnDeprecated) (s.reported before) =
        ((step.runIn env s).1, (step.runIn env s).2.reported before)) : Adds env step :=
  fun s => ⟨(step.runIn env s).1, (step.runIn env s).2, [],
    { isError := hfail s
      function_eq := by simp
      size_le := hsize s
      runIn_eq := fun w before => by rw [h s w before, Report.shown_nil, List.append_nil] }⟩

theorem modifyGet {f : AnalysisState → α × AnalysisState}
    (h : ∀ s before, f (s.reported before) = ((f s).1, (f s).2.reported before))
    (hsize : ∀ s, s.body.arena.size ≤ (f s).2.body.arena.size) :
    Adds env (modifyGet f : Analysis α) := by
  refine of_runIn (fun s e he => by cases he) hsize fun s w before => ?_
  rw [runIn_modifyGet, runIn_modifyGet, h s before]

theorem pure (a : α) : Adds env (pure a : Analysis α) :=
  modifyGet (f := fun s => (a, s)) (fun _ _ => rfl) fun _ => Nat.le_refl _

theorem throw {e : SemanticError} (h : e.isWarning = false) : Adds env (throw e : Analysis α) :=
  of_runIn (fun _ e' he => by cases he; exact h) (fun _ => Nat.le_refl _) fun _ _ _ => rfl

theorem modify {f : AnalysisState → AnalysisState}
    (h : ∀ s before, f (s.reported before) = (f s).reported before)
    (hsize : ∀ s, s.body.arena.size ≤ (f s).body.arena.size) :
    Adds env (modify f : Analysis Unit) :=
  modifyGet (f := fun s => ((), f s)) (fun s before => by rw [h s before]) hsize

theorem report {e : SemanticError} (h : e.isWarning = false) : Adds env (report e) := by
  intro s
  refine ⟨.ok (), s, [⟨env.function.qualifiedName, e⟩], ?_⟩
  exact {
    isError := fun _ he => by cases he
    function_eq := by simp
    size_le := Nat.le_refl _
    runIn_eq := fun w before => by rw [Report.shown_singleton_of_isError h]; rfl }

theorem warn {e : SemanticError} (h : e.isWarning = true) :
    Adds env (do if (← read).warnDeprecated then Analysis.report e) := by
  intro s
  refine ⟨.ok (), s, [⟨env.function.qualifiedName, e⟩], ?_⟩
  exact {
    isError := fun _ he => by cases he
    function_eq := by simp
    size_le := Nat.le_refl _
    runIn_eq := fun w before => by
      cases w
      · simp [Report.shown, h, runIn_bind, Environment.warning]
      · rfl }

theorem bind {step : Analysis α} {next : α → Analysis β} (h : Adds env step)
    (hnext : ∀ a, Adds env (next a)) : Adds env (step >>= next) := by
  intro s
  obtain ⟨result, s₁, new, hstep⟩ := h s
  cases result with
  | error e =>
    refine ⟨.error e, s₁, new, ?_⟩
    exact {
      isError := fun e' he => hstep.isError e' (by cases he; rfl)
      function_eq := hstep.function_eq
      size_le := hstep.size_le
      runIn_eq := fun w before => by rw [runIn_bind, hstep.runIn_eq w before] }
  | ok a =>
    obtain ⟨result, s₂, more, hrest⟩ := hnext a s₁
    refine ⟨result, s₂, new ++ more, ?_⟩
    exact {
      isError := hrest.isError
      function_eq := List.forall_mem_append.mpr ⟨hstep.function_eq, hrest.function_eq⟩
      size_le := Nat.le_trans hstep.size_le hrest.size_le
      runIn_eq := fun w before => by
        rw [runIn_bind, hstep.runIn_eq w before, Report.shown_append, ← List.append_assoc]
        exact hrest.runIn_eq w _ }

theorem get_bind {next : AnalysisState → Analysis β} (hnext : ∀ s, Adds env (next s))
    (heq : ∀ s before, next (s.reported before) = next s) : Adds env (get >>= next) := by
  intro s
  obtain ⟨result, s', new, hs⟩ := hnext s s
  refine ⟨result, s', new, { hs with runIn_eq := fun w before => ?_ }⟩
  rw [runIn_bind, runIn_get, ← hs.runIn_eq w before]
  exact congrArg (runIn (env.warning w) (s.reported before)) (heq s before)

/-- A step may look at the environment, except for whether warnings are on. -/
theorem read_bind {next : Environment → Analysis β} (hnext : Adds env (next env))
    (heq : ∀ w, next (env.warning w) = next env) : Adds env (read >>= next) := by
  intro s
  obtain ⟨result, s', new, hs⟩ := hnext s
  refine ⟨result, s', new, { hs with runIn_eq := fun w before => ?_ }⟩
  rw [runIn_bind, runIn_read, ← hs.runIn_eq w before]
  exact congrArg (runIn (env.warning w) (s.reported before)) (heq w)

theorem attempt_bind {step : Analysis α} {next : Except SemanticError α → Analysis β}
    (h : Adds env step) (hok : ∀ a, Adds env (next (.ok a)))
    (herror : ∀ e, e.isWarning = false → Adds env (next (.error e))) :
    Adds env (attempt step >>= next) := by
  intro s
  obtain ⟨result, s₁, new, hstep⟩ := h s
  have hnext : Adds env (next result) := by
    cases result with
    | ok a => exact hok a
    | error e => exact herror e (hstep.isError e rfl)
  obtain ⟨result', s₂, more, hrest⟩ := hnext s₁
  refine ⟨result', s₂, new ++ more, ?_⟩
  exact {
    isError := hrest.isError
    function_eq := List.forall_mem_append.mpr ⟨hstep.function_eq, hrest.function_eq⟩
    size_le := Nat.le_trans hstep.size_le hrest.size_le
    runIn_eq := fun w before => by
      rw [runIn_bind, runIn_attempt, hstep.runIn_eq w before, Report.shown_append,
        ← List.append_assoc]
      exact hrest.runIn_eq w _ }

theorem discard {step : Analysis α} (h : Adds env step) : Adds env (discard step) := by
  show Adds env ((fun _ => ()) <$> step)
  rw [← bind_pure_comp]
  exact h.bind fun _ => pure ()

theorem mapM {step : α → Analysis β} (h : ∀ a, Adds env (step a)) (l : List α) :
    Adds env (l.mapM step) := by
  induction l with
  | nil => exact pure []
  | cons a l ih =>
    rw [List.mapM_cons]
    exact (h a).bind fun b => ih.bind fun bs => pure (b :: bs)

theorem forM {step : α → Analysis Unit} (h : ∀ a, Adds env (step a)) (l : List α) :
    Adds env (l.forM step) := by
  induction l with
  | nil => exact pure ()
  | cons a l ih => exact (h a).bind fun _ => ih

theorem foldlM {step : β → α → Analysis β} (h : ∀ b a, Adds env (step b a)) (l : List α) (b : β) :
    Adds env (l.foldlM step b) := by
  induction l generalizing b with
  | nil => exact pure b
  | cons a l ih => exact (h b a).bind fun b' => ih b'

theorem reportFailure {step : Analysis Unit} (h : Adds env step) : Adds env (reportFailure step) :=
  h.attempt_bind (fun _ => pure ()) fun _ he => report he

theorem resolveType (t : WrittenType) : Adds env (resolveType t) := by
  refine of_runIn (fun s e he => ?_) (fun s => ?_) fun s w before => ?_
  · rw [runIn_resolveType] at he
    exact isError_of_resolve _ _ t e he
  · exact Nat.le_of_eq (by rw [runIn_resolveType])
  · rw [runIn_resolveType, runIn_resolveType]
    rfl

theorem resolveName (name : String) : Adds env (resolveName name) :=
  modifyGet (fun _ _ => rfl) fun _ => Nat.le_refl _

theorem declare (name : String) (t : Ty) (isMutable : Bool) : Adds env (declare name t isMutable) :=
  modifyGet (fun _ _ => rfl) fun _ => Nat.le_refl _

theorem record (i : Incident) : Adds env (record i) :=
  modify (fun _ _ => rfl) fun _ => Nat.le_refl _

theorem node (slot : Slot) : Adds env (node slot) :=
  modifyGet (f := fun s => (s.body.arena.get slot, s)) (fun _ _ => rfl) fun _ => Nat.le_refl _

theorem spanOf (slot : Slot) : Adds env (spanOf slot) :=
  (node slot).bind fun e => pure e.span

theorem modifyArena {f : Arena → Arena} (h : ∀ a, a.size ≤ (f a).size) : Adds env (modifyArena f) :=
  modify (fun _ _ => rfl) fun s => h s.body.arena

theorem modifyKind (slot : Slot) (f : ExprKind → ExprKind) : Adds env (modifyKind slot f) :=
  modifyArena fun a => Nat.le_of_eq (Arena.size_modify a slot _).symm

theorem setType (slot : Slot) (t : Ty) : Adds env (Analysis.modifyArena (·.setType slot t)) :=
  modifyArena fun a => Nat.le_of_eq (Arena.size_modify a slot _).symm

theorem insertConversion (slot : Slot) (op : Conversion) (t : Ty) :
    Adds env (insertConversion slot op t) :=
  (modifyArena fun a => by simp).bind fun _ => pure t

end Adds

/-! ### Expressions -/

/-- A way of typing operands that adds reports about the function. -/
def Reporting (env : Environment) (visit : Visit) : Prop :=
  ∀ slot e?, Adds env (visit slot e?)

theorem adds_requireSubtype (actual expected : Ty) (span : Span) :
    Adds env (requireSubtype actual expected span) := by
  unfold requireSubtype
  refine Adds.read_bind ?_ fun _ => rfl
  split
  · exact .pure ()
  · exact .throw rfl

theorem adds_comply (actual : Ty) (e : Expectation) (slot : Slot) :
    Adds env (comply actual e slot) := by
  unfold comply carryOut
  split
  · exact .pure _
  · exact .insertConversion _ _ _
  · exact (Adds.spanOf slot).bind fun _ => .throw rfl

theorem adds_noValueType (e? : Option Expectation) (span : Span) :
    Adds env (noValueType e? span) := by
  unfold noValueType
  split
  · exact .throw rfl
  · split
    · exact .pure _
    · exact .pure _
    · exact .throw rfl

theorem adds_formType (form : TypeForm) (e? : Option Expectation) (span : Span) :
    Adds env (formType form e? span) := by
  cases form with
  | explicit written => exact .resolveType written
  | inferred =>
    unfold formType
    dsimp only
    split
    · exact .pure _
    · exact .throw rfl
  | this =>
    unfold formType
    refine Adds.read_bind ?_ fun _ => rfl
    split
    · exact .pure _
    · exact .throw rfl

theorem adds_validateMetability (t : Ty) (span : Span) : Adds env (validateMetability t span) := by
  unfold validateMetability
  split <;> first | exact .throw rfl | exact .pure _

theorem adds_analyseLocal (slot : Slot) (name : Ident) : Adds env (analyseLocal slot name) := by
  unfold analyseLocal
  refine (Adds.resolveName _).bind fun b? => ?_
  split
  · exact .throw rfl
  next b =>
    refine (Adds.modifyKind _ _).bind fun _ => Adds.get_bind (fun s => ?_) fun _ _ => rfl
    split
    · exact .pure _
    · exact .throw rfl

theorem adds_checkUse (target : Signature) (span : Span) : Adds env (checkUse target span) := by
  have hwarn : Adds env (if target.deprecated?.isSome then warnDeprecated target span else pure ()) := by
    split
    · exact .warn rfl
    · exact .pure ()
  unfold checkUse
  refine Adds.read_bind ?_ fun _ => rfl
  dsimp only
  split
  · exact hwarn
  · exact Adds.bind (.throw rfl) fun _ => hwarn

theorem adds_argumentsOf (slot : Slot) (target : Signature) : Adds env (argumentsOf slot target) := by
  unfold argumentsOf
  refine (Adds.node slot).bind fun e => ?_
  split
  · exact .pure _
  · exact .throw rfl

theorem adds_checkWritten (target : Signature) (receiver? : Option Ty)
    (written : List (WrittenType × GenericParam)) : Adds env (do
      let c := (← read).calleeContext receiver? target
      written.mapM fun (written, generic) => do
        let t ← resolveType written
        requireSubtype t (c.upperBound generic.constraint) written.span
        return t) := by
  refine Adds.read_bind (Adds.mapM (fun q => ?_) written) fun _ => rfl
  obtain ⟨written, generic⟩ := q
  exact (Adds.resolveType written).bind fun t =>
    (adds_requireSubtype t _ _).bind fun _ => .pure t

theorem adds_checkGenericArguments (target : Signature) (receiver? : Option Ty)
    (arguments : Arguments) : Adds env (checkGenericArguments target receiver? arguments) := by
  unfold checkGenericArguments
  dsimp only
  split
  · exact Adds.bind (.throw rfl) fun _ => adds_checkWritten target receiver? _
  · exact adds_checkWritten target receiver? _

theorem adds_inferredArgument (c : GenericContext) (target : Signature) (span : Span)
    (generic : GenericParam) (candidates : Candidates) :
    Adds env (inferredArgument c target span generic candidates) := by
  unfold inferredArgument
  split
  · exact .throw rfl
  next t _ =>
    refine Adds.read_bind ?_ fun _ => rfl
    dsimp only
    split
    · exact .pure _
    · exact Adds.bind (.throw rfl) fun _ => .pure _

section Visit

variable {visit : Visit} (hvisit : Reporting env visit)
include hvisit

theorem adds_expect (e : Expectation) (slot : Slot) : Adds env (expect visit e slot) :=
  (hvisit slot _).bind fun actual => (Adds.spanOf slot).bind fun span =>
    (adds_requireSubtype actual e.type span).bind fun _ => adds_comply actual e slot

theorem adds_expectType (t : Ty) (slot : Slot) : Adds env (expectType visit t slot) :=
  adds_expect hvisit _ slot

theorem adds_collectCandidates (c : GenericContext) (target : Signature) (arguments : Arguments) :
    Adds env (collectCandidates visit c target arguments) := by
  refine Adds.foldlM (fun all (param, arg) => ?_) _ _
  dsimp only
  split
  · refine Adds.bind ?_ fun _ => .pure _
    exact (hvisit arg none).bind fun actual => Adds.read_bind (.pure _) fun _ => rfl
  · exact .pure _

theorem adds_ensureGenericArguments (slot : Slot) (receiver? : Option Ty) (target : Signature) :
    Adds env (ensureGenericArguments visit slot receiver? target) := by
  have hkeep (resolved : List Ty) : Adds env (do
      modifyKind slot (·.withGenericArguments resolved)
      return resolved) := (Adds.modifyKind _ _).bind fun _ => .pure _
  have hinfer (arguments : Arguments) :
      Adds env (inferGenericArguments visit target receiver? arguments) := by
    refine Adds.read_bind ((adds_collectCandidates hvisit _ _ _).bind fun all => ?_) fun _ => rfl
    exact Adds.mapM (fun (generic, candidates) => adds_inferredArgument _ _ _ generic candidates) _
  unfold ensureGenericArguments
  refine (adds_argumentsOf slot target).bind fun arguments => ?_
  dsimp only
  split
  · exact (adds_checkGenericArguments _ _ _).bind hkeep
  · split
    · exact (hinfer arguments).bind hkeep
    · exact (Adds.pure []).bind hkeep

theorem adds_expectAll {α : Type} (type : α → Ty) (l : List (α × Slot)) (t : Ty) :
    Adds env (do
      l.forM fun (param, arg) => discard (expectType visit (type param) arg)
      return t) := by
  refine (Adds.forM (fun q => ?_) l).bind fun _ => .pure t
  obtain ⟨param, arg⟩ := q
  exact (adds_expectType hvisit (type param) arg).discard

theorem adds_checkedCall (slot : Slot) (receiver? : Option Ty) (target : Signature)
    (args : List Slot) : Adds env (do
      let generics ← ensureGenericArguments visit slot receiver? target
      let c := { (← read).calleeContext receiver? target with args := generics }
      (target.params.zip args).forM fun (param, arg) =>
        discard (expectType visit (c.instantiate param.type) arg)
      return c.instantiate target.ret) := by
  refine (adds_ensureGenericArguments hvisit slot receiver? target).bind fun generics => ?_
  refine Adds.read_bind ?_ fun _ => rfl
  let c := { env.calleeContext receiver? target with args := generics }
  exact adds_expectAll hvisit (fun param : Param => c.instantiate param.type) _ _

theorem adds_analyseFunctionCall (slot : Slot) (receiver? : Option Ty) (target : Signature) :
    Adds env (analyseFunctionCall visit slot receiver? target) := by
  unfold analyseFunctionCall
  refine (adds_argumentsOf slot target).bind fun arguments => ?_
  refine (adds_checkUse target _).bind fun _ => ?_
  have hchecks := adds_checkedCall hvisit slot receiver? target arguments.args
  dsimp only
  split
  · exact Adds.bind (.throw rfl) fun _ => hchecks
  · exact hchecks

theorem adds_analyseCall (slot : Slot) (function : Ident) :
    Adds env (analyseCall visit slot function) := by
  unfold analyseCall
  refine Adds.read_bind ?_ fun _ => rfl
  dsimp only
  split
  · exact .throw rfl
  · exact (Adds.modifyKind _ _).bind fun _ => adds_analyseFunctionCall hvisit _ _ _

theorem adds_analyseMethodCall (slot receiver : Slot) (method : Ident) :
    Adds env (analyseMethodCall visit slot receiver method) := by
  unfold analyseMethodCall
  refine (hvisit receiver none).bind fun actual => (adds_comply _ _ _).bind fun held => ?_
  refine Adds.read_bind ?_ fun _ => rfl
  dsimp only
  split
  · exact .throw rfl
  · exact (Adds.modifyKind _ _).bind fun _ => adds_analyseFunctionCall hvisit _ _ _

theorem adds_analyseInvoke (callee : Slot) (args : List Slot) (span : Span) :
    Adds env (analyseInvoke visit callee args span) := by
  unfold analyseInvoke
  refine (hvisit callee none).bind fun calleeType => ?_
  split
  · exact .pure _
  · split
    next params ret _ =>
      dsimp only
      split
      · exact Adds.bind (.throw rfl) fun _ => adds_expectAll hvisit id (params.zip args) ret
      · exact adds_expectAll hvisit id (params.zip args) ret
    · exact (Adds.spanOf callee).bind fun _ => .throw rfl

theorem adds_analyseClosure (slot : Slot) (closure : Closure) :
    Adds env (analyseClosure visit slot closure) := by
  unfold analyseClosure
  refine (Adds.mapM (fun p : ClosureParam => .resolveType p.type) _).bind fun params => ?_
  refine (Adds.resolveType closure.ret).bind fun ret => ?_
  refine Adds.bind (.modify (fun _ _ => rfl) fun _ => Nat.le_refl _) fun _ => ?_
  refine (Adds.mapM (fun p : ClosureParam × Ty => .declare _ p.2 false) _).bind fun ids => ?_
  have hleave {next : List VariableId → Analysis Ty} (hnext : ∀ captures, Adds env (next captures)) :
      Adds env (do
        let captures ← modifyGet fun s =>
          (s.scope.exitClosure.1, { s with scope := s.scope.exitClosure.2 })
        next captures) :=
    (Adds.modifyGet (fun _ _ => rfl) fun _ => Nat.le_refl _).bind hnext
  refine (adds_expectType hvisit ret closure.body).attempt_bind (fun _ => ?_) fun e he => ?_
  · exact hleave fun _ => (Adds.modifyKind _ _).bind fun _ => .pure _
  · exact hleave fun _ => (Adds.modifyKind _ _).bind fun _ => .throw he

theorem adds_analyseUnwrap (inner : Slot) (span : Span) :
    Adds env (analyseUnwrap visit inner span) := by
  unfold analyseUnwrap
  refine (hvisit inner none).bind fun t => ?_
  split
  · exact .pure _
  · split
    · exact .throw rfl
    · split <;> exact .insertConversion _ _ _

theorem adds_nodeType (slot : Slot) (e : Expr) (expected? : Option Expectation) :
    Adds env (nodeType visit slot e expected?) := by
  unfold nodeType
  split
  · exact .pure _
  · exact .pure _
  · exact .pure _
  · exact .pure _
  · exact .pure _
  · exact adds_noValueType _ _
  · exact adds_analyseLocal _ _
  · exact adds_analyseCall hvisit _ _
  · exact adds_analyseMethodCall hvisit _ _ _
  · exact adds_analyseInvoke hvisit _ _ _
  · exact adds_analyseClosure hvisit _ _
  · exact (adds_formType _ _ _).bind fun t => (adds_validateMetability t _).bind fun _ => .pure _
  · exact adds_analyseUnwrap hvisit _ _
  · exact hvisit _ _

theorem reporting_analyseNode : Reporting env (analyseNode visit) := by
  intro slot e?
  unfold analyseNode
  refine (Adds.node slot).bind fun e => ?_
  split
  · exact .pure _
  · exact (adds_nodeType hvisit _ _ _).bind fun t => (Adds.setType slot t).bind fun _ => .pure t

end Visit

variable (env)

theorem reporting_analyseExprWithin (n : Nat) : Reporting env (analyseExprWithin n) := by
  induction n with
  | zero => exact fun _ _ => .pure _
  | succ n ih => exact reporting_analyseNode ih

theorem reporting_analyseExpr : Reporting env analyseExpr := fun slot e? =>
  Adds.get_bind (fun s => reporting_analyseExprWithin env s.body.arena.size slot e?) fun _ _ => rfl

/-! ### Statements -/

theorem adds_letType (stmt : LetStmt) : Adds env (letType stmt) := by
  have hvisit := reporting_analyseExpr env
  unfold letType
  split
  · exact .resolveType _
  · refine (Adds.resolveType _).bind fun declared => ?_
    exact (adds_expectType hvisit declared _).discard.reportFailure.bind fun _ => .pure _
  · exact (hvisit _ none).bind fun t => adds_comply _ _ _
  · exact .throw rfl

theorem adds_declareLet (stmt : LetStmt) (isTyped : Bool) (t : Ty) :
    Adds env (declareLet stmt isTyped t) := by
  refine (Adds.declare _ t _).bind fun id => ?_
  dsimp only
  split
  · exact Adds.bind (.modify (fun _ _ => rfl) fun _ => Nat.le_refl _) fun _ => .pure _
  · exact (Adds.record _).bind fun _ => .pure _

theorem adds_analyseLet (stmt : LetStmt) : Adds env (analyseLet stmt) := by
  rw [analyseLet_eq]
  refine (adds_letType env stmt).attempt_bind (adds_declareLet env stmt true) fun e he => ?_
  exact (Adds.report he).bind fun _ => adds_declareLet env stmt false .error

theorem adds_assignTo (b : Binding) (stmt : AssignStmt) : Adds env (assignTo b stmt) := by
  have hassign : Adds env (do
      discard (expectType analyseExpr b.type stmt.value)
      record (.initialized b.id)) :=
    (adds_expectType (reporting_analyseExpr env) b.type stmt.value).discard.bind fun _ => .record _
  refine Adds.get_bind (fun s => ?_) fun _ _ => rfl
  dsimp only
  split
  · exact Adds.bind (.throw rfl) fun _ => hassign
  · exact hassign

theorem adds_analyseAssign (stmt : AssignStmt) : Adds env (analyseAssign stmt) := by
  unfold analyseAssign
  refine (Adds.resolveName _).bind fun b? => ?_
  split
  · exact (Adds.report rfl).bind fun _ => .pure _
  next b => exact (adds_assignTo env b stmt).reportFailure.bind fun _ => .pure _

theorem adds_analyseReturn (stmt : ReturnStmt) : Adds env (analyseReturn stmt) := by
  unfold analyseReturn
  refine (Adds.record _).bind fun _ => Adds.read_bind ?_ fun _ => rfl
  dsimp only
  split
  · exact (adds_expectType (reporting_analyseExpr env) _ _).discard
  · split
    · exact .throw rfl
    · exact .pure _

theorem adds_analyseStmt (stmt : Stmt) : Adds env (analyseStmt stmt) := by
  cases stmt with
  | letStmt stmt => exact (adds_analyseLet env stmt).bind fun _ => .pure _
  | assign stmt => exact (adds_analyseAssign env stmt).bind fun _ => .pure _
  | expr slot => exact (reporting_analyseExpr env slot none).discard.reportFailure.bind fun _ => .pure _
  | ret stmt => exact (adds_analyseReturn env stmt).reportFailure.bind fun _ => .pure _

/-! ### Bodies -/

theorem adds_checkReturned : Adds env checkReturned := by
  refine Adds.read_bind (Adds.get_bind (fun s => ?_) fun _ _ => rfl) fun _ => rfl
  split
  · exact .report rfl
  · exact .pure _

theorem adds_checkInitialized : Adds env checkInitialized :=
  Adds.get_bind (fun _ => .forM (fun _ => .report rfl) _) fun _ _ => rfl

theorem adds_analyseBody : Adds env analyseBody := by
  refine Adds.get_bind (fun s => ?_) fun _ _ => rfl
  refine (Adds.mapM (adds_analyseStmt env) _).bind fun stmts => ?_
  refine Adds.bind (.modify (fun _ _ => rfl) fun _ => Nat.le_refl _) fun _ => ?_
  refine (adds_checkReturned env).bind fun _ => ?_
  exact (adds_checkInitialized env).bind fun _ => .modify (fun _ _ => rfl) fun _ => Nat.le_refl _

end Analysis

/-! ### Packages -/

namespace Package

variable (p : Package) (warnDeprecated : Bool)

def ownerName (d : Definition) : String :=
  (p.signature d.function).qualifiedName

def reportsOf (d : Definition) : List Report :=
  (p.analyseDefinition warnDeprecated [] d).2

def analysedOf (d : Definition) : Definition :=
  (p.analyseDefinition warnDeprecated [] d).1

/--
With warnings and without them the analysis of a body gives the same body, and adds
the reports that are left of the same ones.
-/
theorem exists_analyseDefinition_eq (d : Definition) :
    ∃ analysed new, (∀ r ∈ new, r.function = p.ownerName d) ∧ ∀ warnDeprecated before,
      p.analyseDefinition warnDeprecated before d =
        (analysed, before ++ Report.shown warnDeprecated new) := by
  let f := p.signature d.function
  obtain ⟨result, s', new, hbody⟩ := Analysis.adds_analyseBody { package := p, function := f }
    (.start f d.body [])
  refine ⟨{ d with body := s'.body }, new, hbody.function_eq, fun w before => ?_⟩
  have hrun : Analysis.analyseBody.runIn { package := p, function := f, warnDeprecated := w }
      (.start f d.body before) = (result, s'.reported (before ++ Report.shown w new)) :=
    hbody.runIn_eq w before
  rw [analyseDefinition, hrun]
  rfl

/-- What earlier bodies reported changes neither the analysis of a body nor its reports. -/
theorem analyseDefinition_eq (before : List Report) (d : Definition) :
    p.analyseDefinition warnDeprecated before d =
      (p.analysedOf warnDeprecated d, before ++ p.reportsOf warnDeprecated d) := by
  obtain ⟨analysed, new, -, hrun⟩ := p.exists_analyseDefinition_eq d
  rw [reportsOf, analysedOf, hrun, hrun, List.nil_append]

theorem function_eq_of_mem_reportsOf {d : Definition} {r : Report}
    (h : r ∈ p.reportsOf warnDeprecated d) : r.function = p.ownerName d := by
  obtain ⟨analysed, new, hnew, hrun⟩ := p.exists_analyseDefinition_eq d
  rw [reportsOf, hrun, List.nil_append] at h
  exact hnew r (Report.mem_of_mem_shown h)

/-- Bodies analysed in order make the reports of the first, then those of the next, and so on. -/
theorem analyse_eq (ds : List Definition) (before : List Report) :
    p.analyse warnDeprecated ds before =
      (ds.map (p.analysedOf warnDeprecated),
        before ++ (ds.map (p.reportsOf warnDeprecated)).flatten) := by
  induction ds generalizing before with
  | nil => simp [analyse]
  | cons d ds ih => simp [analyse, analyseDefinition_eq, ih]

end Package

end Boxlang
