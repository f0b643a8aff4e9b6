import Boxlang.Proofs.Analysis.Progress

/-!
# Walking through expressions

Analysing an expression has an effect only within the frame of
`AnalysisState.Progress`: one lemma for each function of the analysis, and from
them, by induction on the bound of the depth, that for expressions.
-/

namespace Boxlang

theorem ExprKind.args_subset_operands {kind : ExprKind} {arguments : Arguments}
    (h : kind.arguments? = some arguments) : arguments.args ⊆ kind.operands := by
  cases kind <;> simp_all [arguments?, operands]

namespace Analysis

variable {α : Type} {W : Slot → Prop} {env : Environment} {s : AnalysisState}
  {a₀ : Arena}

/-- A way of typing expressions that edits only slots of `W`. -/
def VisitWalks (a₀ : Arena) (W : Slot → Prop) (env : Environment) (visit : Visit) : Prop :=
  ∀ slot, W slot → ∀ e?, Walks a₀ W env (visit slot e?)

/-! ### Expectations -/

theorem walks_requireSubtype (actual expected : Ty) (span : Span) :
    Walks a₀ W env (requireSubtype actual expected span) := by
  intro s _
  unfold requireSubtype
  refine WalksFrom.read.bind fun env' _ _ _ => ?_
  split
  · exact .pure _
  · exact .throw rfl

theorem walks_carryOut {slot : Slot} (hs : W slot) (how : Compliance) (actual : Ty)
    (e : Expectation) : Walks a₀ W env (carryOut how actual e slot) := by
  intro s _
  cases how with
  | asIs t => exact .pure t
  | convert op t => exact .insertConversion hs op t
  | refused => exact (WalksFrom.spanOf slot).bind fun _ _ _ _ => .throw rfl

theorem walks_comply {slot : Slot} (hs : W slot) (actual : Ty) (e : Expectation) :
    Walks a₀ W env (comply actual e slot) :=
  walks_carryOut hs _ actual e

variable {visit : Visit}

theorem walks_expect (hW : ∀ slot, W slot → slot < a₀.size) (hv : VisitWalks a₀ W env visit)
    {slot : Slot} (hs : W slot) (e : Expectation) : Walks a₀ W env (expect visit e slot) := by
  unfold expect
  refine (hv slot hs _).bind hW fun actual => ?_
  refine Walks.bind hW (fun s _ => .spanOf slot) fun span => ?_
  exact (walks_requireSubtype _ _ _).bind hW fun _ => walks_comply hs _ _

theorem walks_expectType (hW : ∀ slot, W slot → slot < a₀.size) (hv : VisitWalks a₀ W env visit)
    {slot : Slot} (hs : W slot) (t : Ty) : Walks a₀ W env (expectType visit t slot) :=
  walks_expect hW hv hs _

theorem walks_noValueType (e? : Option Expectation) (span : Span) :
    Walks a₀ W env (noValueType e? span) := by
  intro s _
  unfold noValueType
  cases e? with
  | none => exact .throw rfl
  | some e =>
      dsimp only
      split
      · exact .pure _
      · exact .pure _
      · exact .throw rfl

theorem walks_formType (form : TypeForm) (e? : Option Expectation) (span : Span) :
    Walks a₀ W env (formType form e? span) := by
  intro s _
  unfold formType
  cases form with
  | explicit written => exact .resolveType written
  | inferred =>
      dsimp only
      split
      · exact .pure _
      · exact .throw rfl
  | this =>
      refine WalksFrom.read.bind fun env' _ _ _ => ?_
      split
      · exact .pure _
      · exact .throw rfl

theorem walks_validateMetability (t : Ty) (span : Span) :
    Walks a₀ W env (validateMetability t span) := by
  intro s _
  unfold validateMetability
  split
  all_goals first | exact .throw rfl | exact .pure _

/-! ### Calls -/

theorem walks_warnDeprecated (target : Signature) (span : Span) :
    Walks a₀ W env (warnDeprecated target span) := by
  intro s _
  unfold warnDeprecated
  refine WalksFrom.read.bind fun env' _ _ _ => ?_
  split
  · refine ⟨?_, fun e he => by cases he⟩
    exact .of_warning rfl
  · exact .pure _

theorem walks_checkUse (target : Signature) (span : Span) :
    Walks a₀ W env (checkUse target span) := by
  intro s hs
  unfold checkUse
  refine WalksFrom.read.bind fun env' s₁ hrun _ => ?_
  obtain ⟨rfl, rfl⟩ : env = env' ∧ s = s₁ := by simpa using hrun
  dsimp only
  split
  · split
    · exact walks_warnDeprecated target span s hs
    · exact .pure _
  · exact .throw_bind rfl

/-- The arguments that a call is found to have are operands of a node in `W`. -/
theorem mem_of_arguments? (hW : a₀.IsRegion W) {a : Arena} (ha : a.HoldsNodesOf a₀) {slot : Slot}
    (hs : W slot) {arguments : Arguments}
    (h : (a.get slot).kind.arguments? = some arguments) : ∀ c ∈ arguments.args, W c := by
  intro c hc
  rcases ha.holds slot (hW.lt slot hs) with hb | ⟨-, inner, op, hk⟩
  · refine (hW slot hs).2 c ?_
    rw [← Expr.operands_eq_of_bare_eq hb]
    exact ExprKind.args_subset_operands h hc
  · simp [hk, ExprKind.arguments?] at h

/-- A step that reads the arguments of a call in `W` and goes on with slots of `W`. -/
theorem walks_argumentsOf_bind (hW : a₀.IsRegion W) {slot : Slot} (hs : W slot)
    (target : Signature) {next : Arguments → Analysis α}
    (hnext : ∀ arguments : Arguments, (∀ c ∈ arguments.args, W c) →
      Walks a₀ W env (next arguments)) :
    Walks a₀ W env (argumentsOf slot target >>= next) := by
  intro s ha
  have hargs : WalksFrom W env s (argumentsOf slot target) := by
    unfold argumentsOf
    refine (WalksFrom.node slot).bind fun e s' _ _ => ?_
    split
    · exact .pure _
    · exact .throw rfl
  refine hargs.bind fun arguments s' hrun hp => ?_
  refine hnext arguments ?_ s' (hp.holdsNodes hW.lt ha)
  have hfound : (s.body.arena.get slot).kind.arguments? = some arguments := by
    unfold argumentsOf at hrun
    obtain ⟨e, s₁, hnode, hrest⟩ := runIn_bind_ok.mp hrun
    obtain ⟨rfl, rfl⟩ : s.body.arena.get slot = e ∧ s = s₁ := by
      simpa [runIn_node] using hnode
    split at hrest
    next arguments' harg =>
      obtain ⟨rfl, -⟩ : arguments' = arguments ∧ s = s' := by simpa using hrest
      exact harg
    next => simp at hrest
  exact mem_of_arguments? hW ha hs hfound

theorem walks_checkGenericArguments (hW : ∀ slot, W slot → slot < a₀.size) (target : Signature)
    (receiver? : Option Ty) (arguments : Arguments) :
    Walks a₀ W env (checkGenericArguments target receiver? arguments) := by
  intro s hs
  unfold checkGenericArguments
  dsimp only
  split
  · exact .throw_bind rfl
  · refine WalksFrom.read.bind fun env' s₁ hrun _ => ?_
    obtain ⟨rfl, rfl⟩ : env = env' ∧ s = s₁ := by simpa using hrun
    refine Walks.mapM hW (fun p _ => ?_) s hs
    refine Walks.bind hW (fun s _ => .resolveType p.1) fun t => ?_
    exact (walks_requireSubtype _ _ _).bind hW fun _ s _ => .pure t

theorem walks_collectFrom (hW : ∀ slot, W slot → slot < a₀.size) (hv : VisitWalks a₀ W env visit)
    {slot : Slot} (hs : W slot) (t : Ty) (all : List Candidates) :
    Walks a₀ W env (collectFrom visit t slot all) := by
  unfold collectFrom
  refine (hv slot hs none).bind hW fun actual => ?_
  exact Walks.bind hW (fun s _ => .read) fun _ s _ => .pure _

theorem walks_collectCandidates (hW : ∀ slot, W slot → slot < a₀.size)
    (hv : VisitWalks a₀ W env visit) (c : GenericContext) (target : Signature)
    (arguments : Arguments)
    (hargs : ∀ q ∈ target.params.zip arguments.args, q.1.type.mentionsLocalGenerics = true → W q.2) :
    Walks a₀ W env (collectCandidates visit c target arguments) := by
  refine Walks.foldlM hW fun all p hp => ?_
  obtain ⟨param, arg⟩ := p
  dsimp only
  split
  next hm =>
    refine (walks_collectFrom hW hv (hargs (param, arg) hp hm) _ all).bind hW fun r s _ => .pure r.2
  next => exact fun s _ => .pure all

theorem walks_inferredArgument (c : GenericContext) (target : Signature) (span : Span)
    (generic : GenericParam) (candidates : Candidates) :
    Walks a₀ W env (inferredArgument c target span generic candidates) := by
  intro s _
  unfold inferredArgument
  dsimp only
  split
  · exact .throw rfl
  · refine WalksFrom.read.bind fun env' _ _ _ => ?_
    split
    · exact .pure _
    · exact .throw_bind rfl

theorem walks_inferGenericArguments (hW : ∀ slot, W slot → slot < a₀.size)
    (hv : VisitWalks a₀ W env visit) (target : Signature) (receiver? : Option Ty)
    (arguments : Arguments)
    (hargs : ∀ q ∈ target.params.zip arguments.args, q.1.type.mentionsLocalGenerics = true → W q.2) :
    Walks a₀ W env (inferGenericArguments visit target receiver? arguments) := by
  unfold inferGenericArguments
  refine Walks.bind hW (fun s _ => .read) fun env' => ?_
  refine (walks_collectCandidates hW hv _ target arguments hargs).bind hW fun all => ?_
  exact Walks.mapM hW fun p _ => walks_inferredArgument _ _ _ p.1 p.2

theorem walks_modifyKind {slot : Slot} (hs : W slot) {f : ExprKind → ExprKind}
    (hf : ∀ k : ExprKind, (f k).bare = k.bare) : Walks a₀ W env (modifyKind slot f) :=
  fun _ _ => .modifyKind hs (hf _)

theorem walks_ensureGenericArguments (hW : a₀.IsRegion W) (hv : VisitWalks a₀ W env visit)
    {slot : Slot} (hs : W slot) (receiver? : Option Ty) (target : Signature) :
    Walks a₀ W env (ensureGenericArguments visit slot receiver? target) := by
  unfold ensureGenericArguments
  refine walks_argumentsOf_bind hW hs target fun arguments hargs => ?_
  have hkeep (resolved : List Ty) : Walks a₀ W env (do
      modifyKind slot (·.withGenericArguments resolved)
      return resolved) :=
    (walks_modifyKind hs fun k => k.bare_withGenericArguments resolved).bind hW.lt
      fun _ s _ => .pure resolved
  dsimp only
  split
  · exact (walks_checkGenericArguments hW.lt target receiver? arguments).bind hW.lt hkeep
  · split
    · exact (walks_inferGenericArguments hW.lt hv target receiver? arguments
        fun q hq _ => hargs q.2 (List.of_mem_zip hq).2).bind hW.lt hkeep
    · exact Walks.bind hW.lt (fun s _ => .pure []) hkeep

theorem walks_analyseFunctionCall (hW : a₀.IsRegion W) (hv : VisitWalks a₀ W env visit)
    {slot : Slot} (hs : W slot) (receiver? : Option Ty) (target : Signature) :
    Walks a₀ W env (analyseFunctionCall visit slot receiver? target) := by
  unfold analyseFunctionCall
  refine walks_argumentsOf_bind hW hs target fun arguments hargs => ?_
  refine (walks_checkUse target arguments.span).bind hW.lt fun _ => ?_
  dsimp only
  split
  · exact fun s _ => .throw_bind rfl
  · refine (walks_ensureGenericArguments hW hv hs receiver? target).bind hW.lt fun generics => ?_
    refine Walks.bind hW.lt (fun s _ => .read) fun env' => ?_
    refine Walks.bind hW.lt (Walks.forM hW.lt fun p hp => ?_) fun _ s _ => .pure _
    have harg : W p.2 := hargs p.2 (List.of_mem_zip hp).2
    exact fun s h => (walks_expectType hW.lt hv harg _ s h).discard


/-! ### Expressions -/

theorem walks_analyseLocal {slot : Slot} (hs : W slot) (name : Ident) :
    Walks a₀ W env (analyseLocal slot name) := by
  intro s _
  unfold analyseLocal
  refine (WalksFrom.resolveName name.name).bind fun b? s₁ _ _ => ?_
  split
  · exact .throw rfl
  next b _ =>
    refine (WalksFrom.modifyKind hs (ExprKind.bare_withVariable _ b.id)).bind fun _ _ _ _ => ?_
    refine WalksFrom.get.bind fun s₂ _ _ _ => ?_
    split
    · exact .pure _
    · exact .throw_bind rfl

theorem walks_analyseCall (hW : a₀.IsRegion W) (hv : VisitWalks a₀ W env visit) {slot : Slot}
    (hs : W slot) (function : Ident) : Walks a₀ W env (analyseCall visit slot function) := by
  unfold analyseCall
  refine Walks.bind hW.lt (fun s _ => .read) fun env' => ?_
  dsimp only
  split
  · exact fun s _ => .throw rfl
  next id _ =>
    refine (walks_modifyKind hs fun k => k.bare_withTarget id).bind hW.lt fun _ => ?_
    exact walks_analyseFunctionCall hW hv hs none _

theorem walks_analyseMethodCall (hW : a₀.IsRegion W) (hv : VisitWalks a₀ W env visit)
    {slot receiver : Slot} (hs : W slot) (hr : W receiver) (method : Ident) :
    Walks a₀ W env (analyseMethodCall visit slot receiver method) := by
  unfold analyseMethodCall
  refine (hv receiver hr none).bind hW.lt fun actual => ?_
  refine (walks_comply hr _ _).bind hW.lt fun held => ?_
  refine Walks.bind hW.lt (fun s _ => .read) fun env' => ?_
  dsimp only
  split
  · exact fun s _ => .throw rfl
  next id _ =>
    refine (walks_modifyKind hs fun k => k.bare_withTarget id).bind hW.lt fun _ => ?_
    exact walks_analyseFunctionCall hW hv hs _ _

def invokeAs (visit : Visit) (callee : Slot) (args : List Slot) (span : Span) (t : Ty) : Analysis Ty :=
  if t.isError then
    return .error
  else
    match t.unboxed with
    | .callable params ret => do
      if params.length ≠ args.length then
        throw (.argumentCount t.text params.length args.length span)
      (params.zip args).forM fun (param, arg) => discard (expectType visit param arg)
      return ret
    | _ => do throw (.typeMismatch "a callable" t.text (← spanOf callee))

theorem analyseInvoke_eq (callee : Slot) (args : List Slot) (span : Span) :
    analyseInvoke visit callee args span = visit callee none >>= invokeAs visit callee args span := rfl

theorem walks_invokeAs (hW : ∀ slot, W slot → slot < a₀.size) (hv : VisitWalks a₀ W env visit)
    (callee : Slot) {args : List Slot} (hargs : ∀ arg ∈ args, W arg) (span : Span) (t : Ty) :
    Walks a₀ W env (invokeAs visit callee args span t) := by
  unfold invokeAs
  split
  · exact fun s _ => .pure _
  · split
    next params ret _ =>
      dsimp only
      split
      · exact fun s _ => .throw_bind rfl
      · refine Walks.bind hW (Walks.forM hW fun p hp => ?_) fun _ s _ => .pure _
        have harg : W p.2 := hargs p.2 (List.of_mem_zip hp).2
        exact fun s h => (walks_expectType hW hv harg _ s h).discard
    · exact Walks.bind hW (fun s _ => .spanOf callee) fun _ s _ => .throw rfl

theorem walks_analyseInvoke (hW : ∀ slot, W slot → slot < a₀.size)
    (hv : VisitWalks a₀ W env visit) {callee : Slot} {args : List Slot} (hc : W callee)
    (hargs : ∀ arg ∈ args, W arg) (span : Span) :
    Walks a₀ W env (analyseInvoke visit callee args span) := by
  rw [analyseInvoke_eq]
  exact (hv callee hc none).bind hW fun t => walks_invokeAs hW hv callee hargs span t

/-- Whatever the node of a closure has become, its variables change only annotations. -/
theorem bare_withClosureVariables_of_holds {a : Arena} (ha : a.HoldsNodesOf a₀) {slot : Slot}
    (hs : slot < a₀.size) {literal : Closure}
    (hk : (a₀.get slot).kind.bare = (ExprKind.closure literal).bare)
    {ids captures : List VariableId} (hids : ids.length = literal.params.length) :
    ((a.get slot).kind.withClosureVariables ids captures).bare = (a.get slot).kind.bare := by
  refine ExprKind.bare_withClosureVariables _ _ _ fun now hnow => ?_
  rcases ha.holds slot hs with hb | ⟨-, inner, op, hconv⟩
  · have hbare : (ExprKind.closure now).bare = (ExprKind.closure literal).bare := by
      rw [← hnow, ← hk]
      exact congrArg Expr.kind hb
    have hlen := congrArg (·.params.length) (ExprKind.closure.inj hbare)
    simpa [hids] using hlen.symm
  · simp [hconv] at hnow

def closureResult (result : Except SemanticError Ty) (t : Ty) : Analysis Ty :=
  match result with
  | .ok _ => return t
  | .error e => throw e

theorem walks_analyseClosure (hW : a₀.IsRegion W) (hv : VisitWalks a₀ W env visit) {slot : Slot}
    (hs : W slot) {literal : Closure} (hbody : W literal.body)
    (hk : (a₀.get slot).kind.bare = (ExprKind.closure literal).bare) :
    Walks a₀ W env (analyseClosure visit slot literal) := by
  intro s ha
  unfold analyseClosure
  have hparams : Walks a₀ W env (literal.params.mapM (resolveType ·.type)) :=
    Walks.mapM hW.lt fun p _ s _ => .resolveType p.type
  refine (hparams s ha).bind fun params s₁ hrun hp => ?_
  have ha₁ := hp.holdsNodes hW.lt ha
  refine (WalksFrom.resolveType literal.ret).bind_walks hW.lt ha₁ fun ret s₂ ha₂ => ?_
  have hlen : (literal.params.zip params).length = literal.params.length := by
    simp [length_of_runIn_mapM_ok hrun]
  let names := (literal.params.zip params).map fun p => (p.1.name.name, p.2)
  let entered := { s₂ with scope := s₂.scope.enterClosure.declareAll names }
  have hvisit := (walks_expectType hW.lt hv hbody ret entered ha₂).progress
  rcases hbodyRun : (expectType visit ret literal.body).runIn env entered with ⟨result, s₃⟩
  rw [hbodyRun] at hvisit
  have herror := (walks_expectType hW.lt hv hbody ret entered ha₂).isError
  rw [hbodyRun] at herror
  let left := { s₃ with scope := s₃.scope.exitClosure.2 }
  let rest : Analysis Ty := do
    modifyKind slot (·.withClosureVariables
      (List.range' s₂.scope.count (literal.params.zip params).length) s₃.scope.exitClosure.1)
    closureResult result (.callable params ret)
  refine .of_runIn_eq (?_ : _ = rest.runIn env left) hvisit.closure ?_
  · rw [runIn_bind, runIn_modify]
    dsimp only
    rw [runIn_bind, runIn_declareParams]
    dsimp only
    rw [runIn_bind, runIn_attempt]
    dsimp only
    rw [hbodyRun]
    rfl
  · have ha₃ : s₃.body.arena.HoldsNodesOf a₀ := hvisit.holdsNodes hW.lt ha₂
    refine WalksFrom.bind (.modifyKind hs ?_) fun _ _ _ _ => ?_
    · exact bare_withClosureVariables_of_holds ha₃ (hW.lt slot hs) hk (by simp [hlen])
    · cases result with
      | ok t => exact .pure _
      | error e => exact .throw (herror e rfl)

theorem walks_analyseUnwrap (hW : ∀ slot, W slot → slot < a₀.size)
    (hv : VisitWalks a₀ W env visit) {inner : Slot} (hi : W inner) (span : Span) :
    Walks a₀ W env (analyseUnwrap visit inner span) := by
  unfold analyseUnwrap
  refine (hv inner hi none).bind hW fun t => ?_
  split
  · exact fun s _ => .pure _
  · split
    · exact fun s _ => .throw rfl
    · split
      all_goals exact fun s _ => .insertConversion hi _ _

/-- The node in a slot of `W`, as long as it has no type, is that of the original arena. -/
theorem walks_nodeType (hW : a₀.IsRegion W) (hv : VisitWalks a₀ W env visit) {slot : Slot}
    (hs : W slot) {e : Expr} (he : e.bare = (a₀.get slot).bare) (expected? : Option Expectation) :
    Walks a₀ W env (nodeType visit slot e expected?) := by
  have hops : ∀ c ∈ e.kind.operands, W c := by
    rw [Expr.operands_eq_of_bare_eq he]
    exact (hW slot hs).2
  have hkind : (a₀.get slot).kind.bare = e.kind.bare := (congrArg Expr.kind he).symm
  unfold nodeType
  cases hk : e.kind with
  | int _ | real _ | bool _ | string _ | symbol _ => exact fun s _ => .pure _
  | noValue => exact walks_noValueType _ _
  | localRef name id? => exact walks_analyseLocal hs name
  | call function arguments target? => exact walks_analyseCall hW hv hs function
  | methodCall receiver method arguments target? =>
      have hr : W receiver := hops receiver (by simp [hk, ExprKind.operands])
      exact walks_analyseMethodCall hW hv hs hr method
  | invoke callee args =>
      have hc : W callee := hops callee (by simp [hk, ExprKind.operands])
      have hargs : ∀ arg ∈ args, W arg := fun arg ha => hops arg (by simp [hk, ExprKind.operands, ha])
      exact walks_analyseInvoke hW.lt hv hc hargs e.span
  | closure literal =>
      have hbody : W literal.body := hops literal.body (by simp [hk, ExprKind.operands])
      exact walks_analyseClosure hW hv hs hbody (hk ▸ hkind)
  | typeExpr form =>
      refine (walks_formType form expected? e.span).bind hW.lt fun t => ?_
      exact (walks_validateMetability t e.span).bind hW.lt fun _ s _ => .pure _
  | unwrap inner =>
      exact walks_analyseUnwrap hW.lt hv (hops inner (by simp [hk, ExprKind.operands])) e.span
  | conversion inner op => exact hv inner (hops inner (by simp [hk, ExprKind.operands])) expected?

theorem walks_analyseNode (hW : a₀.IsRegion W) (hv : VisitWalks a₀ W env visit) :
    VisitWalks a₀ W env (analyseNode visit) := by
  intro slot hs expected? s ha
  unfold analyseNode
  refine (WalksFrom.node slot).bind fun e s₁ hrun hp => ?_
  obtain ⟨rfl, rfl⟩ : s.body.arena.get slot = e ∧ s = s₁ := by simpa [runIn_node] using hrun
  split
  · exact .pure _
  next htype =>
    have he := ha.bare_eq (hW.lt slot hs) htype
    refine (walks_nodeType hW hv hs he expected?).bind hW.lt (fun t => ?_) s ha
    refine Walks.bind hW.lt (fun s _ => ?_) fun _ s _ => .pure t
    exact .modifyArena (.annotate .refl hs (.withType _ t))

theorem walks_analyseExprWithin (hW : a₀.IsRegion W) (n : Nat) :
    VisitWalks a₀ W env (analyseExprWithin n) := by
  induction n with
  | zero => exact fun slot _ _ s _ => .pure _
  | succ n ih => exact walks_analyseNode hW ih

/-- Analysing an expression has no effect but within its frame. -/
theorem walks_analyseExpr (hW : a₀.IsRegion W) : VisitWalks a₀ W env analyseExpr := by
  intro slot hs e?
  unfold analyseExpr
  refine Walks.bind hW.lt (fun s _ => .get) fun s => ?_
  exact walks_analyseExprWithin hW _ slot hs e?

end Analysis

end Boxlang
