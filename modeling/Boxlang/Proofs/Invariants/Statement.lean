import Boxlang.Proofs.Invariants.Body

/-!
# Invariants of bodies with errors

A statement that is wrong is reported, and what was done to the nodes of its expressions
stays.  A property that analysis keeps thus holds of all nodes and bindings of a body after
its analysis, whatever was reported.  A binding whose type cannot be known gets the error
type, and so does an expression that is too deep; the error type must have the property.
-/

namespace Boxlang

/-- The type of the binding that the statement declares, once it is known. -/
def Stmt.resolved? : Stmt → Option Ty
  | .letStmt stmt => stmt.resolved?
  | _ => none

namespace Analysis

open AnalysisState

variable {env : Environment} {V P : Ty → Prop} {G : Slot → Conversion → Prop}
  {N : Nat → Slot → Expr → Prop} {m : Nat} {body : Body}

/--
A property of states that is kept by a statement whatever it declares or assigns to: its
expressions may be visited, what is written in it denotes types with the property, and
nothing but arena and scopes matters.
-/
structure StmtStable (env : Environment) (J : AnalysisState → Prop) (P : Ty → Prop)
    (G : Slot → Conversion → Prop) (stmt : Stmt) : Prop where
  visits : ∀ c ∈ stmt.slots, Visits env J J P G analyseExpr c
  written : ∀ w ∈ stmt.writtenTypes, w.Denotes env P
  congr : ∀ {s s' : AnalysisState}, J s → s'.body.arena = s.body.arena → s'.scope = s.scope → J s'

/-- Moreover names may be resolved and variables declared, whose types have the property. -/
structure ScopeStable (J : AnalysisState → Prop) (P : Ty → Prop) : Prop where
  resolve : ∀ {s} name, J s →
    J { s with scope := (s.scope.resolve name).2 } ∧ ∀ b ∈ (s.scope.resolve name).1, P b.type
  declare : ∀ {s} name {t} isMutable, J s → P t →
    J { s with scope := (s.scope.declare name t isMutable).2 }

section Statement

variable {J : AnalysisState → Prop} (hT : TypeInvariant env V P) (hG : ConversionInvariant env P G)

section Bookkeeping

variable {stmt : Stmt} (h : StmtStable env J P G stmt)
include h

theorem ensures_report (e : SemanticError) : Ensures env J J (report e) fun _ => True :=
  .of_runIn fun _ hs => ⟨(), _, runIn_report e, h.congr hs rfl rfl, trivial⟩

theorem ensures_record (i : Incident) : Ensures env J J (record i) fun _ => True :=
  .modify fun _ hs => h.congr hs rfl rfl

theorem ensures_reportFailure {step : Analysis Unit} (hstep : Ensures env J J step fun _ => True) :
    Ensures env J J (reportFailure step) fun _ => True :=
  hstep.reportFailure fun _ hs => h.congr hs rfl rfl

include hT hG

theorem ensures_expectType {c : Slot} (hc : c ∈ stmt.slots) {t : Ty} (ht : P t) :
    Ensures env J J (expectType analyseExpr t c) P :=
  ensures_expect hT hG (fun hs => hs) (h.visits c hc) (e := { type := t }) ht

end Bookkeeping

include hT hG

theorem ensures_letType {stmt : LetStmt} (h : StmtStable env J P G (.letStmt stmt)) :
    Ensures env J J (letType stmt) P := by
  have hresolve {written : WrittenType} (hw : stmt.type? = some written) :
      Ensures env J J (resolveType written) P :=
    ensures_resolveType (fun hs => hs) (h.written written (by simp [Stmt.writtenTypes, hw]))
  unfold letType
  split
  next written hw _ => exact hresolve hw
  next written init hw hinit =>
    refine (hresolve hw).bind fun t ht => ?_
    have hexpect := ensures_expectType hT hG h (c := init) (by simp [Stmt.slots, hinit]) ht
    exact (ensures_reportFailure h hexpect.discard).bind fun _ _ => .pure ht
  next init _ hinit =>
    exact ensures_preferSimple hT hG (fun hs => hs) (h.visits init (by simp [Stmt.slots, hinit]))
  next => exact .throw (fun _ hs => hs) _

theorem ensures_assignTo {stmt : AssignStmt} (h : StmtStable env J P G (.assign stmt)) {b : Binding}
    (hp : P b.type) : Ensures env J J (assignTo b stmt) fun _ => True := by
  have hassign : Ensures env J J (do
      discard (expectType analyseExpr b.type stmt.value)
      record (.initialized b.id)) fun _ => True :=
    (ensures_expectType hT hG h List.mem_cons_self hp).discard.bind fun _ _ => ensures_record h _
  unfold assignTo
  refine Ensures.bind (Q := fun _ => True) (.of_keeps fun s _ => ⟨s, rfl, trivial⟩) fun s _ => ?_
  dsimp only
  split
  next => exact (Ensures.throw (fun _ hs => hs) _).bind fun _ (_ : True) => hassign
  next => exact hassign

theorem ensures_analyseReturn {stmt : ReturnStmt} (h : StmtStable env J P G (.ret stmt)) :
    Ensures env J J (analyseReturn stmt) fun _ => True := by
  unfold analyseReturn
  refine (ensures_record h _).bind fun _ _ => ?_
  refine Ensures.read.bind fun _ henv => ?_
  obtain rfl := henv
  dsimp only
  split
  next value hvalue =>
    exact (ensures_expectType hT hG h (by simp [Stmt.slots, hvalue]) hT.ret).discard
  next =>
    split
    next => exact .throw (fun _ hs => hs) _
    next => exact .pure trivial

variable (hscope : ScopeStable J P)
include hscope

omit hT hG in
theorem ensures_declareLet {stmt : LetStmt} (h : StmtStable env J P G (.letStmt stmt)) (isTyped : Bool)
    {t : Ty} (ht : P t) :
    Ensures env J J (declareLet stmt isTyped t) fun stmt => ∀ t ∈ stmt.resolved?, P t := by
  refine Ensures.bind (Q := fun _ => True) ?_ fun id _ => ?_
  · exact .modifyGet fun _ hs => ⟨hscope.declare _ _ hs ht, trivial⟩
  split
  next =>
    refine Ensures.bind (Q := fun _ => True) ?_ fun _ _ => .pure (by simpa using ht)
    exact .modify fun _ hs => h.congr hs rfl rfl
  next => exact (ensures_record h _).bind fun _ _ => .pure (by simpa using ht)

theorem ensures_analyseLet (herror : P .error) {stmt : LetStmt}
    (h : StmtStable env J P G (.letStmt stmt)) :
    Ensures env J J (analyseLet stmt) fun stmt => ∀ t ∈ stmt.resolved?, P t := by
  rw [analyseLet_eq]
  refine (ensures_letType hT hG h).attempt.bind fun result ht => ?_
  cases result with
  | ok t => exact ensures_declareLet hscope h true (ht t rfl)
  | error e => exact (ensures_report h e).bind fun _ _ => ensures_declareLet hscope h false herror

/-- Every statement keeps the property, whether or not something is wrong in it. -/
theorem ensures_analyseStmt (herror : P .error) {stmt : Stmt} (h : StmtStable env J P G stmt) :
    Ensures env J J (analyseStmt stmt) fun stmt => ∀ t ∈ stmt.resolved?, P t := by
  have hnone {stmt : Stmt} (hstmt : stmt.resolved? = none) : ∀ t ∈ stmt.resolved?, P t := by simp [hstmt]
  cases stmt with
  | letStmt stmt => exact (ensures_analyseLet hT hG hscope herror h).bind fun _ ht => .pure ht
  | assign stmt =>
    refine Ensures.bind (Q := fun _ => True) ?_ fun _ _ => .pure (hnone rfl)
    refine Ensures.bind (Q := fun b? => ∀ b ∈ b?, P b.type) (.modifyGet fun _ hs => hscope.resolve _ hs)
      fun b? hb? => ?_
    cases b? with
    | none => exact (ensures_report h _).bind fun _ _ => .pure trivial
    | some b =>
      have hassign := ensures_assignTo hT hG h (hb? b rfl)
      exact (ensures_reportFailure h hassign).bind fun _ _ => .pure trivial
  | expr slot =>
    have hexpected : ∀ e ∈ (none : Option Expectation), P e.type := by simp
    have hexpr := ((h.visits slot List.mem_cons_self).ensures hexpected).discard
    exact (ensures_reportFailure h hexpr).bind fun _ _ => .pure (hnone rfl)
  | ret stmt =>
    have hret := ensures_analyseReturn hT hG h
    exact (ensures_reportFailure h hret).bind fun _ _ => .pure (hnone rfl)

end Statement

section Respects

variable (hT : TypeInvariant env V P) (hG : ConversionInvariant env P G)
  (hN : NodeInvariant V P G body.arena m N) (hbody : body.Denotes env V P) (hin : body.InRange)
  (herror : P .error)
  (hunwrap : ∀ slot < body.arena.size, ∀ inner, (body.arena.get slot).kind = .unwrap inner →
    G inner .unwrapOptional ∧ G inner .unwrapBoxOptional)
include hN

theorem scopeStable_respects : ScopeStable (Respects P N m body.arena) P where
  resolve name hs := ⟨hs.resolve hN name, fun _ hb => hs.binding hb⟩
  declare name _ isMutable hs ht :=
    hs.congr hN rfl (Nat.le_succ _) (hs.bindings.declare name ht isMutable)

include hT hG hbody hin herror hunwrap

/-- Expressions keep the properties at every depth, where those that are too deep may be errors. -/
theorem visitRespects_analyseExprWithin_of_inRange (n : Nat) {slot : Slot} (hslot : slot < body.arena.size) :
    VisitRespects env P G N m body.arena (analyseExprWithin n) slot := by
  induction n generalizing slot m with
  | zero =>
    refine ⟨fun {s e? t s'} hs _ hrun => ?_, fun {s e? err s'} hs _ hrun => nomatch (Prod.mk.inj hrun).1⟩
    cases hrun
    exact ⟨hs, herror, fun op u hop _ hu => hs.convert hN hslot hop hu⟩
  | succ n ih =>
    exact visitRespects_analyseNode hT hG hN hbody hslot
      (fun c hc m' hm => ih (hN.weaken hm) (hin.arena slot hslot c hc)) (hunwrap slot hslot)

theorem stmtStable_respects {stmt : Stmt} (hstmt : stmt ∈ body.stmts) :
    StmtStable env (Respects P N m body.arena) P G stmt where
  visits c hc := visits_analyseExpr fun _ =>
    visitRespects_analyseExprWithin_of_inRange hT hG hN hbody hin herror hunwrap _ (hin.stmts stmt hstmt c hc)
  written w hw t ht := hT.weaken (hbody.stmts stmt hstmt w hw t ht)
  congr hs harena hscope :=
    hs.congr hN harena (hscope ▸ Nat.le_refl _) (hscope ▸ hs.bindings)

end Respects

end Analysis

/-! ### Bodies -/

/--
The nodes and bindings of a body have types with the property, and the nodes properties that
are kept, once it is analysed, whatever was reported.
-/
theorem Package.respects_analyseDefinition (p : Package) (warnDeprecated : Bool)
    (reports : List Report) (definition : Definition) {V P : Ty → Prop}
    {G : Slot → Conversion → Prop} {N : Nat → Slot → Expr → Prop}
    (hin : definition.body.InRange)
    (htypes : ∀ slot t, (definition.body.arena.get slot).type? = some t → P t) (herror : P .error) :
    let env : Environment :=
      { package := p, function := p.signature definition.function, warnDeprecated }
    let arena := definition.body.arena
    let after := (p.analyseDefinition warnDeprecated reports definition).1.body
    TypeInvariant env V P → ConversionInvariant env P G →
      NodeInvariant V P G arena (Scope.ofSignature env.function).count N →
      definition.body.Denotes env V P →
      (∀ slot < arena.size, ∀ inner, (arena.get slot).kind = .unwrap inner →
        G inner .unwrapOptional ∧ G inner .unwrapBoxOptional) →
      (∀ slot, N (Scope.ofSignature env.function).count slot (arena.get slot)) →
      (∀ slot t, (after.arena.get slot).type? = some t → P t) ∧
        (∀ stmt ∈ after.stmts, ∀ t ∈ stmt.resolved?, P t) ∧
        ∃ n, ∀ slot, N n slot (after.arena.get slot) := by
  intro env arena after hT hG hN hbody hunwrap hkept
  let s := AnalysisState.start env.function definition.body reports
  obtain ⟨stmts, s', new, hrun, hanalysed, -⟩ := Analysis.exists_runIn_analyseBody env s
  have hstmts := Analysis.Ensures.mapM fun stmt hstmt =>
    Analysis.ensures_analyseStmt hT hG (Analysis.scopeStable_respects hN) herror
      (Analysis.stmtStable_respects hT hG hN hbody hin herror hunwrap hstmt)
  obtain ⟨hs', hresolved⟩ := hstmts.ok (.start htypes hT.param hkept reports) hrun
  have hafter : after = (Analysis.analyseBody.runIn env s).2.body := rfl
  rw [hafter, hanalysed]
  exact ⟨hs'.types, hresolved, _, hs'.kept⟩

end Boxlang
