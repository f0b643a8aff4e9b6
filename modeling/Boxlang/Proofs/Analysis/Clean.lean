import Boxlang.Analysis.Package
import Boxlang.Proofs.Analysis.Frame

/-!
# Analysis without errors

Where nothing but warnings is reported, every step of the analysis of a body has
succeeded.  `StmtRun` is what such a run does for one statement, and `StmtsRun` for
statements one after the other, together with what each leaves alone: statements of a
fresh body share no nodes.
-/

namespace Boxlang

open Analysis

namespace AnalysisState

/-- Nothing but warnings has been reported on the way from `s` to `s'`. -/
def CleanTo (s s' : AnalysisState) : Prop :=
  s.reports <+: s'.reports ∧ Report.hasErrors (s'.reports.drop s.reports.length) = false

variable {s s' s'' : AnalysisState} {W : Slot → Prop}

theorem hasErrors_eq_false_iff {reports : List Report} :
    Report.hasErrors reports = false ↔ ∀ r ∈ reports, r.error.isWarning = true := by
  simp [Report.hasErrors]

theorem CleanTo.of_isPrefix (h : s.CleanTo s'') (h₁ : s.reports <+: s'.reports)
    (h₂ : s'.reports <+: s''.reports) : s.CleanTo s' ∧ s'.CleanTo s'' := by
  obtain ⟨-, hclean⟩ := h
  obtain ⟨new, hnew⟩ := h₁
  obtain ⟨more, hmore⟩ := h₂
  rw [hasErrors_eq_false_iff] at hclean
  rw [← hmore, ← hnew, List.append_assoc, List.drop_left] at hclean
  refine ⟨⟨⟨new, hnew⟩, ?_⟩, ⟨more, hmore⟩, ?_⟩
  · rw [hasErrors_eq_false_iff, ← hnew, List.drop_left]
    exact fun r hr => hclean r (List.mem_append_left _ hr)
  · rw [hasErrors_eq_false_iff, ← hmore, List.drop_left]
    exact fun r hr => hclean r (List.mem_append_right _ hr)

theorem not_cleanTo_withReport {env : Environment} {e : SemanticError}
    (hp : s.reports <+: s'.reports) (he : e.isWarning = false) :
    ¬ s.CleanTo (s'.withReport env e) := by
  intro hclean
  obtain ⟨new, hnew⟩ := hp
  have hmem := hasErrors_eq_false_iff.mp hclean.2
    { function := env.function.qualifiedName, error := e } (by
      simp only [withReport, ← hnew, List.append_assoc, List.drop_left]
      simp)
  rw [he] at hmem
  cases hmem

theorem exists_ok_of_clean {α : Type} {env : Environment} {step : Analysis α}
    (hw : WalksFrom W env s step) (hclean : s.CleanTo (reporting env (step.runIn env s))) :
    ∃ a, step.runIn env s = (.ok a, reporting env (step.runIn env s)) := by
  have hp := hw.progress.reports_prefix
  have herror := hw.isError
  rcases hrun : step.runIn env s with ⟨e | a, s₁⟩ <;> rw [hrun] at hp herror hclean
  · exact absurd hclean (not_cleanTo_withReport hp (herror e rfl))
  · exact ⟨a, rfl⟩

end AnalysisState

namespace Analysis

open AnalysisState

inductive StmtRun (env : Environment) : AnalysisState → Stmt → Stmt → AnalysisState → Prop where
  | letDeferred {s : AnalysisState} {stmt : LetStmt} {written : WrittenType} {t : Ty} :
      stmt.type? = some written → stmt.init? = none →
      env.function.resolve env.declarations written = .ok t →
      StmtRun env s (.letStmt stmt)
        (.letStmt { stmt with id? := some s.scope.count, resolved? := some t })
        (s.declaring stmt t true)
  | letTyped {s s₁ : AnalysisState} {stmt : LetStmt} {written : WrittenType} {init : Slot}
      {t u : Ty} :
      stmt.type? = some written → stmt.init? = some init →
      env.function.resolve env.declarations written = .ok t →
      (expectType analyseExpr t init).runIn env s = (.ok u, s₁) →
      StmtRun env s (.letStmt stmt)
        (.letStmt { stmt with id? := some s₁.scope.count, resolved? := some t })
        (s₁.declaring stmt t false)
  | letInferred {s s₁ s₂ : AnalysisState} {stmt : LetStmt} {init : Slot} {t u : Ty} :
      stmt.type? = none → stmt.init? = some init →
      (analyseExpr init none).runIn env s = (.ok t, s₁) →
      (comply t { type := t.erased, policy := .preferSimple } init).runIn env s₁ = (.ok u, s₂) →
      StmtRun env s (.letStmt stmt)
        (.letStmt { stmt with id? := some s₂.scope.count, resolved? := some u })
        (s₂.declaring stmt u false)
  | assign {s s₁ : AnalysisState} {stmt : AssignStmt} {b : Binding} {t : Ty} :
      (s.scope.resolve stmt.target.name).1 = some b →
      (b.isMutable || s.isDeferred b.id && !s.isInitialized b.id) = true →
      (expectType analyseExpr b.type stmt.value).runIn env
        { s with scope := (s.scope.resolve stmt.target.name).2 } = (.ok t, s₁) →
      StmtRun env s (.assign stmt) (.assign { stmt with id? := some b.id })
        { s₁ with path := s₁.path.record (.initialized b.id) }
  | expr {s s' : AnalysisState} {slot : Slot} {t : Ty} :
      (analyseExpr slot none).runIn env s = (.ok t, s') →
      StmtRun env s (.expr slot) (.expr slot) s'
  | retValue {s s' : AnalysisState} {stmt : ReturnStmt} {value : Slot} {t : Ty} :
      stmt.value? = some value →
      (expectType analyseExpr env.function.ret value).runIn env
        { s with path := s.path.record .returned } = (.ok t, s') →
      StmtRun env s (.ret stmt) (.ret stmt) s'
  | retNothing {s : AnalysisState} {stmt : ReturnStmt} :
      stmt.value? = none → env.function.ret = .nothing →
      StmtRun env s (.ret stmt) (.ret stmt) { s with path := s.path.record .returned }

variable {env : Environment} {body : Body} {s s' : AnalysisState}

/-! ### One statement -/

section Statements

variable (hb : body.IsFresh) (h : s.body.arena.HoldsNodesOf body.arena)
include hb h

theorem walksFrom_analyseExpr {slot : Slot} (hslot : slot ∈ body.stmts.flatMap Stmt.slots)
    (e? : Option Expectation) :
    WalksFrom (body.arena.Reaches slot) env s (analyseExpr slot e?) :=
  walks_analyseExpr (Arena.isRegion_reaches hb.inRange.arena (hb.isForest.roots_lt slot hslot)) slot
    (.refl _ slot) e? s h

theorem walksFrom_expectType {slot : Slot} (hslot : slot ∈ body.stmts.flatMap Stmt.slots) (t : Ty) :
    WalksFrom (body.arena.Reaches slot) env s (expectType analyseExpr t slot) :=
  have hW := Arena.isRegion_reaches hb.inRange.arena (hb.isForest.roots_lt slot hslot)
  walks_expectType hW.lt (walks_analyseExpr hW) (.refl _ slot) t s h

theorem walksFrom_letType_infer {init : Slot} (hslot : init ∈ body.stmts.flatMap Stmt.slots) :
    WalksFrom (body.arena.Reaches init) env s (do
      let t ← analyseExpr init none
      comply t { type := t.erased, policy := .preferSimple } init) :=
  have hW := Arena.isRegion_reaches hb.inRange.arena (hb.isForest.roots_lt init hslot)
  (walksFrom_analyseExpr hb h hslot none).bind_walks hW.lt h fun t =>
    walks_comply (.refl _ init) t _

theorem exists_expectType_of_clean {slot : Slot} {t : Ty}
    (hslot : slot ∈ body.stmts.flatMap Stmt.slots)
    (hclean : s.CleanTo (reporting env ((discard (expectType analyseExpr t slot)).runIn env s))) :
    ∃ u s₁, (expectType analyseExpr t slot).runIn env s = (.ok u, s₁) ∧
      (discard (expectType analyseExpr t slot)).runIn env s = (.ok (), s₁) := by
  obtain ⟨⟨⟩, hok⟩ := exists_ok_of_clean (walksFrom_expectType hb h hslot t).discard hclean
  obtain ⟨u, hvisit⟩ := runIn_discard_ok.mp hok
  exact ⟨u, _, hvisit, hok⟩

section LetType

variable {stmt : LetStmt} {written : WrittenType} {init : Slot}

omit hb h in
theorem exists_letType_deferred_of_clean (htype : stmt.type? = some written) (hinit : stmt.init? = none)
    (hclean : s.CleanTo (reporting env ((letType stmt).runIn env s))) :
    ∃ t, env.function.resolve env.declarations written = .ok t ∧
      (letType stmt).runIn env s = (.ok t, s) := by
  have hlet : letType stmt = resolveType written := by
    unfold letType
    rw [htype, hinit]
  rw [hlet] at hclean ⊢
  obtain ⟨t, hok⟩ := exists_ok_of_clean (WalksFrom.resolveType (W := fun _ => False) written) hclean
  rw [runIn_resolveType] at hok ⊢
  have hresolve := (Prod.mk.inj hok).1
  exact ⟨t, hresolve, by rw [hresolve]⟩

theorem exists_letType_typed_of_clean (hslot : init ∈ body.stmts.flatMap Stmt.slots)
    (htype : stmt.type? = some written) (hinit : stmt.init? = some init)
    (hclean : s.CleanTo (reporting env ((letType stmt).runIn env s))) :
    ∃ t u s₁, env.function.resolve env.declarations written = .ok t ∧
      (expectType analyseExpr t init).runIn env s = (.ok u, s₁) ∧
      (letType stmt).runIn env s = (.ok t, s₁) := by
  have hlet : letType stmt = (do
      let declared ← resolveType written
      reportFailure (discard (expectType analyseExpr declared init))
      return declared) := by
    unfold letType
    rw [htype, hinit]
  rw [hlet, runIn_bind, runIn_resolveType] at hclean ⊢
  cases hresolve : env.function.resolve env.declarations written with
  | error e =>
      rw [hresolve] at hclean
      exact absurd hclean (not_cleanTo_withReport (List.prefix_refl _)
        (isError_of_resolve _ _ written e hresolve))
  | ok t =>
      rw [hresolve] at hclean
      dsimp only at hclean ⊢
      rw [runIn_bind, runIn_reportFailure] at hclean ⊢
      obtain ⟨u, s₁, hvisit, hok⟩ := exists_expectType_of_clean hb h hslot hclean
      exact ⟨t, u, s₁, rfl, hvisit, by rw [hok]; rfl⟩

theorem exists_letType_inferred_of_clean (hslot : init ∈ body.stmts.flatMap Stmt.slots)
    (htype : stmt.type? = none) (hinit : stmt.init? = some init)
    (hclean : s.CleanTo (reporting env ((letType stmt).runIn env s))) :
    ∃ t u s₁ s₂, (analyseExpr init none).runIn env s = (.ok t, s₁) ∧
      (comply t { type := t.erased, policy := .preferSimple } init).runIn env s₁ = (.ok u, s₂) ∧
      (letType stmt).runIn env s = (.ok u, s₂) := by
  have hlet : letType stmt = (do
      let t ← analyseExpr init none
      comply t { type := t.erased, policy := .preferSimple } init) := by
    unfold letType
    rw [htype, hinit]
  rw [hlet] at hclean ⊢
  obtain ⟨u, hok⟩ := exists_ok_of_clean (walksFrom_letType_infer hb h hslot) hclean
  obtain ⟨t, s₁, hvisit, hcomply⟩ := runIn_bind_ok.mp hok
  exact ⟨t, u, s₁, _, hvisit, hcomply, hok⟩

omit hb h in
theorem not_clean_letType (htype : stmt.type? = none) (hinit : stmt.init? = none) :
    ¬ s.CleanTo (reporting env ((letType stmt).runIn env s)) := by
  have hlet : letType stmt = throw (.untypedBinding stmt.name.name stmt.span) := by
    unfold letType
    rw [htype, hinit]
  rw [hlet]
  exact not_cleanTo_withReport (List.prefix_refl _) rfl

end LetType

theorem stmtRun_let {stmt : LetStmt} {stmt' : Stmt}
    (hslots : ∀ c ∈ (Stmt.letStmt stmt).slots, c ∈ body.stmts.flatMap Stmt.slots)
    (hrun : (analyseStmt (.letStmt stmt)).runIn env s = (.ok stmt', s')) (hclean : s.CleanTo s') :
    StmtRun env s (.letStmt stmt) stmt' s' := by
  have hslot (init : Slot) (hinit : stmt.init? = some init) :
      init ∈ body.stmts.flatMap Stmt.slots := hslots init (by simp [Stmt.slots, hinit])
  rw [runIn_analyseStmt_let] at hrun
  obtain ⟨hstmt, hs'⟩ := Prod.mk.inj hrun
  replace hclean : s.CleanTo (reporting env ((letType stmt).runIn env s)) := by
    have hreports : s'.reports = (reporting env ((letType stmt).runIn env s)).reports := by
      rw [← hs', reports_declaring]
    unfold CleanTo at hclean ⊢
    rwa [hreports] at hclean
  have hfinish (t : Ty) (s₁ : AnalysisState) (hok : (letType stmt).runIn env s = (.ok t, s₁)) :
      Stmt.letStmt { stmt with id? := some s₁.scope.count, resolved? := some t } = stmt' ∧
        s₁.declaring stmt t stmt.init?.isNone = s' := by
    rw [hok] at hstmt hs'
    exact ⟨Except.ok.inj hstmt, hs'⟩
  cases htype : stmt.type? with
  | some written =>
      cases hinit : stmt.init? with
      | none =>
          obtain ⟨t, hresolve, hok⟩ := exists_letType_deferred_of_clean htype hinit hclean
          obtain ⟨rfl, rfl⟩ := hfinish t s hok
          rw [show stmt.init?.isNone = true by rw [hinit]; rfl]
          exact .letDeferred htype hinit hresolve
      | some init =>
          obtain ⟨t, u, s₁, hresolve, hvisit, hok⟩ :=
            exists_letType_typed_of_clean hb h (hslot init hinit) htype hinit hclean
          obtain ⟨rfl, rfl⟩ := hfinish t s₁ hok
          rw [show stmt.init?.isNone = false by rw [hinit]; rfl]
          exact .letTyped htype hinit hresolve hvisit
  | none =>
      cases hinit : stmt.init? with
      | none => exact absurd hclean (not_clean_letType htype hinit)
      | some init =>
          obtain ⟨t, u, s₁, s₂, hvisit, hcomply, hok⟩ :=
            exists_letType_inferred_of_clean hb h (hslot init hinit) htype hinit hclean
          obtain ⟨rfl, rfl⟩ := hfinish u s₂ hok
          rw [show stmt.init?.isNone = false by rw [hinit]; rfl]
          exact .letInferred htype hinit hvisit hcomply

theorem stmtRun_assign {stmt : AssignStmt} {stmt' : Stmt}
    (hslot : stmt.value ∈ body.stmts.flatMap Stmt.slots)
    (hrun : (analyseStmt (.assign stmt)).runIn env s = (.ok stmt', s')) (hclean : s.CleanTo s') :
    StmtRun env s (.assign stmt) stmt' s' := by
  rw [runIn_analyseStmt_assign] at hrun
  dsimp only at hrun
  cases hfound : (s.scope.resolve stmt.target.name).1 with
  | none =>
      rw [hfound] at hrun
      obtain rfl := (Prod.mk.inj hrun).2
      exact absurd hclean (not_cleanTo_withReport (List.prefix_refl _) rfl)
  | some b =>
      rw [hfound] at hrun
      obtain ⟨hstmt, hs'⟩ := Prod.mk.inj hrun
      obtain rfl := Except.ok.inj hstmt
      subst hs'
      let s₁ : AnalysisState := { s with scope := (s.scope.resolve stmt.target.name).2 }
      unfold assignTo at hclean ⊢
      rw [runIn_bind, runIn_get] at hclean ⊢
      dsimp only at hclean ⊢
      split at hclean
      · rw [runIn_bind] at hclean
        exact absurd hclean (not_cleanTo_withReport (List.prefix_refl _) rfl)
      next hfirst =>
        have hclean' : s₁.CleanTo (reporting env
            ((discard (expectType analyseExpr b.type stmt.value)).runIn env s₁)) := by
          rw [runIn_bind] at hclean
          rcases hx : (discard (expectType analyseExpr b.type stmt.value)).runIn env s₁ with
            ⟨e | a, s₂⟩ <;> rw [hx] at hclean <;> exact hclean
        obtain ⟨u, s₂, hvisit, hok⟩ :=
          exists_expectType_of_clean (s := s₁) hb h hslot hclean'
        rw [if_neg hfirst, runIn_bind, hok]
        refine .assign hfound ?_ hvisit
        have hsame : s₁.isDeferred b.id = s.isDeferred b.id ∧
            s₁.isInitialized b.id = s.isInitialized b.id := ⟨rfl, rfl⟩
        rw [hsame.1, hsame.2] at hfirst
        cases hm : b.isMutable <;> simp_all

theorem stmtRun_ret {stmt : ReturnStmt} {stmt' : Stmt}
    (hslots : ∀ c ∈ (Stmt.ret stmt).slots, c ∈ body.stmts.flatMap Stmt.slots)
    (hrun : (analyseStmt (.ret stmt)).runIn env s = (.ok stmt', s')) (hclean : s.CleanTo s') :
    StmtRun env s (.ret stmt) stmt' s' := by
  rw [runIn_analyseStmt_ret] at hrun
  obtain ⟨rfl, rfl⟩ : Stmt.ret stmt = stmt' ∧ _ = s' := by simpa using hrun
  unfold analyseReturn at hclean ⊢
  rw [runIn_bind, runIn_record] at hclean ⊢
  dsimp only at hclean ⊢
  rw [runIn_bind, runIn_read] at hclean ⊢
  dsimp only at hclean ⊢
  cases hvalue : stmt.value? with
  | some value =>
      rw [hvalue] at hclean
      obtain ⟨u, s₁, hvisit, hok⟩ := exists_expectType_of_clean
        (s := { s with path := s.path.record .returned }) hb h
        (hslots value (by simp [Stmt.slots, hvalue])) hclean
      dsimp only
      rw [hok]
      exact .retValue hvalue hvisit
  | none =>
      rw [hvalue] at hclean
      dsimp only at hclean ⊢
      split
      next hne =>
        rw [if_pos hne] at hclean
        exact absurd hclean (not_cleanTo_withReport (List.prefix_refl _) rfl)
      next heq => exact .retNothing hvalue (by simpa using heq)

theorem stmtRun_of_clean {stmt stmt' : Stmt}
    (hslots : ∀ c ∈ stmt.slots, c ∈ body.stmts.flatMap Stmt.slots)
    (hrun : (analyseStmt stmt).runIn env s = (.ok stmt', s')) (hclean : s.CleanTo s') :
    StmtRun env s stmt stmt' s' := by
  cases stmt with
  | letStmt stmt => exact stmtRun_let hb h hslots hrun hclean
  | assign stmt => exact stmtRun_assign hb h (hslots _ (List.mem_singleton_self _)) hrun hclean
  | expr slot =>
      rw [runIn_analyseStmt_expr] at hrun
      obtain ⟨rfl, rfl⟩ : Stmt.expr slot = stmt' ∧ _ = s' := by simpa using hrun
      obtain ⟨⟨⟩, hok⟩ := exists_ok_of_clean
        (walksFrom_analyseExpr hb h (hslots _ (List.mem_singleton_self _)) none).discard hclean
      obtain ⟨t, hvisit⟩ := runIn_discard_ok.mp hok
      exact .expr hvisit
  | ret stmt => exact stmtRun_ret hb h hslots hrun hclean

end Statements

/-! ### Sequences of statements -/

/--
Statements that are analysed one after the other without errors.  Each finds its
expressions as they were in `a₀`, and those after it leave them alone.
-/
inductive StmtsRun (env : Environment) (a₀ : Arena) :
    AnalysisState → List Stmt → List Stmt → AnalysisState → Prop where
  | nil (s : AnalysisState) : StmtsRun env a₀ s [] [] s
  | cons {s s₁ s' : AnalysisState} {stmt stmt' : Stmt} {stmts stmts' : List Stmt}
      (run : StmtRun env s stmt stmt' s₁) (slots_eq : stmt'.slots = stmt.slots)
      (untouched : ∀ c ∈ stmt.slots, a₀.Untouched s.body.arena c)
      (edits : Arena.Edits (fun x => ∃ c ∈ stmt.slots, a₀.Reaches c x) s.body.arena s₁.body.arena)
      (apart : ∀ c ∈ stmt.slots, ∀ x, (∃ c' ∈ stmts.flatMap Stmt.slots, a₀.Reaches c' x) →
        ¬ a₀.Reaches c x)
      (rest : StmtsRun env a₀ s₁ stmts stmts' s') :
      StmtsRun env a₀ s (stmt :: stmts) (stmt' :: stmts') s'

namespace StmtsRun

variable {a₀ : Arena} {stmts stmts' : List Stmt}

theorem slots_eq (h : StmtsRun env a₀ s stmts stmts' s') :
    stmts'.flatMap Stmt.slots = stmts.flatMap Stmt.slots := by
  induction h with
  | nil => rfl
  | cons _ slots_eq _ _ _ _ ih => rw [List.flatMap_cons, List.flatMap_cons, slots_eq, ih]

/-- Statements change nothing but their own expressions. -/
theorem edits (h : StmtsRun env a₀ s stmts stmts' s') :
    Arena.Edits (fun x => ∃ c ∈ stmts.flatMap Stmt.slots, a₀.Reaches c x)
      s.body.arena s'.body.arena := by
  induction h with
  | nil => exact .refl
  | cons _ _ _ edits _ _ ih =>
      refine (edits.mono ?_).trans (ih.mono ?_)
      · exact fun x ⟨c, hc, hx⟩ => ⟨c, by simp [hc], hx⟩
      · exact fun x ⟨c, hc, hx⟩ => ⟨c, by rw [List.flatMap_cons]; exact List.mem_append_right _ hc, hx⟩

end StmtsRun

theorem stmtsRun_of_clean (hb : body.IsFresh) {stmts stmts' : List Stmt}
    (h : s.body.arena.HoldsNodesOf body.arena)
    (hslots : ∀ c ∈ stmts.flatMap Stmt.slots, c ∈ body.stmts.flatMap Stmt.slots)
    (hnodup : (stmts.flatMap Stmt.slots).Nodup)
    (hu : ∀ c ∈ stmts.flatMap Stmt.slots, body.arena.Untouched s.body.arena c)
    (hrun : (stmts.mapM analyseStmt).runIn env s = (.ok stmts', s')) (hclean : s.CleanTo s') :
    StmtsRun env body.arena s stmts stmts' s' := by
  have hf := hb.isForest
  induction stmts generalizing s stmts' with
  | nil =>
      obtain ⟨rfl, rfl⟩ : [] = stmts' ∧ s = s' := by simpa using hrun
      exact .nil s
  | cons stmt stmts ih =>
      rw [List.mapM_cons] at hrun
      obtain ⟨stmt', s₁, hstmt, htail⟩ := runIn_bind_ok.mp hrun
      obtain ⟨rest', s₂, hrest, hreturn⟩ := runIn_bind_ok.mp htail
      obtain ⟨rfl, rfl⟩ : stmt' :: rest' = stmts' ∧ s₂ = s' := by simpa using hreturn
      rw [List.flatMap_cons] at hslots hnodup hu
      obtain ⟨-, hnodupRest, hdisjoint⟩ := List.nodup_append.mp hnodup
      have hslotsStmt (c : Slot) (hc : c ∈ stmt.slots) := hslots c (List.mem_append_left _ hc)
      have hslotsRest (c : Slot) (hc : c ∈ stmts.flatMap Stmt.slots) :=
        hslots c (List.mem_append_right _ hc)
      have hWstmt := Arena.isRegion_reaches_any hb.inRange.arena
        fun c hc => hf.roots_lt c (hslotsStmt c hc)
      have hWrest := Arena.isRegion_reaches_any hb.inRange.arena
        fun c hc => hf.roots_lt c (hslotsRest c hc)
      have hapart (c c' : Slot) (hc : c ∈ stmt.slots) (hc' : c' ∈ stmts.flatMap Stmt.slots) (x : Slot)
          (hx : body.arena.Reaches c x) : ¬ body.arena.Reaches c' x := fun hx' =>
        hdisjoint c hc c' hc'
          (hf.eq_of_reaches (.root (hslotsStmt c hc)) (.root (hslotsRest c' hc')) hx hx')
      have hkeepsStmt : KeepsNodes _ _ env (analyseStmt stmt) :=
        keepsNodes_analyseStmt hWstmt stmt fun c hc => ⟨c, hc, .refl _ c⟩
      have hkeeps₁ := hkeepsStmt s h
      rw [hstmt] at hkeeps₁
      have hholds₁ := h.edits hkeeps₁.arena hWstmt.lt
      have hkeepsRest : KeepsNodes _ _ env (stmts.mapM analyseStmt) :=
        .mapM hWrest.lt fun stmt hmem => keepsNodes_analyseStmt hWrest stmt fun c hc =>
          ⟨c, List.mem_flatMap.mpr ⟨stmt, hmem, hc⟩, .refl _ c⟩
      have hkeeps₂ := hkeepsRest s₁ hholds₁
      rw [hrest] at hkeeps₂
      obtain ⟨hclean₁, hclean₂⟩ := hclean.of_isPrefix hkeeps₁.reports hkeeps₂.reports
      have heq : stmt'.slots = stmt.slots := by
        rw [← Stmt.slots_bare, bare_eq_of_runIn_analyseStmt hstmt, Stmt.slots_bare]
      refine .cons (stmtRun_of_clean hb h hslotsStmt hstmt hclean₁) heq
        (fun c hc => hu c (List.mem_append_left _ hc)) hkeeps₁.arena
        (fun c hc x ⟨c', hc', hx'⟩ hx => hapart c c' hc hc' x hx hx')
        (ih hholds₁ hslotsRest hnodupRest (fun c hc x hx => ?_) hrest hclean₂)
      rw [← hu c (List.mem_append_right _ hc) x hx]
      refine hkeeps₁.arena.get_of_not (fun y hy => Nat.lt_of_lt_of_le (hWstmt.lt y hy) h.size_le)
        (Nat.lt_of_lt_of_le (hWrest.lt x ⟨c, hc, hx⟩) h.size_le) ?_
      rintro ⟨c', hc', hx'⟩
      exact hapart c' c hc' hc x hx' hx

end Analysis

/-! ### Whole bodies -/

/-- Whether nothing but warnings is reported while the body of a function is analysed. -/
def Package.AnalysesCleanly (p : Package) (warnDeprecated : Bool) (reports : List Report)
    (definition : Definition) : Prop :=
  Report.hasErrors
    ((p.analyseDefinition warnDeprecated reports definition).2.drop reports.length) = false

instance (p : Package) (warnDeprecated : Bool) (reports : List Report) (definition : Definition) :
    Decidable (p.AnalysesCleanly warnDeprecated reports definition) :=
  inferInstanceAs (Decidable (_ = _))

/--
A fresh body that is analysed without errors is a run of its statements, after which no
immutable binding is left without a value.
-/
theorem Package.AnalysesCleanly.exists_stmtsRun_initialized {p : Package} {warnDeprecated : Bool}
    {reports : List Report} {definition : Definition} (hb : definition.body.IsFresh)
    (hclean : p.AnalysesCleanly warnDeprecated reports definition) :
    let env : Environment :=
      { package := p, function := p.signature definition.function, warnDeprecated }
    let s := AnalysisState.start env.function definition.body reports
    let after := (p.analyseDefinition warnDeprecated reports definition).1.body
    ∃ s', StmtsRun env definition.body.arena s definition.body.stmts after.stmts s' ∧
      s'.body.arena = after.arena ∧ s'.uninitialized = [] := by
  intro env s after
  obtain ⟨stmts, s₁, new, hrun, hbody, hmissing⟩ := exists_runIn_analyseBody env s
  rw [show s.body.stmts = definition.body.stmts from rfl] at hrun
  have hroots := Arena.isRegion_reaches_any hb.inRange.arena hb.isForest.roots_lt
  have hkeeps : KeepsNodes _ _ env (definition.body.stmts.mapM analyseStmt) :=
    .mapM hroots.lt fun stmt hmem => keepsNodes_analyseStmt hroots stmt fun c hc =>
      ⟨c, List.mem_flatMap.mpr ⟨stmt, hmem, hc⟩, .refl _ c⟩
  have hmapM := hkeeps s (.refl _)
  rw [hrun] at hmapM
  obtain ⟨hcleanTo, hcleanEnd⟩ : s.CleanTo s₁ ∧ s₁.CleanTo (analyseBody.runIn env s).2 := by
    refine (?_ : s.CleanTo (analyseBody.runIn env s).2).of_isPrefix hmapM.reports ?_
    · rw [hbody]
      refine ⟨hmapM.reports.trans (List.prefix_append _ _), ?_⟩
      rw [← hbody]
      exact hclean
    · rw [hbody]
      exact List.prefix_append _ _
  have hafter : after = (analyseBody.runIn env s).2.body := rfl
  rw [hbody] at hafter hcleanEnd
  refine ⟨s₁, ?_, by rw [hafter], List.eq_nil_iff_forall_not_mem.mpr fun b hb => ?_⟩
  · rw [hafter]
    exact stmtsRun_of_clean hb (.refl _) (fun c hc => hc) hb.isForest.roots_nodup
      (fun c _ x _ => rfl) hrun hcleanTo
  · have hwarning := AnalysisState.hasErrors_eq_false_iff.mp hcleanEnd.2 _ (by
      rw [List.drop_left]
      exact hmissing b hb)
    cases hwarning

theorem Package.AnalysesCleanly.exists_stmtsRun {p : Package} {warnDeprecated : Bool}
    {reports : List Report} {definition : Definition} (hb : definition.body.IsFresh)
    (hclean : p.AnalysesCleanly warnDeprecated reports definition) :
    let env : Environment :=
      { package := p, function := p.signature definition.function, warnDeprecated }
    let s := AnalysisState.start env.function definition.body reports
    let after := (p.analyseDefinition warnDeprecated reports definition).1.body
    ∃ s', StmtsRun env definition.body.arena s definition.body.stmts after.stmts s' ∧
      s'.body.arena = after.arena :=
  have ⟨s', hrun, harena, _⟩ := hclean.exists_stmtsRun_initialized hb
  ⟨s', hrun, harena⟩

end Boxlang
