import Boxlang.Proofs.Analysis.Clean
import Boxlang.Proofs.Elaboration.Statement

/-!
# Bodies analysed without errors

Where nothing but warnings is reported, every step of the analysis succeeded, so the
statements are elaborated (`StmtsOk`), one after the other.  Later statements leave
the expressions of earlier ones alone because they share no nodes.
-/

namespace Boxlang

open Conversion Analysis

namespace Analysis

open AnalysisState

variable {env : Environment} {body : Body} {s s' : AnalysisState} {L : Locals}

structure StmtStep (env : Environment) (a₀ : Arena) (L : Locals) (stmt : Stmt)
    (L' : Locals) (s' : AnalysisState) : Prop where
  ok : StmtOk env.package env.function.ret s'.body.arena L stmt L'
  between : s'.Between a₀ L'
  settled : ∀ c ∈ stmt.slots, Settled env.package a₀ L.context s'.body.arena c

section Statements

variable (henv : env.ErrorFree) (hb : body.IsFresh) (h : s.Between body.arena L)
include henv hb h

theorem settled_of_expectType {slot : Slot} {t u : Ty} (hslot : slot ∈ body.stmts.flatMap Stmt.slots)
    (hu : body.arena.Untouched s.body.arena slot) (ht : t.mentionsError = false)
    (hrun : (expectType analyseExpr t slot).runIn env s = (.ok u, s')) :
    s'.Between body.arena L ∧ Settled env.package body.arena L.context s'.body.arena slot ∧
      Alike env.declarations (s'.body.arena.typeAt slot) t := by
  obtain ⟨ha, hmet⟩ := (visitSpec_analyseExpr henv hb hslot).expect h.valid
    (hb.isForest.roots_lt slot hslot) hu ht hrun
  refine ⟨h.progress ha.progress ha.valid, h.readable_eq ▸ ha.settled, ?_⟩
  rw [ha.typeAt_eq]
  exact hmet.alike rfl

variable (env) in
omit henv hb in
/-- A binding that was given a value of its type, or none. -/
theorem StmtStep.declaring (stmt : LetStmt) {t : Ty} (hte : t.mentionsError = false)
    (hinit : ∀ init, stmt.init? = some init →
      Settled env.package body.arena L.context s.body.arena init ∧
        env.declarations.llvmType (s.body.arena.typeAt init) = env.declarations.llvmType t) :
    ∃ L', StmtStep env body.arena L
      (.letStmt { stmt with id? := some s.scope.count, resolved? := some t }) L'
      (s.declaring stmt t stmt.init?.isNone) := by
  refine ⟨_, ?_, h.declaring stmt hte _, fun c hc => ?_⟩
  · rcases Option.eq_none_or_eq_some stmt.init? with hi | ⟨init, hi⟩
    · rw [show stmt.init?.isNone = true by rw [hi]; rfl]
      exact .letDeferred hi rfl rfl (h.not_declared (Nat.le_refl _)) hte
    · obtain ⟨hsettled, htype⟩ := hinit init hi
      rw [show stmt.init?.isNone = false by rw [hi]; rfl, body_declaring]
      exact .letInit hi rfl rfl (h.not_declared (Nat.le_refl _)) hte hsettled.elaborated htype
  · rw [body_declaring]
    exact (hinit c (by simpa [Stmt.slots] using hc)).1

/-- A statement of a fresh body that was analysed without errors. -/
theorem exists_stmtStep {stmt stmt' : Stmt}
    (hslots : ∀ c ∈ stmt.slots, c ∈ body.stmts.flatMap Stmt.slots)
    (hu : ∀ c ∈ stmt.slots, body.arena.Untouched s.body.arena c)
    (hrun : StmtRun env s stmt stmt' s') : ∃ L', StmtStep env body.arena L stmt' L' s' := by
  cases hrun with
  | @letDeferred stmt written t htype hinit hres =>
      have hstep := StmtStep.declaring env h stmt
        (Signature.mentionsError_resolve _ _ written t hres) (by simp [hinit])
      rwa [show stmt.init?.isNone = true by rw [hinit]; rfl] at hstep
  | @letTyped s₁ stmt written init t u htype hinit hres hvisit =>
      have hmem : init ∈ (Stmt.letStmt stmt).slots := by simp [Stmt.slots, hinit]
      have hte := Signature.mentionsError_resolve _ _ written t hres
      obtain ⟨hbetween, hsettled, hlike⟩ := settled_of_expectType henv hb h (hslots init hmem)
        (hu init hmem) hte hvisit
      have hstep := StmtStep.declaring env hbetween stmt hte fun init' hinit' => by
        obtain rfl := Option.some.inj (hinit.symm.trans hinit')
        exact ⟨hsettled, hlike.llvmType_eq⟩
      rwa [show stmt.init?.isNone = false by rw [hinit]; rfl] at hstep
  | @letInferred s₁ s₂ stmt init t u htype hinit hvisit hcomply =>
      have hmem : init ∈ (Stmt.letStmt stmt).slots := by simp [Stmt.slots, hinit]
      obtain ⟨ha, hplain⟩ := (visitSpec_analyseExpr henv hb (hslots init hmem)).analysed h.valid
        (hu init hmem) (by simp) hvisit
      obtain ⟨ha', hmet⟩ := runIn_comply_analysed ha (hb.isForest.roots_lt init (hslots init hmem))
        hplain (Declarations.widens_of_erased_eq (Ty.erased_erased _).symm)
        (by simpa using ha.mentionsError_eq) hcomply
      have hstep := StmtStep.declaring env (h.progress ha'.progress ha'.valid) stmt
        hmet.mentionsError_eq fun init' hinit' => by
          obtain rfl := Option.some.inj (hinit.symm.trans hinit')
          rw [← h.readable_eq, ha'.typeAt_eq]
          exact ⟨ha'.settled, rfl⟩
      rwa [show stmt.init?.isNone = false by rw [hinit]; rfl] at hstep
  | @assign s₁ stmt b t hfound hfirst hvisit =>
      have hmem : stmt.value ∈ (Stmt.assign stmt).slots := List.mem_singleton_self _
      obtain ⟨hL, hscope⟩ := h.of_resolve hfound
      rw [hscope] at hvisit
      obtain ⟨hbetween, hsettled, hlike⟩ := settled_of_expectType henv hb h (hslots _ hmem) (hu _ hmem)
        (h.valid.mentionsError_eq _ _ (Scope.binds_of_resolve hfound)) hvisit
      refine ⟨_, .assign rfl hL ?_ hsettled.elaborated hlike, hbetween.initializing hL, ?_⟩
      · cases hm : b.isMutable <;> cases hi : s.isInitialized b.id <;> simp_all
      · simpa [Stmt.slots] using hsettled
  | @expr _ slot t hvisit =>
      have hmem : slot ∈ (Stmt.expr slot).slots := List.mem_singleton_self _
      obtain ⟨ha, -⟩ := (visitSpec_analyseExpr henv hb (hslots _ hmem)).analysed h.valid (hu _ hmem)
        (by simp) hvisit
      have hsettled := ha.settled
      rw [h.readable_eq] at hsettled
      exact ⟨L, .expr hsettled.elaborated, h.progress ha.progress ha.valid,
        by simpa [Stmt.slots] using hsettled⟩
  | @retValue _ stmt value t hvalue hvisit =>
      have hmem : value ∈ (Stmt.ret stmt).slots := by simp [Stmt.slots, hvalue]
      obtain ⟨hbetween, hsettled, hlike⟩ := settled_of_expectType henv hb
        (h.recording (i := .returned) (by simp)) (hslots value hmem) (hu value hmem)
        henv.function.ret hvisit
      exact ⟨L, .retValue hvalue hsettled.elaborated hlike, hbetween,
        by simpa [Stmt.slots, hvalue] using hsettled⟩
  | @retNothing stmt hvalue hret =>
      exact ⟨L, .retNothing hvalue hret, h.recording (by simp), by simp [Stmt.slots, hvalue]⟩

end Statements

/-! ### Sequences of statements -/

theorem stmtsOk_of_run (henv : env.ErrorFree) (hb : body.IsFresh) {stmts stmts' : List Stmt}
    (h : s.Between body.arena L)
    (hslots : ∀ c ∈ stmts.flatMap Stmt.slots, c ∈ body.stmts.flatMap Stmt.slots)
    (hrun : StmtsRun env body.arena s stmts stmts' s') :
    StmtsOk env.package env.function.ret s'.body.arena L stmts' ∧
      (∃ L', s'.Between body.arena L') ∧
      ∀ c ∈ stmts.flatMap Stmt.slots, ∃ Γ, Settled env.package body.arena Γ s'.body.arena c := by
  induction hrun generalizing L with
  | nil s => exact ⟨.nil L, ⟨L, h⟩, by simp⟩
  | @cons s s₁ s' stmt stmt' stmts stmts' run slots_eq untouched _ apart rest ih =>
      rw [List.flatMap_cons] at hslots
      have hslotsRest (c : Slot) (hc : c ∈ stmts.flatMap Stmt.slots) :=
        hslots c (List.mem_append_right _ hc)
      obtain ⟨L₁, hstep⟩ := exists_stmtStep henv hb h
        (fun c hc => hslots c (List.mem_append_left _ hc)) untouched run
      obtain ⟨hok, hbetween, hsettled⟩ := ih hstep.between hslotsRest
      have hrest := (Arena.isRegion_reaches_any hb.inRange.arena
        fun c hc => hb.isForest.roots_lt c (hslotsRest c hc)).lt
      -- What comes later leaves the expressions of the first statement alone.
      have hkeep (c : Slot) (hc : c ∈ stmt.slots) :=
        (hstep.settled c (slots_eq ▸ hc)).get_eq_of_edits rest.edits hrest
          hstep.between.valid.edits.size_le (apart c hc)
      refine ⟨.cons (hstep.ok.congr fun c hc => hkeep c (slots_eq ▸ hc)) hok, hbetween,
        fun c hc => ?_⟩
      rw [List.flatMap_cons] at hc
      rcases List.mem_append.mp hc with hc | hc
      · exact ⟨_, (hstep.settled c (slots_eq ▸ hc)).congr (hkeep c hc)⟩
      · exact hsettled c hc

/-! ### Whole bodies -/

theorem between_start {f : Signature} (hf : f.ErrorFree) (body : Body) (reports : List Report) :
    (AnalysisState.start f body reports).Between body.arena (.ofSignature f) := by
  let names := f.params.map fun p => (p.name, p.type)
  have hscope : (AnalysisState.start f body reports).scope =
      { innermost := (Scope.paramFrame 0 names).reverse, count := names.length } := by
    simp [AnalysisState.start, Scope.ofSignature_eq, Scope.declareAll_eq, names]
  have hids : Scope.idsOf (AnalysisState.start f body reports).scope.frames =
      (List.range' 0 names.length).reverse := by
    rw [List.length_map]
    exact Scope.idsOf_ofSignature f
  have hbinds (id : VariableId) (t : Ty)
      (h : Scope.Binds (AnalysisState.start f body reports).scope.frames id t) :
      (id, t) ∈ (List.range' 0 names.length).zip (names.map (·.2)) := by
    rw [hscope, Scope.frames] at h
    exact Scope.binds_paramFrame.mp ((Scope.binds_reverse _).mp h)
  refine ⟨⟨.refl, ?_, ?_, ?_, ?_, ?_, ?_, ?_⟩, by rw [hscope], by rw [hscope], ?_, ?_⟩
  · rw [hids]
    exact List.nodup_reverse.mpr List.nodup_range'
  · intro id hid
    rw [hids] at hid
    rw [hscope]
    simpa using (List.mem_range'_1.mp (List.mem_reverse.mp hid)).2
  · intro b hb
    cases hb
  · intro id hid
    cases hid
  · intro c hc
    rw [hscope] at hc
    cases hc
  · intro id t h
    obtain ⟨q, hq, rfl⟩ := List.mem_map.mp (List.of_mem_zip (hbinds id t h)).2
    obtain ⟨param, hparam, rfl⟩ := List.mem_map.mp hq
    exact hf.params param hparam
  · intro x hx
    rw [show (AnalysisState.start f body reports).body = body from rfl,
      Arena.get_of_size_le _ hx]
    rintro ⟨_, _, hk⟩
    cases hk
  · intro entry hentry
    rw [hscope, List.mem_reverse] at hentry
    obtain ⟨⟨q, i⟩, hq, rfl⟩ := List.mem_map.mp hentry
    have hget : names[i]? = some q := List.mem_zipIdx_iff_getElem?.mp hq
    rw [List.getElem?_map] at hget
    obtain ⟨param, hparam, rfl⟩ := Option.map_eq_some_iff.mp hget
    simp [Locals.ofSignature, hparam, isInitialized, isDeferred, AnalysisState.start]
  · intro id v hid
    obtain ⟨param, hparam, -⟩ := Option.map_eq_some_iff.mp hid
    have hget : names[id]? = some (param.name, param.type) := by simp [names, hparam]
    rw [hscope]
    refine ⟨(param.name, { id, type := param.type, isMutable := false }), ?_, rfl⟩
    refine List.mem_reverse.mpr (List.mem_map.mpr ⟨((param.name, param.type), id), ?_, rfl⟩)
    exact List.mem_zipIdx_iff_getElem?.mpr hget

end Analysis

/-- The body of a function of signature `f` before and after it was analysed without errors. -/
structure ElaboratedFrom (p : Package) (f : Signature) (before after : Body) : Prop where
  edits : Arena.Edits (fun x => ∃ c ∈ before.stmts.flatMap Stmt.slots, before.arena.Reaches c x)
    before.arena after.arena
  stmts : StmtsOk p f.ret after.arena (.ofSignature f) after.stmts
  slots_eq : after.stmts.flatMap Stmt.slots = before.stmts.flatMap Stmt.slots
  settled : ∀ c ∈ after.stmts.flatMap Stmt.slots, ∃ Γ, Settled p before.arena Γ after.arena c
  plain : ∀ x, before.arena.size ≤ x → ¬ (after.arena.get x).IsConversion

theorem elaboratedFrom_analyseDefinition {p : Package} (hp : p.ErrorFree) (warnDeprecated : Bool)
    (reports : List Report) {definition : Definition}
    (hf : definition.function < p.functions.length) (hb : definition.body.IsFresh)
    (hclean : p.AnalysesCleanly warnDeprecated reports definition) :
    ElaboratedFrom p (p.signature definition.function) definition.body
      (p.analyseDefinition warnDeprecated reports definition).1.body := by
  let env : Environment :=
    { package := p, function := p.signature definition.function, warnDeprecated }
  let s := AnalysisState.start env.function definition.body reports
  have henv : env.ErrorFree := ⟨hp, hp.signature hf⟩
  obtain ⟨s', hrun, harena⟩ := hclean.exists_stmtsRun hb
  obtain ⟨hok, ⟨L', hbetween⟩, hsettled⟩ := Analysis.stmtsOk_of_run henv hb
    (Analysis.between_start henv.function definition.body reports) (fun c hc => hc) hrun
  rw [harena] at hok hsettled
  have hslots := hrun.slots_eq
  refine ⟨?_, hok, hslots, hslots ▸ hsettled, ?_⟩
  · rw [← harena]
    exact hrun.edits
  · rw [← harena]
    exact hbetween.valid.plain

end Boxlang
