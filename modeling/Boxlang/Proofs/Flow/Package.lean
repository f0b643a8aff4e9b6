import Boxlang.Proofs.Emit.Package
import Boxlang.Proofs.Flow.Discipline
import Boxlang.Proofs.Invariants.Nothing

/-!
# Code for packages is valid

In a package without the error type, where nothing is written only as the result of
functions and callables, no callable takes a parameter of type nothing.  All functions
that are generated for accepted bodies are valid, with those of closures and adapters.
-/

namespace Boxlang

open Emit Llvm

/-! ### Parameters of callables -/

theorem Ty.IsOfValues.isVoid_eq {t : Ty} (h : t.IsOfValues) (d : Declarations) :
    (d.llvmType t).isVoid = false := by
  rw [← Bool.not_eq_true, Declarations.isVoid_llvmType_iff h.mentionsError_eq]
  rintro rfl
  cases h.onlyReturns

theorem Ty.IsOfResults.takesValues {t : Ty} (h : t.IsOfResults) (d : Declarations) :
    d.TakesValues t := by
  intro params ret hu u hmem
  exact ((Ty.isOfValues_callable.mp (h.of_unboxed hu (by simp))).1 u hmem).isVoid_eq d

theorem Conversion.IsSound.takesValues {d : Declarations} {op : Conversion} {source target : Ty}
    (h : op.IsSound d source target) (hs : source.IsOfResults) (ht : target.IsOfResults) :
    op.TakesValues d source target := by
  unfold IsSound at h
  induction h with
  | step hop _ => exact .step hop (ht.takesValues d)
  | @adapt source target ps ps' r r' args ret _ hsource htarget hlen hargs _ _ _ _ ihargs ihret =>
    obtain ⟨hps, hr⟩ := Ty.isOfValues_callable.mp (hs.of_unboxed hsource (by simp))
    obtain ⟨hps', hr'⟩ := Ty.isOfValues_callable.mp (ht.of_unboxed htarget (by simp))
    refine .adapt (ht.takesValues d) hsource htarget hlen hargs (fun _ _ _ => trivial)
      (fun e he op hop => ?_) (fun _ => trivial) fun op hop => ihret op hop hr hr'
    obtain ⟨hsource', htarget'⟩ := List.of_mem_zip (List.of_mem_zip he).2
    exact ihargs e he op hop (hps' _ hsource').isOfResults (hps _ htarget').isOfResults

theorem Elaborated.convertsValues {p : Package} {a : Arena} {Γ : Context} {slot : Slot}
    (h : Elaborated p a Γ slot)
    (htypes : ∀ slot t, (a.get slot).type? = some t → t.IsOfResults) :
    a.ConvertsValues p.declarations slot := by
  intro x inner op hx hk
  obtain ⟨Δ, hnode⟩ := h.nodeOk_of_reaches hx
  have hinner := hnode.operands inner (by simp [hk, ExprKind.operands])
  have hform := hnode.nodeOk.form
  rw [hk] at hform
  cases hform with
  | conversion _ hsound =>
    exact hsound.takesValues (htypes inner _ hinner.nodeOk.typed) (htypes x _ hnode.nodeOk.typed)

/-! ### Definitions -/

namespace Package

variable {p : Package} {m m' : ModuleState}

theorem allValid_of_emitDefinition {d : Definition} {f : FunctionDef}
    (h : ∀ stmt ∈ d.body.stmts, ∀ c ∈ stmt.slots, d.body.arena.ConvertsValues p.declarations c)
    (hm : ∀ made ∈ m.synthesized, made.IsValid)
    (hrun : (p.emitDefinition d).run.run m = (.ok f, m')) :
    f.IsValid ∧ ∀ made ∈ m'.synthesized, made.IsValid := by
  obtain ⟨w, hgen, rfl⟩ := exists_runIn_of_emitDefinition hrun
  have hmakes : (validDiscipline p).Makes (p.functionEnv d)
      (genFunction (p.signature d.function) d.body.stmts) :=
    makes_genBody (p := p) rfl False.elim fun stmt hstmt c hc =>
      generates_genExpr_valid (h stmt hstmt c hc)
  have hnoted : ∀ made ∈ ((noteDefined (p.signature d.function).qualifiedName).run m).2.synthesized,
      made.IsValid := hm
  obtain ⟨types, ghost, hcompletes⟩ := hmakes.exists_completes (.initial (p.functionEnv d).style)
    (fun types => Point.sound_initial _ types d.body.variableCount hnoted)
    (fun types => receives_initial _ types _) hgen
  exact ⟨hcompletes.isValid, hcompletes.closed.made⟩

theorem allValid_of_emitDefinitions {definitions : List Definition} {fs : List FunctionDef}
    (h : ∀ d ∈ definitions, ∀ stmt ∈ d.body.stmts, ∀ c ∈ stmt.slots,
      d.body.arena.ConvertsValues p.declarations c)
    (hm : ∀ made ∈ m.synthesized, made.IsValid)
    (hrun : (definitions.mapM p.emitDefinition).run.run m = (.ok fs, m')) :
    (∀ f ∈ fs, f.IsValid) ∧ ∀ made ∈ m'.synthesized, made.IsValid := by
  obtain ⟨hfs, hm'⟩ := forall₂_of_run_mapM (P := fun _ f => f.IsValid)
    (I := fun m => ∀ made ∈ m.synthesized, made.IsValid)
    (fun d hd _ _ _ => allValid_of_emitDefinition (h d hd)) hm hrun
  have hboth : List.Forall₂ (fun f _ => f.IsValid ∧ True) fs definitions :=
    hfs.flip.imp fun _ _ hf => ⟨hf, trivial⟩
  exact ⟨((List.forall₂_and_left _ _).mp hboth).1, hm'⟩

/--
The body of a function as analysis left it, without errors: it was fresh before, and
nothing was written in it only as a result.
-/
structure AcceptsResults (p : Package) (after : Definition) : Prop where
  exists_before : ∃ warnDeprecated reports before, before.function < p.functions.length ∧
    before.body.IsFresh ∧ before.body.OnlyReturnsNothing ∧
      p.AnalysesCleanly warnDeprecated reports before ∧
        after = (p.analyseDefinition warnDeprecated reports before).1

theorem AcceptsResults.accepts {d : Definition} (h : p.AcceptsResults d) : p.Accepts d := by
  obtain ⟨warnDeprecated, reports, before, hf, hb, -, hclean, heq⟩ := h.exists_before
  exact ⟨warnDeprecated, reports, before, hf, hb, hclean, heq⟩

theorem AcceptsResults.convertsValues {d : Definition} (h : p.AcceptsResults d)
    (hp : p.ErrorFree) (hn : p.OnlyReturnsNothing) :
    ∀ stmt ∈ d.body.stmts, ∀ c ∈ stmt.slots, d.body.arena.ConvertsValues p.declarations c := by
  intro stmt hstmt c hc
  obtain ⟨Γ, he⟩ := (h.accepts.stmtsOk hp).elaborated c (List.mem_flatMap.mpr ⟨stmt, hstmt, hc⟩)
  refine he.convertsValues fun slot t ht => ?_
  obtain ⟨warnDeprecated, reports, before, hf, hb, hbody, hclean, rfl⟩ := h.exists_before
  exact hclean.isOfResults hp hn hf hb hbody slot t ht

/--
In a package without the error type, where nothing is written only as a result, all
functions that are generated for accepted bodies are valid: those of the bodies, and
those of closures and adapters.
-/
theorem isValid_of_emitDefinitions (hp : p.ErrorFree) (hn : p.OnlyReturnsNothing)
    {definitions : List Definition} (h : ∀ d ∈ definitions, p.AcceptsResults d)
    {fs : List FunctionDef} (hrun : (definitions.mapM p.emitDefinition).run.run {} = (.ok fs, m')) :
    (∀ f ∈ fs, f.IsValid) ∧ ∀ made ∈ m'.synthesized, made.IsValid :=
  allValid_of_emitDefinitions (fun d hd => (h d hd).convertsValues hp hn) (by simp) hrun

def optionalPackage : Package where
  functions := [
    { name := "first", generics := [{ name := "T" }]
      params := [⟨"x", .optional (.localGeneric 0 "T")⟩], ret := .optional (.localGeneric 0 "T") },
    { name := "main", params := [⟨"a", .optional .int⟩], ret := .callable [] (.optional .int) }]

/-- The body `return { first(a) }`: the argument and the result of the call are converted. -/
def deferredFirst : Definition where
  function := 1
  body :=
    { arena := { nodes := #[
        { span := ⟨15, 1⟩, kind := .localRef ⟨"a", ⟨15, 1⟩⟩ none },
        { span := ⟨9, 8⟩, kind := .call ⟨"first", ⟨9, 5⟩⟩ { span := ⟨14, 3⟩, args := [0] } none },
        { span := ⟨7, 12⟩, kind := .closure {
            params := [], ret := .optional ⟨0, 4⟩ (.named ⟨1, 3⟩ "Int" []), body := 1 } }] }
      stmts := [.ret { span := ⟨0, 19⟩, value? := some 2 }] }

theorem errorFree_optionalPackage : optionalPackage.ErrorFree := by
  decide

theorem onlyReturnsNothing_optionalPackage : optionalPackage.OnlyReturnsNothing where
  declarations name decl t hmem hsuper := by
    obtain ⟨rfl, rfl⟩ : name = "String" ∧ decl = {} := by
      simpa [optionalPackage, Declarations.prelude] using hmem
    cases hsuper
  functions f hmem := by
    simp only [optionalPackage, List.mem_cons, List.not_mem_nil, or_false] at hmem
    rcases hmem with rfl | rfl <;> constructor <;>
      simp [Ty.isResult, Ty.isNothing, Ty.unboxed, Ty.onlyReturnsNothing, Ty.allOnlyReturnNothing]

theorem isFresh_deferredFirst : deferredFirst.body.IsFresh := by
  decide

theorem onlyReturnsNothing_deferredFirst : deferredFirst.body.OnlyReturnsNothing where
  types := by decide
  results := by decide
  stmts := by decide

theorem acceptsResults_deferredFirst :
    optionalPackage.AcceptsResults (optionalPackage.analyseDefinition true [] deferredFirst).1 :=
  ⟨true, [], deferredFirst, by decide, isFresh_deferredFirst, onlyReturnsNothing_deferredFirst,
    by decide +kernel, rfl⟩

theorem isValid_deferredFirst :
    let definitions := [(optionalPackage.analyseDefinition true [] deferredFirst).1]
    optionalPackage.ErrorFree ∧ optionalPackage.OnlyReturnsNothing ∧
      (∀ d ∈ definitions, optionalPackage.AcceptsResults d) ∧
      ∃ fs m', (definitions.mapM optionalPackage.emitDefinition).run.run {} = (.ok fs, m') ∧
        (∀ f ∈ fs, f.IsValid) ∧ ∀ made ∈ m'.synthesized, made.IsValid := by
  intro definitions
  have haccepts (d : Definition) (hd : d ∈ definitions) : optionalPackage.AcceptsResults d := by
    obtain rfl := List.mem_singleton.mp hd
    exact acceptsResults_deferredFirst
  refine ⟨errorFree_optionalPackage, onlyReturnsNothing_optionalPackage, haccepts, ?_⟩
  have hok : ((definitions.mapM optionalPackage.emitDefinition).run.run {}).1.isOk = true := by
    decide +kernel
  rcases hrun : (definitions.mapM optionalPackage.emitDefinition).run.run {} with ⟨e | fs, m'⟩
  · rw [hrun] at hok
    cases hok
  · exact ⟨fs, m', rfl, isValid_of_emitDefinitions errorFree_optionalPackage
      onlyReturnsNothing_optionalPackage haccepts hrun⟩

end Package

end Boxlang
