import Boxlang.Proofs.Emit.Package
import Boxlang.Proofs.Held.Discipline

/-!
# Code for packages is about what is held

The functions of accepted bodies, and those of closures and adapters, are about what is
held.  So void is no type of anything that they store, load, make room for or pass on, and
it occurs in these types only where a type is an optional of nothing, which nobody keeps a
program from writing (`Package.hasHeldTypes_of_emitDefinitions`).
-/

namespace Boxlang

open Llvm

/-! ### Definitions -/

namespace Package

open Emit

variable {p : Package} {m m' : ModuleState}

theorem hasHeldTypes_of_emitDefinition (hp : p.ErrorFree) {d : Definition} (hd : p.Accepts d)
    {f : FunctionDef} (hm : ∀ made ∈ m.synthesized, made.HasHeldTypes)
    (hrun : (p.emitDefinition d).run.run m = (.ok f, m')) :
    f.HasHeldTypes (p.signature d.function).owner? ∧
      ∀ made ∈ m'.synthesized, made.HasHeldTypes := by
  have hok := hd.stmtsOk hp
  have howner : ∀ t ∈ (p.signature d.function).owner?, t.mentionsError = false := by
    obtain ⟨warnDeprecated, reports, before, hf, -, -, rfl⟩ := hd.exists_before
    exact (hp.signature hf).owner
  rw [run_emitDefinition, functionStart,
    ← runIn_genBody_genChecked (p.functionEnv d) rfl (by exact hok)] at hrun
  obtain ⟨hf, rfl⟩ := Prod.mk.inj hrun
  have hmakes : (heldDiscipline p).Makes (p.functionEnv d)
      (genBody genChecked (p.signature d.function) d.body.stmts) := by
    have hp : (p.functionEnv d).package = p := rfl
    refine makes_genBody hp (fun _ => isHeld_styleOf howner) fun stmt hstmt c hc => ?_
    obtain ⟨Γ, he⟩ := hok.elaborated c (List.mem_flatMap.mpr ⟨stmt, hstmt, hc⟩)
    exact generates_genChecked_held he
  have hnoted : ∀ made ∈ ((noteDefined (p.signature d.function).qualifiedName).run m).2.synthesized,
      made.HasHeldTypes := hm
  obtain ⟨types, ghost, hcompletes⟩ := hmakes.exists_completes (fun _ => ())
    (fun _ => .start hnoted d.body.variableCount) (fun _ => trivial) (Prod.ext hf rfl)
  exact ⟨this?_styleOf (p.signature d.function) ▸ hcompletes.hasHeldTypes, hcompletes.closed.made⟩

theorem hasHeldTypes_of_emitDefinitions (hp : p.ErrorFree) {definitions : List Definition}
    (h : ∀ d ∈ definitions, p.Accepts d) {fs : List FunctionDef}
    (hm : ∀ made ∈ m.synthesized, made.HasHeldTypes)
    (hrun : (definitions.mapM p.emitDefinition).run.run m = (.ok fs, m')) :
    List.Forall₂ (fun d f => f.HasHeldTypes (p.signature d.function).owner?) definitions fs ∧
      ∀ made ∈ m'.synthesized, made.HasHeldTypes :=
  forall₂_of_run_mapM (I := fun m => ∀ made ∈ m.synthesized, made.HasHeldTypes)
    (fun d hd _ _ _ => hasHeldTypes_of_emitDefinition hp (h d hd)) hm hrun

/--
In a package without the error type, a written type has the LLVM type void exactly if it
is nothing, and has void inside exactly if it is an optional of nothing.  Accordingly the
functions that are generated for accepted bodies, and those of closures and adapters,
are about what is held.
-/
theorem voidOnlyOfNothing (hp : p.ErrorFree) :
    (∀ (f : Signature) (w : WrittenType) (t : Ty), f.resolve p.declarations w = .ok t →
      (p.declarations.llvmType t = .void ↔ t = .nothing) ∧
        ((p.declarations.llvmType t).HasVoidInside ↔ t = .optional .nothing)) ∧
    ∀ (definitions : List Definition) (fs : List FunctionDef) (m' : ModuleState),
      (∀ d ∈ definitions, p.Accepts d) →
      (definitions.mapM p.emitDefinition).run.run {} = (.ok fs, m') →
      List.Forall₂ (fun d f => f.HasHeldTypes (p.signature d.function).owner?) definitions fs ∧
        ∀ made ∈ m'.synthesized, made.HasHeldTypes := by
  constructor
  · intro f w t hw
    exact p.declarations.llvmType_void_iff (Signature.mentionsError_resolve f _ w t hw)
  · intro definitions fs m' h hrun
    exact hasHeldTypes_of_emitDefinitions hp h (by simp) hrun

def actPackage : Package where
  functions := [{ name := "act" }, { name := "main" }]

/-- The type `Nothing?`, as it is written. -/
def writtenOptionalNothing : WrittenType :=
  .optional ⟨11, 8⟩ (.named ⟨11, 7⟩ "Nothing" [])

/-- The body `let mut y: Nothing? = act()`. -/
def wrappedNothing : Definition where
  function := 1
  body :=
    { arena := { nodes := #[
        { span := ⟨22, 5⟩, kind := .call ⟨"act", ⟨22, 3⟩⟩ { span := ⟨25, 2⟩, args := [] } none }] }
      stmts := [
        .letStmt {
          span := ⟨0, 27⟩, name := ⟨"y", ⟨8, 1⟩⟩, isMutable := true
          type? := some writtenOptionalNothing, init? := some 0 }] }

theorem errorFree_actPackage : actPackage.ErrorFree := by
  decide

theorem isFresh_wrappedNothing : wrappedNothing.body.IsFresh := by
  decide

theorem resolve_writtenOptionalNothing :
    (actPackage.signature 1).resolve actPackage.declarations writtenOptionalNothing =
      .ok (.optional .nothing) := by
  rfl

/-- The result of the call is put beside a flag, and the optional has a place on the stack. -/
theorem code_wrappedNothing :
    (((actPackage.emitDefinition (actPackage.analyseDefinition true [] wrappedNothing).1).run.run
        {}).1.map FunctionDef.code).toOption = some [
      .callVoid (.global ⟨"act"⟩) [],
      .insertValue 0 ⟨.loneFlag, .undef⟩ ⟨.int 1, .bool true⟩ 0,
      .insertValue 1 ⟨.loneFlag, .register 0⟩ .void 1,
      .alloca 2 .loneFlag,
      .store ⟨.loneFlag, .register 1⟩ (.register 2)] := by
  decide +kernel

/-- The type of optionals of nothing is accepted and has void inside, and code is made of it. -/
theorem hasVoidInside_wrappedNothing :
    actPackage.ErrorFree ∧ wrappedNothing.function < actPackage.functions.length ∧
      wrappedNothing.body.IsFresh ∧ actPackage.AnalysesCleanly true [] wrappedNothing ∧
      (actPackage.signature 1).resolve actPackage.declarations writtenOptionalNothing =
        .ok (.optional .nothing) ∧
      (actPackage.declarations.llvmType (.optional .nothing)).HasVoidInside ∧
      let d := (actPackage.analyseDefinition true [] wrappedNothing).1
      ∃ f m', (actPackage.emitDefinition d).run.run {} = (.ok f, m') ∧
        .alloca 2 (actPackage.declarations.llvmType (.optional .nothing)) ∈ f.code ∧
        .insertValue 1 ⟨actPackage.declarations.llvmType (.optional .nothing), .register 0⟩ .void 1 ∈
          f.code := by
  refine ⟨errorFree_actPackage, by decide, isFresh_wrappedNothing, by decide +kernel,
    resolve_writtenOptionalNothing, ⟨nofun, rfl⟩, ?_⟩
  intro d
  have hcode := code_wrappedNothing
  rcases hrun : (actPackage.emitDefinition d).run.run {} with ⟨e | f, m'⟩
  · rw [hrun] at hcode
    cases hcode
  · rw [hrun] at hcode
    have hf : f.code = _ := Option.some.inj hcode
    exact ⟨f, m', rfl, by rw [hf]; decide, by rw [hf]; decide⟩

/-- Void occurs in the code for the body beside a flag only. -/
theorem hasHeldTypes_wrappedNothing :
    let definitions := [(actPackage.analyseDefinition true [] wrappedNothing).1]
    actPackage.ErrorFree ∧ (∀ d ∈ definitions, actPackage.Accepts d) ∧
      (actPackage.signature 1).resolve actPackage.declarations writtenOptionalNothing =
        .ok (.optional .nothing) ∧
      (actPackage.declarations.llvmType (.optional .nothing)).HasVoidInside ∧
      ∃ f m', (definitions.mapM actPackage.emitDefinition).run.run {} = (.ok [f], m') ∧
        f.HasHeldTypes none ∧ ∀ made ∈ m'.synthesized, made.HasHeldTypes := by
  intro definitions
  have haccepts (d : Definition) (hd : d ∈ definitions) : actPackage.Accepts d := by
    obtain rfl := List.mem_singleton.mp hd
    exact ⟨true, [], wrappedNothing, by decide, isFresh_wrappedNothing, by decide +kernel, rfl⟩
  obtain ⟨htypes, hcode⟩ := voidOnlyOfNothing errorFree_actPackage
  have hinside := (htypes _ _ _ resolve_writtenOptionalNothing).2.mpr rfl
  refine ⟨errorFree_actPackage, haccepts, resolve_writtenOptionalNothing, hinside, ?_⟩
  have hok : ((definitions.mapM actPackage.emitDefinition).run.run {}).1.isOk = true := by
    decide +kernel
  rcases hrun : (definitions.mapM actPackage.emitDefinition).run.run {} with ⟨e | fs, m'⟩
  · rw [hrun] at hok
    cases hok
  · obtain ⟨hfs, hmade⟩ := hcode definitions fs m' haccepts hrun
    obtain ⟨f, rest, hf, hnil, rfl⟩ := List.forall₂_cons_left_iff.mp hfs
    obtain rfl := List.forall₂_nil_left_iff.mp hnil
    exact ⟨f, m', rfl, hf, hmade⟩

end Package

end Boxlang
