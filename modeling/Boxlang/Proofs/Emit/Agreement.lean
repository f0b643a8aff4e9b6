import Boxlang.Proofs.Elaboration.Complete
import Boxlang.Proofs.Emit.Checked
import Boxlang.Proofs.Emit.Package

/-!
# Types and LLVM types agree

What the LLVM types in the code of an accepted body have to do with the types that
analysis gave its expressions (`Package.TypesAgree`).  The one place where they can
differ is a call of a function that belongs to a type without a name: it is found
like a free function and called without a receiver, but it takes one.
-/

namespace Boxlang

namespace Emit

open Llvm

variable {env : FunctionEnv} {w w' : World} {p : Package} {a : Arena} {Γ : Context}

theorem exists_runIn_of_bind {α β : Type} {step : Emit α} {next : α → Emit β} {b : β}
    (h : (step >>= next).runIn env w = (.ok b, w')) :
    ∃ x w₁, step.runIn env w = (.ok x, w₁) ∧ (next x).runIn env w₁ = (.ok b, w') := by
  rw [runIn_bind] at h
  rcases hstep : step.runIn env w with ⟨e | x, w₁⟩
  · rw [hstep] at h
    cases h
  · rw [hstep] at h
    exact ⟨x, w₁, rfl, h⟩

theorem params_eq_of_runIn_finished {ret : LType} {params : List Value} {definition : FunctionDef}
    (h : (finished ret params).runIn env w = (.ok definition, w')) : definition.params = params := by
  cases h
  rfl

theorem params_eq_of_runIn_genBody (env : FunctionEnv) {generate : Generate} {f : Signature} {stmts : List Stmt}
    {count : Nat} {m : ModuleState} {definition : FunctionDef} (hstyle : env.style = styleOf f)
    (h : (genBody generate f stmts).runIn env ⟨.start count, m⟩ = (.ok definition, w')) :
    definition.params.map (·.type) = (declarationOf env.package.declarations f).params := by
  obtain ⟨types, w₁, htypes, h⟩ := exists_runIn_of_bind h
  obtain ⟨declared, w₂, hdeclared, h⟩ := exists_runIn_of_bind h
  obtain ⟨_, w₃, -, h⟩ := exists_runIn_of_bind h
  obtain ⟨ret, w₄, -, h⟩ := exists_runIn_of_bind h
  obtain ⟨s, w₅, -, h⟩ := exists_runIn_of_bind h
  have hparams : definition.params = declared := by
    split at h
    next => exact params_eq_of_runIn_finished h
    next =>
      obtain ⟨_, w₆, -, h⟩ := exists_runIn_of_bind h
      exact params_eq_of_runIn_finished h
  obtain ⟨hext, rfl⟩ := (emits_numberedParams f (Nat.zero_le _)).post _ _ htypes
  rw [hparams]
  exact ((meets_declareParams hstyle hext).post _ _ hdeclared).1

/-- Values that are held like the parameters they are for have the same LLVM types. -/
theorem map_llvmType_eq {d : Declarations} {params : List Ty} {args : List Slot}
    (hlen : args.length = params.length)
    (h : ∀ q ∈ params.zip args, Conversion.Alike d (a.typeAt q.2) q.1) :
    (args.map fun c => d.llvmType (a.typeAt c)) = params.map d.llvmType := by
  induction args generalizing params with
  | nil =>
      obtain rfl := List.eq_nil_of_length_eq_zero hlen.symm
      rfl
  | cons c args ih =>
      obtain _ | ⟨param, params⟩ := params
      · cases hlen
      rw [List.zip_cons_cons, List.forall_mem_cons] at h
      exact congrArg₂ List.cons h.1.llvmType_eq (ih (Nat.succ.inj hlen) h.2)

end Emit

namespace Package

open Emit Llvm

theorem params_eq_of_emitDefinition {p : Package} {d : Definition} {m m' : ModuleState}
    {g : FunctionDef} (h : (p.emitDefinition d).run.run m = (.ok g, m')) :
    g.params.map (·.type) = (declarationOf p.declarations (p.signature d.function)).params := by
  obtain ⟨w, hrun, rfl⟩ := exists_runIn_of_emitDefinition h
  exact params_eq_of_runIn_genBody (p.functionEnv d) rfl hrun

def argumentTypes (p : Package) (a : Arena) (args : List Slot) : List LType :=
  (args.map fun c => p.declarations.llvmType (a.typeAt c)).filter (!·.isVoid)

/-- How the LLVM types of the code of an analysed body agree with the types that analysis gave. -/
structure TypesAgree (p : Package) (d : Definition) : Prop where
  /--
  Every value has the LLVM type of the type of its expression: generation that checks
  this for every value runs as generation that does not.
  -/
  value : ∀ m, (genBody genChecked (p.signature d.function) d.body.stmts).runIn (p.functionEnv d)
      (p.functionStart d m) =
    (genFunction (p.signature d.function) d.body.stmts).runIn (p.functionEnv d) (p.functionStart d m)
  /--
  The arguments of a call are those that its target declares, and has where it gets a
  body, after the receiver; so they are all that it declares exactly if it has no owner.
  -/
  call : ∀ root ∈ d.body.stmts.flatMap Stmt.slots, ∀ slot, d.body.arena.Reaches root slot →
    ∀ name arguments id, (d.body.arena.get slot).kind = .call name arguments (some id) →
      (declarationOf p.declarations (p.signature id)).params =
          ((p.signature id).owner?.map p.declarations.llvmType).toList ++
            p.argumentTypes d.body.arena arguments.args ∧
        (p.argumentTypes d.body.arena arguments.args =
            (declarationOf p.declarations (p.signature id)).params ↔
          (p.signature id).owner? = none) ∧
        ∀ other m g m', other.function = id → (p.emitDefinition other).run.run m = (.ok g, m') →
          g.params.map (·.type) = (declarationOf p.declarations (p.signature id)).params
  /-- The arguments of an invocation are those that its callable takes. -/
  invoke : ∀ root ∈ d.body.stmts.flatMap Stmt.slots, ∀ slot, d.body.arena.Reaches root slot →
    ∀ callee args, (d.body.arena.get slot).kind = .invoke callee args →
      ∃ params ret, (d.body.arena.typeAt callee).unboxed = .callable params ret ∧
        p.argumentTypes d.body.arena args = (params.map p.declarations.llvmType).filter (!·.isVoid)
  /--
  The function returns values of the LLVM type of its result, and stores in each stack
  slot values of the type of the slot.  So do the functions made for its closures and
  adapters.
  -/
  code : ∀ m g m', (p.emitDefinition d).run.run m = (.ok g, m') →
    g.ret = p.declarations.llvmType (p.signature d.function).ret ∧ g.WellTyped ∧
      Appends (Synthesized.IsMade p d.body.arena) m.synthesized m'.synthesized

section Accepted

variable {p : Package} {d : Definition} (hp : p.ErrorFree) (h : p.Accepts d)
include hp h

theorem Accepts.elaborated_of_reaches {root slot : Slot}
    (hroot : root ∈ d.body.stmts.flatMap Stmt.slots) (hreach : d.body.arena.Reaches root slot) :
    ∃ Γ, Elaborated p d.body.arena Γ slot := by
  obtain ⟨warnDeprecated, reports, before, hf, hb, hclean, rfl⟩ := h.exists_before
  have hexpr := elaboratedFrom_analyseDefinition hp warnDeprecated reports hf hb hclean
  exact hexpr.elaborated_of_reaches hroot hreach

/-- In accepted bodies types and LLVM types agree. -/
theorem typesAgree_of_accepts : p.TypesAgree d where
  value m := runIn_genBody_genChecked (p.functionEnv d) rfl (h.stmtsOk hp)
  call root hroot slot hreach name arguments id hk := by
    obtain ⟨Γ, hexpr⟩ := h.elaborated_of_reaches hp hroot hreach
    have hform := hexpr.nodeOk.form
    rw [hk] at hform
    have htypes : p.argumentTypes d.body.arena arguments.args =
        (((p.signature id).params.map (·.type)).map p.declarations.llvmType).filter (!·.isVoid) := by
      cases hform with
      | call _ hlen hargs _ =>
          refine congrArg _ (map_llvmType_eq (hlen.trans (List.length_map _).symm) ?_)
          rw [List.zip_map_left, List.forall_mem_map]
          exact hargs
    have hdeclared : (declarationOf p.declarations (p.signature id)).params =
        ((p.signature id).owner?.map p.declarations.llvmType).toList ++
          p.argumentTypes d.body.arena arguments.args := by
      rw [htypes, List.map_map]
      rfl
    refine ⟨hdeclared, ?_, ?_⟩
    · rw [hdeclared]
      simp
    · rintro other m g m' rfl hrun
      exact params_eq_of_emitDefinition hrun
  invoke root hroot slot hreach callee args hk := by
    obtain ⟨Γ, hexpr⟩ := h.elaborated_of_reaches hp hroot hreach
    have hform := hexpr.nodeOk.form
    rw [hk] at hform
    cases hform with
    | @invoke _ _ params ret hcallee hlen hargs =>
        exact ⟨params, _, hcallee, congrArg _ (map_llvmType_eq hlen hargs)⟩
  code m g m' hrun := by
    obtain ⟨w, hgen, rfl⟩ := exists_runIn_of_emitDefinition hrun
    exact (meets_emitDefinition hp h m).post g w hgen

end Accepted

theorem typesAgree_shownLiteral :
    showPackage.ErrorFree ∧ showPackage.Accepts (showPackage.analyseDefinition true [] shownLiteral).1 ∧
      showPackage.TypesAgree (showPackage.analyseDefinition true [] shownLiteral).1 :=
  ⟨errorFree_showPackage, accepts_shownLiteral,
    typesAgree_of_accepts errorFree_showPackage accepts_shownLiteral⟩

def twicePackage : Package where
  functions := [{ name := "twice", owner? := some .int }, { name := "main" }]

/-- The body `twice()`. -/
def calledTwice : Definition where
  function := 1
  body :=
    { arena := { nodes := #[
        { span := ⟨0, 1⟩, kind := .call ⟨"twice", ⟨0, 1⟩⟩ { span := ⟨0, 1⟩, args := [] } none }] }
      stmts := [.expr 0] }

theorem isFresh_calledTwice : calledTwice.body.IsFresh := by
  decide

/-- A function of integers is declared with a receiver, but called without one. -/
theorem emitDefinition_calledTwice :
    twicePackage.ErrorFree ∧ calledTwice.function < twicePackage.functions.length ∧
      calledTwice.body.IsFresh ∧ twicePackage.AnalysesCleanly true [] calledTwice ∧
      ∃ g m, (twicePackage.emitDefinition
          (twicePackage.analyseDefinition true [] calledTwice).1).run.run {} = (.ok g, m) ∧
        g.code = [.callVoid (.global ⟨"Int.twice"⟩) []] ∧
        m.callees = [{ symbol := ⟨"Int.twice"⟩, ret := .void, params := [.int 64] }] := by
  exact ⟨by decide, by decide, isFresh_calledTwice, by decide +kernel, _, _, rfl, rfl, rfl⟩

end Package

end Boxlang
