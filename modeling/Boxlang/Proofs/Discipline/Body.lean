import Boxlang.Proofs.Discipline.Expr
import Boxlang.Proofs.Emit.Body

/-!
# Code for bodies keeps to a discipline

The function of a body runs through its statements and ends where it returns, or at its
end.
-/

namespace Boxlang

namespace Emit

open Llvm

variable {p : Package} {D : Discipline p} {env : FunctionEnv} {params : List Operand}
  {pt : Point D.Ghost} {generate : Generate}

/-! ### Statements -/

/-- After a statement the function is running, or it has returned and its last block has ended. -/
structure Frame.Passed (F : Frame) (params : List Operand) (pt : Point F.Ghost) : Prop where
  running : pt.function.returned = false → F.Running params pt
  closed : pt.function.returned = true → F.Closed pt

theorem Frame.Running.passed {F : Frame} {pt : Point F.Ghost} (h : F.Running params pt) :
    F.Passed params pt where
  running _ := h
  closed hreturned := by
    rw [h.returned_eq] at hreturned
    cases hreturned

theorem Frame.Passed.of_closed {F : Frame} {pt : Point F.Ghost} (h : F.Closed pt)
    (hreturned : pt.function.returned = true) : F.Passed params pt where
  running hnot := by
    rw [hreturned] at hnot
    cases hnot
  closed _ := h

theorem runs_bindVariable (id : VariableId) {v : LocalVariable} (hv : D.Gives pt v.value) :
    D.Runs env params pt (bindVariable id v) fun _ => True := fun hpt =>
  have hrebind := hpt.rebind id hv
  .of_runIn (q := pt.rebind _) (runIn_modify _) ⟨hrebind.1, hrebind.2, trivial⟩

theorem keeps_alloca {type : LType} (htype : D.Typed → type.IsHeld) (owed : List Label) :
    D.Keeps env owed pt (define (.alloca · type)) fun o pt' => D.Has pt' o :=
  D.define (fun _ => ⟨by simp [Instr.uses], htype⟩) (fun _ => rfl) fun _ => not_false

theorem runs_declareDeferred (id : VariableId) (stmt : LetStmt) :
    D.Runs env params pt (declareDeferred id stmt) fun _ => True := by
  unfold declareDeferred
  split
  next =>
    split
    next => exact .of_keeps (.throw (Q := Frame.Whatever) _) fun _ _ _ => trivial
    next t _ =>
      refine .read (reads_llvmType t) fun type htype => ?_
      have hgiven : type.IsGiven := htype ▸ env.package.declarations.isGiven_llvmType t
      split
      next =>
        rw [pure_bind]
        exact runs_bindVariable id gives_void
      next hvoid =>
        refine .after (keeps_alloca (fun _ => hgiven.isHeld hvoid) []) fun room pt₁ _ hroom => ?_
        rw [pure_bind]
        exact runs_bindVariable id ⟨hroom, fun _ => hgiven⟩
  next => exact .pure trivial

section Statements

variable (hp : env.package = p)
include hp

theorem runs_genLet {stmt : LetStmt} (hgen : ∀ c ∈ stmt.init?, D.Generates p env.arena generate c) :
    D.Runs env params pt (genLet generate stmt) fun _ => True := by
  intro hpt
  unfold genLet
  refine .read (reads_resolved stmt.id? stmt.name) fun id _ => ?_
  split
  next => exact runs_declareDeferred id stmt hpt
  next init hinit =>
    refine Frame.Runs.after ((hgen init hinit).gives hp hpt.bound) (fun value pt₁ _ hvalue => ?_) hpt
    split
    next hslot =>
      rw [Bool.and_eq_true, Bool.not_eq_true'] at hslot
      have hheld := hvalue.isHeld (Bool.not_eq_true _ ▸ hslot.2)
      refine .after (keeps_alloca hheld []) fun room pt₂ h₂ hroom => ?_
      refine .after (keeps_store (h₂.has hvalue.has) hheld hroom) fun _ pt₃ h₃ _ => ?_
      exact runs_bindVariable id ⟨h₃.has hroom, hvalue.isGiven⟩
    next => exact runs_bindVariable id hvalue

theorem runs_genAssign {stmt : AssignStmt} (hgen : D.Generates p env.arena generate stmt.value) :
    D.Runs env params pt (genAssign generate stmt) fun _ => True := by
  intro hpt
  unfold genAssign
  refine (hgen.gives hp hpt.bound).reaches_bind hpt.sound fun value pt₁ hsound hext hvalue => ?_
  have hpt₁ := hpt.extends hext hsound
  have after {step : Emit Unit} (h : D.Runs env params pt₁ step fun _ => True) :
      Reaches env pt₁ step fun _ pt' => D.Running params pt' ∧ D.Continues pt pt' ∧ True :=
    (h hpt₁).mono fun _ _ hpt' => ⟨hpt'.1, D.trans hext.continues hpt'.2.1, trivial⟩
  refine .read (reads_resolved stmt.id? stmt.target) fun id _ => .get ?_
  split
  next => exact after (runs_bindVariable id hvalue)
  next v hv =>
    have hroom := (hpt₁.bound id v hv).has
    split
    next => exact .throw _
    next =>
      split
      next => exact after (.pure trivial)
      next hvoid =>
        exact after (.of_keeps (keeps_store hvalue.has (hvalue.isHeld hvoid) hroom) fun _ _ _ => trivial)

theorem reaches_genStmt {stmt : Stmt} (hpt : D.Running params pt)
    (hgen : ∀ c ∈ stmt.slots, D.Generates p env.arena generate c) :
    Reaches env pt (genStmt generate stmt) fun _ pt' => D.Passed params pt' ∧ D.Continues pt pt' := by
  have of_runs {step : Emit Unit} (h : D.Runs env params pt step fun _ => True) :
      Reaches env pt step fun _ pt' => D.Passed params pt' ∧ D.Continues pt pt' :=
    (h hpt).mono fun _ _ hpt' => ⟨hpt'.1.passed, hpt'.2.1⟩
  have of_return {pt₁ : Point D.Ghost} (hext : D.Extends pt pt₁) (hsound : D.Sound [] pt₁) {v : Value}
      (hv : D.Gives pt₁ v) :
      Reaches env pt₁ (emitReturn v) fun _ pt' => D.Passed params pt' ∧ D.Continues pt pt' := by
    refine (reaches_emitReturn (hpt.extends hext hsound) hv).mono fun _ pt' hpt' => ?_
    obtain ⟨hclosed, hcont, hreturned⟩ := hpt'
    exact ⟨.of_closed hclosed hreturned, D.trans hext.continues hcont⟩
  cases stmt with
  | letStmt stmt =>
    exact of_runs (runs_genLet hp fun c hc => hgen c (by simpa [Stmt.slots] using hc))
  | assign stmt => exact of_runs (runs_genAssign hp (hgen _ List.mem_cons_self))
  | expr slot =>
    refine of_runs (.after ((hgen slot List.mem_cons_self).gives hp hpt.bound) ?_)
    exact fun _ _ _ _ => .pure trivial
  | ret stmt =>
    unfold genStmt
    dsimp only
    split
    next slot hslot =>
      have hmem : slot ∈ (Stmt.ret stmt).slots := by simp [Stmt.slots, hslot]
      exact ((hgen slot hmem).gives hp hpt.bound).reaches_bind hpt.sound
        fun v pt₁ hsound hext hv => of_return hext hsound hv
    next => exact of_return (.refl pt) hpt.sound gives_void

/-- What follows a return is not generated. -/
theorem reaches_genStmts {stmts : List Stmt} (hpt : D.Running params pt)
    (hgen : ∀ stmt ∈ stmts, ∀ c ∈ stmt.slots, D.Generates p env.arena generate c) :
    Reaches env pt (genStmts generate stmts) fun _ pt' =>
      D.Passed params pt' ∧ D.Continues pt pt' := by
  induction stmts generalizing pt with
  | nil => exact .of_runIn (runIn_pure ()) ⟨hpt.passed, D.refl pt⟩
  | cons stmt stmts ih =>
    obtain ⟨hstmt, hstmts⟩ := List.forall_mem_cons.mp hgen
    unfold genStmts
    refine .get ?_
    rw [if_neg (by simp [hpt.returned_eq])]
    refine (reaches_genStmt hp hpt hstmt).bind fun _ pt₁ hpt₁ => ?_
    obtain ⟨hpassed, hcont⟩ := hpt₁
    cases hreturned : pt₁.function.returned with
    | false =>
      exact (ih (hpassed.running hreturned) hstmts).mono
        fun _ _ hpt' => ⟨hpt'.1, D.trans hcont hpt'.2⟩
    | true => exact .of_runIn (runIn_genStmts_of_returned hreturned stmts) ⟨hpassed, hcont⟩

end Statements

/-! ### Whole functions -/

/-- The end of a function: where it has not returned, control falls off its end. -/
theorem reaches_finish {pt₀ : Point D.Ghost} (h : D.Passed params pt) (hcont : D.Continues pt₀ pt)
    (hreceives : D.Receives pt₀ params) {ret : LType} (hret : D.Typed → ret.IsGiven)
    {declared : List Value} (hdeclared : D.Declares env.style params declared) :
    Reaches env pt (do
      unless (← get).returned do
        finishBlock (if ret.isVoid then .retVoid else .unreachable)
      finished ret declared) (D.Completes env params pt₀) := by
  refine .get ?_
  cases hreturned : pt.function.returned with
  | true => exact completes_of_closed (h.closed hreturned) hcont hreceives hret hdeclared
  | false =>
    let exit : Terminator := if ret.isVoid then .retVoid else .unreachable
    have hexit : exit.uses = [] ∧ exit.targets = [] ∧ exit.HasHeldTypes := by
      simp only [exit]
      split <;> exact ⟨rfl, rfl, trivial⟩
    obtain ⟨hclosed, hcont'⟩ := D.finish (h.running hreturned).sound (by simp [hexit.1]) hexit.2.1
      (fun _ => hexit.2.2) pt.function.returned
    have hrun : Reaches env pt (finishBlock exit) fun _ pt' => pt' = pt.finish exit _ :=
      .of_runIn (a := ()) (q := pt.finish exit _) rfl rfl
    refine hrun.bind fun _ pt₁ hpt₁ => ?_
    subst hpt₁
    exact completes_of_closed hclosed (D.trans hcont hcont') hreceives hret hdeclared

theorem this?_styleOf (f : Signature) : (styleOf f).this? = f.owner? := by
  unfold styleOf
  cases f.owner? <;> rfl

theorem isHeld_styleOf {f : Signature} (h : ∀ t ∈ f.owner?, t.mentionsError = false) :
    (styleOf f).IsHeld := by
  refine ⟨fun captures hcaptures => ?_, this?_styleOf f ▸ h⟩
  rw [styleOf] at hcaptures
  split at hcaptures <;> cases hcaptures

/-- The function of a body. -/
theorem makes_genBody (hp : env.package = p) {f : Signature} {stmts : List Stmt}
    (hstyle : D.Typed → env.style.IsHeld)
    (hgen : ∀ stmt ∈ stmts, ∀ c ∈ stmt.slots, D.Generates p env.arena generate c) :
    D.Makes env (genBody generate f stmts) := by
  let types := numberedParams env.package.declarations f
  have hgiven : ∀ q ∈ types, q.2.IsGiven := by
    intro q hq
    obtain ⟨q, -, rfl⟩ := List.mem_map.mp hq
    exact env.package.declarations.isGiven_llvmType _
  refine ⟨types.map (·.2), fun pt hpt => ?_⟩
  unfold genBody
  refine .read (Reads.mapM (f := fun q => (some q.2, env.package.declarations.llvmType q.1.type))
    (fun _ => .of_runIn fun _ => rfl) _) fun types' htypes => ?_
  obtain rfl : types' = types := htypes
  refine (runs_declareArguments hstyle (fun _ => hgiven) rfl).reaches_bind hpt
    fun declared pt₁ hpt₁ hcont₁ hdeclared => ?_
  refine (reaches_genStmts hp hpt₁ hgen).bind fun _ pt₂ hpt₂ => ?_
  obtain ⟨hpassed, hcont₂⟩ := hpt₂
  refine .read (reads_llvmType f.ret) fun ret hret => ?_
  exact reaches_finish hpassed (D.trans hcont₁ hcont₂) hpt.receives
    (fun _ => hret ▸ env.package.declarations.isGiven_llvmType _) hdeclared

end Emit

end Boxlang
