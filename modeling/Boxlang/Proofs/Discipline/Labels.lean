import Boxlang.Proofs.Discipline.Basic

/-!
# Disciplines that do not mind labels

Where it does not matter in which block an instruction stands, the code that branches keeps
to a discipline for the same reasons as the code in one block.
-/

namespace Boxlang

open Llvm

theorem Llvm.Instr.operands_eq_uses {i : Instr} (h : ¬ i.IsPhi) : i.operands = i.uses := by
  cases i with
  | phi dst type incoming => exact absurd trivial h
  | _ => exact List.append_nil _

namespace Emit

def Point.relabel {Ghost : Type} (pt : Point Ghost) (label : Label) (nextBlock : Nat) :
    Point Ghost :=
  ⟨⟨{ pt.function with label, nextBlock }, pt.world.refs⟩, pt.ghost⟩

/-- What is sound, and what is at hand, depends neither on labels nor on the blocks to come. -/
structure Frame.IgnoresLabels (F : Frame) : Prop where
  has_register : ∀ pt n, F.Has pt (.register n)
  joins_iff : ∀ {pt pt' l}, F.Joins pt l pt' ↔ F.Continues pt pt'
  add : ∀ {owed pt i}, F.Sound owed pt → (∀ o ∈ i.operands, F.Has pt o) →
    (F.Typed → i.HasHeldTypes) → ∀ next,
    F.Sound owed (pt.add i next) ∧ F.Continues pt (pt.add i next)
  relabel : ∀ {owed pt}, F.Sound owed pt → ∀ label nextBlock,
    F.Sound owed (pt.relabel label nextBlock) ∧ F.Continues pt (pt.relabel label nextBlock)
  finish : ∀ {owed pt exit}, F.Sound owed pt → (∀ o ∈ exit.uses, F.Has pt o) →
    (F.Typed → exit.HasHeldTypes) → ∀ returned,
    F.Sound owed (pt.finish exit returned) ∧ F.Continues pt (pt.finish exit returned)

namespace Frame.IgnoresLabels

variable {F : Frame} (h : F.IgnoresLabels) {env : FunctionEnv} {owed : List Label}
  {pt : Point F.Ghost}
include h

/-! ### Instructions -/

theorem emit {i : Instr} (hi : F.Allows pt i) (hphi : ¬ i.IsPhi) :
    F.Keeps env owed pt (Emit.emit i) fun _ pt' => pt'.function.label = pt.function.label := by
  intro hpt
  obtain ⟨hsound, hcont⟩ := h.add hpt (Instr.operands_eq_uses hphi ▸ hi.uses) hi.hasHeldTypes
    pt.function.nextRegister
  exact .of_runIn (q := pt.add i pt.function.nextRegister) (runIn_modify _)
    ⟨hsound, ⟨hcont, rfl, rfl⟩, rfl⟩

theorem define_of_operands {instr : Nat → Instr} (hi : ∀ n, ∀ o ∈ (instr n).operands, F.Has pt o)
    (htypes : ∀ n, F.Typed → (instr n).HasHeldTypes) :
    F.Keeps env owed pt (Emit.define instr) fun o pt' => F.Has pt' o := by
  intro hpt
  let n := pt.function.nextRegister
  obtain ⟨hsound, hcont⟩ := h.add hpt (hi n) (htypes n) (n + 1)
  exact .of_runIn (a := .register n) (q := pt.add (instr n) (n + 1)) rfl
    ⟨hsound, ⟨hcont, rfl, rfl⟩, h.has_register _ n⟩

theorem define {instr : Nat → Instr} (hi : ∀ n, F.Allows pt (instr n))
    (hphi : ∀ n, ¬ (instr n).IsPhi) :
    F.Keeps env owed pt (Emit.define instr) fun o pt' => F.Has pt' o :=
  h.define_of_operands (fun n => Instr.operands_eq_uses (hphi n) ▸ (hi n).uses)
    fun n => (hi n).hasHeldTypes

theorem phi {pt₁ : Point F.Ghost} {other : Label} {o o' : Operand} {type : LType}
    (hjoins : F.Joins pt₁ other pt) (ho : F.Has pt₁ o) (ho' : F.Has pt o')
    (htype : F.Typed → type.IsHeld) :
    F.Keeps env owed pt
      (Emit.define (.phi · type [(o, pt₁.function.label), (o', other)])) fun o pt' =>
      F.Has pt' o :=
  h.define_of_operands (fun _ => by
    simpa [Instr.operands, Instr.uses, Instr.incoming] using
      ⟨F.has_mono ho (h.joins_iff.mp hjoins), ho'⟩) fun _ => htype

/-! ### Blocks -/

theorem freshLabel (role : BlockRole) :
    F.Keeps env owed pt (Emit.freshLabel role) Whatever := by
  intro hpt
  obtain ⟨hsound, hcont⟩ := h.relabel hpt pt.function.label (pt.function.nextBlock + 1)
  exact .of_runIn (q := pt.relabel _ _) (runIn_modifyGet _) ⟨hsound, ⟨hcont, rfl, rfl⟩, trivial⟩

theorem startBlock (label : Label) : F.Keeps env owed pt (Emit.startBlock label) Whatever := by
  intro hpt
  obtain ⟨hsound, hcont⟩ := h.relabel hpt label pt.function.nextBlock
  exact .of_runIn (q := pt.relabel _ _) (runIn_modify _) ⟨hsound, ⟨hcont, rfl, rfl⟩, trivial⟩

theorem finishBlock {exit : Terminator} (huses : ∀ o ∈ exit.uses, F.Has pt o)
    (htypes : F.Typed → exit.HasHeldTypes) :
    F.Keeps env owed pt (Emit.finishBlock exit) Whatever := by
  intro hpt
  obtain ⟨hsound, hcont⟩ := h.finish hpt huses htypes pt.function.returned
  exact .of_runIn (q := pt.finish exit _) (runIn_modify _) ⟨hsound, ⟨hcont, rfl, rfl⟩, trivial⟩

theorem jump (target : Label) : F.Keeps env owed pt (Emit.finishBlock (.jump target)) Whatever :=
  h.finishBlock nofun fun _ => trivial

theorem branch {condition : Operand} (hcondition : F.Has pt condition) (ifTrue ifFalse : Label) :
    F.Keeps env owed pt (Emit.finishBlock (.branch condition ifTrue ifFalse)) Whatever :=
  h.finishBlock (by simpa [Terminator.uses] using hcondition) fun _ => trivial

theorem emitCheck {failed : Operand} (hfailed : F.Has pt failed)
    (hpanic : ∀ pt, F.Has pt (runtime "ember_panic"))
    (hnote : ∀ pt value, F.Keeps env owed pt (liftM (internString value)) fun x pt' =>
      F.Has pt' (.global x)) (message : String) :
    F.Keeps env owed pt (Emit.emitCheck failed message) Whatever := by
  unfold Emit.emitCheck
  refine (h.freshLabel _).bind fun fail pt₁ h₁ _ => (h.freshLabel _).bind fun ok pt₂ h₂ _ => ?_
  refine (h.branch ((h₁.trans h₂).has hfailed) fail ok).bind fun _ pt₃ _ _ => ?_
  refine (h.startBlock fail).bind fun _ pt₄ _ _ => ?_
  refine (hnote pt₄ message).bind fun text pt₅ _ htext => ?_
  refine .bind (h.emit ⟨?_, fun _ => ?_⟩ not_false) fun _ pt₆ _ _ => ?_
  · simpa [Instr.uses, Value.pointer] using ⟨hpanic pt₅, htext⟩
  · simp [Instr.HasHeldTypes, Value.pointer]
  exact .bind (h.finishBlock nofun fun _ => trivial) fun _ _ _ _ => h.startBlock ok

theorem branching {α β : Type} {condition : Operand} {ifFalse : Emit α} {ifTrue : Emit Unit}
    {next : Label → α → Emit β} {Q : α → Point F.Ghost → Prop} {R : β → Point F.Ghost → Prop}
    (roles : BlockRole × BlockRole × BlockRole) (hcondition : F.Has pt condition)
    (hfalse : ∀ pt', F.Extends pt pt' → F.Keeps env owed pt' ifFalse Q)
    (htrue : ∀ pt', F.Extends pt pt' → F.Keeps env owed pt' ifTrue fun _ pt'' =>
      pt''.function.label = pt'.function.label)
    (hnext : ∀ a pt₁ other pt', Q a pt₁ → F.Extends pt pt' → F.Joins pt₁ other pt' →
      F.Keeps env owed pt' (next other a) R) :
    F.Keeps env owed pt (Emit.branching roles condition ifFalse ifTrue next) R := by
  unfold Emit.branching
  refine (h.freshLabel _).bind fun falseLabel pt₁ h₁ _ => ?_
  refine (h.freshLabel _).bind fun trueLabel pt₂ h₂ _ => ?_
  refine (h.freshLabel _).bind fun joinLabel pt₃ h₃ _ => ?_
  have hpt₃ := (h₁.trans h₂).trans h₃
  refine (h.branch (hpt₃.has hcondition) trueLabel falseLabel).bind fun _ pt₄ h₄ _ => ?_
  refine (h.startBlock falseLabel).bind fun _ pt₅ h₅ _ => ?_
  have hpt₅ := hpt₃.trans (h₄.trans h₅)
  refine (hfalse pt₅ hpt₅).bind fun a pt₆ h₆ ha => (h.jump joinLabel).bind fun _ pt₇ h₇ _ => ?_
  refine (h.startBlock trueLabel).bind fun _ pt₈ h₈ _ => ?_
  have hpt₈ := h₇.trans h₈
  refine (htrue pt₈ (hpt₅.trans (h₆.trans hpt₈))).bind fun _ pt₉ h₉ _ => ?_
  refine (h.jump joinLabel).bind fun _ pt₁₀ h₁₀ _ => ?_
  refine (h.startBlock joinLabel).bind fun _ pt₁₁ h₁₁ _ => ?_
  have hjoins := hpt₈.trans (h₉.trans (h₁₀.trans h₁₁))
  exact hnext a pt₆ trueLabel pt₁₁ ha (hpt₅.trans (h₆.trans hjoins))
    (h.joins_iff.mpr hjoins.continues)

end Frame.IgnoresLabels

end Emit

end Boxlang
