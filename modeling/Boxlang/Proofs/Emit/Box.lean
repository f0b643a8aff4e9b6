import Boxlang.Emit.Box
import Boxlang.Proofs.Emit.Extends

/-!
# Code for boxes only adds

Boxes and optionals are made of fresh registers, so all stores go to memory that the
same step allocated.
-/

namespace Boxlang

namespace Emit

open Llvm

variable {env : FunctionEnv} {first : Nat} {w : World}

/-! ### References -/

section References

variable (m : ModuleState)

@[simp]
theorem synthesized_callableMeta : (callableMeta.run m).2.synthesized = m.synthesized := rfl

@[simp]
theorem synthesized_metaSymbol (t : Ty) : ((metaSymbol t).run m).2.synthesized = m.synthesized := by
  unfold metaSymbol
  split <;> rfl

@[simp]
theorem synthesized_protocolSymbol (protocol : String) :
    ((protocolSymbol protocol).run m).2.synthesized = m.synthesized := rfl

@[simp]
theorem synthesized_conformanceSymbol (t : Ty) (protocol : String) :
    ((conformanceSymbol t protocol).run m).2.synthesized = m.synthesized := rfl

@[simp]
theorem synthesized_internString (value : String) :
    ((internString value).run m).2.synthesized = m.synthesized := by
  rw [internString, StateT.run_modifyGet]
  cases m.strings.findIdx? (· == value) <;> rfl

@[simp]
theorem synthesized_constantBox (tag : Operand) (image : BoxImage) :
    ((constantBox tag image).run m).2.synthesized = m.synthesized := rfl

@[simp]
theorem synthesized_nextClosureName (enclosing : String) :
    ((nextClosureName enclosing).run m).2.synthesized = m.synthesized := rfl

@[simp]
theorem synthesized_nextAdapterName : (nextAdapterName.run m).2.synthesized = m.synthesized := rfl

@[simp]
theorem synthesized_functionSymbol (d : Declarations) (f : Signature) :
    ((functionSymbol d f).run m).2.synthesized = m.synthesized := by
  show (if _ then m else _ : ModuleState).synthesized = _
  split <;> rfl

end References

/-! ### Calls -/

theorem LType.eq_void {t : LType} (h : t.isVoid = true) : t = .void :=
  Declarations.eq_void_of_isVoid h

/-- The result of a call has the type that was asked for, and is a fresh register if it is not void. -/
theorem emits_emitCall (ret : LType) (callee : Operand) (args : List Value) :
    Emits env first w (emitCall ret callee args) True fun v w' =>
      v.type = ret ∧ (ret.isVoid = false → w'.Defines first v.operand) := by
  unfold emitCall
  dsimp only
  split
  next hvoid =>
    refine (emits_plain _ (by trivial)).and_then fun _ _ _ _ => .pure ⟨(LType.eq_void hvoid).symm, ?_⟩
    simp [hvoid]
  next =>
    refine .map ?_
    exact (emits_define _ fun _ => by trivial).mono fun _ _ h => ⟨rfl, fun _ => h⟩

theorem emits_sizeFor (type : LType) :
    Emits env first w (sizeFor type) True fun o w' => w'.Defines first o := by
  unfold sizeFor
  refine (emits_define _ fun _ => by trivial).and_then fun _ _ _ _ => ?_
  exact emits_define _ fun _ => by trivial

theorem emits_alloc (type : LType) :
    Emits env first w (alloc type) True fun o w' => w'.Defines first o := by
  unfold alloc
  refine (emits_sizeFor type).and_then fun _ _ _ _ => ?_
  refine .map ?_
  exact (emits_emitCall _ _ _).mono fun _ _ h => h.2 rfl

/-! ### Fields of a box -/

theorem emits_tagField (box : Operand) :
    Emits env first w (tagField box) True fun o w' => w'.Defines first o :=
  emits_define _ fun _ => by trivial

theorem emits_wordField (box : Operand) (word : Nat) :
    Emits env first w (wordField box word) True fun o w' => w'.Defines first o :=
  emits_define _ fun _ => by trivial

theorem emits_storePointer {field : Operand} (h : w.Defines first field) (value : Operand) :
    Emits env first w (storePointer value field) True Anything :=
  emits_store h _

theorem emits_loadWord (box : Operand) (word : Nat) :
    Emits env first w (loadWord box word) True Anything := by
  unfold loadWord
  refine (emits_wordField box word).and_then fun _ _ _ _ => ?_
  exact (emits_define _ fun _ => by trivial).anything

theorem emits_storeWord (box : Operand) (word : Nat) (value : Operand) :
    Emits env first w (storeWord box word value) True Anything := by
  unfold storeWord
  exact (emits_wordField box word).and_then fun _ _ _ hfield => emits_storePointer hfield value

theorem emits_loadTag (box : Operand) : Emits env first w (loadTag box) True Anything := by
  unfold loadTag
  refine (emits_tagField box).and_then fun _ _ _ _ => ?_
  exact (emits_define _ fun _ => by trivial).anything

theorem emits_boxIsEmpty (box : Operand) : Emits env first w (boxIsEmpty box) True Anything := by
  unfold boxIsEmpty
  refine (emits_loadTag box).and_then fun _ _ _ _ => ?_
  exact (emits_define _ fun _ => by trivial).anything

theorem emits_storeInBox (box : Operand) (value : Value) (t : Ty) :
    Emits env first w (storeInBox box value t) True Anything := by
  unfold storeInBox
  split
  next => exact .pure trivial
  next =>
    refine (emits_define _ fun _ => by trivial).and_then fun field w₁ _ hfield => ?_
    refine (emits_storedInline t).and_then fun inline w₂ hext _ => ?_
    split
    next => exact emits_store (hfield.mono hext) value
    next =>
      refine (emits_alloc value.type).and_then fun memory w₃ hext₃ hmemory => ?_
      refine (emits_store hmemory value).and_then fun _ w₄ hext₄ _ => ?_
      exact emits_storePointer (((hfield.mono hext).mono hext₃).mono hext₄) memory

theorem emits_loadFromBox (box : Operand) (t : Ty) :
    Emits env first w (loadFromBox box t) True fun v _ =>
      v.type = env.package.declarations.llvmType t := by
  unfold loadFromBox
  refine (emits_llvmType t).and_then fun type _ _ htype => ?_
  split
  next hvoid => exact .pure (htype ▸ (LType.eq_void hvoid).symm)
  next =>
    refine (emits_define _ fun _ => by trivial).and_then fun _ _ _ _ => ?_
    refine (emits_storedInline t).and_then fun inline _ _ _ => ?_
    split
    next =>
      rw [pure_bind]
      refine .map ?_
      exact (emits_define _ fun _ => by trivial).mono fun _ _ _ => htype
    next =>
      refine (emits_define _ fun _ => by trivial).and_then fun _ _ _ _ => ?_
      refine .map ?_
      exact (emits_define _ fun _ => by trivial).mono fun _ _ _ => htype

theorem emits_dynamicMeta (value : Value) (t : Ty) :
    Emits env first w (dynamicMeta value t) True Anything := by
  unfold dynamicMeta
  split
  next => exact (emits_define _ fun _ => by trivial).anything
  next =>
    refine .map ?_
    exact (emits_liftM _ (by simp)).anything

theorem emits_conformanceOf (tag : Operand) (protocol : String) :
    Emits env first w (conformanceOf tag protocol) True Anything := by
  unfold conformanceOf
  refine (emits_liftM _ (by simp)).and_then fun _ _ _ _ => ?_
  refine .map ?_
  exact (emits_emitCall _ _ _).anything

theorem emits_makeCallable (function bound : Operand) :
    Emits env first w (makeCallable function bound) True fun v _ => v.type = .ptr := by
  unfold makeCallable
  refine (emits_alloc .box).and_then fun box _ _ _ => ?_
  refine (emits_liftM _ (by simp)).and_then fun tag _ _ _ => ?_
  refine (emits_tagField box).and_then fun field _ _ hfield => ?_
  refine (emits_storePointer hfield _).and_then fun _ _ _ _ => ?_
  refine (emits_storeWord box 0 function).and_then fun _ _ _ _ => ?_
  exact (emits_storeWord box 1 bound).and_then fun _ _ _ _ => .pure rfl

/-! ### Simple optionals -/

theorem emits_optionalIsEmpty (optional : Value) (layout : OptionalLayout) :
    Emits env first w (optionalIsEmpty optional layout) True Anything := by
  unfold optionalIsEmpty
  split
  next => exact (emits_define _ fun _ => by trivial).anything
  next => exact (emits_define _ fun _ => by trivial).anything
  next =>
    refine (emits_define _ fun _ => by trivial).and_then fun _ _ _ _ => ?_
    exact (emits_define _ fun _ => by trivial).anything

theorem emits_optionalPayload (optional : Value) (layout : OptionalLayout) (type : LType) :
    Emits env first w (optionalPayload optional layout type) True fun v _ => v.type = type := by
  unfold optionalPayload
  split
  next =>
    refine .map ?_
    exact (emits_define _ fun _ => by trivial).mono fun _ _ _ => rfl
  all_goals exact .pure rfl

theorem emits_wrapOptional (payload : Value) (layout : OptionalLayout) (type : LType) :
    Emits env first w (wrapOptional payload layout type) True fun v _ => v.type = type := by
  unfold wrapOptional
  split
  next =>
    refine (emits_define _ fun _ => by trivial).and_then fun _ _ _ _ => ?_
    refine .map ?_
    exact (emits_define _ fun _ => by trivial).mono fun _ _ _ => rfl
  all_goals exact .pure rfl

/-! ### Checks -/

theorem emits_emitCheck (failed : Operand) (message : String) :
    Emits env first w (emitCheck failed message) True Anything := by
  unfold emitCheck
  refine (emits_freshLabel .checkFail).and_then fun fail _ _ _ => ?_
  refine (emits_freshLabel .checkOk).and_then fun ok _ _ _ => ?_
  refine (emits_finishBlock _ (by exact not_false)).and_then fun _ _ _ _ => ?_
  refine (emits_startBlock fail).and_then fun _ _ _ _ => ?_
  refine (emits_liftM _ (by simp)).and_then fun text _ _ _ => ?_
  refine (emits_plain _ (by trivial)).and_then fun _ _ _ _ => ?_
  refine (emits_finishBlock _ (by exact not_false)).and_then fun _ _ _ _ => ?_
  exact emits_startBlock ok

end Emit

end Boxlang
