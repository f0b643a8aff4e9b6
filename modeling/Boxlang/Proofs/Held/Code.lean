import Boxlang.Proofs.Emit.Extends
import Boxlang.Proofs.Types.Void

/-!
# Code whose types are held

Void is not the type of anything that code reads, writes, makes room for or passes on
(`Llvm.FunctionDef.HasHeldTypes`), with two exceptions: an element that is put into an
optional of nothing, and the receiver of a method of nothing.
-/

namespace Boxlang

open Llvm

namespace Llvm

def Instr.HasHeldTypes : Instr → Prop
  | .address _ type _ _ | .load _ type _ | .alloca _ type | .phi _ type _ => type.IsHeld
  | .store value _ | .compare _ _ value _ | .extractValue _ value _ => value.type.IsHeld
  | .insertValue _ aggregate element index =>
    aggregate.type.IsHeld ∧ (element.type.IsHeld ∨ index = 1 ∧ element.type = .void)
  | .call _ ret _ args => ret.IsHeld ∧ ∀ v ∈ args, v.type.IsHeld
  | .callVoid _ args => ∀ v ∈ args, v.type.IsHeld
  | .pointerToInt _ _ | .negate _ _ => True

/-- The end of a block that returns something that is held, if it returns anything. -/
def Terminator.HasHeldTypes : Terminator → Prop
  | .ret value => value.type.IsHeld
  | .jump _ | .branch _ _ _ | .retVoid | .unreachable => True

/-- A parameter that is held, or else the receiver of a method of nothing. -/
def Value.IsReceived (owner? : Option Ty) (v : Value) : Prop :=
  v.type.IsHeld ∨ owner? = some .nothing ∧ v = ⟨.void, .receiver⟩

theorem isHeld_of_mem_filter {vs : List Value} (h : ∀ v ∈ vs, v.type.IsGiven) {v : Value}
    (hv : v ∈ vs.filter (!·.isVoid)) : v.type.IsHeld := by
  obtain ⟨hmem, hvoid⟩ := List.mem_filter.mp hv
  exact (h v hmem).isHeld (by simpa [Value.isVoid] using hvoid)

structure FunctionDef.HasHeldTypes (owner? : Option Ty) (f : FunctionDef) : Prop where
  instrs : ∀ i ∈ f.code, i.HasHeldTypes
  exits : ∀ b ∈ f.blocks, b.exit.HasHeldTypes
  params : ∀ v ∈ f.params, v.IsReceived owner?
  ret : f.ret.IsGiven

end Llvm

namespace Emit

def Synthesized.HasHeldTypes (made : Synthesized) : Prop :=
  ∃ f, made = .function f ∧ f.HasHeldTypes none

end Emit

end Boxlang
