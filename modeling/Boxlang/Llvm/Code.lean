import Boxlang.Llvm.Global

/-!
# Code

The part of the LLVM language that generated functions are made of: first-class
types, operands, instructions, and functions as lists of basic blocks.  Registers
are numbered, and every block has one terminator by construction.
-/

namespace Boxlang.Llvm

inductive LType where
  | void
  | int (bits : Nat)
  | double
  | ptr
  /-- An array of 64-bit words. -/
  | words (count : Nat)
  | struct (fields : List LType)
  /-- The layout of boxes. -/
  | box
  deriving Inhabited

namespace LType

def isVoid : LType → Bool
  | .void => true
  | _ => false

mutual

def same : LType → LType → Bool
  | .void, .void | .double, .double | .ptr, .ptr | .box, .box => true
  | .int m, .int n | .words m, .words n => m == n
  | .struct ts, .struct us => sameAll ts us
  | _, _ => false

def sameAll : List LType → List LType → Bool
  | [], [] => true
  | t :: ts, u :: us => t.same u && sameAll ts us
  | _, _ => false

end

mutual

theorem same_iff (t u : LType) : t.same u = true ↔ t = u := by
  cases t with
  | struct ts => cases u <;> simp [same, sameAll_iff ts]
  | _ => cases u <;> simp [same]

theorem sameAll_iff (ts us : List LType) : sameAll ts us = true ↔ ts = us := by
  cases ts with
  | nil => cases us <;> simp [sameAll]
  | cons t ts => cases us <;> simp [sameAll, same_iff t, sameAll_iff ts]

end

instance : DecidableEq LType :=
  fun t u => decidable_of_iff (t.same u = true) (same_iff t u)

end LType

inductive Operand where
  /-- The operand of a value of type void. -/
  | none
  /-- A register. -/
  | register (n : Nat)
  /-- A declared parameter, by its position. -/
  | param (n : Nat)
  /-- The receiver of a method. -/
  | receiver
  /-- The context of a closure. -/
  | context
  | global (g : Global)
  | null
  | undef
  /-- The constant all of whose bits are zero. -/
  | zero
  | int (value : Int)
  | bool (value : Bool)
  | real (bits : UInt64)
  deriving DecidableEq, Inhabited

/-- An operand together with its type. -/
structure Value where
  type : LType
  operand : Operand
  deriving DecidableEq, Inhabited

namespace Value

def void : Value :=
  ⟨.void, .none⟩

def isVoid (v : Value) : Bool :=
  v.type.isVoid

def pointer (o : Operand) : Value :=
  ⟨.ptr, o⟩

end Value

inductive BlockRole where
  | checkFail
  | checkOk
  | boxSome
  | boxNone
  | boxJoin
  | unboxSome
  | unboxNone
  | unboxJoin
  deriving DecidableEq

/-- The name of a block; the blocks of a function other than the first are numbered. -/
inductive Label where
  | entry
  | numbered (role : BlockRole) (n : Nat)
  deriving DecidableEq, Inhabited

inductive Relation where
  | eq
  | ne
  deriving DecidableEq

inductive Instr where
  /-- The address of a part of the value at `base`. -/
  | address (dst : Nat) (type : LType) (base : Operand) (indices : List Nat)
  /-- A pointer as an integer. -/
  | pointerToInt (dst : Nat) (pointer : Operand)
  | load (dst : Nat) (type : LType) (pointer : Operand)
  | store (value : Value) (pointer : Operand)
  /-- Room for a value on the stack. -/
  | alloca (dst : Nat) (type : LType)
  | compare (dst : Nat) (relation : Relation) (value : Value) (other : Operand)
  /-- The negation of a truth value. -/
  | negate (dst : Nat) (value : Operand)
  | extractValue (dst : Nat) (aggregate : Value) (index : Nat)
  | insertValue (dst : Nat) (aggregate element : Value) (index : Nat)
  | call (dst : Nat) (ret : LType) (callee : Operand) (args : List Value)
  | callVoid (callee : Operand) (args : List Value)
  /-- The operand that belongs to the block control came from. -/
  | phi (dst : Nat) (type : LType) (incoming : List (Operand × Label))
  deriving DecidableEq, Inhabited

inductive Terminator where
  | jump (target : Label)
  | branch (condition : Operand) (ifTrue ifFalse : Label)
  | ret (value : Value)
  | retVoid
  | unreachable
  deriving Inhabited

structure Block where
  label : Label
  body : List Instr
  exit : Terminator
  deriving Inhabited

structure FunctionDef where
  name : String
  ret : LType
  params : List Value
  blocks : List Block
  deriving Inhabited

/-! ### Definitions, uses and edges -/

namespace Instr

def dst? : Instr → Option Nat
  | .address dst _ _ _ | .pointerToInt dst _ | .load dst _ _ | .alloca dst _
  | .compare dst _ _ _ | .negate dst _ | .extractValue dst _ _ | .insertValue dst _ _ _
  | .call dst _ _ _ | .phi dst _ _ => some dst
  | .store _ _ | .callVoid _ _ => none

def uses : Instr → List Operand
  | .address _ _ base _ => [base]
  | .pointerToInt _ pointer => [pointer]
  | .load _ _ pointer => [pointer]
  | .store value pointer => [value.operand, pointer]
  | .alloca _ _ => []
  | .compare _ _ value other => [value.operand, other]
  | .negate _ value => [value]
  | .extractValue _ aggregate _ => [aggregate.operand]
  | .insertValue _ aggregate element _ => [aggregate.operand, element.operand]
  | .call _ _ callee args => callee :: args.map (·.operand)
  | .callVoid callee args => callee :: args.map (·.operand)
  | .phi _ _ _ => []

/-- The operands that an instruction uses at the end of the blocks control comes from. -/
def incoming : Instr → List (Operand × Label)
  | .phi _ _ incoming => incoming
  | _ => []

end Instr

namespace Terminator

def uses : Terminator → List Operand
  | .jump _ | .retVoid | .unreachable => []
  | .branch condition _ _ => [condition]
  | .ret value => [value.operand]

def targets : Terminator → List Label
  | .jump target => [target]
  | .branch _ ifTrue ifFalse => [ifTrue, ifFalse]
  | .ret _ | .retVoid | .unreachable => []

end Terminator

end Boxlang.Llvm
