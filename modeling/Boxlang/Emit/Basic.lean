import Boxlang.Body
import Boxlang.Emit.Module
import Boxlang.Slots

/-!
# Functions under construction

The state in which one LLVM function is generated: its finished blocks, the block
being filled, and what its variables are bound to.  A step may also refer to parts
of the module and may fail; what it emitted and referred to before stays.
-/

namespace Boxlang

open Llvm

/-- What the generator cannot give code for. -/
inductive Unsupported where
  | invoking (type : String)
  | closureType (type : String)
  | typeExpression (type : String)
  | adapting (source target : String)
  | immutableAssignment (name : String)
  /-- An expression nested more deeply than its arena has nodes. -/
  | cyclicExpression
  deriving DecidableEq

def Unsupported.message : Unsupported → String
  | .invoking type => "invoking a value of type " ++ type
  | .closureType type => "closure typed " ++ type
  | .typeExpression type => "type expression typed " ++ type
  | .adapting source target => "cannot adapt " ++ source ++ " to " ++ target
  | .immutableAssignment name => "assignment to immutable `" ++ name ++ "`"
  | .cyclicExpression => "expression contains itself"

/-- Why a body has no code. -/
inductive EmitError where
  | unanalysed (span : Span)
  | unresolved (name : String) (span : Span)
  | unboundVariable (id : VariableId)
  | unsupported (what : Unsupported)
  deriving DecidableEq

namespace EmitError

def message : EmitError → String
  | .unanalysed _ => "expression reached code generation without a type"
  | .unresolved name _ => "call to `" ++ name ++ "` was never resolved"
  | .unboundVariable id => s!"variable #{id} has no value at this point"
  | .unsupported what => "LLVM backend error: " ++ what.message

def code : EmitError → String
  | .unanalysed _ => "ember::backend_llvm::unanalysed"
  | .unresolved _ _ => "ember::backend_llvm::unresolved"
  | .unboundVariable _ => "ember::backend_llvm::variable"
  | .unsupported _ => "ember::backend_llvm"

def help? : EmitError → Option String
  | .unanalysed _ => some "run semantic analysis and check its diagnostics first"
  | _ => none

def span? : EmitError → Option Span
  | .unanalysed span | .unresolved _ span => some span
  | .unboundVariable _ | .unsupported _ => none

end EmitError

namespace Emit

/-- How a function receives what comes before its declared parameters. -/
inductive ArgumentStyle where
  | free
  /-- The receiver comes first. -/
  | method (this : Ty)
  /-- The context comes first; captured values are loaded from it on entry. -/
  | closure (captures : List (VariableId × LType))
  deriving Inhabited

/-- What a variable is bound to: its value, or for a mutable one the address of its stack slot. -/
structure LocalVariable where
  isMutable : Bool
  value : Value
  deriving Inhabited

structure FunctionEnv where
  package : Package
  name : String
  arena : Arena
  variableCount : Nat
  style : ArgumentStyle
  deriving Inhabited

structure FunctionState where
  bindings : Slots LocalVariable
  /-- The finished blocks, in order. -/
  blocks : List Block := []
  /-- The label of the block being filled. -/
  label : Label := .entry
  /-- The instructions of that block so far. -/
  body : List Instr := []
  /-- Whether the function has returned, after which there is no block being filled. -/
  returned : Bool := false
  nextRegister : Nat := 0
  nextBlock : Nat := 0

def FunctionState.start (variableCount : Nat) : FunctionState where
  bindings := .ofSize variableCount

end Emit

abbrev Emit := ReaderT Emit.FunctionEnv (ExceptT EmitError (StateT Emit.FunctionState Emit.ModuleM))

namespace Emit

def declarations : Emit Declarations :=
  return (← read).package.declarations

def llvmType (t : Ty) : Emit LType :=
  return (← declarations).llvmType t

/-- Whether values of a type fit the inline words of a box. -/
def storedInline (t : Ty) : Emit Bool :=
  return (← declarations).storedInline t

def unsupported {α : Type} (what : Unsupported) : Emit α :=
  throw (.unsupported what)

/-! ### Instructions and blocks -/

def freshRegister : Emit Nat :=
  modifyGet fun s => (s.nextRegister, { s with nextRegister := s.nextRegister + 1 })

def freshLabel (role : BlockRole) : Emit Label :=
  modifyGet fun s => (.numbered role s.nextBlock, { s with nextBlock := s.nextBlock + 1 })

def emit (i : Instr) : Emit Unit :=
  modify fun s => { s with body := s.body ++ [i] }

def define (instr : Nat → Instr) : Emit Operand := do
  let n ← freshRegister
  emit (instr n)
  return .register n

def finishBlock (exit : Terminator) : Emit Unit :=
  modify fun s =>
    { s with blocks := s.blocks ++ [{ label := s.label, body := s.body, exit }], body := [] }

def startBlock (label : Label) : Emit Unit :=
  modify fun s => { s with label }

def emitReturn (v : Value) : Emit Unit := do
  finishBlock (if v.isVoid then .retVoid else .ret v)
  modify fun s => { s with returned := true }

def emitCall (ret : LType) (callee : Operand) (args : List Value) : Emit Value := do
  let args := args.filter (!·.isVoid)
  if ret.isVoid then
    emit (.callVoid callee args)
    return .void
  else
    return ⟨ret, ← define (.call · ret callee args)⟩

/-! ### The run-time library -/

def runtime (name : String) : Operand :=
  .global ⟨name⟩

def emitCheck (failed : Operand) (message : String) : Emit Unit := do
  let fail ← freshLabel .checkFail
  let ok ← freshLabel .checkOk
  finishBlock (.branch failed fail ok)
  startBlock fail
  let text ← internString message
  emit (.callVoid (runtime "ember_panic") [.pointer (.global text)])
  finishBlock .unreachable
  startBlock ok

/-! ### Nested functions -/

/--
Generates another function of the same arena, from a fresh state.  What it refers
to in the module stays referred to, even if it fails.
-/
def nested {α : Type} (name : String) (variableCount : Nat) (style : ArgumentStyle)
    (step : Emit α) : Emit α := fun env => do
  let run : ModuleM (Except EmitError α × FunctionState) :=
    ((step { env with name, variableCount, style }).run).run (.start variableCount)
  match (← run).1 with
  | .ok a => return a
  | .error e => throw e

def finished (ret : LType) (params : List Value) : Emit FunctionDef := do
  return { name := (← read).name, ret, params, blocks := (← get).blocks }

end Emit

end Boxlang
