import Boxlang.Emit.Basic

/-!
# Code for boxes and optionals

A box is handled through its address.  Its first field is the tag, null when the
box holds no value; the second holds the words of the value.  A value too wide
for them has its own allocation, and the box holds the address of that.
-/

namespace Boxlang

namespace Emit

open Llvm

/-- The size of values of a type in bytes, computed as the address one past an element at null. -/
def sizeFor (type : LType) : Emit Operand := do
  let stop ← define (.address · type .null [1])
  define (.pointerToInt · stop)

def alloc (type : LType) : Emit Operand := do
  let size ← sizeFor type
  return (← emitCall .ptr (runtime "ember_alloc") [⟨.int 64, size⟩]).operand

def metaOfObject (object : Operand) : Emit Operand :=
  define (.load · .ptr object)

/-! ### Fields of a box -/

def tagField (box : Operand) : Emit Operand :=
  define (.address · .box box [0, 0])

def valueField (box : Operand) : Emit Operand :=
  define (.address · .box box [0, 1])

def wordField (box : Operand) (word : Nat) : Emit Operand :=
  define (.address · .box box [0, 1, word])

def storePointer (value field : Operand) : Emit Unit :=
  emit (.store (.pointer value) field)

def loadWord (box : Operand) (word : Nat) : Emit Operand := do
  let field ← wordField box word
  define (.load · .ptr field)

def storeWord (box : Operand) (word : Nat) (value : Operand) : Emit Unit := do
  let field ← wordField box word
  storePointer value field

def loadTag (box : Operand) : Emit Operand := do
  let field ← tagField box
  define (.load · .ptr field)

def boxIsEmpty (box : Operand) : Emit Operand := do
  let tag ← loadTag box
  define (.compare · .eq (.pointer tag) .null)

/-- Stores a value of type `t` in a box. -/
def storeInBox (box : Operand) (value : Value) (t : Ty) : Emit Unit := do
  unless value.isVoid do
    let field ← valueField box
    if ← storedInline t then
      emit (.store value field)
    else
      let memory ← alloc value.type
      emit (.store value memory)
      storePointer memory field

/-- The value of type `t` that a box holds. -/
def loadFromBox (box : Operand) (t : Ty) : Emit Value := do
  let type ← llvmType t
  if type.isVoid then
    return .void
  else
    let field ← valueField box
    let source ← if ← storedInline t then pure field else define (.load · .ptr field)
    return ⟨type, ← define (.load · type source)⟩

def dynamicMeta (value : Value) (t : Ty) : Emit Operand := do
  match t.unboxed with
  | .object _ _ => metaOfObject value.operand
  | _ => return .global (← metaSymbol t)

def conformanceOf (tag : Operand) (protocol : String) : Emit Operand := do
  let symbol ← protocolSymbol protocol
  let args := [Value.pointer tag, .pointer (.global symbol)]
  return (← emitCall .ptr (runtime "ember_conformance") args).operand

def makeCallable (function bound : Operand) : Emit Value := do
  let box ← alloc .box
  let tag ← callableMeta
  let field ← tagField box
  storePointer (.global tag) field
  storeWord box 0 function
  storeWord box 1 bound
  return .pointer box

/-! ### Simple optionals -/

def optionalIsEmpty (optional : Value) (layout : OptionalLayout) : Emit Operand := do
  match layout with
  | .nullPointer => define (.compare · .eq (.pointer optional.operand) .null)
  | .sentinel word => define (.compare · .eq optional (.int word.toInt))
  | .flagged =>
    let flag ← define (.extractValue · optional 0)
    define (.negate · flag)

def optionalPayload (optional : Value) (layout : OptionalLayout) (type : LType) : Emit Value := do
  match layout with
  | .flagged => return ⟨type, ← define (.extractValue · optional 1)⟩
  | .nullPointer | .sentinel _ => return ⟨type, optional.operand⟩

def wrapOptional (payload : Value) (layout : OptionalLayout) (type : LType) : Emit Value := do
  match layout with
  | .flagged =>
    let present ← define (.insertValue · ⟨type, .undef⟩ ⟨.int 1, .bool true⟩ 0)
    return ⟨type, ← define (.insertValue · ⟨type, present⟩ payload 1)⟩
  | .nullPointer | .sentinel _ => return ⟨type, payload.operand⟩

def absentOperand : OptionalLayout → Operand
  | .nullPointer => .null
  | .sentinel word => .int word.toInt
  | .flagged => .zero

end Emit

end Boxlang
