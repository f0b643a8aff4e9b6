import Boxlang.Emit.Conversion

/-!
# Code for expressions

Every change of representation was decided by analysis; here it is only carried
out.  What a node does with its operands is written for any way of generating
operands; `genExprWithin` ties the knot for expressions of bounded depth, and
`genExpr` bounds the depth by the size of the arena.
-/

namespace Boxlang

namespace Emit

open Llvm

abbrev Generate := Slot → Emit Value

def node (slot : Slot) : Emit Expr :=
  return (← read).arena.get slot

def typeOf (slot : Slot) : Emit Ty := do
  let e ← node slot
  match e.type? with
  | some t => return t
  | none => throw (.unanalysed e.span)

def resolved {α : Type} (a? : Option α) (name : Ident) : Emit α :=
  match a? with
  | some a => return a
  | none => throw (.unresolved name.name name.span)

/-- The value of a variable; a mutable one is loaded from its stack slot. -/
def readVariable (id : VariableId) : Emit Value := do
  match (← get).bindings.get? id with
  | none => throw (.unboundVariable id)
  | some v =>
    if !v.isMutable || v.value.isVoid then
      return v.value
    else
      return ⟨v.value.type, ← define (.load · v.value.type v.value.operand)⟩

def genString (value : String) : Emit Value := do
  let bytes ← internString value
  emitCall .ptr (runtime "ember_string_new")
    [.pointer (.global bytes), ⟨.int 64, .int value.utf8ByteSize⟩]

/--
A boxed optional without value is a box without value, a simple one is the pattern
of its layout.
-/
def genNoValue (t : Ty) : Emit Value := do
  match t.storage with
  | .box => return .pointer (.global (← constantBox .null .empty))
  | .simple | .simpleOptional =>
    let inner := t.optionalInner?.getD t
    return ⟨← llvmType t, absentOperand (OptionalLayout.ofType inner)⟩

/-- The method of a protocol is looked up at run time, through the conformance of the receiver. -/
def protocolMethod (this : Operand) (protocol method : String) : Emit Operand := do
  let tag ← loadTag this
  let conformance ← conformanceOf tag protocol
  let selector ← internString method
  let args := [Value.pointer conformance, .pointer (.global selector)]
  return (← emitCall .ptr (runtime "ember_method") args).operand

def genCall (generate : Generate) (function : Ident) (arguments : Arguments)
    (target? : Option FunctionId) : Emit Value := do
  let target := (← read).package.signature (← resolved target? function)
  let args ← arguments.args.mapM generate
  let ret ← llvmType target.ret
  let callee ← functionSymbol (← declarations) target
  emitCall ret (.global callee) args

def genMethodCall (generate : Generate) (receiver : Slot) (method : Ident) (arguments : Arguments)
    (target? : Option FunctionId) : Emit Value := do
  let target := (← read).package.signature (← resolved target? method)
  let this ← generate receiver
  let args ← arguments.args.mapM generate
  let ret ← llvmType target.ret
  let callee ←
    match target.owner?.bind Ty.protocolName? with
    | some protocol => protocolMethod this.operand protocol target.name
    | none => pure (.global (← functionSymbol (← declarations) target))
  emitCall ret callee (this :: args)

def genInvoke (generate : Generate) (callee : Slot) (args : List Slot) : Emit Value := do
  let t ← typeOf callee
  match t.unboxed with
  | .callable _ ret =>
    let callable ← generate callee
    let function ← loadWord callable.operand 0
    let bound ← loadWord callable.operand 1
    let values ← args.mapM generate
    emitCall (← llvmType ret) function (.pointer bound :: values)
  | _ => unsupported (.invoking t.text)

def genClosureFunction (generate : Generate) (closure : Closure) (params : List Ty) (ret : Ty) :
    Emit FunctionDef := do
  let types ← (closure.params.zip params).mapM fun (p, t) => return (p.id?, ← llvmType t)
  let declared ← declareArguments types
  emitReturn (← generate closure.body)
  finished (← llvmType ret) declared

/-- The values that a closure captures; those of type void take no place in its context. -/
def capturedValues (closure : Closure) : Emit (List (VariableId × Value)) := do
  let values ← closure.captures.mapM fun id => return (id, ← readVariable id)
  return values.filter fun (_, v) => !v.isVoid

def genContext (captured : List Value) : Emit Operand := do
  if captured.isEmpty then
    return .null
  else
    let type := LType.struct (captured.map (·.type))
    let memory ← alloc type
    captured.zipIdx.forM fun (v, i) => do
      let field ← define (.address · type memory [0, i])
      emit (.store v field)
    return memory

/-- A closure is a function of its own and, where it captures values, a context that holds them. -/
def genClosure (generate : Generate) (closure : Closure) (t : Ty) : Emit Value := do
  match t.unboxed with
  | .callable params ret =>
    let captured ← capturedValues closure
    let env ← read
    let name ← nextClosureName env.name
    let style := ArgumentStyle.closure (captured.map fun (id, v) => (id, v.type))
    let function ←
      nested name env.variableCount style (genClosureFunction generate closure params ret)
    pushFunction (.function function)
    let memory ← genContext (captured.map (·.2))
    makeCallable (.global ⟨name⟩) memory
  | _ => unsupported (.closureType t.text)

def literal? : ExprKind → Option SimpleValue
  | .int v => some (.int v)
  | .real bits => some (.real bits)
  | .bool v => some (.bool v)
  | .symbol v => some (.symbol v)
  | _ => none

/-- The address in the image of a constant box, whose tag is written as a symbol. -/
def someAddress : Address :=
  ⟨1, by decide⟩

/--
A boxed literal as a constant: no box is written after it was made, so boxing a
literal, other than as a protocol, needs no allocation.
-/
def foldBoxed? (op : Conversion) (inner : ExprKind) : Emit (Option Value) := do
  match op, literal? inner with
  | .box t none, some v =>
    let tag ← metaSymbol t
    let box ← constantBox (.global tag) (.encode someAddress v)
    return some (.pointer (.global box))
  | _, _ => return none

def genConversion (generate : Generate) (inner : Slot) (op : Conversion) (t : Ty) : Emit Value := do
  match ← foldBoxed? op (← node inner).kind with
  | some folded => return folded
  | none =>
    let value ← generate inner
    realize op value (← typeOf inner) t

def genTypeExpr (t : Ty) : Emit Value := do
  match t.unboxed with
  | .typeValue inner => return .pointer (.global (← metaSymbol inner))
  | _ => unsupported (.typeExpression t.text)

def genNode (generate : Generate) : Generate := fun slot => do
  let e ← node slot
  let t ← typeOf slot
  match e.kind with
  | .int v => return ⟨.int 64, .int v.toInt⟩
  | .real bits => return ⟨.double, .real bits⟩
  | .bool v => return ⟨.int 1, .bool v⟩
  | .symbol v => return ⟨.int 32, .int v.toNat⟩
  | .noValue => genNoValue t
  | .string v => genString v
  | .localRef name id? => readVariable (← resolved id? name)
  | .call function arguments target? => genCall generate function arguments target?
  | .methodCall receiver method arguments target? =>
    genMethodCall generate receiver method arguments target?
  | .invoke callee args => genInvoke generate callee args
  | .closure closure => genClosure generate closure t
  | .typeExpr _ => genTypeExpr t
  | .unwrap inner => generate inner
  | .conversion inner op => genConversion generate inner op t

def genExprWithin : Nat → Generate
  | 0 => fun _ => unsupported .cyclicExpression
  | n + 1 => genNode (genExprWithin n)

def genExpr : Generate := fun slot => do
  genExprWithin (← read).arena.size slot

end Emit

end Boxlang
