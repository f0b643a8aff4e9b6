import Boxlang.Emit.Expr

/-!
# Code for bodies

A body becomes one function.  What follows a return is not generated.  Like nodes,
statements are written for any way of generating expressions.
-/

namespace Boxlang

namespace Emit

open Llvm

def bindVariable (id : VariableId) (v : LocalVariable) : Emit Unit :=
  modify fun s => { s with bindings := s.bindings.set id v }

/--
Room for a binding declared without a value.  A mutable one gets its stack slot
now; an immutable one is bound by its single assignment.
-/
def declareDeferred (id : VariableId) (stmt : LetStmt) : Emit Unit := do
  if stmt.isMutable then
    match stmt.resolved? with
    | none => throw (.unanalysed stmt.span)
    | some t =>
      let type ← llvmType t
      let value ← if type.isVoid then pure .void else pure ⟨type, ← define (.alloca · type)⟩
      bindVariable id { isMutable := true, value }

/-- A mutable variable keeps its value in a stack slot; values of type void take none. -/
def genLet (generate : Generate) (stmt : LetStmt) : Emit Unit := do
  let id ← resolved stmt.id? stmt.name
  match stmt.init? with
  | none => declareDeferred id stmt
  | some init =>
    let value ← generate init
    if stmt.isMutable && !value.isVoid then
      let room ← define (.alloca · value.type)
      emit (.store value room)
      bindVariable id { isMutable := true, value := ⟨value.type, room⟩ }
    else
      bindVariable id { isMutable := stmt.isMutable, value }

/-- The first assignment of an immutable variable binds it. -/
def genAssign (generate : Generate) (stmt : AssignStmt) : Emit Unit := do
  let value ← generate stmt.value
  let id ← resolved stmt.id? stmt.target
  match (← get).bindings.get? id with
  | none => bindVariable id { isMutable := false, value }
  | some v =>
    if !v.isMutable then
      unsupported (.immutableAssignment stmt.target.name)
    else unless value.isVoid do
      emit (.store value v.value.operand)

def genStmt (generate : Generate) : Stmt → Emit Unit
  | .letStmt stmt => genLet generate stmt
  | .assign stmt => genAssign generate stmt
  | .expr slot => discard (generate slot)
  | .ret stmt => do
    match stmt.value? with
    | some slot => emitReturn (← generate slot)
    | none => emitReturn .void

def genStmts (generate : Generate) : List Stmt → Emit Unit
  | [] => return ()
  | stmt :: stmts => do
    unless (← get).returned do
      genStmt generate stmt
      genStmts generate stmts

def genBody (generate : Generate) (f : Signature) (stmts : List Stmt) : Emit FunctionDef := do
  let types ← f.params.zipIdx.mapM fun (p, i) => return (some i, ← llvmType p.type)
  let declared ← declareArguments types
  genStmts generate stmts
  let ret ← llvmType f.ret
  unless (← get).returned do
    finishBlock (if ret.isVoid then .retVoid else .unreachable)
  finished ret declared

def genFunction : Signature → List Stmt → Emit FunctionDef :=
  genBody genExpr

def styleOf (f : Signature) : ArgumentStyle :=
  match f.owner? with
  | some owner => .method owner
  | none => .free

end Emit

end Boxlang
