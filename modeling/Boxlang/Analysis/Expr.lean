import Boxlang.Analysis.Call

/-!
# Analysing expressions

Every node is typed once and keeps its type.  What a node does with its operands
is written for any way of typing operands; `analyseExprWithin` ties the knot for
expressions of bounded depth, and `analyseExpr` bounds the depth by the size of
the arena, which no acyclic expression exceeds.
-/

namespace Boxlang

namespace Analysis

def analyseLocal (slot : Slot) (name : Ident) : Analysis Ty := do
  match ← resolveName name.name with
  | none => throw (.unresolved .variableName name.name name.span)
  | some b =>
    modifyKind slot (·.withVariable b.id)
    unless (← get).isInitialized b.id do
      throw (.uninitialized name.name name.span)
    return b.type

def analyseCall (visit : Visit) (slot : Slot) (function : Ident) : Analysis Ty := do
  let package := (← read).package
  match package.function? function.name with
  | none => throw (.unresolved .function function.name function.span)
  | some id =>
    modifyKind slot (·.withTarget id)
    analyseFunctionCall visit slot none (package.signature id)

/--
A method is looked up on the type of its receiver, which is held in simple
storage if its type permits.  Generic receivers offer the methods of their
constraints.
-/
def analyseMethodCall (visit : Visit) (slot receiver : Slot) (method : Ident) : Analysis Ty := do
  let actual ← visit receiver none
  let held ← comply actual { type := actual.erased, policy := .preferSimple } receiver
  let env ← read
  let callee := env.context.upperBound held.erased
  match env.package.method? callee method.name with
  | none => throw (.unresolved .method (callee.text ++ "." ++ method.name) method.span)
  | some id =>
    modifyKind slot (·.withTarget id)
    analyseFunctionCall visit slot (some callee) (env.package.signature id)

/-- Arguments are passed the way the callable value holds its parameters. -/
def analyseInvoke (visit : Visit) (callee : Slot) (args : List Slot) (span : Span) :
    Analysis Ty := do
  let calleeType ← visit callee none
  if calleeType.isError then
    return .error
  else
    match calleeType.unboxed with
    | .callable params ret =>
      if params.length ≠ args.length then
        throw (.argumentCount calleeType.text params.length args.length span)
      (params.zip args).forM fun (param, arg) => discard (expectType visit param arg)
      return ret
    | _ => throw (.typeMismatch "a callable" calleeType.text (← spanOf callee))

/-- The body of a closure has a scope of its own, which is left even where the body is wrong. -/
def analyseClosure (visit : Visit) (slot : Slot) (closure : Closure) : Analysis Ty := do
  let params ← closure.params.mapM (resolveType ·.type)
  let ret ← resolveType closure.ret
  modify fun s => { s with scope := s.scope.enterClosure }
  let ids ← (closure.params.zip params).mapM fun (p, t) => declare p.name.name t false
  let body ← attempt (expectType visit ret closure.body)
  let captures ← modifyGet fun s =>
    let (captures, scope) := s.scope.exitClosure
    (captures, { s with scope })
  modifyKind slot (·.withClosureVariables ids captures)
  match body with
  | .ok _ => return .callable params ret
  | .error e => throw e

/-- The value of an optional, which keeps the storage of the optional. -/
def analyseUnwrap (visit : Visit) (inner : Slot) (span : Span) : Analysis Ty := do
  let t ← visit inner none
  if t.isError then
    return .error
  else
    match t.optionalInner? with
    | none => throw (.typeMismatch "an optional" t.text span)
    | some value =>
      match t.storage with
      | .simpleOptional => insertConversion inner .unwrapOptional value
      | .box | .simple => insertConversion inner .unwrapBoxOptional (value.heldIn .box)

def nodeType (visit : Visit) (slot : Slot) (e : Expr) (expected? : Option Expectation) :
    Analysis Ty :=
  match e.kind with
  | .int _ => return .int
  | .real _ => return .real
  | .bool _ => return .bool
  | .string _ => return .string
  | .symbol _ => return .symbol
  | .noValue => noValueType expected? e.span
  | .localRef name _ => analyseLocal slot name
  | .call function _ _ => analyseCall visit slot function
  | .methodCall receiver method _ _ => analyseMethodCall visit slot receiver method
  | .invoke callee args => analyseInvoke visit callee args e.span
  | .closure closure => analyseClosure visit slot closure
  | .typeExpr form => do
    let t ← formType form expected? e.span
    validateMetability t e.span
    return .typeValue t
  | .unwrap inner => analyseUnwrap visit inner e.span
  | .conversion inner _ => visit inner expected?

def analyseNode (visit : Visit) : Visit := fun slot expected? => do
  let e ← node slot
  match e.type? with
  | some t => return t
  | none =>
    let t ← nodeType visit slot e expected?
    modifyArena (·.setType slot t)
    return t

/-- Types an expression that is at most the given number of nodes deep; deeper ones are errors. -/
def analyseExprWithin : Nat → Visit
  | 0 => fun _ _ => return .error
  | n + 1 => analyseNode (analyseExprWithin n)

def analyseExpr : Visit := fun slot expected? => do
  analyseExprWithin (← get).body.arena.size slot expected?

end Analysis

end Boxlang
