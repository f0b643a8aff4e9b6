import Boxlang.Analysis.Expr

/-!
# Analysing bodies

The statements of a body are analysed in order.  A statement that is wrong is
reported, and analysis goes on with the next one.  At the end of a body it must
have returned, and every immutable binding declared without a value must have
been given one.
-/

namespace Boxlang

namespace Analysis

/--
The type of a declared binding.  A binding with a written type keeps it even
where the initial value is wrong, which is then reported here.
-/
def letType (stmt : LetStmt) : Analysis Ty := do
  match stmt.type?, stmt.init? with
  | some written, none => resolveType written
  | some written, some init =>
    let declared ← resolveType written
    reportFailure (discard (expectType analyseExpr declared init))
    return declared
  | none, some init =>
    let t ← analyseExpr init none
    comply t { type := t.erased, policy := .preferSimple } init
  | none, none => throw (.untypedBinding stmt.name.name stmt.span)

/--
Declares a binding.  One whose type cannot be known gets the error type and counts
as initialised.
-/
def analyseLet (stmt : LetStmt) : Analysis LetStmt := do
  let result ← attempt (letType stmt)
  let t ←
    match result with
    | .ok t => pure t
    | .error e => do report e; pure .error
  let id ← declare stmt.name.name t stmt.isMutable
  if result.isOk && stmt.init?.isNone then
    let binding :=
      { id, name := stmt.name.name, isMutable := stmt.isMutable, span := stmt.span }
    modify fun s => { s with deferred := s.deferred ++ [binding] }
  else
    record (.initialized id)
  return { stmt with id? := some id, resolved? := some t }

/--
Assigns to a binding.  An immutable one takes exactly one assignment, and that
only if it was declared without a value.
-/
def assignTo (b : Binding) (stmt : AssignStmt) : Analysis Unit := do
  let s ← get
  let first := s.isDeferred b.id && !s.isInitialized b.id
  if !b.isMutable && !first then
    throw (.immutableAssignment stmt.target.name stmt.span)
  discard (expectType analyseExpr b.type stmt.value)
  record (.initialized b.id)

def analyseAssign (stmt : AssignStmt) : Analysis AssignStmt := do
  match ← resolveName stmt.target.name with
  | none =>
    report (.unresolved .variableName stmt.target.name stmt.target.span)
    return stmt
  | some b =>
    reportFailure (assignTo b stmt)
    return { stmt with id? := some b.id }

/-- A result must be of the declared type, and only functions of type nothing return without one. -/
def analyseReturn (stmt : ReturnStmt) : Analysis Unit := do
  record .returned
  let ret := (← read).function.ret
  match stmt.value? with
  | some value => discard (expectType analyseExpr ret value)
  | none =>
    if ret ≠ .nothing then
      throw (.mismatch ret .nothing stmt.span)

def analyseStmt : Stmt → Analysis Stmt
  | .letStmt stmt => return .letStmt (← analyseLet stmt)
  | .assign stmt => return .assign (← analyseAssign stmt)
  | .expr slot => do
    reportFailure (discard (analyseExpr slot none))
    return .expr slot
  | .ret stmt => do
    reportFailure (analyseReturn stmt)
    return .ret stmt

/-- Reports a body that ends without the result it should have. -/
def checkReturned : Analysis Unit := do
  let f := (← read).function
  if f.ret ≠ .nothing && !(← get).path.hasCertainly .returned then
    report (.missingReturn f.qualifiedName f.span)

/-- Reports the immutable bindings that never got a value. -/
def checkInitialized : Analysis Unit := do
  let s ← get
  let missing := s.deferred.filter fun b =>
    !b.isMutable && !s.path.hasCertainly (.initialized b.id)
  missing.forM fun b => report (.neverInitialized b.name b.span)

def analyseBody : Analysis Unit := do
  let stmts ← (← get).body.stmts.mapM analyseStmt
  modify fun s => { s with body := { s.body with stmts } }
  checkReturned
  checkInitialized
  modify fun s => { s with body := { s.body with variableCount := s.scope.count } }

end Analysis

end Boxlang
