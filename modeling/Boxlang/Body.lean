import Boxlang.Arena

/-!
# Function bodies

A body is a sequence of statements over an arena of expressions.  There is no
branching between statements: a body is a straight line.
-/

namespace Boxlang

structure LetStmt where
  span : Span
  name : Ident
  isMutable : Bool
  type? : Option WrittenType
  /-- The initial value; without one, the binding is initialised by a later assignment. -/
  init? : Option Slot
  id? : Option VariableId := none
  /-- The type of the binding, once it is known. -/
  resolved? : Option Ty := none
  deriving Inhabited

structure AssignStmt where
  span : Span
  target : Ident
  value : Slot
  id? : Option VariableId := none
  deriving Inhabited

structure ReturnStmt where
  span : Span
  value? : Option Slot
  deriving Inhabited

inductive Stmt where
  | letStmt (stmt : LetStmt)
  | assign (stmt : AssignStmt)
  | expr (slot : Slot)
  | ret (stmt : ReturnStmt)
  deriving Inhabited

structure Body where
  arena : Arena := {}
  stmts : List Stmt := []
  /-- The number of variables: parameters first, then every binding. -/
  variableCount : Nat := 0
  deriving Inhabited

def Stmt.slots : Stmt → List Slot
  | .letStmt s => s.init?.toList
  | .assign s => [s.value]
  | .expr slot => [slot]
  | .ret s => s.value?.toList

end Boxlang
