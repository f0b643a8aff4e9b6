import Boxlang.Conversion.Basic
import Boxlang.WrittenType

/-!
# Expressions

The nodes of an expression graph.  A node refers to its operands by `Slot`, the
number of their place in the arena that holds the whole body.
-/

namespace Boxlang

/-- The place of a node in an arena. -/
abbrev Slot := Nat

abbrev VariableId := Nat

abbrev FunctionId := Nat

structure Arguments where
  span : Span
  args : List Slot
  /-- The generic arguments as written. -/
  written : List WrittenType := []
  /-- The generic arguments after they were checked or inferred. -/
  resolved : List Ty := []
  deriving Inhabited

structure ClosureParam where
  name : Ident
  type : WrittenType
  id? : Option VariableId := none
  deriving Inhabited

structure Closure where
  params : List ClosureParam
  ret : WrittenType
  body : Slot
  /-- The variables of enclosing functions that the body reads, in order of the first read. -/
  captures : List VariableId := []
  deriving Inhabited

inductive TypeForm where
  | explicit (type : WrittenType)
  /-- The type that the use site expects. -/
  | inferred
  /-- The type that owns the function. -/
  | this
  deriving Inhabited

inductive ExprKind where
  | int (value : Int64)
  /-- A real literal, as the bits of its double precision representation. -/
  | real (bits : UInt64)
  | bool (value : Bool)
  | string (value : String)
  | symbol (value : Char)
  /-- An optional that holds no value; its type comes from the use site. -/
  | noValue
  | localRef (name : Ident) (id? : Option VariableId)
  | call (function : Ident) (arguments : Arguments) (target? : Option FunctionId)
  | methodCall (receiver : Slot) (method : Ident) (arguments : Arguments)
      (target? : Option FunctionId)
  /-- An invocation of a callable value. -/
  | invoke (callee : Slot) (args : List Slot)
  | closure (literal : Closure)
  | typeExpr (form : TypeForm)
  /-- Checked access to the value of an optional. -/
  | unwrap (inner : Slot)
  /-- A change of the representation of `inner`. -/
  | conversion (inner : Slot) (op : Conversion)
  deriving Inhabited

structure Expr where
  span : Span
  kind : ExprKind
  /-- The type as finally represented, once it is known. -/
  type? : Option Ty := none
  deriving Inhabited

namespace ExprKind

def operands : ExprKind → List Slot
  | .call _ arguments _ => arguments.args
  | .methodCall receiver _ arguments _ => receiver :: arguments.args
  | .invoke callee args => callee :: args
  | .closure literal => [literal.body]
  | .unwrap inner | .conversion inner _ => [inner]
  | .int _ | .real _ | .bool _ | .string _ | .symbol _ | .noValue | .localRef _ _
  | .typeExpr _ => []

def arguments? : ExprKind → Option Arguments
  | .call _ arguments _ | .methodCall _ _ arguments _ => some arguments
  | _ => none

def withVariable (kind : ExprKind) (id : VariableId) : ExprKind :=
  match kind with
  | .localRef name _ => .localRef name (some id)
  | k => k

def withTarget (kind : ExprKind) (id : FunctionId) : ExprKind :=
  match kind with
  | .call function arguments _ => .call function arguments (some id)
  | .methodCall receiver method arguments _ => .methodCall receiver method arguments (some id)
  | k => k

def withGenericArguments (kind : ExprKind) (types : List Ty) : ExprKind :=
  match kind with
  | .call function arguments target =>
    .call function { arguments with resolved := types } target
  | .methodCall receiver method arguments target =>
    .methodCall receiver method { arguments with resolved := types } target
  | k => k

def withClosureVariables (kind : ExprKind) (params captures : List VariableId) : ExprKind :=
  match kind with
  | .closure literal =>
    .closure
      { literal with
        params := literal.params.zipWith (fun p id => { p with id? := some id }) params
        captures := captures }
  | k => k

end ExprKind

end Boxlang
