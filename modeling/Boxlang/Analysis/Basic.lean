import Boxlang.Body
import Boxlang.Diagnostic
import Boxlang.Path
import Boxlang.Scope
import Boxlang.Subtyping
import Boxlang.WrittenType.Resolve

/-!
# The state of an analysis

Analysing a body types its expressions, inserts conversions, and collects
reports.  An `Analysis` reads the package and the function, changes the state and
may fail; what it changed and reported before it failed stays.
-/

namespace Boxlang

structure Environment where
  package : Package
  /-- The function whose body is analysed. -/
  function : Signature
  /-- Whether calls of deprecated functions are reported. -/
  warnDeprecated : Bool := true
  deriving Inhabited

namespace Environment

def declarations (env : Environment) : Declarations :=
  env.package.declarations

def context (env : Environment) : GenericContext :=
  env.function.context env.declarations

end Environment

structure DeferredBinding where
  id : VariableId
  name : String
  isMutable : Bool
  span : Span
  deriving DecidableEq, Inhabited

structure AnalysisState where
  body : Body
  scope : Scope
  path : Path := {}
  /-- The bindings declared without a value, in order of declaration. -/
  deferred : List DeferredBinding := []
  /-- The reports made so far, in order, those of other functions included. -/
  reports : List Report := []
  deriving Inhabited

def AnalysisState.start (f : Signature) (body : Body) (reports : List Report) : AnalysisState where
  body := body
  scope := .ofSignature f
  reports := reports

abbrev Analysis := ReaderT Environment (ExceptT SemanticError (StateM AnalysisState))

namespace Analysis

def runIn {α : Type} (env : Environment) (s : AnalysisState) (step : Analysis α) :
    Except SemanticError α × AnalysisState :=
  (step env).run s

def attempt {α : Type} (step : Analysis α) : Analysis (Except SemanticError α) := fun env =>
  ExceptT.lift (step env).run

def report (e : SemanticError) : Analysis Unit := do
  let function := (← read).function.qualifiedName
  modify fun s => { s with reports := s.reports ++ [{ function, error := e }] }

def reportFailure (step : Analysis Unit) : Analysis Unit := do
  match ← attempt step with
  | .ok () => pure ()
  | .error e => report e

/-! ### The arena -/

def node (slot : Slot) : Analysis Expr := do
  return (← get).body.arena.get slot

def spanOf (slot : Slot) : Analysis Span := do
  return (← node slot).span

def modifyArena (f : Arena → Arena) : Analysis Unit :=
  modify fun s => { s with body := { s.body with arena := f s.body.arena } }

def modifyKind (slot : Slot) (f : ExprKind → ExprKind) : Analysis Unit :=
  modifyArena (·.modifyKind slot f)

/-- Wraps the node in `slot` in a conversion and returns the type of the result. -/
def insertConversion (slot : Slot) (op : Conversion) (t : Ty) : Analysis Ty := do
  modifyArena fun a => (a.convert slot op t).2
  return t

/-! ### Names -/

def resolveName (name : String) : Analysis (Option Binding) :=
  modifyGet fun s =>
    let (b, scope) := s.scope.resolve name
    (b, { s with scope })

def declare (name : String) (t : Ty) (isMutable : Bool) : Analysis VariableId :=
  modifyGet fun s =>
    let (id, scope) := s.scope.declare name t isMutable
    (id, { s with scope })

def resolveType (t : WrittenType) : Analysis Ty := do
  let env ← read
  liftExcept (env.function.resolve env.declarations t)
where
  liftExcept {α : Type} (r : Except SemanticError α) : Analysis α :=
    match r with
    | .ok a => pure a
    | .error e => throw e

/-! ### Facts about the path -/

def record (i : Incident) : Analysis Unit :=
  modify fun s => { s with path := s.path.record i }

end Analysis

namespace AnalysisState

def isDeferred (s : AnalysisState) (id : VariableId) : Bool :=
  s.deferred.any (·.id == id)

def isInitialized (s : AnalysisState) (id : VariableId) : Bool :=
  !s.isDeferred id || s.path.hasCertainly (.initialized id)

end AnalysisState

end Boxlang
