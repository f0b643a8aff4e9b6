import Boxlang.Span
import Boxlang.Ty.Text

/-!
# Diagnostics

What analysis can find wrong with a body, and how that is said.  Only the use of
a deprecated function is a warning; everything else is an error.

Reports are kept in the order in which they were made.  A listing orders them by
function name and place, and keeps that order among reports of one place.
-/

namespace Boxlang

inductive NameKind where
  | type
  | variableName
  | function
  | method
  | call
  deriving DecidableEq

def NameKind.text : NameKind → String
  | .type => "type"
  | .variableName => "variable"
  | .function => "function"
  | .method => "method"
  | .call => "call"

inductive SemanticError where
  | typeMismatch (expected actual : String) (span : Span)
  | inferenceFailure (function parameter reason : String) (span : Span)
  | accessViolation (function context : String) (span : Span)
  | deprecated (function : String) (note : Option String) (span : Span)
  | argumentCount (function : String) (expected actual : Nat) (span : Span)
  | unresolved (kind : NameKind) (name : String) (span : Span)
  | notMetable (type : String) (span : Span)
  | missingReturn (function : String) (span : Span)
  | immutableAssignment (name : String) (span : Span)
  | uninitialized (name : String) (span : Span)
  | neverInitialized (name : String) (span : Span)
  | noValueWithoutOptional (span : Span)
  | untypedBinding (name : String) (span : Span)
  deriving DecidableEq

namespace SemanticError

def mismatch (expected actual : Ty) (span : Span) : SemanticError :=
  .typeMismatch expected.text actual.text span

def span : SemanticError → Span
  | .typeMismatch _ _ span | .inferenceFailure _ _ _ span | .accessViolation _ _ span
  | .deprecated _ _ span | .argumentCount _ _ _ span | .unresolved _ _ span
  | .notMetable _ span | .missingReturn _ span | .immutableAssignment _ span
  | .uninitialized _ span | .neverInitialized _ span | .noValueWithoutOptional span
  | .untypedBinding _ span => span

def isWarning : SemanticError → Bool
  | .deprecated _ _ _ => true
  | _ => false

def message : SemanticError → String
  | .typeMismatch expected actual _ =>
    s!"type mismatch: expected {expected}, got {actual}"
  | .inferenceFailure function parameter reason _ =>
    s!"cannot infer generic argument {parameter} of {function}: {reason}"
  | .accessViolation function context _ => s!"{function} is not accessible from {context}"
  | .deprecated function _ _ => s!"{function} is deprecated"
  | .argumentCount function expected actual _ =>
    s!"{function} takes {expected} argument(s), {actual} supplied"
  | .unresolved kind name _ => "unknown " ++ kind.text ++ " '" ++ name ++ "'"
  | .notMetable type _ => s!"{type} cannot be used as a type value"
  | .missingReturn function _ => s!"{function} does not return a value on every path"
  | .immutableAssignment name _ => s!"cannot assign to immutable variable '{name}'"
  | .uninitialized name _ => s!"'{name}' is used before it is initialized"
  | .neverInitialized name _ => s!"'{name}' is never initialized"
  | .noValueWithoutOptional _ => "no value can only be used where an optional is expected"
  | .untypedBinding name _ => s!"'{name}' needs a type when declared without a value"

def code : SemanticError → String
  | .typeMismatch _ _ _ => "ember::type_mismatch"
  | .inferenceFailure _ _ _ _ => "ember::inference"
  | .accessViolation _ _ _ => "ember::access"
  | .deprecated _ _ _ => "ember::deprecated"
  | .argumentCount _ _ _ _ => "ember::arguments"
  | .unresolved _ _ _ => "ember::unresolved"
  | .notMetable _ _ => "ember::metability"
  | .missingReturn _ _ => "ember::missing_return"
  | .immutableAssignment _ _ => "ember::immutable"
  | .uninitialized _ _ => "ember::uninitialized"
  | .neverInitialized _ _ => "ember::never_initialized"
  | .noValueWithoutOptional _ => "ember::no_value"
  | .untypedBinding _ _ => "ember::missing_type"

def help? : SemanticError → Option String
  | .inferenceFailure _ _ _ _ => some "provide the generic arguments explicitly"
  | .neverInitialized _ _ => some "assign it on every path or give it an initial value"
  | .deprecated _ note _ => note
  | _ => none

end SemanticError

/-- A diagnostic together with the function in whose body it was found. -/
structure Report where
  /-- The qualified name of the function. -/
  function : String
  error : SemanticError
  deriving DecidableEq

namespace Report

/-- The listing order: by function name, then by offset. -/
def le (a b : Report) : Bool :=
  if a.function = b.function then a.error.span.offset ≤ b.error.span.offset
  else a.function ≤ b.function

/-- The reports in listing order; those of one function and offset keep their order. -/
def sort (reports : List Report) : List Report :=
  reports.mergeSort le

def hasErrors (reports : List Report) : Bool :=
  reports.any fun r => !r.error.isWarning

end Report

end Boxlang
