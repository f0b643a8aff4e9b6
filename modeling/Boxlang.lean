import Boxlang.Analysis.Basic
import Boxlang.Analysis.Body
import Boxlang.Analysis.Call
import Boxlang.Analysis.Compliance
import Boxlang.Analysis.Expect
import Boxlang.Analysis.Expr
import Boxlang.Analysis.Package
import Boxlang.Arena
import Boxlang.Body
import Boxlang.Conversion.Basic
import Boxlang.Conversion.Between
import Boxlang.Declarations
import Boxlang.Diagnostic
import Boxlang.Emit.Basic
import Boxlang.Emit.Body
import Boxlang.Emit.Box
import Boxlang.Emit.Conversion
import Boxlang.Emit.Expr
import Boxlang.Emit.Module
import Boxlang.Emit.Package
import Boxlang.Expr
import Boxlang.GenericContext
import Boxlang.Inference
import Boxlang.Layout.Box
import Boxlang.Layout.Optional
import Boxlang.Layout.Value
import Boxlang.Llvm.Code
import Boxlang.Llvm.Global
import Boxlang.Llvm.Text
import Boxlang.Package
import Boxlang.Path
import Boxlang.Proofs.Absorption.Beside
import Boxlang.Proofs.Absorption.Call
import Boxlang.Proofs.Absorption.Expr
import Boxlang.Proofs.Absorption.Loss
import Boxlang.Proofs.Absorption.Node
import Boxlang.Proofs.Absorption.Reading
import Boxlang.Proofs.Analysis.Erasure
import Boxlang.Proofs.Analysis.Errors
import Boxlang.Proofs.Analysis.Frame
import Boxlang.Proofs.Analysis.Listing
import Boxlang.Proofs.Analysis.Warnings
import Boxlang.Proofs.Analysis.Progress
import Boxlang.Proofs.Analysis.Reports
import Boxlang.Proofs.Analysis.Run
import Boxlang.Proofs.Analysis.Scope
import Boxlang.Proofs.Analysis.Statement
import Boxlang.Proofs.Analysis.Walk
import Boxlang.Proofs.Arena.Acyclic
import Boxlang.Proofs.Arena.Chain
import Boxlang.Proofs.Arena.Edits
import Boxlang.Proofs.Arena.Forest
import Boxlang.Proofs.Arena.Rewriting
import Boxlang.Proofs.Arena.Unfolding
import Boxlang.Proofs.Calls.Bounds
import Boxlang.Proofs.Calls.Candidates
import Boxlang.Proofs.Calls.Inferred
import Boxlang.Proofs.Calls.Inherited
import Boxlang.Proofs.Calls.Prepared
import Boxlang.Proofs.Calls.Run
import Boxlang.Proofs.Conversion.Compliance
import Boxlang.Proofs.Conversion.Differ
import Boxlang.Proofs.Conversion.Inverse
import Boxlang.Proofs.Conversion.Required
import Boxlang.Proofs.Conversion.Sound
import Boxlang.Proofs.Elaboration.Body
import Boxlang.Proofs.Elaboration.Call
import Boxlang.Proofs.Elaboration.Comply
import Boxlang.Proofs.Elaboration.Complete
import Boxlang.Proofs.Elaboration.Convention
import Boxlang.Proofs.Elaboration.Expr
import Boxlang.Proofs.Elaboration.Final
import Boxlang.Proofs.Elaboration.Judgement
import Boxlang.Proofs.Elaboration.Operands
import Boxlang.Proofs.Elaboration.Receiver
import Boxlang.Proofs.Elaboration.Settled
import Boxlang.Proofs.Elaboration.State
import Boxlang.Proofs.Elaboration.Statement
import Boxlang.Proofs.Emit.Agreement
import Boxlang.Proofs.Emit.Body
import Boxlang.Proofs.Emit.Box
import Boxlang.Proofs.Emit.Call
import Boxlang.Proofs.Emit.Checked
import Boxlang.Proofs.Emit.Closure
import Boxlang.Proofs.Emit.Conversion
import Boxlang.Proofs.Emit.Expr
import Boxlang.Proofs.Emit.Extends
import Boxlang.Proofs.Emit.Function
import Boxlang.Proofs.Emit.Locals
import Boxlang.Proofs.Emit.Package
import Boxlang.Proofs.Emit.Ready
import Boxlang.Proofs.Emit.Run
import Boxlang.Proofs.Invariants.Call
import Boxlang.Proofs.Invariants.Ensures
import Boxlang.Proofs.Invariants.Expr
import Boxlang.Proofs.Layout.RoundTrip
import Boxlang.Proofs.Names.Scoped
import Boxlang.Proofs.Scopes.Balanced
import Boxlang.Proofs.Scopes.Nesting
import Boxlang.Proofs.Scopes.Stored
import Boxlang.Proofs.Subtyping.Erroneous
import Boxlang.Proofs.Subtyping.Instantiation
import Boxlang.Proofs.Subtyping.Join
import Boxlang.Proofs.Subtyping.LeastJoin
import Boxlang.Proofs.Subtyping.Nearest
import Boxlang.Proofs.Subtyping.Order
import Boxlang.Proofs.Subtyping.Recursion
import Boxlang.Proofs.Subtyping.Reordered
import Boxlang.Proofs.Subtyping.Rules
import Boxlang.Proofs.Types.Ancestors
import Boxlang.Proofs.Types.ClassGraph
import Boxlang.Proofs.Types.ErrorFree
import Boxlang.Proofs.Types.Representation
import Boxlang.Proofs.Types.Substitution
import Boxlang.Proofs.Types.Variables
import Boxlang.Proofs.Types.Walk
import Boxlang.Scope
import Boxlang.Slots
import Boxlang.Span
import Boxlang.Storage
import Boxlang.Subtyping
import Boxlang.Ty.Basic
import Boxlang.Ty.Text
import Boxlang.WrittenType
import Boxlang.WrittenType.Resolve
import Boxlang.Proofs.Names.Node
import Boxlang.Proofs.Analysis.Clean
import Boxlang.Proofs.Names.Body
import Boxlang.Proofs.Names.Captures
import Boxlang.Proofs.Discipline.Basic
import Boxlang.Proofs.Discipline.Box
import Boxlang.Proofs.Discipline.Function
import Boxlang.Proofs.Discipline.Conversion
import Boxlang.Proofs.Discipline.Expr
import Boxlang.Proofs.Discipline.Body
import Boxlang.Proofs.Discipline.Labels
import Boxlang.Proofs.Flow.Points
import Boxlang.Proofs.Flow.Branch
import Boxlang.Proofs.Flow.Discipline
import Boxlang.Proofs.Flow.Package
import Boxlang.Proofs.Types.Instance
import Boxlang.Proofs.Names.Initialized
import Boxlang.Proofs.Names.Definite
import Boxlang.Proofs.Conversion.Optional
import Boxlang.Proofs.Invariants.Optional
import Boxlang.Proofs.Types.Pervasive
import Boxlang.Proofs.Conversion.Mentions
import Boxlang.Proofs.Invariants.Statement
import Boxlang.Proofs.Invariants.Mentions
import Boxlang.Proofs.Symbols.Names
import Boxlang.Proofs.Symbols.Types
import Boxlang.Proofs.Symbols.Module
import Boxlang.Proofs.Symbols.References
import Boxlang.Proofs.Symbols.Linked
import Boxlang.Proofs.Symbols.Discipline
import Boxlang.Proofs.Symbols.Package
import Boxlang.Proofs.Emit.Tags
import Boxlang.Proofs.Emit.Unboxing
import Boxlang.Proofs.Emit.Adapter
import Boxlang.Proofs.Layout.Width
import Boxlang.Proofs.Subtyping.Constraint
import Boxlang.Proofs.Subtyping.Termination
import Boxlang.Proofs.Calls.NoValue
import Boxlang.Proofs.Types.Void
import Boxlang.Proofs.Held.Code
import Boxlang.Proofs.Held.Discipline
import Boxlang.Proofs.Held.Package
import Boxlang.Proofs.Calls.Offered
import Boxlang.Proofs.Constants.Strings
import Boxlang.Proofs.Symbols.Metas
import Boxlang.Proofs.Invariants.Literals
import Boxlang.Proofs.Constants.Boxes
import Boxlang.Proofs.Arena.Wrapping
import Boxlang.Proofs.Types.Replacement
import Boxlang.Proofs.Invariants.Stored
