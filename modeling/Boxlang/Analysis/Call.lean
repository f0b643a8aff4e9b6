import Boxlang.Analysis.Expect

/-!
# Calls

Checking a call of a known function: who may call it, how many arguments it
takes, what its generic parameters stand for, and that each argument meets the
parameter.  A call of a method is checked on the type of its receiver.

Arguments whose parameters mention a generic parameter are typed once to infer
it.  Their nodes keep the type, so the check of all arguments against the
inferred signature does not type them again.
-/

namespace Boxlang

namespace Environment

/-- Whether the function whose body is analysed may call `target`. -/
def mayCall (env : Environment) (target : Signature) : Bool :=
  match target.access with
  | .isPublic => true
  | .isPrivate =>
    match target.owner?, env.function.owner? with
    | some owner, some user => owner.nominalName? = user.nominalName?
    | some _, none => false
    | none, _ => target.package = env.function.package
  | .isProtected =>
    match target.owner?, env.function.owner? with
    | some owner, some user => env.package.inheritsFrom user owner
    | some _, none => false
    | none, _ => target.package = env.function.package

/-- What is known about the generic variables of `target`, called on `receiver?`. -/
def calleeContext (env : Environment) (receiver? : Option Ty) (target : Signature) :
    GenericContext :=
  let c := target.context env.declarations
  match receiver? with
  | some t => { c with owner := some t }
  | none => c

end Environment

namespace Analysis

def warnDeprecated (target : Signature) (span : Span) : Analysis Unit := do
  if (← read).warnDeprecated then
    report (.deprecated target.qualifiedName (target.deprecated?.filter (· ≠ "")) span)

/-- Checks that the function may be called here, and warns if it is deprecated. -/
def checkUse (target : Signature) (span : Span) : Analysis Unit := do
  let env ← read
  unless env.mayCall target do
    throw (.accessViolation target.qualifiedName env.function.qualifiedName span)
  if target.deprecated?.isSome then
    warnDeprecated target span

/-- The arguments of the call in `slot`. -/
def argumentsOf (slot : Slot) (target : Signature) : Analysis Arguments := do
  let e ← node slot
  match e.kind.arguments? with
  | some arguments => return arguments
  | none => throw (.unresolved .call target.qualifiedName e.span)

def checkGenericArguments (target : Signature) (receiver? : Option Ty) (arguments : Arguments) :
    Analysis (List Ty) := do
  let expected := target.generics.length
  let supplied := arguments.written.length
  if supplied ≠ expected then
    let parameter :=
      if target.generics.isEmpty then "<none>"
      else ", ".intercalate (target.generics.map (·.name))
    throw (.inferenceFailure target.qualifiedName parameter
      s!"{expected} generic argument(s) expected, {supplied} supplied" arguments.span)
  let c := (← read).calleeContext receiver? target
  (arguments.written.zip target.generics).mapM fun (written, generic) => do
    let t ← resolveType written
    requireSubtype t (c.upperBound generic.constraint) written.span
    return t

def collectCandidates (visit : Visit) (c : GenericContext) (target : Signature)
    (arguments : Arguments) : Analysis (List Candidates) :=
  (target.params.zip arguments.args).foldlM
    (fun all (param, arg) => do
      if param.type.mentionsLocalGenerics then
        return (← collectFrom visit (c.instantiate param.type) arg all).2
      else return all)
    (target.generics.map fun _ => .unseen)

def inferredArgument (c : GenericContext) (target : Signature) (span : Span)
    (generic : GenericParam) (candidates : Candidates) : Analysis Ty := do
  let failure reason : SemanticError :=
    .inferenceFailure target.qualifiedName generic.name reason span
  match candidates.result with
  | .error problem => throw (failure problem.message)
  | .ok t =>
    let env ← read
    let bound := c.upperBound generic.constraint
    unless env.declarations.isSubtype env.context t bound do
      throw (failure s!"inferred {t.text} does not satisfy {bound.text}")
    return t

def inferGenericArguments (visit : Visit) (target : Signature) (receiver? : Option Ty)
    (arguments : Arguments) : Analysis (List Ty) := do
  let c := (← read).calleeContext receiver? target
  let all ← collectCandidates visit c target arguments
  (target.generics.zip all).mapM fun (generic, candidates) =>
    inferredArgument c target arguments.span generic candidates

/-- The generic arguments of the call in `slot`, checked as written or else inferred, and kept. -/
def ensureGenericArguments (visit : Visit) (slot : Slot) (receiver? : Option Ty)
    (target : Signature) : Analysis (List Ty) := do
  let arguments ← argumentsOf slot target
  let resolved ←
    if !arguments.written.isEmpty then checkGenericArguments target receiver? arguments
    else if target.isGeneric then inferGenericArguments visit target receiver? arguments
    else pure []
  modifyKind slot (·.withGenericArguments resolved)
  return resolved

/-- Checks the call in `slot`, of `target` on `receiver?`, and returns the type of its result. -/
def analyseFunctionCall (visit : Visit) (slot : Slot) (receiver? : Option Ty)
    (target : Signature) : Analysis Ty := do
  let arguments ← argumentsOf slot target
  checkUse target arguments.span
  if arguments.args.length ≠ target.params.length then
    throw (.argumentCount target.qualifiedName target.params.length arguments.args.length
      arguments.span)
  let generics ← ensureGenericArguments visit slot receiver? target
  let c := { (← read).calleeContext receiver? target with args := generics }
  (target.params.zip arguments.args).forM fun (param, arg) =>
    discard (expectType visit (c.instantiate param.type) arg)
  return c.instantiate target.ret

end Analysis

end Boxlang
