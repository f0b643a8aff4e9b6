import Boxlang.Analysis.Basic
import Boxlang.Conversion.Between

/-!
# Compliance

How a value that was analysed as one type is made to meet an expectation.  The
decision is a function of the two, `Expectation.compliance`; carrying it out
inserts at most one conversion.
-/

namespace Boxlang

/-- What it takes for a value to meet an expectation. -/
inductive Compliance where
  /-- The value, of this type, already does. -/
  | asIs (t : Ty)
  /-- A conversion makes it a value of type `t` that does. -/
  | convert (op : Conversion) (t : Ty)
  /-- No conversion does. -/
  | refused
  deriving Inhabited

namespace Expectation

/-- From box to box only the tag changes, and only where the value widens to another protocol. -/
def boxToBox (e : Expectation) (actual : Ty) : Compliance :=
  match e.type.protocolName? with
  | none => .asIs actual
  | some name =>
    if actual.unboxed = e.type.unboxed then .asIs actual
    else .convert (.rebox name) (.protocol name)

/-- A box whose content has a simple type is unboxed as that type. -/
def boxToSimple (_e : Expectation) (actual : Ty) : Compliance :=
  if actual.unboxed.storage = .simple then .convert (.unbox actual.unboxed) actual.unboxed
  else .refused

/--
A box is unboxed as a simple optional if its content is an optional of a simple
type, or has a simple type itself.  Storage marks inside the type do not matter.
-/
def boxToSimpleOptional (_e : Expectation) (actual : Ty) : Compliance :=
  match actual.erased with
  | .optional inner =>
    if inner.storage = .simple then .convert (.unboxOptional (.optional inner)) (.optional inner)
    else .refused
  | t =>
    if t.storage = .simple then .convert (.unboxOptional (.optional t)) (.optional t)
    else .refused

def simpleToBox (e : Expectation) (actual : Ty) : Compliance :=
  match e.type.protocolName? with
  | some name => .convert (.box actual (some name)) (.protocol name)
  | none => .convert (.box actual none) (actual.heldIn .box)

def storageCompliance (e : Expectation) (actual : Ty) : Compliance :=
  match actual.storage, e.target actual with
  | .box, .box => e.boxToBox actual
  | .box, .simple => e.boxToSimple actual
  | .box, .simpleOptional => e.boxToSimpleOptional actual
  | .simple, .box => e.simpleToBox actual
  | .simpleOptional, .box =>
    .convert (.boxOptional (actual.optionalInner?.getD actual)) (actual.heldIn .box)
  | .simple, .simpleOptional => .convert .wrapOptional (.optional actual)
  -- Dropping optionality takes an explicit unwrap.
  | .simpleOptional, .simple => .refused
  | .simple, .simple | .simpleOptional, .simpleOptional => .asIs actual

/-- Whether both are callables of one arity that hold some parameter or the result differently. -/
def needsAdapter (e : Expectation) (actual : Ty) : Bool :=
  actual.isCallable && e.type.isCallable && representationsDiffer actual e.type

/-- A callable is wrapped in an adapter that is invoked as the expected type. -/
def adapted (e : Expectation) (actual : Ty) : Compliance :=
  .convert (callableAdapter actual e.type) e.type

/-- What it takes for a value analysed as `actual` to meet the expectation. -/
def compliance (e : Expectation) (actual : Ty) : Compliance :=
  if actual.isError || e.type.isError then .asIs actual
  else if e.needsAdapter actual then e.adapted actual
  else e.storageCompliance actual

end Expectation

namespace Analysis

/-- Carries out what was decided for the value in `slot`, and returns its final type. -/
def carryOut (how : Compliance) (actual : Ty) (e : Expectation) (slot : Slot) : Analysis Ty := do
  match how with
  | .asIs t => return t
  | .convert op t => insertConversion slot op t
  | .refused => throw (.mismatch e.type actual (← spanOf slot))

/-- Makes the value in `slot`, analysed as `actual`, meet the expectation. -/
def comply (actual : Ty) (e : Expectation) (slot : Slot) : Analysis Ty :=
  carryOut (e.compliance actual) actual e slot

end Analysis

end Boxlang
