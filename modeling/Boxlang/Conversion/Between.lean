import Boxlang.Conversion.Basic

/-!
# Conversions between types

`conversionBetween? a b` is the single step from a value held as `a` to one held
as `b`, or `none` if both are held alike.  For callables the step adapts the
whole callable, position by position: arguments go from the target's parameters
to the source's, the result from the source's to the target's.
-/

namespace Boxlang

mutual

/-- Whether values of two types are held differently, also inside callable signatures. -/
def representationsDiffer (a b : Ty) : Bool :=
  match _ha : a.unboxed, _hb : b.unboxed with
  | .callable params ret, .callable params' ret' =>
    if params.length = params'.length then
      anyRepresentationsDiffer params params' || representationsDiffer ret ret'
    else a.storage != b.storage
  | _, _ => a.storage != b.storage
termination_by 2 * a.size
decreasing_by
  all_goals
    have hle := Ty.size_unboxed_le a
    simp only [_ha, Ty.size] at hle
    omega

/-- Whether values of two types are held differently at some position of two lists. -/
def anyRepresentationsDiffer : List Ty → List Ty → Bool
  | a :: as, b :: bs => representationsDiffer a b || anyRepresentationsDiffer as bs
  | _, _ => false
termination_by as => 2 * Ty.sizeAll as + 1
decreasing_by
  all_goals
    have := Ty.size_pos a
    simp only [Ty.sizeAll]
    omega

end

mutual

/-- The step from a value held as `source` to one held as `target`, if they are held differently. -/
def conversionBetween? (source target : Ty) : Option Conversion :=
  match source.storage, target.storage with
  | .simple, .simple | .simpleOptional, .simpleOptional => none
  | .simple, .simpleOptional => some .wrapOptional
  | .simpleOptional, .simple => some .unwrapOptional
  | .simple, .box => some (.box source target.protocolName?)
  | .simpleOptional, .box => some (.boxOptional (source.optionalInner?.getD source))
  | .box, .simple => some (.unbox target.unboxed)
  | .box, .simpleOptional => some (.unboxOptional target.unboxed)
  | .box, .box =>
    match target.unboxed with
    | .protocol name => if source.unboxed = target.unboxed then none else some (.rebox name)
    | .callable _ _ =>
      if representationsDiffer source target then some (callableAdapter source target) else none
    | _ => none
termination_by 2 * (source.size + target.size) + 1
decreasing_by omega

/-- The adapter that lets a callable held as `source` be invoked as `target`. -/
def callableAdapter (source target : Ty) : Conversion :=
  match _hs : source.unboxed, _ht : target.unboxed with
  | .callable params ret, .callable params' ret' =>
    .adaptCallable source target (conversionsBetween params' params) (conversionBetween? ret ret')
  | _, _ => .adaptCallable source target [] none
termination_by 2 * (source.size + target.size)
decreasing_by
  all_goals
    have hs := Ty.size_unboxed_le source
    have ht := Ty.size_unboxed_le target
    simp only [_hs, _ht, Ty.size] at hs ht
    omega

def conversionsBetween : List Ty → List Ty → List (Option Conversion)
  | a :: as, b :: bs => conversionBetween? a b :: conversionsBetween as bs
  | _, _ => []
termination_by as bs => 2 * (Ty.sizeAll as + Ty.sizeAll bs) + 2
decreasing_by
  all_goals
    have := Ty.size_pos a
    have := Ty.size_pos b
    simp only [Ty.sizeAll]
    omega

end

end Boxlang
