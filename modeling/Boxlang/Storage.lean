import Boxlang.Ty.Basic

/-!
# Storage

How values are physically held.  `Ty.storage` is the storage a type asks for by
itself; `Ty.heldIn` is the type as held in a given storage.

A simple representation has exactly one spare pattern, so an optional of a
simple type stays simple, while an optional of anything else, another optional
included, is boxed.
-/

namespace Boxlang

inductive Storage where
  /-- The native representation. -/
  | simple
  /-- The native representation, or a pattern that stands for no value. -/
  | simpleOptional
  /-- A meta pointer and a value slot. -/
  | box
  deriving DecidableEq, Inhabited

namespace Storage

def text : Storage → String
  | .simple => "simple"
  | .simpleOptional => "simple optional"
  | .box => "box"

end Storage

namespace Ty

def storage : Ty → Storage
  | .boxed _ | .something | .protocol _ | .generic _ _ | .localGeneric _ _ | .callable _ _ => .box
  | .optional inner =>
    match storage inner with
    | .simple => .simpleOptional
    | .simpleOptional | .box => .box
  | .error | .nothing | .int | .real | .bool | .byte | .symbol
  | .object _ _ | .value _ _ | .enum _ | .typeValue _ => .simple

theorem storage_inBox {t : Ty} (h : t ≠ .error) : t.inBox.storage = .box := by
  cases t <;> simp_all [inBox, storage]

/--
The type as held in `s`.  Box storage is marked where the shape does not imply
it, and simple storage drops an outermost mark.
-/
def heldIn (t : Ty) (s : Storage) : Ty :=
  match s with
  | .box => if t.storage = .box then t else t.inBox
  | .simple => t.unboxed
  | .simpleOptional =>
    match t.unboxed with
    | .optional inner => .optional inner
    | u => .optional u

theorem storage_heldIn_box {t : Ty} (h : t ≠ .error) : (t.heldIn .box).storage = .box := by
  unfold heldIn
  dsimp only
  split
  · assumption
  · exact storage_inBox h

end Ty

/-- What a use site asks of a value's storage. -/
inductive StoragePolicy where
  /-- The storage of the expected type. -/
  | declared
  /-- A box, even where the value could stay simple. -/
  | forced
  /-- Simple storage if the type of the value permits it, a box otherwise. -/
  | preferSimple
  deriving DecidableEq, Inhabited

/-- What a use site asks of a value: its type and how it is to be held. -/
structure Expectation where
  type : Ty
  policy : StoragePolicy := .declared
  deriving DecidableEq

/-- The storage in which a value analysed as `actual` meets the expectation. -/
def Expectation.target (e : Expectation) (actual : Ty) : Storage :=
  match e.policy with
  | .declared => e.type.storage
  | .forced => .box
  | .preferSimple => actual.erased.storage

end Boxlang
