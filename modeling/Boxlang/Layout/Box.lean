import Boxlang.Layout.Value

/-!
# Box images

A box is a meta address followed by four words of value storage.  A value that
needs more words lies outside the box.  A box whose meta address is zero holds no
value.
-/

namespace Boxlang

def boxValueWords : Nat :=
  4

/-- Whether a value of the type fits the inline words of a box. -/
def Declarations.storedInline (d : Declarations) (t : Ty) : Bool :=
  d.wordsOf t ≤ boxValueWords

structure BoxImage where
  /-- The address of the meta, or zero. -/
  tag : UInt64
  words : Vector UInt64 boxValueWords
  /-- The words of a value that does not fit inline. -/
  outOfLine : Option (List UInt64) := none
  deriving DecidableEq

namespace BoxImage

def padded (words : List UInt64) : Vector UInt64 boxValueWords :=
  Vector.ofFn fun i => words.getD i 0

def empty : BoxImage where
  tag := 0
  words := padded []

def hasValue (image : BoxImage) : Bool :=
  image.tag != 0

def encode (tag : Address) (v : SimpleValue) : BoxImage :=
  if v.toWords.length ≤ boxValueWords then { tag := tag.word, words := padded v.toWords }
  else { tag := tag.word, words := padded [], outOfLine := some v.toWords }

/-- The value, of a type that is `width` words wide, that a box holds, if it holds one. -/
def decode (image : BoxImage) (t : Ty) (width : Nat) : Except LayoutError (Option SimpleValue) :=
  if image.hasValue then
    match image.outOfLine with
    | some words => (SimpleValue.ofWords? t words).map some
    | none =>
      if width ≤ boxValueWords then
        (SimpleValue.ofWords? t (image.words.toList.take width)).map some
      else .error (.widthMismatch t.text width boxValueWords)
  else .ok none

end BoxImage

end Boxlang
