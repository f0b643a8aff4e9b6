import Boxlang.Layout.Value

/-!
# Images of simple optionals

An optional of a simple type takes no extra storage where the type has a word
that no value is stored as, its niche.  Otherwise a flag tells whether there is a
value.
-/

namespace Boxlang

/-- How an optional of a simple type says that it holds no value. -/
inductive OptionalLayout where
  /-- By the null reference. -/
  | nullPointer
  /-- By an integer that no value of the type is stored as. -/
  | sentinel (word : Int64)
  /-- By a flag beside the value. -/
  | flagged
  deriving DecidableEq, Inhabited

namespace OptionalLayout

/-- The first number past the Unicode code points. -/
def symbolSentinel : Int64 :=
  0x110000

def enumSentinel : Int64 :=
  -1

def ofType (t : Ty) : OptionalLayout :=
  match t.unboxed with
  | .object _ _ | .typeValue _ => .nullPointer
  | .symbol => .sentinel symbolSentinel
  | .enum _ => .sentinel enumSentinel
  | _ => .flagged

def text : OptionalLayout → String
  | .nullPointer => "NullPointer"
  | .sentinel word => "Sentinel(" ++ toString word.toInt ++ ")"
  | .flagged => "Flagged"

def niche? : OptionalLayout → Option UInt64
  | .nullPointer => some 0
  | .sentinel word => some word.toUInt64
  | .flagged => none

end OptionalLayout

inductive OptionalImage where
  /-- The word of the value, or the niche. -/
  | niche (word : UInt64)
  | flagged (present : Bool) (words : List UInt64)
  deriving DecidableEq

namespace OptionalImage

/-- The image of an optional value of a type that is `width` words wide. -/
def encode? (layout : OptionalLayout) (v? : Option SimpleValue) (width : Nat) :
    Except LayoutError OptionalImage :=
  match layout.niche?, v?.map SimpleValue.toWords with
  | some word, none => .ok (.niche word)
  | some _, some [word] => .ok (.niche word)
  | some _, some words =>
    .error (.widthMismatch (layout.text ++ " optional payload") 1 words.length)
  | none, none => .ok (.flagged false (List.replicate width 0))
  | none, some words =>
    if words.length = width then .ok (.flagged true words)
    else .error (.widthMismatch "flagged optional payload" width words.length)

def decode? (image : OptionalImage) (t : Ty) (layout : OptionalLayout) :
    Except LayoutError (Option SimpleValue) :=
  match image, layout.niche? with
  | .niche word, some absent =>
    if word = absent then .ok none else (SimpleValue.ofWords? t [word]).map some
  | .flagged false _, none => .ok none
  | .flagged true words, none => (SimpleValue.ofWords? t words).map some
  | _, _ => .error (.unsupportedType ("?" ++ t.text))

end OptionalImage

end Boxlang
