import Boxlang.Declarations

/-!
# Simple values as words

A simple value occupies a fixed number of 64-bit words.  `SimpleValue.toWords`
lays a value out and `SimpleValue.ofWords?` reads one of a given type back,
refusing words that no value of the type is stored as.
-/

namespace Boxlang

/-- Why an image is not one of a value. -/
inductive LayoutError where
  | unsupportedType (type : String)
  | invalidPayload (type : String) (word : UInt64)
  | widthMismatch (type : String) (expected actual : Nat)
  deriving DecidableEq

namespace LayoutError

def hex (word : UInt64) : String :=
  "0x" ++ String.ofList (Nat.toDigits 16 word.toNat)

def message : LayoutError → String
  | .unsupportedType type => s!"{type} cannot be held in a box or optional image"
  | .invalidPayload type word => "payload " ++ hex word ++ " is not a valid " ++ type
  | .widthMismatch type expected actual =>
    s!"{type} needs {expected} word(s), image holds {actual}"

def code : LayoutError → String
  | .unsupportedType _ => "ember::layout::unsupported"
  | .invalidPayload _ _ => "ember::layout::payload"
  | .widthMismatch _ _ _ => "ember::layout::width"

end LayoutError

/-- The number of words that a simple value of the type occupies. -/
def Declarations.wordsOf (d : Declarations) (t : Ty) : Nat :=
  match t.unboxed with
  | .nothing => 0
  | .value _ _ => d.valueWords t
  | _ => 1

/-- The address of an object or a meta; no address is zero. -/
structure Address where
  word : UInt64
  word_ne_zero : word ≠ 0
  deriving DecidableEq

def Address.ofWord? (word : UInt64) : Option Address :=
  if h : word ≠ 0 then some ⟨word, h⟩ else none

inductive SimpleValue where
  | int (value : Int64)
  /-- A real, as the bits of its double precision representation. -/
  | real (bits : UInt64)
  | bool (value : Bool)
  | byte (value : UInt8)
  | symbol (value : Char)
  /-- An enum, by the index of its case. -/
  | enum (case : UInt32)
  | reference (address : Address)
  /-- The words of a value type. -/
  | aggregate (words : List UInt64)
  deriving DecidableEq

namespace SimpleValue

def toWords : SimpleValue → List UInt64
  | .int v => [v.toUInt64]
  | .real bits => [bits]
  | .bool v => [if v then 1 else 0]
  | .byte v => [v.toUInt64]
  | .symbol v => [v.val.toUInt64]
  | .enum case => [case.toUInt64]
  | .reference address => [address.word]
  | .aggregate words => words

def ofWord? (t : Ty) (word : UInt64) : Except LayoutError SimpleValue :=
  match t with
  | .int => .ok (.int word.toInt64)
  | .real => .ok (.real word)
  | .bool =>
    if word = 0 then .ok (.bool false)
    else if word = 1 then .ok (.bool true)
    else .error (.invalidPayload t.text word)
  | .byte =>
    if word.toNat < UInt8.size then .ok (.byte word.toUInt8)
    else .error (.invalidPayload t.text word)
  | .symbol =>
    if h : word.toNat.isValidChar then .ok (.symbol (Char.ofNatAux word.toNat h))
    else .error (.invalidPayload t.text word)
  | .enum _ =>
    if word.toNat < UInt32.size then .ok (.enum word.toUInt32)
    else .error (.invalidPayload t.text word)
  | .object _ _ | .typeValue _ =>
    match Address.ofWord? word with
    | some address => .ok (.reference address)
    | none => .error (.invalidPayload t.text word)
  | _ => .error (.unsupportedType t.text)

def ofWords? (t : Ty) (words : List UInt64) : Except LayoutError SimpleValue :=
  match t.unboxed, words with
  | .value _ _, ws => .ok (.aggregate ws)
  | u, [word] => ofWord? u word
  | u, ws => .error (.widthMismatch u.text 1 ws.length)

end SimpleValue

end Boxlang
