/-!
# Global names and constant text

The written forms of global symbols and of the bytes of string constants.  A
symbol is bare where its name permits that, and quoted otherwise.
-/

namespace Boxlang.Llvm

structure Global where
  name : String
  deriving DecidableEq, Inhabited

namespace Global

def isBareChar (c : Char) : Bool :=
  c.isAlphanum || c == '_' || c == '.'

def isBare (name : List Char) : Bool :=
  match name with
  | [] => false
  | c :: _ => !c.isDigit && name.all isBareChar

def quotedChar (c : Char) : List Char :=
  if c = '"' then ['\\', '2', '2'] else if c = '\\' then ['\\', '5', 'C'] else [c]

def text (g : Global) : String :=
  let name := g.name.toList
  if isBare name then "@" ++ g.name
  else "@\"" ++ String.ofList (name.flatMap quotedChar) ++ "\""

end Global

def hexDigit (n : Nat) : Char :=
  if n < 10 then Char.ofNat (48 + n) else Char.ofNat (55 + n)

def hexByte (b : UInt8) : List Char :=
  [hexDigit (b.toNat / 16), hexDigit (b.toNat % 16)]

/-- Whether a byte stands for itself in a string constant: visible ASCII and the blank. -/
def isPlainByte (b : UInt8) : Bool :=
  32 ≤ b && b < 127 && b != 34 && b != 92

def constantByte (b : UInt8) : List Char :=
  if isPlainByte b then [Char.ofNat b.toNat] else '\\' :: hexByte b

def constantText (bytes : List UInt8) : List Char :=
  bytes.flatMap constantByte

def hexWord (w : UInt64) : String :=
  let digits := Nat.toDigits 16 w.toNat
  String.ofList (List.replicate (16 - digits.length) '0' ++ digits.map Char.toUpper)

end Boxlang.Llvm
