import Boxlang.Declarations
import Boxlang.GenericContext
import Boxlang.Span

/-!
# Functions and packages

A `Package` is a list of function signatures over declared types; the number of
a function is its place in that list.  Functions whose owner is a declared type
are methods of it, all others are free.  Of functions with one owner and name the
latest is the one that calls find.
-/

namespace Boxlang

inductive Access where
  | isPublic
  /-- Functions of the same owner; for free functions, of the same package. -/
  | isPrivate
  /-- Functions of the owner or of one of its subclasses. -/
  | isProtected
  deriving DecidableEq, Inhabited

structure Param where
  name : String
  type : Ty
  deriving DecidableEq, Inhabited

structure GenericParam where
  name : String
  constraint : Ty := .something
  deriving DecidableEq, Inhabited

/--
The signature of a function.  Its types may mention its own generic parameters
and those of the type that owns it.
-/
structure Signature where
  name : String
  span : Span := ⟨0, 1⟩
  package : String := "main"
  owner? : Option Ty := none
  access : Access := .isPublic
  /-- The note of a deprecated function. -/
  deprecated? : Option String := none
  generics : List GenericParam := []
  params : List Param := []
  ret : Ty := .nothing
  deriving DecidableEq, Inhabited

namespace Signature

def isGeneric (f : Signature) : Bool :=
  !f.generics.isEmpty

def ownerName? (f : Signature) : Option String :=
  f.owner?.bind Ty.nominalName?

def qualifiedName (f : Signature) : String :=
  match f.owner? with
  | some owner => owner.text ++ "." ++ f.name
  | none => f.name

def context (f : Signature) (d : Declarations) : GenericContext where
  owner := f.owner?
  ownerConstraints :=
    match f.owner? with
    | some owner => (d.genericsOf owner).map fun _ => .something
    | none => []
  constraints := f.generics.map (·.constraint)

end Signature

structure Package where
  name : String := "main"
  declarations : Declarations := .prelude
  functions : List Signature := []
  deriving Inhabited

namespace Package

def signature (p : Package) (id : Nat) : Signature :=
  p.functions.getD id default

def findLast? (p : Package) (test : Signature → Bool) : Option Nat :=
  (p.functions.zipIdx.reverse.find? fun (f, _) => test f).map (·.2)

def function? (p : Package) (name : String) : Option Nat :=
  p.findLast? fun f => f.ownerName? = none && f.name = name

def ownMethod? (p : Package) (name : String) (t : Ty) : Option Nat :=
  t.nominalName?.bind fun owner => p.findLast? fun f => f.ownerName? = some owner && f.name = name

def method? (p : Package) (t : Ty) (name : String) : Option Nat :=
  p.ownMethod? name t.unboxed
    <|> p.declarations.findSomeAncestor? t.unboxed (p.ownMethod? name)

/-- Whether `owner` is the declaration of `t` or of one of its ancestors. -/
def inheritsFrom (p : Package) (t owner : Ty) : Bool :=
  t.unboxed.nominalName? = owner.nominalName?
    || p.declarations.hasAncestor t.unboxed (·.nominalName? = owner.nominalName?)

end Package

end Boxlang
