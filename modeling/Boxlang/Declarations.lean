import Boxlang.Ty.Text

/-!
# Declared types

The classes, value types, enums and protocols of a package.  A declaration made
again replaces the earlier one of its kind and name: tables hold the latest
declaration first, and lookup takes the first match.

A class may name a superclass, in terms of its own generic parameters.  Walking
superclasses from a type visits its `ancestors`; everything that is inherited is
collected along that walk.
-/

namespace Boxlang

/-- A class: its superclass, its protocols and the names of its generic parameters. -/
structure ClassDecl where
  superclass : Option Ty := none
  protocols : List String := []
  generics : List String := []

/-- The number of nodes of the declared superclass, 0 if there is none. -/
def ClassDecl.superclassSize (decl : ClassDecl) : Nat :=
  (decl.superclass.map Ty.size).getD 0

/-- A value type: its width in machine words, its protocols and its generic parameters. -/
structure ValueDecl where
  words : Nat := 1
  protocols : List String := []
  generics : List String := []

structure EnumDecl where
  cases : List String := []
  protocols : List String := []

structure Declarations where
  classes : List (String × ClassDecl) := []
  values : List (String × ValueDecl) := []
  enums : List (String × EnumDecl) := []
  protocols : List String := []
  /-- Protocols of primitive types, by the written form of the type, in order of declaration. -/
  conformances : List (String × String) := []

namespace Declarations

def prelude : Declarations where
  classes := [("String", {})]

def addClass (d : Declarations) (name : String) (decl : ClassDecl) : Declarations :=
  { d with classes := (name, decl) :: d.classes }

def addValue (d : Declarations) (name : String) (decl : ValueDecl) : Declarations :=
  { d with values := (name, decl) :: d.values }

def addEnum (d : Declarations) (name : String) (decl : EnumDecl) : Declarations :=
  { d with enums := (name, decl) :: d.enums }

def addProtocol (d : Declarations) (name : String) : Declarations :=
  { d with protocols := d.protocols.insert name }

def addConformance (d : Declarations) (primitive : Ty) (name : String) : Declarations :=
  { d with conformances := d.conformances ++ [(primitive.text, name)] }

def class? (d : Declarations) (name : String) : Option ClassDecl :=
  d.classes.lookup name

def value? (d : Declarations) (name : String) : Option ValueDecl :=
  d.values.lookup name

def enum? (d : Declarations) (name : String) : Option EnumDecl :=
  d.enums.lookup name

def hasProtocol (d : Declarations) (name : String) : Bool :=
  d.protocols.contains name

/--
The type, without arguments, that a declared name stands for.  Where kinds share
a name, classes come before value types, enums and protocols.
-/
def type? (d : Declarations) (name : String) : Option Ty :=
  if (d.class? name).isSome then some (.object name [])
  else if (d.value? name).isSome then some (.value name [])
  else if (d.enum? name).isSome then some (.enum name)
  else if d.hasProtocol name then some (.protocol name)
  else none

def valueWords (d : Declarations) (t : Ty) : Nat :=
  match t.unboxed with
  | .value name _ => ((d.value? name).map (·.words)).getD 1
  | _ => 1

def genericsOf (d : Declarations) (t : Ty) : List String :=
  match t with
  | .object name _ => ((d.class? name).map (·.generics)).getD []
  | .value name _ => ((d.value? name).map (·.generics)).getD []
  | _ => []

/-! ### Superclasses -/

def superclass? (d : Declarations) (t : Ty) : Option Ty :=
  match t with
  | .object name args =>
    ((d.class? name).bind (·.superclass)).map
      (Ty.subst (fun i => args[i]?) (fun _ => none))
  | _ => none

/-- The first `n` proper ancestors of a type, nearest first. -/
def ancestorsWithin (d : Declarations) : Nat → Ty → List Ty
  | 0, _ => []
  | n + 1, t =>
    match d.superclass? t with
    | none => []
    | some s => s :: d.ancestorsWithin n s

/--
A number of steps in which the walk from a type over its ancestors ends, unless it
goes on for ever.

A superclass may be one of the arguments of the class, so a walk can meet a class
again: a walk at `C<…>` climbs through the declared superclass of `C`, and then
ends or goes on with an argument of `C`.  While it climbs through `C` it cannot
arrive at `C` again, or it would climb for ever.  A climb therefore takes one step
and, for each node of the declared superclass, at most one climb through another
class; at most one climb starts from each node of the type.
-/
def ancestorSteps (d : Declarations) (t : Ty) : Nat :=
  d.classes.foldr (fun (_, decl) steps => (decl.superclassSize + 1) * steps) t.size

def ancestors (d : Declarations) (t : Ty) : List Ty :=
  d.ancestorsWithin (d.ancestorSteps t) t

def lineage (d : Declarations) (t : Ty) : List Ty :=
  t :: d.ancestors t

/--
The first answer of `f` on the first `n` proper ancestors of a type.  No ancestor
beyond that answer is computed.
-/
def findSomeWithin? {α : Type} (d : Declarations) (f : Ty → Option α) : Nat → Ty → Option α
  | 0, _ => none
  | n + 1, t =>
    match d.superclass? t with
    | none => none
    | some s =>
      match f s with
      | some answer => some answer
      | none => d.findSomeWithin? f n s

theorem findSomeWithin?_eq_findSome? {α : Type} (d : Declarations) (f : Ty → Option α)
    (n : Nat) (t : Ty) : d.findSomeWithin? f n t = (d.ancestorsWithin n t).findSome? f := by
  induction n generalizing t with
  | zero => rfl
  | succ n ih =>
    simp only [findSomeWithin?, ancestorsWithin]
    cases d.superclass? t with
    | none => rfl
    | some s =>
      simp only [List.findSome?_cons, ih]
      rfl

/-- The answer of `f` on the nearest proper ancestor of a type that has one. -/
def findSomeAncestor? {α : Type} (d : Declarations) (t : Ty) (f : Ty → Option α) : Option α :=
  d.findSomeWithin? f (d.ancestorSteps t) t

theorem findSomeAncestor?_eq_findSome? {α : Type} (d : Declarations) (t : Ty)
    (f : Ty → Option α) : d.findSomeAncestor? t f = (d.ancestors t).findSome? f :=
  d.findSomeWithin?_eq_findSome? f _ t

def findAncestor? (d : Declarations) (t : Ty) (p : Ty → Bool) : Option Ty :=
  d.findSomeAncestor? t (Option.guard p)

theorem findAncestor?_eq_find? (d : Declarations) (t : Ty) (p : Ty → Bool) :
    d.findAncestor? t p = (d.ancestors t).find? p := by
  rw [findAncestor?, findSomeAncestor?_eq_findSome?, List.findSome?_guard]

def hasAncestor (d : Declarations) (t : Ty) (p : Ty → Bool) : Bool :=
  (d.findAncestor? t p).isSome

theorem hasAncestor_eq_any (d : Declarations) (t : Ty) (p : Ty → Bool) :
    d.hasAncestor t p = (d.ancestors t).any p := by
  rw [hasAncestor, findAncestor?_eq_find?, List.isSome_find?]

def classProtocols (d : Declarations) (t : Ty) : List String :=
  match t with
  | .object name _ => ((d.class? name).map (·.protocols)).getD []
  | _ => []

/-- All protocols of a type; a class has those of its ancestors as well, nearest first. -/
def protocolsOf (d : Declarations) (t : Ty) : List String :=
  match t with
  | .object _ _ => (d.lineage t).flatMap d.classProtocols
  | .value name _ => ((d.value? name).map (·.protocols)).getD []
  | .enum name => ((d.enum? name).map (·.protocols)).getD []
  | .int | .real | .bool | .byte | .symbol =>
    d.conformances.filterMap fun (primitive, name) =>
      if primitive = t.text then some name else none
  | _ => []

def conformsTo (d : Declarations) (t : Ty) (name : String) : Bool :=
  (d.protocolsOf t).contains name

end Declarations

end Boxlang
