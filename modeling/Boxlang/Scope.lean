import Boxlang.Package

/-!
# Scopes

The bindings visible at a place in a function.  Scopes nest; a name means its
innermost binding.  A closure opens a scope of its own, and reading a name that
is bound outside an open closure makes that closure capture the variable.

Variables are numbered in order of declaration and keep their numbers.
-/

namespace Boxlang

structure Binding where
  id : Nat
  type : Ty
  isMutable : Bool
  deriving DecidableEq, Inhabited

abbrev Frame := List (String × Binding)

structure OpenClosure where
  /-- The number of scopes that enclose the closure. -/
  base : Nat
  /-- The variables captured so far, in order of the first read. -/
  captures : List Nat := []
  deriving DecidableEq, Inhabited

structure Scope where
  innermost : Frame := []
  /-- The enclosing scopes, nearest first. -/
  outer : List Frame := []
  /-- The open closures, innermost first. -/
  closures : List OpenClosure := []
  /-- The number of variables declared so far. -/
  count : Nat := 0
  deriving DecidableEq, Inhabited

namespace Scope

def frames (s : Scope) : List Frame :=
  s.innermost :: s.outer

def push (s : Scope) : Scope :=
  { s with innermost := [], outer := s.frames }

def pop (s : Scope) : Scope :=
  match s.outer with
  | [] => s
  | f :: fs => { s with innermost := f, outer := fs }

def declare (s : Scope) (name : String) (type : Ty) (isMutable : Bool) : Nat × Scope :=
  (s.count,
    { s with
      innermost := (name, { id := s.count, type, isMutable }) :: s.innermost
      count := s.count + 1 })

def find? (name : String) : List Frame → Option (Nat × Binding)
  | [] => none
  | f :: fs =>
    match f.lookup name with
    | some b => some (fs.length, b)
    | none => find? name fs

def lookup? (s : Scope) (name : String) : Option Binding :=
  (find? name s.frames).map (·.2)

/-- Notes that a variable bound within `depth` enclosing scopes is read inside the closure. -/
def OpenClosure.noteRead (c : OpenClosure) (depth id : Nat) : OpenClosure :=
  if depth < c.base && !c.captures.contains id then { c with captures := c.captures ++ [id] }
  else c

/-- What a name means where it is read; open closures outside of which it is bound capture it. -/
def resolve (s : Scope) (name : String) : Option Binding × Scope :=
  match find? name s.frames with
  | none => (none, s)
  | some (depth, b) =>
    (some b, { s with closures := s.closures.map (OpenClosure.noteRead · depth b.id) })

def enterClosure (s : Scope) : Scope :=
  { s.push with closures := { base := s.frames.length } :: s.closures }

/-- Closes the innermost scope and closure, and returns what the closure captured. -/
def exitClosure (s : Scope) : List Nat × Scope :=
  match s.closures with
  | [] => ([], s.pop)
  | c :: cs => (c.captures, { s.pop with closures := cs })

/-- The scope of a function's body: its parameters are the first variables. -/
def ofSignature (f : Signature) : Scope :=
  f.params.foldl (fun s p => (s.declare p.name p.type false).2) {}

/-! ### Scopes after a declaration -/

theorem lookup?_declare_self (s : Scope) (name : String) (type : Ty) (isMutable : Bool) :
    (s.declare name type isMutable).2.lookup? name = some { id := s.count, type, isMutable } := by
  simp [declare, lookup?, frames, find?]

theorem lookup?_declare_of_ne (s : Scope) {name other : String} (h : other ≠ name) (type : Ty)
    (isMutable : Bool) : (s.declare name type isMutable).2.lookup? other = s.lookup? other := by
  have : (other == name) = false := by simpa using h
  simp [declare, lookup?, frames, find?, List.lookup_cons, this]

end Scope

end Boxlang
