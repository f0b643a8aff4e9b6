/-!
# Types

The types of the language, together with the storage mark `boxed`.  A type says
what values an expression has; the mark additionally says that such a value is
held in a box even where its shape would allow a native representation.

`erased` forgets every mark, `unboxed` only an outermost one, and `inBox` adds
one where it carries information.  `subst` replaces generic variables.
-/

namespace Boxlang

inductive Ty where
  /-- Stands in for a type whose error was already reported; compatible with every type. -/
  | error
  /-- The type without values of its own, the result of functions that return none. -/
  | nothing
  | int
  | real
  | bool
  | byte
  | symbol
  /-- A class: its values are references to objects that begin with their meta pointer. -/
  | object (name : String) (args : List Ty)
  /-- An aggregate of machine words, stored inline. -/
  | value (name : String) (args : List Ty)
  | enum (name : String)
  | protocol (name : String)
  /-- The top type of all values that are not optional. -/
  | something
  /-- A generic parameter of the type that owns a method. -/
  | generic (index : Nat) (name : String)
  /-- A generic parameter of the function itself. -/
  | localGeneric (index : Nat) (name : String)
  | callable (params : List Ty) (ret : Ty)
  | optional (inner : Ty)
  /-- The type of `inner` used as a value. -/
  | typeValue (inner : Ty)
  /-- Values of `inner` held in box storage, whatever their shape. -/
  | boxed (inner : Ty)
  deriving Inhabited

namespace Ty

def string : Ty :=
  .object "String" []

/-! ### Equality -/

mutual

def same : Ty → Ty → Bool
  | .error, .error => true
  | .nothing, .nothing => true
  | .int, .int => true
  | .real, .real => true
  | .bool, .bool => true
  | .byte, .byte => true
  | .symbol, .symbol => true
  | .object n as, .object m bs => n == m && sameAll as bs
  | .value n as, .value m bs => n == m && sameAll as bs
  | .enum n, .enum m => n == m
  | .protocol n, .protocol m => n == m
  | .something, .something => true
  | .generic i n, .generic j m => i == j && n == m
  | .localGeneric i n, .localGeneric j m => i == j && n == m
  | .callable ps r, .callable qs s => sameAll ps qs && same r s
  | .optional a, .optional b => same a b
  | .typeValue a, .typeValue b => same a b
  | .boxed a, .boxed b => same a b
  | _, _ => false

def sameAll : List Ty → List Ty → Bool
  | [], [] => true
  | a :: as, b :: bs => same a b && sameAll as bs
  | _, _ => false

end

mutual

theorem eq_of_same : ∀ {a b : Ty}, same a b = true → a = b
  | .error, b, h => by cases b <;> simp_all [same]
  | .nothing, b, h => by cases b <;> simp_all [same]
  | .int, b, h => by cases b <;> simp_all [same]
  | .real, b, h => by cases b <;> simp_all [same]
  | .bool, b, h => by cases b <;> simp_all [same]
  | .byte, b, h => by cases b <;> simp_all [same]
  | .symbol, b, h => by cases b <;> simp_all [same]
  | .something, b, h => by cases b <;> simp_all [same]
  | .enum n, b, h => by cases b <;> simp_all [same]
  | .protocol n, b, h => by cases b <;> simp_all [same]
  | .generic i n, b, h => by cases b <;> simp_all [same]
  | .localGeneric i n, b, h => by cases b <;> simp_all [same]
  | .object n as, b, h => by
    cases b <;> simp only [same, Bool.and_eq_true, beq_iff_eq, Bool.false_eq_true] at h
    rw [h.1, eq_of_sameAll h.2]
  | .value n as, b, h => by
    cases b <;> simp only [same, Bool.and_eq_true, beq_iff_eq, Bool.false_eq_true] at h
    rw [h.1, eq_of_sameAll h.2]
  | .callable ps r, b, h => by
    cases b <;> simp only [same, Bool.and_eq_true, Bool.false_eq_true] at h
    rw [eq_of_sameAll h.1, eq_of_same h.2]
  | .optional a, b, h => by
    cases b <;> simp only [same, Bool.false_eq_true] at h
    rw [eq_of_same h]
  | .typeValue a, b, h => by
    cases b <;> simp only [same, Bool.false_eq_true] at h
    rw [eq_of_same h]
  | .boxed a, b, h => by
    cases b <;> simp only [same, Bool.false_eq_true] at h
    rw [eq_of_same h]

theorem eq_of_sameAll : ∀ {as bs : List Ty}, sameAll as bs = true → as = bs
  | [], [], _ => rfl
  | [], _ :: _, h => by simp [sameAll] at h
  | _ :: _, [], h => by simp [sameAll] at h
  | a :: as, b :: bs, h => by
    simp only [sameAll, Bool.and_eq_true] at h
    rw [eq_of_same h.1, eq_of_sameAll h.2]

end

mutual

theorem same_self : ∀ a : Ty, same a a = true
  | .error | .nothing | .int | .real | .bool | .byte | .symbol | .something => rfl
  | .enum n | .protocol n => by simp [same]
  | .generic i n | .localGeneric i n => by simp [same]
  | .object n as | .value n as => by simp [same, sameAll_self as]
  | .callable ps r => by simp [same, sameAll_self ps, same_self r]
  | .optional a | .typeValue a | .boxed a => by simp [same, same_self a]

theorem sameAll_self : ∀ as : List Ty, sameAll as as = true
  | [] => rfl
  | a :: as => by simp [sameAll, same_self a, sameAll_self as]

end

theorem same_iff {a b : Ty} : same a b = true ↔ a = b :=
  ⟨eq_of_same, fun h => h ▸ same_self a⟩

instance : DecidableEq Ty := fun _ _ =>
  decidable_of_iff _ same_iff

/-! ### Size -/

mutual

def size : Ty → Nat
  | .object _ args | .value _ args => 1 + sizeAll args
  | .callable params ret => 1 + sizeAll params + size ret
  | .optional inner | .typeValue inner | .boxed inner => 1 + size inner
  | _ => 1

def sizeAll : List Ty → Nat
  | [] => 0
  | t :: ts => size t + sizeAll ts

end

theorem size_pos (t : Ty) : 0 < t.size := by
  cases t <;> simp only [size] <;> omega

theorem size_le_of_mem {t : Ty} {ts : List Ty} (h : t ∈ ts) : t.size ≤ sizeAll ts := by
  induction ts with
  | nil => simp at h
  | cons u ts ih =>
    rw [sizeAll]
    rcases List.mem_cons.mp h with rfl | h
    · omega
    · have := ih h
      omega

theorem sizeAll_append (ts us : List Ty) : sizeAll (ts ++ us) = sizeAll ts + sizeAll us := by
  induction ts with
  | nil => simp [sizeAll]
  | cons t ts ih => simp [sizeAll, ih, Nat.add_assoc]

/-! ### Storage marks -/

/-- Marks a type as held in a box.  The mark is not repeated, and the error type takes none. -/
def inBox : Ty → Ty
  | .boxed inner => .boxed inner
  | .error => .error
  | t => .boxed t

def unboxed : Ty → Ty
  | .boxed inner => inner
  | t => t

mutual

def erased : Ty → Ty
  | .boxed inner => erased inner
  | .object name args => .object name (erasedAll args)
  | .value name args => .value name (erasedAll args)
  | .callable params ret => .callable (erasedAll params) (erased ret)
  | .optional inner => .optional (erased inner)
  | .typeValue inner => .typeValue (erased inner)
  | t => t

def erasedAll : List Ty → List Ty
  | [] => []
  | t :: ts => erased t :: erasedAll ts

end

theorem erasedAll_eq_map (ts : List Ty) : erasedAll ts = ts.map erased := by
  induction ts with
  | nil => rfl
  | cons t ts ih => simp [erasedAll, ih]

theorem erased_inBox (t : Ty) : t.inBox.erased = t.erased := by
  cases t <;> simp [inBox, erased]

theorem erased_unboxed (t : Ty) : t.unboxed.erased = t.erased := by
  cases t <;> simp [unboxed, erased]

theorem erased_ne_boxed : ∀ t u : Ty, t.erased ≠ .boxed u
  | .boxed inner, u => by
    rw [erased]
    exact erased_ne_boxed inner u
  | .error, _ | .nothing, _ | .int, _ | .real, _ | .bool, _ | .byte, _ | .symbol, _ => nofun
  | .something, _ | .enum _, _ | .protocol _, _ | .generic _ _, _ | .localGeneric _ _, _ => nofun
  | .object _ _, _ | .value _ _, _ | .callable _ _, _ | .optional _, _ | .typeValue _, _ => nofun

theorem unboxed_erased (t : Ty) : t.erased.unboxed = t.erased := by
  cases h : t.erased with
  | boxed u => exact (erased_ne_boxed t u h).elim
  | _ => rfl

mutual

theorem erased_erased : ∀ t : Ty, t.erased.erased = t.erased
  | .error | .nothing | .int | .real | .bool | .byte | .symbol | .something => by simp [erased]
  | .enum _ | .protocol _ | .generic _ _ | .localGeneric _ _ => by simp [erased]
  | .object _ args | .value _ args => by simp [erased, erasedAll_erasedAll args]
  | .callable params ret => by simp [erased, erasedAll_erasedAll params, erased_erased ret]
  | .optional inner | .typeValue inner | .boxed inner => by simp [erased, erased_erased inner]

theorem erasedAll_erasedAll : ∀ ts : List Ty, erasedAll (erasedAll ts) = erasedAll ts
  | [] => by simp [erasedAll]
  | t :: ts => by simp [erasedAll, erased_erased t, erasedAll_erasedAll ts]

end

theorem size_unboxed_le (t : Ty) : t.unboxed.size ≤ t.size := by
  cases t <;> simp [unboxed, size]

/-! ### Shape -/

def isError (t : Ty) : Bool :=
  t == .error

def isCallable (t : Ty) : Bool :=
  match t.unboxed with
  | .callable _ _ => true
  | _ => false

def optionalInner? (t : Ty) : Option Ty :=
  match t.unboxed with
  | .optional inner => some inner
  | _ => none

def protocolName? (t : Ty) : Option String :=
  match t.unboxed with
  | .protocol name => some name
  | _ => none

def nominalName? (t : Ty) : Option String :=
  match t.unboxed with
  | .object name _ | .value name _ | .enum name | .protocol name => some name
  | _ => none

mutual

/-- Whether a generic parameter of the function itself occurs in the type. -/
def mentionsLocalGenerics : Ty → Bool
  | .localGeneric _ _ => true
  | .object _ args | .value _ args => anyMentionsLocalGenerics args
  | .callable params ret => anyMentionsLocalGenerics params || mentionsLocalGenerics ret
  | .optional inner | .typeValue inner | .boxed inner => mentionsLocalGenerics inner
  | _ => false

def anyMentionsLocalGenerics : List Ty → Bool
  | [] => false
  | t :: ts => mentionsLocalGenerics t || anyMentionsLocalGenerics ts

end

/-! ### Substitution -/

mutual

/--
Replaces the generic variables for which a substitute is given.  Substitutes are
not substituted in again, and storage marks are normalised on the way up.
-/
def subst (owner locals : Nat → Option Ty) : Ty → Ty
  | .generic i n => (owner i).getD (.generic i n)
  | .localGeneric i n => (locals i).getD (.localGeneric i n)
  | .object name args => .object name (substAll owner locals args)
  | .value name args => .value name (substAll owner locals args)
  | .callable params ret =>
    .callable (substAll owner locals params) (subst owner locals ret)
  | .optional inner => .optional (subst owner locals inner)
  | .typeValue inner => .typeValue (subst owner locals inner)
  | .boxed inner => (subst owner locals inner).inBox
  | t => t

def substAll (owner locals : Nat → Option Ty) : List Ty → List Ty
  | [] => []
  | t :: ts => subst owner locals t :: substAll owner locals ts

end

theorem substAll_eq_map (owner locals : Nat → Option Ty) (ts : List Ty) :
    substAll owner locals ts = ts.map (subst owner locals) := by
  induction ts with
  | nil => rfl
  | cons t ts ih => simp [substAll, ih]

end Ty

end Boxlang
