import Boxlang.GenericContext
import Boxlang.Proofs.Types.Ancestors

/-!
# Instances of types

`GenericContext.erasedInstance` replaces the variables of a type by their arguments
and forgets all storage marks.  Marks make no difference to it, and it keeps every
shape other than a variable.

Where superclasses are written in terms of the variables of their own class, and
classes are applied to all arguments they declare, an instance of a class extends
the instance of its superclass (`Declarations.Extends.erasedInstance`).
-/

namespace Boxlang

namespace Ty

/-! ### Properties of all nodes -/

mutual

def Every (p : Ty → Prop) : Ty → Prop
  | .object name args => p (.object name args) ∧ EveryAll p args
  | .value name args => p (.value name args) ∧ EveryAll p args
  | .callable params ret => p (.callable params ret) ∧ EveryAll p params ∧ Every p ret
  | .optional inner => p (.optional inner) ∧ Every p inner
  | .typeValue inner => p (.typeValue inner) ∧ Every p inner
  | .boxed inner => p (.boxed inner) ∧ Every p inner
  | t => p t

def EveryAll (p : Ty → Prop) : List Ty → Prop
  | [] => True
  | t :: ts => Every p t ∧ EveryAll p ts

end

variable {p q : Ty → Prop}

theorem everyAll_iff {ts : List Ty} : EveryAll p ts ↔ ∀ t ∈ ts, t.Every p := by
  induction ts with
  | nil => simp [EveryAll]
  | cons t ts ih => simp [EveryAll, ih]

theorem Every.self {t : Ty} (h : t.Every p) : p t := by
  cases t <;> first | exact h.1 | exact h

/-- The type carries no storage mark at this node. -/
def IsUnmarked : Ty → Prop
  | .boxed _ => False
  | _ => True

/-- The type is no variable other than the first `n` ones of a class. -/
def IsScoped (n : Nat) : Ty → Prop
  | .generic i _ => i < n
  | .localGeneric _ _ => False
  | _ => True

mutual

theorem every_erased (h : ∀ t, p t → t.IsUnmarked → q t.erased) : ∀ t : Ty, t.Every p → t.erased.Every q
  | .object name args, ht | .value name args, ht => by
      simp only [erased, Every]
      exact ⟨by simpa only [erased] using h _ ht.1 trivial, everyAll_erasedAll h args ht.2⟩
  | .callable params ret, ht => by
      simp only [erased, Every]
      exact ⟨by simpa only [erased] using h _ ht.1 trivial, everyAll_erasedAll h params ht.2.1,
        every_erased h ret ht.2.2⟩
  | .optional inner, ht | .typeValue inner, ht => by
      simp only [erased, Every]
      exact ⟨by simpa only [erased] using h _ ht.1 trivial, every_erased h inner ht.2⟩
  | .boxed inner, ht => by
      simpa only [erased] using every_erased h inner ht.2
  | .error, ht | .nothing, ht | .int, ht | .real, ht | .bool, ht | .byte, ht | .symbol, ht
  | .something, ht | .enum _, ht | .protocol _, ht | .generic _ _, ht | .localGeneric _ _, ht =>
      h _ ht trivial

theorem everyAll_erasedAll (h : ∀ t, p t → t.IsUnmarked → q t.erased) :
    ∀ ts : List Ty, EveryAll p ts → EveryAll q (erasedAll ts)
  | [], _ => trivial
  | t :: ts, hts => ⟨every_erased h t hts.1, everyAll_erasedAll h ts hts.2⟩

end

/-! ### Substitution and storage marks -/

mutual

theorem erased_subst (owner locals : Nat → Option Ty) : ∀ t : Ty, (t.subst owner locals).erased =
    t.erased.subst (fun i => (owner i).map erased) fun i => (locals i).map erased
  | .generic i n => by cases h : owner i <;> simp [subst, erased, h]
  | .localGeneric i n => by cases h : locals i <;> simp [subst, erased, h]
  | .object _ args | .value _ args => by simp [subst, erased, erasedAll_substAll owner locals args]
  | .callable params ret => by
      simp [subst, erased, erasedAll_substAll owner locals params, erased_subst owner locals ret]
  | .optional inner | .typeValue inner => by simp [subst, erased, erased_subst owner locals inner]
  | .boxed inner => by simpa [subst, erased, erased_inBox] using erased_subst owner locals inner
  | .error | .nothing | .int | .real | .bool | .byte | .symbol | .something => rfl
  | .enum _ | .protocol _ => rfl

theorem erasedAll_substAll (owner locals : Nat → Option Ty) : ∀ ts : List Ty,
    erasedAll (substAll owner locals ts) =
      substAll (fun i => (owner i).map erased) (fun i => (locals i).map erased) (erasedAll ts)
  | [] => rfl
  | t :: ts => by
      simp [substAll, erasedAll, erased_subst owner locals t, erasedAll_substAll owner locals ts]

end

end Ty

/-! ### Instances -/

namespace GenericContext

variable (s : GenericContext)

/-- A type with its variables replaced by their arguments, without storage marks. -/
def erasedInstance (t : Ty) : Ty :=
  (s.instantiate t).erased

theorem erasedInstance_erased (t : Ty) : s.erasedInstance t.erased = s.erasedInstance t := by
  simp [erasedInstance, instantiate, Ty.erased_subst, Ty.erased_erased]

@[simp] theorem erasedInstance_object (name : String) (args : List Ty) :
    s.erasedInstance (.object name args) = .object name (args.map s.erasedInstance) := by
  simp [erasedInstance, instantiate, Ty.subst, Ty.erased, Ty.substAll_eq_map, Ty.erasedAll_eq_map]

@[simp] theorem erasedInstance_value (name : String) (args : List Ty) :
    s.erasedInstance (.value name args) = .value name (args.map s.erasedInstance) := by
  simp [erasedInstance, instantiate, Ty.subst, Ty.erased, Ty.substAll_eq_map, Ty.erasedAll_eq_map]

@[simp] theorem erasedInstance_callable (params : List Ty) (ret : Ty) :
    s.erasedInstance (.callable params ret) =
      .callable (params.map s.erasedInstance) (s.erasedInstance ret) := by
  simp [erasedInstance, instantiate, Ty.subst, Ty.erased, Ty.substAll_eq_map, Ty.erasedAll_eq_map]

@[simp] theorem erasedInstance_optional (t : Ty) :
    s.erasedInstance (.optional t) = .optional (s.erasedInstance t) := rfl

@[simp] theorem erasedInstance_typeValue (t : Ty) :
    s.erasedInstance (.typeValue t) = .typeValue (s.erasedInstance t) := rfl

@[simp] theorem erasedInstance_boxed (t : Ty) : s.erasedInstance (.boxed t) = s.erasedInstance t :=
  Ty.erased_inBox _

def HasArg : Ty → Prop
  | .generic i _ => (s.ownerArg? i).isSome
  | .localGeneric i _ => i < s.args.length
  | _ => True

end GenericContext

/-! ### Superclasses -/

namespace Declarations

def IsSaturated (d : Declarations) : Ty → Prop
  | .object name args => ∀ decl, d.class? name = some decl → args.length = decl.generics.length
  | _ => True

def EverySuperclass (d : Declarations) (p : ClassDecl → Ty → Prop) : Prop :=
  ∀ name decl t, d.class? name = some decl → decl.superclass = some t → t.Every (p decl)

variable {d : Declarations} {s : GenericContext}

theorem everySuperclass_of_mem {p : ClassDecl → Ty → Prop}
    (h : ∀ entry ∈ d.classes, ∀ t, entry.2.superclass = some t → t.Every (p entry.2)) :
    d.EverySuperclass p :=
  fun _ _ t hdecl ht => h _ (mem_of_class? hdecl) t ht

mutual

theorem erasedInstance_subst {args : List Ty} : ∀ t : Ty, t.Every Ty.IsUnmarked →
    t.Every (Ty.IsScoped args.length) →
    s.erasedInstance (t.subst (fun i => args[i]?) fun _ => none) =
      t.subst (fun i => (args.map s.erasedInstance)[i]?) fun _ => none
  | .generic i n, _, (hi : i < args.length) => by simp [Ty.subst, hi]
  | .object name ts, hu, hs | .value name ts, hu, hs => by
      simp [Ty.subst, erasedInstance_substAll ts hu.2 hs.2]
  | .callable ts t, hu, hs => by
      simp [Ty.subst, erasedInstance_substAll ts hu.2.1 hs.2.1, erasedInstance_subst t hu.2.2 hs.2.2]
  | .optional t, hu, hs | .typeValue t, hu, hs => by simp [Ty.subst, erasedInstance_subst t hu.2 hs.2]
  | .error, _, _ | .nothing, _, _ | .int, _, _ | .real, _, _ | .bool, _, _ | .byte, _, _ => rfl
  | .symbol, _, _ | .something, _, _ | .enum _, _, _ | .protocol _, _, _ => rfl

theorem erasedInstance_substAll {args : List Ty} : ∀ ts : List Ty, Ty.EveryAll Ty.IsUnmarked ts →
    Ty.EveryAll (Ty.IsScoped args.length) ts →
    (Ty.substAll (fun i => args[i]?) (fun _ => none) ts).map s.erasedInstance =
      Ty.substAll (fun i => (args.map s.erasedInstance)[i]?) (fun _ => none) ts
  | [], _, _ => rfl
  | t :: ts, hu, hs => by
      simp [Ty.substAll, erasedInstance_subst t hu.1 hs.1, erasedInstance_substAll ts hu.2 hs.2]

end

mutual

theorem isSaturated_subst {args : List Ty} (hargs : ∀ a ∈ args, a.Every d.IsSaturated) :
    ∀ t : Ty, t.Every Ty.IsUnmarked → t.Every d.IsSaturated →
    (t.subst (fun i => args[i]?) fun _ => none).Every d.IsSaturated
  | .generic i n, _, _ => by
      cases h : args[i]? with
      | none => simp [Ty.subst, h, Ty.Every, IsSaturated]
      | some a => simpa [Ty.subst, h] using hargs a (List.mem_of_getElem? h)
  | .object name ts, hu, hs => by
      refine ⟨fun decl hdecl => ?_, isSaturated_substAll hargs ts hu.2 hs.2⟩
      rw [Ty.substAll_eq_map, List.length_map]
      exact hs.1 decl hdecl
  | .value name ts, hu, hs => ⟨trivial, isSaturated_substAll hargs ts hu.2 hs.2⟩
  | .callable ts t, hu, hs =>
      ⟨trivial, isSaturated_substAll hargs ts hu.2.1 hs.2.1, isSaturated_subst hargs t hu.2.2 hs.2.2⟩
  | .optional t, hu, hs | .typeValue t, hu, hs => ⟨trivial, isSaturated_subst hargs t hu.2 hs.2⟩
  | .error, _, _ | .nothing, _, _ | .int, _, _ | .real, _, _ | .bool, _, _ | .byte, _, _ => trivial
  | .symbol, _, _ | .something, _, _ | .enum _, _, _ | .protocol _, _, _ => trivial
  | .localGeneric _ _, _, _ => trivial

theorem isSaturated_substAll {args : List Ty} (hargs : ∀ a ∈ args, a.Every d.IsSaturated) :
    ∀ ts : List Ty, Ty.EveryAll Ty.IsUnmarked ts → Ty.EveryAll d.IsSaturated ts →
    Ty.EveryAll d.IsSaturated (Ty.substAll (fun i => args[i]?) (fun _ => none) ts)
  | [], _, _ => trivial
  | t :: ts, hu, hs =>
      ⟨isSaturated_subst hargs t hu.1 hs.1, isSaturated_substAll hargs ts hu.2 hs.2⟩

end

/-- Superclasses without storage marks, in which all classes have their arguments. -/
structure WellFormed (d : Declarations) : Prop where
  unmarked : d.EverySuperclass fun _ => Ty.IsUnmarked
  saturated : d.EverySuperclass fun _ => d.IsSaturated
  inScope : d.EverySuperclass fun decl => Ty.IsScoped decl.generics.length

theorem Extends.every_isSaturated (hd : d.WellFormed) {t r : Ty} (h : d.Extends t r)
    (ht : t.Every d.IsSaturated) : r.Every d.IsSaturated := by
  obtain ⟨name, args, decl, u, rfl, hdecl, hsuper, rfl⟩ := h.exists_superclass
  exact isSaturated_subst (Ty.everyAll_iff.mp ht.2) u (hd.unmarked name decl u hdecl hsuper)
    (hd.saturated name decl u hdecl hsuper)

theorem Extends.erasedInstance (hd : d.WellFormed) {t r : Ty} (h : d.Extends t r)
    (ht : t.Every d.IsSaturated) : d.Extends (s.erasedInstance t) (s.erasedInstance r) := by
  obtain ⟨name, args, decl, u, rfl, hdecl, hsuper, rfl⟩ := h.exists_superclass
  have hlen : args.length = decl.generics.length := ht.1 decl hdecl
  have hscope : u.Every (Ty.IsScoped args.length) := hlen ▸ hd.inScope name decl u hdecl hsuper
  rw [GenericContext.erasedInstance_object,
    erasedInstance_subst u (hd.unmarked name decl u hdecl hsuper) hscope]
  simp [Extends, superclass?_object, hdecl, hsuper]

/-- Instances of a class inherit from the instances of all classes it inherits from. -/
theorem transGen_erasedInstance (hd : d.WellFormed) {t r : Ty} (h : Relation.TransGen d.Extends t r)
    (ht : t.Every d.IsSaturated) :
    Relation.TransGen d.Extends (s.erasedInstance t) (s.erasedInstance r) := by
  induction h using Relation.TransGen.head_induction_on with
  | single h => exact .single (h.erasedInstance hd ht)
  | head h _ ih => exact .head (h.erasedInstance hd ht) (ih (h.every_isSaturated hd ht))

end Declarations

end Boxlang
