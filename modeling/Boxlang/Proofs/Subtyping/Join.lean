import Boxlang.Proofs.Subtyping.Order
import Boxlang.Proofs.Types.Walk

/-!
# Common supertypes

The common supertype of two types is above both of them where the classes they are made
of inherit from classes only (`Declarations.below_of_commonErased?`).  Two types without
a common supertype have values of different kinds, and no type is above both of those
(`Declarations.exists_commonErased?_of_admits`).

Both carry over to candidates that are folded one by one: every candidate is below the
type inferred from them, and where two candidates are in conflict no type is above all
(`Candidates.result_isUpperBound`).
-/

namespace Boxlang

namespace Ty

mutual

theorem erased_of_isUnmarked : ∀ {t : Ty}, t.Every IsUnmarked → t.erased = t
  | .object _ args, h | .value _ args, h => by rw [erased, erasedAll_of_isUnmarked h.2]
  | .callable params ret, h => by
      rw [erased, erasedAll_of_isUnmarked h.2.1, erased_of_isUnmarked h.2.2]
  | .optional inner, h | .typeValue inner, h => by rw [erased, erased_of_isUnmarked h.2]
  | .error, _ | .nothing, _ | .int, _ | .real, _ | .bool, _ | .byte, _ | .symbol, _ => rfl
  | .something, _ | .enum _, _ | .protocol _, _ | .generic _ _, _ | .localGeneric _ _, _ => rfl

theorem erasedAll_of_isUnmarked : ∀ {ts : List Ty}, EveryAll IsUnmarked ts → erasedAll ts = ts
  | [], _ => rfl
  | t :: ts, h => by rw [erasedAll, erased_of_isUnmarked h.1, erasedAll_of_isUnmarked h.2]

end

theorem belowTop_of_ne {t : Ty} (hoptional : ∀ u, t ≠ .optional u) (htype : ∀ u, t ≠ .typeValue u)
    (hnothing : t ≠ .nothing) : t.belowTop = true := by
  cases t with
  | optional u => exact (hoptional u rfl).elim
  | typeValue u => exact (htype u rfl).elim
  | nothing => exact (hnothing rfl).elim
  | _ => rfl

end Ty

namespace Declarations

variable {d : Declarations} {c : GenericContext} {a b r t s : Ty}

/-! ### Ancestors of candidates -/

def InheritsClasses (d : Declarations) : Ty → Prop
  | .optional t | .typeValue t => d.InheritsClasses t
  | t => ∀ s ∈ d.ancestors t, ∃ name args, s = .object name args

theorem exists_object_of_mem_ancestors (h : s ∈ d.ancestors t) : ∃ name args, t = .object name args := by
  by_contra hno
  have hnone : d.superclass? t = none :=
    superclass?_eq_none fun name args heq => hno ⟨name, args, heq⟩
  unfold ancestors at h
  cases hn : d.ancestorSteps t with
  | zero => simp [hn, ancestorsWithin] at h
  | succ n => simp [hn, ancestorsWithin, hnone] at h

theorem InheritsClasses.exists_object (h : d.InheritsClasses t) (hs : s ∈ d.ancestors t) :
    ∃ name args, s = .object name args := by
  obtain ⟨name, args, rfl⟩ := exists_object_of_mem_ancestors hs
  exact h s hs

theorem inheritsClasses_of_class? (h : ∀ name decl u, d.class? name = some decl →
    decl.superclass = some u → ∃ name args, u = .object name args) : ∀ t : Ty, d.InheritsClasses t := by
  have hancestors (t : Ty) : ∀ s ∈ d.ancestors t, ∃ name args, s = .object name args := by
    refine forall_mem_ancestorsWithin (P := fun s => ∃ name args, s = .object name args)
      (Q := fun _ => True) ?_ (fun _ => trivial) trivial
    intro t s _ hext
    obtain ⟨name, args, decl, u, rfl, hdecl, hsuper, rfl⟩ := Extends.exists_superclass hext
    obtain ⟨name', args', rfl⟩ := h name decl u hdecl hsuper
    exact ⟨_, _, rfl⟩
  intro t
  fun_induction d.InheritsClasses t with
  | case1 _ ih | case2 _ ih => exact ih
  | case3 t _ _ => exact hancestors t

theorem inheritsClasses_of_superclasses (h : ∀ entry ∈ d.classes, ∀ u, entry.2.superclass = some u →
    ∃ name args, u = .object name args) : ∀ t : Ty, d.InheritsClasses t :=
  inheritsClasses_of_class? fun _ _ u hdecl hsuper => h _ (mem_of_class? hdecl) u hsuper

/-- Ancestors of types without marks have none either, if the declared superclasses have none. -/
theorem erased_of_mem_ancestors (hmarks : d.EverySuperclass fun _ => Ty.IsUnmarked)
    (ht : t.erased = t) (hs : s ∈ d.ancestors t) : s.erased = s := by
  refine forall_mem_ancestorsWithin (P := fun s => s.erased = s) (Q := fun t => t.erased = t)
    ?_ id ht s hs
  intro t s ht hext
  obtain ⟨name, args, decl, u, rfl, hdecl, hsuper, rfl⟩ := Extends.exists_superclass hext
  obtain ⟨-, hargs⟩ := Ty.object.inj ((Ty.erased.eq_def _).symm.trans ht)
  rw [Ty.erased_subst, Ty.erased_of_isUnmarked (hmarks name decl u hdecl hsuper)]
  have hi (i : Nat) : (args[i]?).map Ty.erased = args[i]? := by
    rw [← List.getElem?_map, ← Ty.erasedAll_eq_map, hargs]
  simp only [hi, Option.map_none]

/--
What holds of candidates and of all types they are joined to: there are no storage marks,
the error type is not among the parts that are compared, and only classes are inherited.
-/
structure IsJoinable (d : Declarations) (t : Ty) : Prop where
  erased_eq : t.erased = t
  error_notMem : .error ∉ t.parts
  inherits : d.InheritsClasses t

namespace IsJoinable

theorem optional_iff : d.IsJoinable (.optional t) ↔ d.IsJoinable t := by
  constructor
  · intro h
    exact ⟨Ty.optional.inj h.erased_eq, List.not_mem_of_not_mem_cons h.error_notMem, h.inherits⟩
  · intro h
    exact ⟨congrArg Ty.optional h.erased_eq, by simpa [Ty.parts] using h.error_notMem, h.inherits⟩

theorem typeValue_iff : d.IsJoinable (.typeValue t) ↔ d.IsJoinable t := by
  constructor
  · intro h
    exact ⟨Ty.typeValue.inj h.erased_eq, List.not_mem_of_not_mem_cons h.error_notMem, h.inherits⟩
  · intro h
    exact ⟨congrArg Ty.typeValue h.erased_eq, by simpa [Ty.parts] using h.error_notMem, h.inherits⟩

theorem protocol (name : String) : d.IsJoinable (.protocol name) := by
  refine ⟨rfl, by simp [Ty.parts], fun s hs => ?_⟩
  obtain ⟨_, _, h⟩ := exists_object_of_mem_ancestors hs
  cases h

theorem something : d.IsJoinable .something := by
  refine ⟨rfl, by simp [Ty.parts], fun s hs => ?_⟩
  obtain ⟨_, _, h⟩ := exists_object_of_mem_ancestors hs
  cases h

section Join

variable (hd : d.IsAcyclic) (hmarks : d.EverySuperclass fun _ => Ty.IsUnmarked)
include hd hmarks

theorem of_mem_ancestors (h : d.IsJoinable t) (hs : s ∈ d.ancestors t) : d.IsJoinable s := by
  obtain ⟨name, args, rfl⟩ := h.inherits.exists_object hs
  refine ⟨erased_of_mem_ancestors hmarks h.erased_eq hs, by simp [Ty.parts], fun u hu => ?_⟩
  apply h.inherits.exists_object
  rw [hd.mem_ancestors_iff] at hs hu ⊢
  exact hs.trans hu

theorem nominalJoin (ha : d.IsJoinable a) : d.IsJoinable (d.nominalJoin c a b) := by
  unfold Declarations.nominalJoin
  split
  next ancestor hfound =>
    rw [findAncestor?_eq_find?] at hfound
    exact ha.of_mem_ancestors hd hmarks (List.mem_of_find?_eq_some hfound)
  next =>
    split
    next name _ => exact protocol name
    next => exact something

theorem commonErased? (a b : Ty) : ∀ r, d.IsJoinable a → d.IsJoinable b →
    d.commonErased? c a b = some r → d.IsJoinable r := by
  fun_induction d.commonErased? c a b <;> intro r ha hb hr
  case case4 x y _ _ _ ih =>
      obtain ⟨u, hu, rfl⟩ := Option.map_eq_some_iff.mp hr
      exact optional_iff.mpr (ih u (optional_iff.mp ha) (optional_iff.mp hb) hu)
  case case5 x y _ _ _ _ ih =>
      obtain ⟨u, hu, rfl⟩ := Option.map_eq_some_iff.mp hr
      exact optional_iff.mpr (ih u (optional_iff.mp ha) hb hu)
  case case6 x y _ _ _ _ ih =>
      obtain ⟨u, hu, rfl⟩ := Option.map_eq_some_iff.mp hr
      exact optional_iff.mpr (ih u (optional_iff.mp hb) ha hu)
  case case7 x y _ _ _ ih =>
      obtain ⟨u, hu, rfl⟩ := Option.map_eq_some_iff.mp hr
      exact typeValue_iff.mpr (ih u (typeValue_iff.mp ha) (typeValue_iff.mp hb) hu)
  case case12 =>
      cases hr
      exact ha.nominalJoin hd hmarks
  all_goals
    cases hr
    try assumption

end Join

end IsJoinable

/-! ### Cases -/

theorem commonErased?_of_below (hab : d.Below c a b) : d.commonErased? c a b = some b := by
  rw [commonErased?.eq_def]
  simp [isSubtypeErased_iff.mpr hab]

theorem commonErased?_of_above (hab : ¬ d.Below c a b) (hba : d.Below c b a) :
    d.commonErased? c a b = some a := by
  have ha : a ≠ .error := fun heq => hab (heq ▸ below_iff.mpr (.errorLeft b))
  rw [commonErased?.eq_def]
  simp [Ty.isError, ha, isSubtypeErased_iff, hab, hba]

/-- Types below the top that are not comparable have a common supertype by name. -/
theorem commonErased?_of_not_below (hat : a.belowTop = true) (hbt : b.belowTop = true)
    (hab : ¬ d.Below c a b) (hba : ¬ d.Below c b a) :
    d.commonErased? c a b = some (d.nominalJoin c a b) := by
  have ha : a ≠ .error := fun heq => hab (heq ▸ below_iff.mpr (.errorLeft b))
  rw [commonErased?.eq_def]
  simp only [Ty.isError, beq_iff_eq, ha, isSubtypeErased_iff, hab, hba, if_false]
  cases a with
  | optional | typeValue | nothing => cases hat
  | _ =>
      cases b with
      | optional | typeValue | nothing => cases hbt
      | _ => rfl
/-! ### Upper bounds -/

/-- Two types are below their nearest common ancestor, a protocol of both, or the top. -/
theorem below_nominalJoin (hat : a.belowTop = true) (hbt : b.belowTop = true) :
    (d.InheritsClasses a → d.Below c a (d.nominalJoin c a b)) ∧ d.Below c b (d.nominalJoin c a b) := by
  unfold nominalJoin
  split
  next ancestor hfound =>
    rw [findAncestor?_eq_find?] at hfound
    refine ⟨fun ha => ?_, isSubtypeErased_iff.mp (List.find?_some hfound)⟩
    have hmem := List.mem_of_find?_eq_some hfound
    obtain ⟨name, args, rfl⟩ := exists_object_of_mem_ancestors hmem
    obtain ⟨name', args', rfl⟩ := ha.exists_object hmem
    exact below_iff.mpr (.ancestor hmem)
  next =>
    split
    next name hname =>
      have ha : d.conformsTo a name = true := List.contains_iff_mem.mpr (List.mem_of_find?_eq_some hname)
      have hb : d.conformsTo b name = true := List.find?_some hname
      exact ⟨fun _ => below_iff.mpr (.conforms ha), below_iff.mpr (.conforms hb)⟩
    next => exact ⟨fun _ => below_iff.mpr (.top hat), below_iff.mpr (.top hbt)⟩

theorem imp_below_of_commonErased? (a b : Ty) : ∀ r, d.commonErased? c a b = some r →
    (d.InheritsClasses a → d.Below c a r) ∧ (d.InheritsClasses b → d.Below c b r) := by
  fun_induction d.commonErased? c a b <;> intro r hr
  case case1 a b herror =>
      cases hr
      obtain rfl : a = .error := by simpa [Ty.isError] using herror
      exact ⟨fun _ => below_iff.mpr (.errorLeft b), fun _ => .refl b⟩
  case case2 a b _ hab =>
      cases hr
      exact ⟨fun _ => isSubtypeErased_iff.mp hab, fun _ => .refl b⟩
  case case3 a b _ _ hba =>
      cases hr
      exact ⟨fun _ => .refl a, fun _ => isSubtypeErased_iff.mp hba⟩
  case case4 x y _ _ _ ih =>
      obtain ⟨u, hu, rfl⟩ := Option.map_eq_some_iff.mp hr
      obtain ⟨hx, hy⟩ := ih u hu
      exact ⟨fun ha => below_iff.mpr (.optional (hx ha)), fun hb => below_iff.mpr (.optional (hy hb))⟩
  case case5 x y hno _ _ _ ih =>
      obtain ⟨u, hu, rfl⟩ := Option.map_eq_some_iff.mp hr
      obtain ⟨hx, hy⟩ := ih u hu
      exact ⟨fun ha => below_iff.mpr (.optional (hx ha)), fun hb => below_iff.mpr (.toOptional hno (hy hb))⟩
  case case6 x y hno _ _ _ ih =>
      obtain ⟨u, hu, rfl⟩ := Option.map_eq_some_iff.mp hr
      obtain ⟨hy, hx⟩ := ih u hu
      exact ⟨fun ha => below_iff.mpr (.toOptional hno (hx ha)), fun hb => below_iff.mpr (.optional (hy hb))⟩
  case case7 x y _ _ _ ih =>
      obtain ⟨u, hu, rfl⟩ := Option.map_eq_some_iff.mp hr
      obtain ⟨hx, hy⟩ := ih u hu
      exact ⟨fun ha => below_iff.mpr (.typeValue (hx ha)), fun hb => below_iff.mpr (.typeValue (hy hb))⟩
  case case12 x y _ hx hy _ hxt hxn hyt hyn _ _ _ =>
      cases hr
      obtain ⟨hleft, hright⟩ :=
        below_nominalJoin (d := d) (c := c) (Ty.belowTop_of_ne hx hxt hxn) (Ty.belowTop_of_ne hy hyt hyn)
      exact ⟨hleft, fun _ => hright⟩
  all_goals cases hr

theorem below_of_commonErased? (a b r : Ty) (ha : d.InheritsClasses a) (hb : d.InheritsClasses b)
    (h : d.commonErased? c a b = some r) : d.Below c a r ∧ d.Below c b r :=
  ⟨(imp_below_of_commonErased? a b r h).1 ha, (imp_below_of_commonErased? a b r h).2 hb⟩

end Declarations

/-! ### Kinds of values -/

namespace Ty

/-- What the values of a type are, up to optionals. -/
inductive Kind where
  /-- Something that is below the top type. -/
  | value
  | nothing
  /-- A type whose values are of some kind. -/
  | typeValue (of : Kind)

def kind? : Ty → Option Kind
  | .optional t => kind? t
  | .typeValue t => (kind? t).map .typeValue
  | .nothing => some .nothing
  | .error | .generic _ _ | .localGeneric _ _ | .boxed _ => none
  | _ => some .value

def Admits : Ty → Kind → Prop
  | .error, _ => True
  | .optional t, k => Admits t k
  | .typeValue t, .typeValue k => Admits t k
  | t, k => t.kind? = some k

theorem exists_of_admits_typeValue {t : Ty} {k : Kind} (h : (Ty.typeValue t).Admits k) :
    ∃ of, k = .typeValue of ∧ t.Admits of := by
  cases k with
  | typeValue of => exact ⟨of, rfl, h⟩
  | value | nothing =>
      obtain ⟨of, -, hof⟩ := Option.map_eq_some_iff.mp (show t.kind?.map Kind.typeValue = some _ from h)
      cases hof

theorem admits_of_kind? : ∀ {t : Ty} {k : Kind}, t.kind? = some k → t.Admits k
  | .optional t, k, h => admits_of_kind? (t := t) h
  | .typeValue t, k, h => by
      obtain ⟨of, hof, rfl⟩ := Option.map_eq_some_iff.mp h
      exact admits_of_kind? (t := t) hof
  | .nothing, _, h | .int, _, h | .real, _, h | .bool, _, h | .byte, _, h | .symbol, _, h
  | .object _ _, _, h | .value _ _, _, h | .enum _, _, h | .protocol _, _, h | .something, _, h
  | .callable _ _, _, h => h

theorem kind?_of_admits : ∀ {t : Ty} {k : Kind}, t.mentionsError = false → t.Admits k → t.kind? = some k
  | .optional t, k, ht, h => kind?_of_admits (t := t) ht h
  | .typeValue t, k, ht, h => by
      obtain ⟨of, rfl, hof⟩ := exists_of_admits_typeValue h
      rw [kind?, kind?_of_admits (t := t) ht hof]
      rfl
  | .nothing, _, _, h | .int, _, _, h | .real, _, _, h | .bool, _, _, h | .byte, _, _, h
  | .symbol, _, _, h | .object _ _, _, _, h | .value _ _, _, _, h | .enum _, _, _, h
  | .protocol _, _, _, h | .something, _, _, h | .callable _ _, _, _, h | .generic _ _, _, _, h
  | .localGeneric _ _, _, _, h | .boxed _, _, _, h => h

theorem admits_erased : ∀ {t : Ty} {k : Kind}, t.Admits k → t.erased.Admits k
  | .error, _, _ => trivial
  | .optional t, k, h => admits_erased (t := t) h
  | .typeValue t, k, h => by
      obtain ⟨of, rfl, hof⟩ := exists_of_admits_typeValue h
      exact admits_erased (t := t) hof
  | .nothing, _, h | .int, _, h | .real, _, h | .bool, _, h | .byte, _, h | .symbol, _, h
  | .object _ _, _, h | .value _ _, _, h | .enum _, _, h | .protocol _, _, h | .something, _, h
  | .callable _ _, _, h => h

/-- Where neither the error type nor a variable occurs, the kind of the values is known. -/
theorem exists_kind?_erased : ∀ {t : Ty}, t.mentionsError = false → t.Every (¬ ·.IsVariable) →
    ∃ k, t.erased.kind? = some k
  | .optional t, he, hv => exists_kind?_erased (t := t) he hv.2
  | .typeValue t, he, hv => by
      obtain ⟨k, hk⟩ := exists_kind?_erased (t := t) he hv.2
      exact ⟨.typeValue k, congrArg (Option.map Kind.typeValue) hk⟩
  | .boxed t, he, hv => exists_kind?_erased (t := t) he hv.2
  | .generic _ _, _, hv | .localGeneric _ _, _, hv => (hv trivial).elim
  | .nothing, _, _ => ⟨.nothing, rfl⟩
  | .int, _, _ | .real, _, _ | .bool, _, _ | .byte, _, _ | .symbol, _, _ | .object _ _, _, _
  | .value _ _, _, _ | .enum _, _, _ | .protocol _, _, _ | .something, _, _ | .callable _ _, _, _ =>
      ⟨.value, rfl⟩

theorem eq_value_of_belowTop {t : Ty} {k : Kind} (h : t.belowTop = true) (hk : t.kind? = some k) :
    k = .value := by
  cases t with
  | optional | typeValue | nothing => cases h
  | _ => cases hk <;> rfl

theorem cases_of_admits {t : Ty} {k : Kind} (h : t.Admits k) (herror : t ≠ .error)
    (hoptional : ∀ u, t ≠ .optional u) (htype : ∀ u, t ≠ .typeValue u) :
    t = .nothing ∧ k = .nothing ∨ t.kind? = some .value ∧ k = .value := by
  cases t with
  | error => exact (herror rfl).elim
  | optional u => exact (hoptional u rfl).elim
  | typeValue u => exact (htype u rfl).elim
  | nothing =>
      obtain rfl := Option.some.inj (show some Kind.nothing = some k from h)
      exact .inl ⟨rfl, rfl⟩
  | generic | localGeneric | boxed => cases h
  | _ =>
      obtain rfl := Option.some.inj (show some Kind.value = some k from h)
      exact .inr ⟨rfl, rfl⟩

end Ty

namespace Declarations

variable {d : Declarations} {c : GenericContext} {a b s t : Ty} {k : Ty.Kind}

theorem Below.admits (h : d.Below c a b) (ha : a.kind? = some k) : b.Admits k := by
  obtain ⟨n, hn⟩ := h
  induction n generalizing a b k with
  | zero => simp at hn
  | succ n ih =>
      cases isSubtypeWithin_succ_iff.mp hn with
      | errorLeft => cases ha
      | errorRight => trivial
      | refl => exact Ty.admits_of_kind? ha
      | top htop =>
          obtain rfl := Ty.eq_value_of_belowTop htop ha
          rfl
      | @optional x y h => exact ih (a := x) (b := y) ha h
      | @toOptional _ y _ h => exact ih (b := y) ha h
      | byConstraint hbound =>
          cases a with
          | generic | localGeneric => cases ha
          | _ => cases hbound
      | ancestor => exact ha
      | conforms hconf =>
          obtain rfl := Ty.eq_value_of_belowTop (belowTop_of_conformsTo (c := c) hconf).1 ha
          rfl
      | callable => exact ha
      | @typeValue x y h =>
          obtain ⟨of, hof, rfl⟩ := Option.map_eq_some_iff.mp ha
          exact ih (a := x) (b := y) hof h

theorem ne_error_of_isSubtypeErased (h : ¬ d.isSubtypeErased c a b = true) : b ≠ .error := by
  rintro rfl
  exact h (isSubtypeErased_iff.mpr (below_iff.mpr (.errorRight a)))

/-- The nearest common ancestor, a protocol of both, or the top admits values. -/
theorem admits_nominalJoin (hb : b.kind? = some .value) : (d.nominalJoin c a b).Admits .value := by
  unfold nominalJoin
  split
  next ancestor hfound =>
    rw [findAncestor?_eq_find?] at hfound
    exact (isSubtypeErased_iff.mp (List.find?_some hfound)).admits hb
  next =>
    split
    next => rfl
    next => rfl

/-- Two types that admit values of one kind have a common supertype that does as well. -/
theorem exists_commonErased?_of_admits (a b : Ty) : ∀ k, a.Admits k → b.Admits k →
    ∃ r, d.commonErased? c a b = some r ∧ r.Admits k := by
  fun_induction d.commonErased? c a b <;> intro k ha hb
  case case1 | case2 => exact ⟨_, rfl, hb⟩
  case case3 => exact ⟨_, rfl, ha⟩
  case case4 x y _ _ _ ih =>
      obtain ⟨u, hu, huk⟩ := ih k ha hb
      exact ⟨.optional u, congrArg (Option.map Ty.optional) hu, huk⟩
  case case5 x y _ _ _ _ ih =>
      obtain ⟨u, hu, huk⟩ := ih k ha hb
      exact ⟨.optional u, congrArg (Option.map Ty.optional) hu, huk⟩
  case case6 x y _ _ _ _ ih =>
      obtain ⟨u, hu, huk⟩ := ih k hb ha
      exact ⟨.optional u, congrArg (Option.map Ty.optional) hu, huk⟩
  case case7 x y _ _ _ ih =>
      obtain ⟨of, rfl, hof⟩ := Ty.exists_of_admits_typeValue ha
      obtain ⟨u, hu, huk⟩ := ih of hof hb
      exact ⟨.typeValue u, congrArg (Option.map Ty.typeValue) hu, huk⟩
  -- What is no optional and no type value is nothing or admits values, and so is the other type.
  case case8 b x hopt htype _ hab _ =>
      obtain ⟨of, rfl, -⟩ := Ty.exists_of_admits_typeValue ha
      rcases Ty.cases_of_admits hb (ne_error_of_isSubtypeErased hab) hopt htype with ⟨-, h⟩ | ⟨-, h⟩
      all_goals cases h
  case case9 b hopt _ hab hba =>
      obtain rfl := Option.some.inj (show some Ty.Kind.nothing = some k from ha)
      have htype (y : Ty) : b ≠ .typeValue y := by
        rintro rfl
        obtain ⟨of, h, -⟩ := Ty.exists_of_admits_typeValue hb
        cases h
      rcases Ty.cases_of_admits hb (ne_error_of_isSubtypeErased hab) hopt htype with ⟨rfl, -⟩ | ⟨-, h⟩
      · exact (hab (isSubtypeErased_iff.mpr (.refl _))).elim
      · cases h
  case case10 a _ y hopt htype hnothing _ hba =>
      obtain ⟨of, rfl, -⟩ := Ty.exists_of_admits_typeValue hb
      rcases Ty.cases_of_admits ha (ne_error_of_isSubtypeErased hba) hopt htype with ⟨-, h⟩ | ⟨-, h⟩
      all_goals cases h
  case case11 a _ hopt htype hnothing _ hba =>
      obtain rfl := Option.some.inj (show some Ty.Kind.nothing = some k from hb)
      rcases Ty.cases_of_admits ha (ne_error_of_isSubtypeErased hba) hopt htype with ⟨h, -⟩ | ⟨-, h⟩
      · exact (hnothing h).elim
      · cases h
  case case12 a b _ haopt hbopt _ hatype hanothing hbtype hbnothing _ hab hba =>
      rcases Ty.cases_of_admits ha (ne_error_of_isSubtypeErased hba) haopt hatype with ⟨h, -⟩ | ⟨-, rfl⟩
      · exact (hanothing h).elim
      rcases Ty.cases_of_admits hb (ne_error_of_isSubtypeErased hab) hbopt hbtype with ⟨h, -⟩ | ⟨hkind, -⟩
      · exact (hbnothing h).elim
      exact ⟨_, rfl, admits_nominalJoin hkind⟩

end Declarations

/-! ### Candidates -/

namespace Candidates

open Declarations

variable {d : Declarations} {c : GenericContext} {candidates : Candidates} {seen ts : List Ty} {t : Ty}

/-- What is kept as one more candidate is added is kept as a list of them is, the last one seen first. -/
theorem foldl_add_induction {I : List Ty → Candidates → Prop} (seen : List Ty) (h : I seen candidates)
    (hadd : ∀ t ∈ ts, ∀ seen candidates, I seen candidates → I (t :: seen) (candidates.add d c t)) :
    I (ts.reverse ++ seen) (ts.foldl (add d c) candidates) := by
  induction ts generalizing candidates seen with
  | nil => exact h
  | cons t ts ih =>
      obtain ⟨ht, hrest⟩ := List.forall_mem_cons.mp hadd
      rw [List.reverse_cons, List.append_assoc, List.singleton_append, List.foldl_cons]
      exact ih (t :: seen) (ht seen candidates h) hrest

def Bounds (d : Declarations) (c : GenericContext) (seen : List Ty) : Candidates → Prop
  | .unseen => seen = []
  | .common u => d.IsJoinable u ∧ ∀ t ∈ seen, d.Below c t.erased u
  | .conflict _ _ => True

theorem bounds_add (hd : d.IsAcyclic) (hmarks : d.EverySuperclass fun _ => Ty.IsUnmarked)
    (h : candidates.Bounds d c seen) (ht : d.IsJoinable t.erased) :
    (candidates.add d c t).Bounds d c (t :: seen) := by
  cases candidates with
  | unseen =>
      obtain rfl : seen = [] := h
      exact ⟨ht, List.forall_mem_singleton.mpr (.refl _)⟩
  | common u =>
      obtain ⟨hu, hseen⟩ := h
      simp only [add, commonSupertype?, hu.erased_eq, Ty.erased_erased]
      cases hwider : d.commonErased? c u t.erased with
      | none => trivial
      | some wider =>
          obtain ⟨huw, htw⟩ := below_of_commonErased? u t.erased wider hu.inherits ht.inherits hwider
          refine ⟨hu.commonErased? hd hmarks u t.erased wider ht hwider, ?_⟩
          intro t' ht'
          rcases List.mem_cons.mp ht' with rfl | ht'
          · exact htw
          · exact (hseen t' ht').trans_of_parts hd hu.error_notMem huw
  | conflict u v => trivial

theorem bounds_foldl (hd : d.IsAcyclic) (hmarks : d.EverySuperclass fun _ => Ty.IsUnmarked)
    (h : candidates.Bounds d c seen) (hts : ∀ t ∈ ts, d.IsJoinable t.erased) :
    (ts.foldl (add d c) candidates).Bounds d c (ts.reverse ++ seen) :=
  foldl_add_induction (I := fun seen candidates => candidates.Bounds d c seen) seen h
    fun t ht _ _ h => bounds_add hd hmarks h (hts t ht)

def AdmitsAll (k : Ty.Kind) : Candidates → Prop
  | .unseen => True
  | .common u => u.Admits k
  | .conflict _ _ => False

theorem admitsAll_foldl {k : Ty.Kind} (h : candidates.AdmitsAll k)
    (hts : ∀ t ∈ ts, t.erased.kind? = some k) : (ts.foldl (add d c) candidates).AdmitsAll k := by
  refine foldl_add_induction (I := fun _ candidates => candidates.AdmitsAll k) [] h
    fun t ht _ candidates h => ?_
  cases candidates with
  | unseen => exact Ty.admits_of_kind? (hts t ht)
  | common u =>
      have ht : t.erased.erased.Admits k := by
        rw [Ty.erased_erased]
        exact Ty.admits_of_kind? (hts t ht)
      obtain ⟨r, hr, hrk⟩ := exists_commonErased?_of_admits (d := d) (c := c) u.erased t.erased.erased k
        (Ty.admits_erased h) ht
      simp only [add, commonSupertype?, hr]
      exact hrk
  | conflict u v => exact h

theorem exists_not_isSubtype_of_conflict (hts : ∀ t ∈ ts, t.mentionsError = false) {u v s : Ty}
    (h : (ts.foldl (add d c) .unseen).result = .error (.conflict u v))
    (hvars : ∀ t ∈ ts, t.Every (¬ ·.IsVariable)) (hs : s.mentionsError = false) :
    ∃ t ∈ ts, d.isSubtype c t s = false := by
  by_contra hno
  have hbelow (t : Ty) (ht : t ∈ ts) : d.Below c t.erased s.erased := by
    apply isSubtype_iff.mp
    rw [← Bool.not_eq_false]
    exact fun hfalse => hno ⟨t, ht, hfalse⟩
  -- All kinds agree with that of the type above, so the fold meets no conflict.
  have hkind (t : Ty) (ht : t ∈ ts) : ∃ k, t.erased.kind? = some k ∧ s.erased.kind? = some k := by
    obtain ⟨k, hk⟩ := Ty.exists_kind?_erased (hts t ht) (hvars t ht)
    exact ⟨k, hk, Ty.kind?_of_admits (by simpa using hs) ((hbelow t ht).admits hk)⟩
  cases ts with
  | nil => cases h
  | cons t ts =>
      obtain ⟨k, -, hsk⟩ := hkind t List.mem_cons_self
      have hall (t' : Ty) (ht' : t' ∈ t :: ts) : t'.erased.kind? = some k := by
        obtain ⟨k', hk', hsk'⟩ := hkind t' ht'
        rw [hk', ← hsk', hsk]
      have hfold : ((t :: ts).foldl (add d c) .unseen).AdmitsAll k :=
        admitsAll_foldl (show Candidates.unseen.AdmitsAll k from trivial) hall
      cases hc : (t :: ts).foldl (add d c) .unseen <;> rw [hc] at h hfold
      case unseen | common => cases h
      case conflict => exact hfold

/--
Candidates are folded into an upper bound, where the hierarchy is acyclic, its
superclasses carry no storage marks, and the candidates inherit from classes only.
Where two of them are in conflict and they mention no variables, no type without the
error type is above all of them.
-/
theorem result_isUpperBound (hd : d.IsAcyclic) (hmarks : d.EverySuperclass fun _ => Ty.IsUnmarked)
    (ts : List Ty) (hts : ∀ t ∈ ts, t.mentionsError = false) :
    (∀ r, (ts.foldl (add d c) .unseen).result = .ok r → (∀ t ∈ ts, d.InheritsClasses t.erased) →
      ∀ t ∈ ts, d.isSubtype c t r = true) ∧
    ∀ u v, (ts.foldl (add d c) .unseen).result = .error (.conflict u v) →
      (∀ t ∈ ts, t.Every (¬ ·.IsVariable)) →
      ∀ s : Ty, s.mentionsError = false → ∃ t ∈ ts, d.isSubtype c t s = false := by
  constructor
  · intro r hr hinherits t ht
    have hjoinable (t : Ty) (ht : t ∈ ts) : d.IsJoinable t.erased :=
      ⟨Ty.erased_erased t, Ty.error_notMem_parts (by simpa using hts t ht), hinherits t ht⟩
    have hbounds : (ts.foldl (add d c) .unseen).Bounds d c (ts.reverse ++ []) :=
      bounds_foldl hd hmarks (show Candidates.unseen.Bounds d c [] from rfl) hjoinable
    cases hc : ts.foldl (add d c) .unseen <;> rw [hc] at hr hbounds
    case unseen | conflict => cases hr
    case common u =>
        obtain rfl : u = r := Except.ok.inj hr
        obtain ⟨hu, hbelow⟩ := hbounds
        rw [isSubtype_iff, hu.erased_eq]
        exact hbelow t (by simpa using ht)
  · intro u v h hvars s hs
    exact exists_not_isSubtype_of_conflict hts h hvars hs

end Candidates

namespace Declarations

def wrappers : Declarations where
  classes := [("Wrapper", { superclass := some (.generic 0 "T"), generics := ["T"] })]

def classSize : Ty → Nat
  | .object _ args => 1 + Ty.sizeAll args
  | _ => 0

theorem classSize_le_size (t : Ty) : classSize t ≤ t.size := by
  cases t <;> simp [classSize, Ty.size]

/-- A walk goes on with an argument, which is smaller. -/
theorem isAcyclic_wrappers : wrappers.IsAcyclic := by
  refine Subrelation.wf (r := InvImage (· < ·) classSize) ?_ (InvImage.wf _ Nat.lt_wfRel.wf)
  intro s t hext
  obtain ⟨name, args, decl, u, rfl, hdecl, hsuper, rfl⟩ := Extends.exists_superclass hext
  obtain ⟨-, rfl⟩ : name = "Wrapper" ∧
      decl = { superclass := some (.generic 0 "T"), generics := ["T"] } := by
    simpa [wrappers] using mem_of_class? hdecl
  obtain rfl := Option.some.inj hsuper
  cases args with
  | nil => exact Nat.one_pos
  | cons a args =>
      have := classSize_le_size a
      show classSize a < 1 + (a.size + Ty.sizeAll args)
      omega

/-- The argument of a wrapper is inherited from and found as its supertype, but is not above it. -/
theorem not_isSubtype_result_wrapper :
    let ts : List Ty := [.object "Wrapper" [.int], .int]
    wrappers.IsAcyclic ∧ (wrappers.EverySuperclass fun _ => Ty.IsUnmarked) ∧
      GenericContext.WellConstrained {} ∧ (∀ t ∈ ts, t.mentionsError = false) ∧
      (ts.foldl (Candidates.add wrappers {}) .unseen).result = .ok .int ∧
      wrappers.isSubtype {} (.object "Wrapper" [.int]) .int = false := by
  refine ⟨isAcyclic_wrappers, everySuperclass_of_mem ?_, ?_, by decide, by decide +kernel,
    by decide +kernel⟩
  · simp [wrappers, Ty.Every, Ty.IsUnmarked]
  · exact GenericContext.wellConstrained_of_mem (by simp) (by simp)

/-- Squares and shapes are folded into optional shapes; a shape and a type of shapes are in conflict. -/
theorem result_isUpperBound_shapes :
    let ts : List Ty := [.boxed (.object "Square" []), .optional (.object "Shape" [])]
    let us : List Ty := [.object "Shape" [], .typeValue (.object "Shape" [])]
    (shapes.IsAcyclic ∧ (shapes.EverySuperclass fun _ => Ty.IsUnmarked)) ∧
    ((∀ t ∈ ts, t.mentionsError = false ∧ shapes.InheritsClasses t.erased) ∧
      (ts.foldl (Candidates.add shapes {}) .unseen).result = .ok (.optional (.object "Shape" [])) ∧
      ∀ t ∈ ts, shapes.isSubtype {} t (.optional (.object "Shape" [])) = true) ∧
    ((∀ t ∈ us, t.mentionsError = false ∧ t.Every (¬ ·.IsVariable)) ∧
      (us.foldl (Candidates.add shapes {}) .unseen).result =
        .error (.conflict (.object "Shape" []) (.typeValue (.object "Shape" []))) ∧
      ∃ t ∈ us, shapes.isSubtype {} t .something = false) := by
  intro ts us
  have hmarks : shapes.EverySuperclass fun _ => Ty.IsUnmarked :=
    everySuperclass_of_mem (by simp [shapes, Ty.Every, Ty.EveryAll, Ty.IsUnmarked])
  have hts : ∀ t ∈ ts, t.mentionsError = false := by decide
  have hus : ∀ t ∈ us, t.mentionsError = false := by decide
  have hinherits (t : Ty) (_ : t ∈ ts) : shapes.InheritsClasses t.erased :=
    inheritsClasses_of_superclasses (by simp [shapes]) t.erased
  have hvars : ∀ t ∈ us, t.Every (¬ ·.IsVariable) := by
    simp [us, Ty.Every, Ty.EveryAll, Ty.IsVariable]
  have hresult : (ts.foldl (Candidates.add shapes {}) .unseen).result =
      .ok (.optional (.object "Shape" [])) := by decide +kernel
  have hconflict : (us.foldl (Candidates.add shapes {}) .unseen).result =
      .error (.conflict (.object "Shape" []) (.typeValue (.object "Shape" []))) := by decide +kernel
  refine ⟨⟨isAcyclic_shapes, hmarks⟩, ⟨fun t ht => ⟨hts t ht, hinherits t ht⟩, hresult, ?_⟩,
    fun t ht => ⟨hus t ht, hvars t ht⟩, hconflict, ?_⟩
  · exact (Candidates.result_isUpperBound isAcyclic_shapes hmarks ts hts).1 _ hresult hinherits
  · exact (Candidates.result_isUpperBound isAcyclic_shapes hmarks us hus).2 _ _ hconflict hvars
      .something rfl

end Declarations

end Boxlang
