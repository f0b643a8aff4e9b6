import Boxlang.Proofs.Subtyping.Order

/-!
# Variables and their constraints

A comparison with an optional goes on under the optional before it looks at what is
compared, so a variable meets its constraint only once no optionals are left above it
(`Declarations.below_variable_iff`).  A constraint that is no optional loses nothing by
this, as a type that is no optional is below an optional exactly if it is below what is
under it.  An optional is below optionals alone: a variable that is constrained by one is
not even below its own constraint.
-/

namespace Boxlang

namespace Ty

variable {t : Ty}

def underOptionals : Ty → Ty
  | .optional t => t.underOptionals
  | t => t

theorem underOptionals_of_ne_optional (h : ∀ x, t ≠ .optional x) : t.underOptionals = t := by
  cases t with
  | optional x => exact (h x rfl).elim
  | _ => rfl

theorem underOptionals_ne_optional (t x : Ty) : t.underOptionals ≠ .optional x := by
  induction t using underOptionals.induct with
  | case1 t ih => exact ih
  | case2 t hopt =>
      rw [underOptionals_of_ne_optional hopt]
      exact hopt x

end Ty

namespace Declarations

variable {d : Declarations} {c : GenericContext} {a b v bound s : Ty}

theorem below_underOptionals_iff (ha : ∀ x, a ≠ .optional x) (b : Ty) :
    d.Below c a b ↔ d.Below c a b.underOptionals := by
  induction b using Ty.underOptionals.induct with
  | case1 b ih =>
      rw [Ty.underOptionals, ← ih]
      exact ⟨fun h => h.of_optional ha, Below.toOptional⟩
  | case2 b hopt => rw [Ty.underOptionals_of_ne_optional hopt]

theorem below_optional_underOptionals_iff :
    d.Below c (.optional a) b.underOptionals ↔ b.underOptionals = .error := by
  constructor
  · intro h
    by_contra hne
    obtain ⟨y, hy⟩ := (below_iff.mp h).exists_optional hne
    exact b.underOptionals_ne_optional y hy
  · intro h
    rw [h]
    exact below_iff.mpr (.errorRight _)

theorem ne_optional_of_constraint? (h : c.constraint? v = some bound) (x : Ty) : v ≠ .optional x := by
  rintro rfl
  cases h

/-- The types above a variable are, up to optionals, those above its constraint and three more. -/
theorem below_variable_iff (hbound : c.constraint? v = some bound) (hne : bound ≠ v) :
    d.Below c v b ↔
      b.underOptionals ∈ [.error, .something, v] ∨ d.Below c bound b.underOptionals := by
  rw [below_underOptionals_iff (ne_optional_of_constraint? hbound)]
  have hopt := b.underOptionals_ne_optional
  generalize b.underOptionals = k at hopt
  constructor
  · intro h
    cases below_iff.mp h with
    | errorLeft => cases hbound
    | errorRight | refl | top => simp
    | toOptional => exact (hopt _ rfl).elim
    | byConstraint hbound' _ _ _ hk =>
        obtain rfl := Option.some.inj (hbound.symm.trans hbound')
        exact .inr hk
    | conforms hconf =>
        obtain ⟨-, hnone⟩ := belowTop_of_conformsTo (c := c) hconf
        simp [hbound] at hnone
    | optional | ancestor | callable | typeValue => cases hbound
  · intro h
    by_cases hk : k ∈ [.error, .something, v]
    · simp only [List.mem_cons, List.not_mem_nil, or_false] at hk
      rcases hk with rfl | rfl | rfl
      · exact below_iff.mpr (.errorRight v)
      · apply below_iff.mpr
        cases v with
        | generic | localGeneric => exact .top rfl
        | _ => cases hbound
      · exact .refl k
    · have htop : k ≠ .something := by
        rintro rfl
        simp at hk
      exact Below.of_constraint hbound hne htop hopt (h.resolve_left hk)

/--
A variable is below what its constraint is below, unless the constraint is an optional:
then of the types above the constraint it is below those only that it is below whatever
its constraint is, the optionals of itself and of the top.  This is for constraints
without storage marks; a mark in a constraint is compared as part of the type.
-/
theorem isSubtype_variable_iff (hbound : c.constraint? v = some bound) (hne : bound ≠ v) :
    (∀ s, d.isSubtype c v s = true ↔
      s.erased.underOptionals ∈ [.error, .something, v] ∨
        d.isSubtypeErased c bound s.erased.underOptionals = true) ∧
    (bound.erased = bound → ∀ s, d.isSubtype c bound s = true →
      (d.isSubtype c v s = true ↔
        (∀ x, bound ≠ .optional x) ∨ s.erased.underOptionals ∈ [.error, .something, v])) := by
  have hv : v.erased = v := GenericContext.erased_of_isSome_constraint? (c := c) (by simp [hbound])
  have hiff (s : Ty) : d.isSubtype c v s = true ↔
      s.erased.underOptionals ∈ [.error, .something, v] ∨
        d.isSubtypeErased c bound s.erased.underOptionals = true := by
    rw [isSubtype_iff, hv, isSubtypeErased_iff, below_variable_iff hbound hne]
  refine ⟨hiff, fun hb s hs => ?_⟩
  rw [isSubtype_iff, hb] at hs
  rw [hiff, isSubtypeErased_iff]
  by_cases hopt : ∃ x, bound = .optional x
  · obtain ⟨x, rfl⟩ := hopt
    rw [below_optional_underOptionals_iff]
    simp only [List.mem_cons, List.not_mem_nil, or_false, ne_eq, Ty.optional.injEq, forall_eq', false_or]
    exact ⟨fun h => h.elim id .inl, .inl⟩
  · have hk := (below_underOptionals_iff (not_exists.mp hopt) _).mp hs
    exact iff_of_true (.inr hk) (.inl (not_exists.mp hopt))

def optionallyInt : GenericContext where
  constraints := [.optional .int]

/-- A variable below two constraints goes where squares go, and one that may be none goes to few places. -/
theorem isSubtype_variable_shapes :
    let t := Ty.localGeneric 0 "T"
    let u := Ty.localGeneric 1 "U"
    let drawn := Ty.optional (.boxed (.protocol "Drawn"))
    (constrainedTwice.constraint? t = some u ∧ u ≠ t ∧ u.erased = u ∧
      shapes.isSubtype constrainedTwice u drawn = true ∧ shapes.isSubtype constrainedTwice t drawn = true) ∧
    (optionallyInt.constraint? t = some (.optional .int) ∧ Ty.optional .int ≠ t ∧
      shapes.isSubtype optionallyInt t (.optional t) = true ∧
      shapes.isSubtype optionallyInt t (.optional .int) = false) := by
  intro t u drawn
  have ht : constrainedTwice.constraint? t = some u := rfl
  have hi : optionallyInt.constraint? t = some (.optional .int) := rfl
  have htwice := isSubtype_variable_iff (d := shapes) ht (by decide)
  have honce := isSubtype_variable_iff (d := shapes) hi (by decide)
  have hu : shapes.isSubtype constrainedTwice u drawn = true := by decide +kernel
  refine ⟨⟨ht, by decide, rfl, hu, ?_⟩, hi, by decide, ?_, ?_⟩
  · exact (htwice.2 rfl drawn hu).mpr (.inl (by simp [u]))
  · exact (honce.1 (.optional t)).mpr (.inl (by decide))
  · rw [← Bool.not_eq_true, honce.1]
    decide +kernel

/-- What is constrained by an optional cannot stand where its constraint can. -/
theorem not_isSubtype_constraint :
    let v := Ty.localGeneric 0 "T"
    optionallyInt.WellConstrained ∧ optionallyInt.constraint? v = some (.optional .int) ∧
      shapes.isSubtype optionallyInt (.optional .int) (.optional .int) = true ∧
      shapes.isSubtype optionallyInt v (.optional .int) = false := by
  intro v
  refine ⟨?_, rfl, by decide +kernel, by decide +kernel⟩
  apply GenericContext.wellConstrained_of_mem
  · simp [optionallyInt, Ty.mentionsError]
  · simp [optionallyInt, GenericContext.constraint?, Ty.erased]

end Declarations

end Boxlang
