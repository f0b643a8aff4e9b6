import Boxlang.Proofs.Calls.Inherited
import Boxlang.Proofs.Subtyping.Order
import Boxlang.Proofs.Subtyping.Recursion

/-!
# Subtyping ends

A comparison replaces a variable by its constraint, which may be larger, and swaps its two
types at every parameter, so that neither of them gets smaller on its own.  What gets smaller
is the position in the relation `GenericContext.GoesOn`, from a type to the types that its
comparison goes on with.  That relation is well-founded where constraints mention variables
of a lower rank only (`GenericContext.IsRanked.wellFounded`), and every call of a comparison
goes on from one of its types, or from both (`Declarations.calls_of_comparison`).  Where a
constraint leads back to its variable, the comparison has no result
(`Declarations.subtypeRun_eq_none`).

Beside that all walks over superclasses have to end, which is the case exactly if no class is
met on the walk from it (`Package.subtypingEnds_iff`).  The names in the declarations do not
tell (`Package.not_subtypingEnds_returning`).
-/

namespace Boxlang

namespace Ty

mutual

theorem every_of_forall {p : Ty → Prop} (h : ∀ t, p t) : ∀ t : Ty, t.Every p
  | .object _ args | .value _ args => ⟨h _, everyAll_of_forall h args⟩
  | .callable params ret => ⟨h _, everyAll_of_forall h params, every_of_forall h ret⟩
  | .optional inner | .typeValue inner | .boxed inner => ⟨h _, every_of_forall h inner⟩
  | .error | .nothing | .int | .real | .bool | .byte | .symbol | .something => h _
  | .enum _ | .protocol _ | .generic _ _ | .localGeneric _ _ => h _

theorem everyAll_of_forall {p : Ty → Prop} (h : ∀ t, p t) : ∀ ts : List Ty, EveryAll p ts
  | [] => trivial
  | t :: ts => ⟨every_of_forall h t, everyAll_of_forall h ts⟩

end

end Ty

/-! ### Ranks -/

namespace GenericContext

/-- If the type is a variable, its rank is below `n`. -/
def RankedBelow (owner locals : Nat → Nat) (n : Nat) : Ty → Prop
  | .generic i _ => owner i < n
  | .localGeneric i _ => locals i < n
  | _ => True

/-- The constraint of each variable mentions only variables of a lower rank. -/
structure IsRanked (c : GenericContext) (owner locals : Nat → Nat) : Prop where
  ofOwner (i : Nat) : (c.ownerConstraint i).Every (RankedBelow owner locals (owner i))
  ofLocal (i : Nat) : (c.localConstraint i).Every (RankedBelow owner locals (locals i))

/-- A comparison of the first type may go on with the second in its place. -/
inductive GoesOn (c : GenericContext) : Ty → Ty → Prop where
  | constraint {v bound : Ty} : c.constraint? v = some bound → GoesOn c v bound
  | optional (t : Ty) : GoesOn c (.optional t) t
  | typeValue (t : Ty) : GoesOn c (.typeValue t) t
  | param {params : List Ty} {t : Ty} (ret : Ty) : t ∈ params → GoesOn c (.callable params ret) t
  | ret (params : List Ty) (t : Ty) : GoesOn c (.callable params t) t

/-- What the comparison of two types may call itself with: something goes on, and parameters swap sides. -/
inductive Calls (c : GenericContext) (a b : Ty) : Ty → Ty → Prop where
  | left {x : Ty} : c.GoesOn a x → Calls c a b x b
  | right {y : Ty} : c.GoesOn b y → Calls c a b a y
  | both {x y : Ty} : c.GoesOn a x → c.GoesOn b y → Calls c a b x y
  | swapped {x y : Ty} : c.GoesOn a x → c.GoesOn b y → Calls c a b y x

variable {c : GenericContext}

/-- Comparisons of the type go on with other types finitely often. -/
abbrev Settles (c : GenericContext) : Ty → Prop :=
  Acc fun u t => c.GoesOn t u

mutual

/-- Going on leads into the parts of a type, and on from there only at variables. -/
theorem settles_of_forall_variable {p : Ty → Prop}
    (hp : ∀ v, p v → (c.constraint? v).isSome → c.Settles v) : ∀ t : Ty, t.Every p → c.Settles t
  | .generic _ _, ht | .localGeneric _ _, ht => hp _ ht rfl
  | .callable params ret, ht => .intro _ fun u hu => by
      cases hu with
      | constraint h => cases h
      | param _ hmem => exact settlesAll_of_forall_variable hp params ht.2.1 u hmem
      | ret => exact settles_of_forall_variable hp ret ht.2.2
  | .optional inner, ht => .intro _ fun u hu => by
      cases hu with
      | constraint h => cases h
      | optional => exact settles_of_forall_variable hp inner ht.2
  | .typeValue inner, ht => .intro _ fun u hu => by
      cases hu with
      | constraint h => cases h
      | typeValue => exact settles_of_forall_variable hp inner ht.2
  | .error, _ | .nothing, _ | .int, _ | .real, _ | .bool, _ | .byte, _ | .symbol, _
  | .something, _ | .enum _, _ | .protocol _, _ | .object _ _, _ | .value _ _, _ | .boxed _, _ =>
      .intro _ fun u hu => by
        cases hu with
        | constraint h => cases h

theorem settlesAll_of_forall_variable {p : Ty → Prop}
    (hp : ∀ v, p v → (c.constraint? v).isSome → c.Settles v) :
    ∀ ts : List Ty, Ty.EveryAll p ts → ∀ t ∈ ts, c.Settles t
  | [], _ => by simp
  | t :: ts, hts => List.forall_mem_cons.mpr
      ⟨settles_of_forall_variable hp t hts.1, settlesAll_of_forall_variable hp ts hts.2⟩

end

/-- A constraint settles before its variable: the induction is on the rank that bounds all variables. -/
theorem settles_of_rankedBelow {owner locals : Nat → Nat} (hc : c.IsRanked owner locals) (n : Nat)
    (t : Ty) (ht : t.Every (RankedBelow owner locals n)) : c.Settles t := by
  induction n using Nat.strongRecOn generalizing t with
  | ind n ih =>
      refine settles_of_forall_variable (fun v hv hvar => .intro v fun u hu => ?_) t ht
      cases hu with
      | constraint hbound =>
          cases v with
          | generic i name =>
              obtain rfl := Option.some.inj hbound
              exact ih (owner i) hv _ (hc.ofOwner i)
          | localGeneric i name =>
              obtain rfl := Option.some.inj hbound
              exact ih (locals i) hv _ (hc.ofLocal i)
          | _ => cases hbound
      | _ => cases hvar

/-- With ranked constraints going on ends from every type. -/
theorem IsRanked.wellFounded {owner locals : Nat → Nat} (hc : c.IsRanked owner locals) :
    WellFounded fun u t => c.GoesOn t u := by
  refine ⟨fun t => settles_of_forall_variable (p := fun _ => True) (fun v _ hv => ?_) t
    (Ty.every_of_forall (fun _ => trivial) t)⟩
  cases v with
  | generic i name => exact settles_of_rankedBelow hc (owner i + 1) _ (Nat.lt_succ_self _)
  | localGeneric i name => exact settles_of_rankedBelow hc (locals i + 1) _ (Nat.lt_succ_self _)
  | _ => cases hv

end GenericContext

/-! ### Comparisons -/

namespace Declarations

variable {d : Declarations} {c : GenericContext} {a b : Ty}

/-- The pairs that a comparison comes down to are met by going on from one of its types, or from both. -/
theorem calls_of_comparison {pairs : List (Ty × Ty)} (h : comparison c a b = .pairs pairs) :
    ∀ q ∈ pairs, c.Calls a b q.1 q.2 := by
  unfold comparison at h
  split at h
  next => cases h
  next =>
    split at h
    case h_1 | h_2 | h_3 | h_4 | h_6 | h_10 | h_11 | h_14 => cases h
    case h_5 =>
      obtain rfl := Comparison.pairs.inj h
      simpa using .both (.optional _) (.optional _)
    case h_7 =>
      obtain rfl := Comparison.pairs.inj h
      simpa using .right (.optional _)
    case h_8 | h_9 =>
      split at h
      next bound hbound =>
        split at h
        next => cases h
        next =>
          obtain rfl := Comparison.pairs.inj h
          simpa using .left (.constraint hbound)
      next => cases h
    case h_12 =>
      split at h
      next =>
        obtain rfl := Comparison.pairs.inj h
        intro q hq
        rcases List.mem_append.mp hq with hq | hq
        · obtain ⟨hright, hleft⟩ := List.of_mem_zip hq
          exact .swapped (.param _ hleft) (.param _ hright)
        · obtain rfl := List.mem_singleton.mp hq
          exact .both (.ret _ _) (.ret _ _)
      next => cases h
    case h_13 =>
      obtain rfl := Comparison.pairs.inj h
      simpa using .both (.typeValue _) (.typeValue _)

theorem below_typeValue_iff : d.Below c (.typeValue a) (.typeValue b) ↔ d.Below c a b := by
  refine ⟨fun h => ?_, fun h => below_iff.mpr (.typeValue h)⟩
  cases below_iff.mp h with
  | refl => exact .refl a
  | byConstraint hbound => cases hbound
  | typeValue h => exact h

/-- Except with itself, the top and optionals a variable is compared by its constraint. -/
theorem below_iff_of_constraint? {bound : Ty} (hbound : c.constraint? a = some bound) (hbe : b ≠ .error)
    (hne : a ≠ b) (htop : b ≠ .something) (hopt : ∀ x, b ≠ .optional x) :
    d.Below c a b ↔ bound ≠ a ∧ d.Below c bound b := by
  refine ⟨fun h => ?_, fun ⟨hself, h⟩ => .of_constraint hbound hself htop hopt h⟩
  cases below_iff.mp h with
  | errorRight => exact (hbe rfl).elim
  | refl => exact (hne rfl).elim
  | top => exact (htop rfl).elim
  | toOptional => exact (hopt _ rfl).elim
  | byConstraint hbound' hself _ _ hstep =>
      obtain rfl := Option.some.inj (hbound.symm.trans hbound')
      exact ⟨hself, hstep⟩
  | conforms hconf =>
      rw [(belowTop_of_conformsTo hconf).2] at hbound
      cases hbound
  | errorLeft | optional | ancestor | callable | typeValue => cases hbound

theorem isSubtypeErased_eq_iff {r : Bool} : d.isSubtypeErased c a b = r ↔ (d.Below c a b ↔ r = true) := by
  rw [Bool.eq_iff_iff, isSubtypeErased_iff]

def Comparison.holds (d : Declarations) (related : Ty → Ty → Bool) (sub sup : Ty) : Comparison → Bool
  | .answer r => r
  | .inherits => d.hasAncestor sub (· == sup)
  | .conforms protocol => d.conformsTo sub protocol
  | .pairs qs => qs.all fun q => related q.1 q.2

/-- Two types are related exactly if what their comparison comes down to is so. -/
theorem isSubtypeErased_eq_holds (a b : Ty) : d.isSubtypeErased c a b =
    (comparison c a b).holds d (d.isSubtypeErased c) a b := by
  unfold comparison
  split
  next hif => simp [isSubtypeErased, subtypeSteps, isSubtypeWithin, hif, Comparison.holds]
  next hif =>
    split
    case h_1 | h_2 | h_3 | h_4 | h_6 | h_10 | h_11 | h_14 =>
      simp_all [isSubtypeErased, subtypeSteps, isSubtypeWithin, Comparison.holds]
    case h_5 => simp [isSubtypeErased_eq_iff, below_optional_iff, Comparison.holds]
    case h_7 hopt =>
      simpa [isSubtypeErased_eq_iff, Comparison.holds] using ⟨(.of_optional · hopt), .toOptional⟩
    case h_8 htop hopt | h_9 htop hopt =>
      simp only [Bool.or_eq_true, Ty.isError, beq_iff_eq, not_or] at hif
      split
      next bound hbound =>
        rw [isSubtypeErased_eq_iff, below_iff_of_constraint? hbound hif.1.2 hif.2 htop hopt]
        split <;> simp_all [isSubtypeErased_iff, Comparison.holds]
      next hnone => cases hnone
    case h_12 =>
      rw [isSubtypeErased_eq_iff, below_callable_iff]
      split <;> simp_all [isSubtypeErased_iff, Comparison.holds]
    case h_13 => simp [isSubtypeErased_eq_iff, below_typeValue_iff, Comparison.holds]

/-- The comparison ends, with the result of the one that is given a number of steps. -/
def Decides (d : Declarations) (c : GenericContext) (a b : Ty) : Prop :=
  EndsWith (fun n => d.subtypeRun c n a b) (d.isSubtypeErased c a b)

/-- A comparison ends if all comparisons end that it may call itself with. -/
theorem decides_of_calls (hd : d.IsAcyclic) (hcalls : ∀ x y, c.Calls a b x y → d.Decides c x y) :
    d.Decides c a b := by
  refine .of_succ ?_
  rw [isSubtypeErased_eq_holds]
  simp only [subtypeRun]
  cases h : comparison c a b with
  | answer related => exact .const related
  | inherits => exact (hd.endsWith_ancestorRun (fun _ => .const _) a).map
  | conforms protocol => exact (hd.endsWith_protocolsRun a).map
  | pairs pairs => exact .allM fun q hq => hcalls _ _ (calls_of_comparison h q hq)

section

variable (hd : d.IsAcyclic) (hgoes : WellFounded fun u t => c.GoesOn t u)
include hd hgoes

/--
Comparisons of two types end in both directions.  The induction is on the first type, for all
second types, and then on the second: where parameters swap the two, both have gone on.
-/
theorem decides_both (a b : Ty) : d.Decides c a b ∧ d.Decides c b a := by
  induction a using hgoes.induction generalizing b with
  | h a iha =>
      induction b using hgoes.induction with
      | h b ihb =>
          constructor
          · refine decides_of_calls hd fun x y hcall => ?_
            cases hcall with
            | left hx => exact (iha _ hx b).1
            | right hy => exact (ihb _ hy).1
            | both hx _ => exact (iha _ hx y).1
            | swapped hx _ => exact (iha _ hx x).2
          · refine decides_of_calls hd fun y x hcall => ?_
            cases hcall with
            | left hy => exact (ihb _ hy).2
            | right hx => exact (iha _ hx b).2
            | both _ hx => exact (iha _ hx y).2
            | swapped _ hx => exact (iha _ hx x).1

theorem endsWith_subtypeRun (a b : Ty) :
    EndsWith (fun n => d.subtypeRun c n a b) (d.isSubtypeErased c a b) :=
  (decides_both hd hgoes a b).1

/-! ### Common supertypes -/

theorem endsWith_nominalJoinRun (a b : Ty) :
    EndsWith (fun n => d.nominalJoinRun c n a b) (d.nominalJoin c a b) := by
  have habove (s : Ty) : EndsWith
      (fun n => do return if ← d.subtypeRun c n b s then some s else none)
      (Option.guard (d.isSubtypeErased c b) s) :=
    (endsWith_subtypeRun hd hgoes b s).bind (.const _)
  refine (hd.endsWith_ancestorRun habove a).bind ?_
  unfold nominalJoin findAncestor?
  cases d.findSomeAncestor? a (Option.guard (d.isSubtypeErased c b)) with
  | some ancestor => exact .const ancestor
  | none =>
      refine (hd.endsWith_protocolsRun b).bind ((hd.endsWith_protocolsRun a).bind ?_)
      cases (d.protocolsOf a).find? (d.protocolsOf b).contains <;> exact .const _

/-- Once two types are known not to be related, the search for their common supertype goes on with the rest. -/
theorem endsWith_of_not_related {rest : Nat → Option (Option Ty)} {r : Option Ty} (ha : ¬ a.isError = true)
    (hab : ¬ d.isSubtypeErased c a b = true) (hba : ¬ d.isSubtypeErased c b a = true)
    (h : EndsWith rest r) : EndsWith (fun n => do
      if a.isError then return some b
      if ← d.subtypeRun c n a b then return some b
      if ← d.subtypeRun c n b a then return some a
      rest n) r := by
  simp only [ha, Bool.false_eq_true, if_false]
  refine (endsWith_subtypeRun hd hgoes a b).bind ?_
  simp only [hab, Bool.false_eq_true, if_false]
  refine (endsWith_subtypeRun hd hgoes b a).bind ?_
  simpa only [hba, Bool.false_eq_true, if_false] using h

/-- Each call for a common supertype compares its types, and goes on with smaller ones. -/
theorem endsWith_commonSupertypeRun_of_erased (a b : Ty) : a.erased = a → b.erased = b →
    EndsWith (fun n => d.commonSupertypeRun? c n a b) (d.commonErased? c a b) := by
  fun_induction d.commonErased? c a b <;> intro ha hb
  all_goals
    refine .of_succ ?_
    simp only [commonSupertypeRun?, ha, hb]
  case case1 herror =>
    simp only [herror, if_true]
    exact .const _
  case case2 herror hab =>
    simp only [herror, Bool.false_eq_true, if_false]
    refine (endsWith_subtypeRun hd hgoes _ _).bind ?_
    simp only [hab, if_true]
    exact .const _
  case case3 herror hab hba =>
    simp only [herror, Bool.false_eq_true, if_false]
    refine (endsWith_subtypeRun hd hgoes _ _).bind ?_
    simp only [hab, Bool.false_eq_true, if_false]
    refine (endsWith_subtypeRun hd hgoes _ _).bind ?_
    simp only [hba, if_true]
    exact .const _
  case case4 herror hab hba ih =>
    exact endsWith_of_not_related hd hgoes herror hab hba
      ((ih (Ty.optional.inj ha) (Ty.optional.inj hb)).bind (.const _))
  case case5 herror hab hba ih =>
    exact endsWith_of_not_related hd hgoes herror hab hba ((ih (Ty.optional.inj ha) hb).bind (.const _))
  case case6 herror hab hba ih =>
    exact endsWith_of_not_related hd hgoes herror hab hba ((ih (Ty.optional.inj hb) ha).bind (.const _))
  case case7 herror hab hba ih =>
    exact endsWith_of_not_related hd hgoes herror hab hba
      ((ih (Ty.typeValue.inj ha) (Ty.typeValue.inj hb)).bind (.const _))
  case case8 herror hab hba | case9 herror hab hba | case10 herror _ _ _ _ hab hba
      | case11 herror _ _ _ hab hba =>
    exact endsWith_of_not_related hd hgoes herror hab hba (.const _)
  case case12 herror hab hba =>
    exact endsWith_of_not_related hd hgoes herror hab hba
      ((endsWith_nominalJoinRun hd hgoes _ _).bind (.const _))

theorem endsWith_commonSupertypeRun (a b : Ty) :
    EndsWith (fun n => d.commonSupertypeRun? c n a b) (d.commonSupertype? c a b) := by
  have herased := endsWith_commonSupertypeRun_of_erased hd hgoes (c := c) a.erased b.erased
    (Ty.erased_erased a) (Ty.erased_erased b)
  refine herased.congr fun n => ?_
  cases n with
  | zero => rfl
  | succ n => simp only [commonSupertypeRun?, Ty.erased_erased]

end

/-! ### Comparisons that go on for ever -/

/-- A variable and a type that is none of the exceptions come down to its constraint and the type. -/
theorem comparison_of_constraint? {bound : Ty} (hbound : c.constraint? a = some bound)
    (hself : bound ≠ a) (hbe : b ≠ .error) (hne : a ≠ b) (htop : b ≠ .something)
    (hopt : ∀ x, b ≠ .optional x) : comparison c a b = .pairs [(bound, b)] := by
  cases a with
  | generic i name | localGeneric i name =>
      cases b with
      | error => exact (hbe rfl).elim
      | something => exact (htop rfl).elim
      | optional x => exact (hopt x rfl).elim
      | _ => simp [comparison, Ty.isError, hne, hbound, hself]
  | _ => cases hbound

/-- Variables whose constraints are such variables again leave a comparison no result. -/
theorem subtypeRun_eq_none {P : Ty → Prop}
    (hP : ∀ v, P v → ∃ bound, c.constraint? v = some bound ∧ bound ≠ v ∧ P bound)
    (hb : c.constraint? b = none) (hbe : b ≠ .error) (htop : b ≠ .something)
    (hopt : ∀ x, b ≠ .optional x) (ha : P a) (n : Nat) : d.subtypeRun c n a b = none := by
  induction n generalizing a with
  | zero => rfl
  | succ n ih =>
      obtain ⟨bound, hbound, hself, hnext⟩ := hP a ha
      have hne : a ≠ b := by
        rintro rfl
        simp [hb] at hbound
      rw [subtypeRun, comparison_of_constraint? hbound hself hbe hne htop hopt]
      simp [List.allM, ih hnext]

/-! ### Walks that go on for ever -/

section

variable {P : Ty → Prop} (hP : ∀ t, P t → ∃ s, d.Extends t s ∧ P s)
include hP

/-- A walk that always goes on to a type where it finds nothing has no result. -/
theorem walkRun_eq_none {α : Type} {f : Nat → Ty → Option (Option α)} {t : Ty}
    (hf : ∀ n t, P t → f n t = some none) (ht : P t) (n : Nat) : d.walkRun f n t = none := by
  induction n generalizing t with
  | zero => rfl
  | succ n ih =>
      obtain ⟨s, hs, hnext⟩ := hP t ht
      simpa [walkRun, hf n t ht, show d.superclass? t = some s from hs] using ih hnext

theorem ancestorRun_eq_none {α : Type} {f : Nat → Ty → Option (Option α)} {t : Ty}
    (hf : ∀ n t, P t → f n t = some none) (ht : P t) (n : Nat) : d.ancestorRun f n t = none := by
  obtain ⟨s, hs, hnext⟩ := hP t ht
  rw [ancestorRun, show d.superclass? t = some s from hs]
  exact walkRun_eq_none hP hf hnext n

theorem classProtocolsRun_eq_none {t : Ty} (ht : P t) (n : Nat) : d.classProtocolsRun n t = none := by
  induction n generalizing t with
  | zero => rfl
  | succ n ih =>
      obtain ⟨s, hs, hnext⟩ := hP t ht
      simp [classProtocolsRun, show d.superclass? t = some s from hs, ih hnext]

end

/-- Class `A` extends its own parameter, and class `B` extends `A` of `B`. -/
def returning : Declarations :=
  prelude
    |>.addClass "A" { superclass := some (.generic 0 "T"), generics := ["T"] }
    |>.addClass "B" { superclass := some (.object "A" [.object "B" []]) }

/-- The walk from `B` comes to `A` of `B`, and from there back to `B`. -/
theorem exists_extends_returning (t : Ty) (ht : t = .object "B" [] ∨ t = .object "A" [.object "B" []]) :
    ∃ s, returning.Extends t s ∧ (s = .object "B" [] ∨ s = .object "A" [.object "B" []]) := by
  rcases ht with rfl | rfl
  · exact ⟨_, rfl, .inr rfl⟩
  · exact ⟨_, rfl, .inl rfl⟩

/-- Only `B` has a superclass that is a class by name, and that is `A`. -/
theorem not_transGen_superclassNamed_returning (name : String) :
    ¬ Relation.TransGen returning.SuperclassNamed name name := by
  let rank (name : String) : Nat := if name = "B" then 1 else 0
  have hstep (A B : String) (h : returning.SuperclassNamed A B) : rank B < rank A := by
    obtain ⟨decl, args, hdecl, hsuper⟩ := h
    have hmem := mem_of_class? hdecl
    simp only [returning, addClass, prelude, List.mem_cons, Prod.mk.injEq, List.not_mem_nil, or_false] at hmem
    rcases hmem with ⟨rfl, rfl⟩ | ⟨rfl, rfl⟩ | ⟨rfl, rfl⟩
    · obtain ⟨rfl, -⟩ := Ty.object.inj (Option.some.inj hsuper)
      decide
    · cases hsuper
    · cases hsuper
  exact fun h => Nat.lt_irrefl _ (lt_of_transGen_superclassNamed hstep h)

end Declarations

/-! ### Subtyping -/

namespace Package

theorem endsWith_methodRun (p : Package) (hd : p.declarations.IsAcyclic) (t : Ty) (name : String) :
    EndsWith (fun n => p.methodRun? n t name) (p.method? t name) := by
  rw [method?_eq_findSome?]
  exact hd.endsWith_walkRun (fun _ => .const _) t.unboxed

/-- Subtyping, common supertypes, walks over superclasses and the lookup of methods end for all types. -/
structure SubtypingEnds (p : Package) (c : GenericContext) : Prop where
  subtype (a b : Ty) : EndsWith (fun n => p.declarations.subtypeRun c n a.erased b.erased)
    (p.declarations.isSubtype c a b)
  commonSupertype (a b : Ty) : EndsWith (fun n => p.declarations.commonSupertypeRun? c n a b)
    (p.declarations.commonSupertype? c a b)
  ancestor (α : Type) (f : Ty → Option α) (t : Ty) :
    EndsWith (fun n => p.declarations.ancestorRun (fun _ s => some (f s)) n t)
      (p.declarations.findSomeAncestor? t f)
  protocols (t : Ty) : EndsWith (fun n => p.declarations.protocolsRun n t) (p.declarations.protocolsOf t)
  method (t : Ty) (name : String) : EndsWith (fun n => p.methodRun? n t name) (p.method? t name)

theorem subtypingEnds_of_isAcyclic {p : Package} {c : GenericContext} (hd : p.declarations.IsAcyclic)
    (hgoes : WellFounded fun u t => c.GoesOn t u) : p.SubtypingEnds c where
  subtype a b := Declarations.endsWith_subtypeRun hd hgoes a.erased b.erased
  commonSupertype := Declarations.endsWith_commonSupertypeRun hd hgoes
  ancestor _ _ := hd.endsWith_ancestorRun fun _ => .const _
  protocols := hd.endsWith_protocolsRun
  method := p.endsWith_methodRun hd

/-- A walk that looks for nothing ends, so superclasses do. -/
theorem SubtypingEnds.isAcyclic {p : Package} {c : GenericContext} (h : p.SubtypingEnds c) :
    p.declarations.IsAcyclic := by
  refine ⟨fun t => Acc.intro t fun s hs => ?_⟩
  obtain ⟨n, hn⟩ := h.ancestor Unit (fun _ => none) t
  have hrun := hn n (Nat.le_refl n)
  simp only [Declarations.ancestorRun, show p.declarations.superclass? t = some s from hs] at hrun
  exact Declarations.ends_of_walkRun (fun _ _ => rfl) hrun

/--
Where constraints mention variables of lower ranks only, subtyping, common supertypes, walks
over superclasses and the lookup of methods end for all types, with the results of the
functions that are given a number of steps, exactly if no walk over superclasses meets the
class that it comes from.  Where no class extends a parameter of its own, that is so exactly
if the declared names of superclasses have no cycle.
-/
theorem subtypingEnds_iff (p : Package) (c : GenericContext) {owner locals : Nat → Nat}
    (hc : c.IsRanked owner locals) :
    (p.SubtypingEnds c ↔ ∀ name, ¬ p.declarations.ClassAbove name name) ∧
      (p.declarations.ExtendsNoParameter →
        (p.SubtypingEnds c ↔ ∀ name, ¬ Relation.TransGen p.declarations.SuperclassNamed name name)) := by
  have hends : p.SubtypingEnds c ↔ ∀ name, ¬ p.declarations.ClassAbove name name := by
    rw [← Declarations.isAcyclic_iff_classAbove]
    exact ⟨SubtypingEnds.isAcyclic, fun hd => subtypingEnds_of_isAcyclic hd hc.wellFounded⟩
  refine ⟨hends, fun hparam => hends.trans (forall_congr' fun name => ?_)⟩
  exact not_congr (Declarations.classAbove_iff_transGen hparam)

/-- The first variable is constrained by the second, and that one by a class. -/
theorem isRanked_constrainedTwice :
    Declarations.constrainedTwice.IsRanked (fun _ => 0) fun i => if i = 0 then 1 else 0 where
  ofOwner _ := trivial
  ofLocal i := by
    rcases i with _ | _ | i
    · exact Nat.one_pos
    · exact ⟨trivial, trivial⟩
    · exact trivial

/--
Two callables with a constrained variable among their parameters: the comparison swaps the
variables, and goes on with the constraint of the one that was on the right.
-/
theorem subtypingEnds_shapes :
    let p : Package := {
      declarations := Declarations.shapes
      functions := [{ name := "draw", owner? := some (.object "Shape" []) }] }
    let a := Ty.callable [.localGeneric 1 "U"] (.object "Square" [])
    let b := Ty.callable [.localGeneric 0 "T"] (.object "Shape" [])
    (∀ name, ¬ p.declarations.ClassAbove name name) ∧
      (∃ owner locals, Declarations.constrainedTwice.IsRanked owner locals) ∧
      EndsWith (fun n => p.declarations.subtypeRun Declarations.constrainedTwice n a.erased b.erased) true ∧
      EndsWith (fun n => p.declarations.subtypeRun Declarations.constrainedTwice n b.erased a.erased) false ∧
      EndsWith (fun n => p.declarations.commonSupertypeRun? Declarations.constrainedTwice n
        (.localGeneric 0 "T") (.optional (.object "Shape" []))) (some (.optional (.object "Shape" []))) ∧
      EndsWith (fun n => p.declarations.protocolsRun n (.object "Square" [])) ["Drawn"] ∧
      EndsWith (fun n => p.methodRun? n (.object "Square" []) "draw") (some 0) := by
  intro p a b
  have hclasses : ∀ name, ¬ p.declarations.ClassAbove name name :=
    Declarations.not_classAbove_of_rank (fun name => if name = "Square" then 1 else 0)
      (by simp [p, Declarations.shapes])
  have hab : p.declarations.isSubtype Declarations.constrainedTwice a b = true := by decide +kernel
  have hba : p.declarations.isSubtype Declarations.constrainedTwice b a = false := by decide +kernel
  have hjoin : p.declarations.commonSupertype? Declarations.constrainedTwice (.localGeneric 0 "T")
      (.optional (.object "Shape" [])) = some (.optional (.object "Shape" [])) := by decide +kernel
  have hdrawn : p.declarations.protocolsOf (.object "Square" []) = ["Drawn"] := by decide +kernel
  have hdraw : p.method? (.object "Square" []) "draw" = some 0 := by decide +kernel
  have hends := (p.subtypingEnds_iff Declarations.constrainedTwice isRanked_constrainedTwice).1.mpr hclasses
  exact ⟨hclasses, ⟨_, _, isRanked_constrainedTwice⟩, hab ▸ hends.subtype a b, hba ▸ hends.subtype b a,
    hjoin ▸ hends.commonSupertype _ _, hdrawn ▸ hends.protocols _, hdraw ▸ hends.method _ _⟩

/--
A class that extends its own parameter has no superclass among the names of classes, so the
names have no cycle.  But a class that is an argument of it is met again on the walk from
that class, and comparisons, common supertypes, walks and lookups that go along it have no
result, whatever the number of steps.
-/
theorem not_subtypingEnds_returning :
    let p : Package := { declarations := .returning, functions := [] }
    let b := Ty.object "B" []
    let string := Ty.object "String" []
    (∀ name, ¬ Relation.TransGen p.declarations.SuperclassNamed name name) ∧
      GenericContext.IsRanked {} (fun _ => 0) (fun _ => 0) ∧ ¬ p.SubtypingEnds {} ∧
      ∀ n, p.declarations.subtypeRun {} n b string = none ∧
        p.declarations.commonSupertypeRun? {} n b string = none ∧
        p.declarations.ancestorRun (fun _ s => some (Option.guard (· == string) s)) n b = none ∧
        p.declarations.protocolsRun n b = none ∧ p.methodRun? n b "draw" = none := by
  intro p b string
  have hwalks {α : Type} {f : Nat → Ty → Option (Option α)} (hf : ∀ n t,
      t = b ∨ t = .object "A" [b] → f n t = some none) (n : Nat) :
      p.declarations.walkRun f n b = none ∧ p.declarations.ancestorRun f n b = none :=
    ⟨Declarations.walkRun_eq_none Declarations.exists_extends_returning hf (.inl rfl) n,
      Declarations.ancestorRun_eq_none Declarations.exists_extends_returning hf (.inl rfl) n⟩
  have hancestor (n : Nat) :
      p.declarations.ancestorRun (fun _ s => some (Option.guard (· == string) s)) n b = none :=
    (hwalks (by rintro n t (rfl | rfl) <;> rfl) n).2
  have hsubtype (n : Nat) : p.declarations.subtypeRun {} n b string = none := by
    cases n with
    | zero => rfl
    | succ n => exact congrArg (Option.isSome <$> ·) (hancestor n)
  have hcommon (n : Nat) : p.declarations.commonSupertypeRun? {} n b string = none := by
    cases n with
    | zero => rfl
    | succ n => exact congrArg (· >>= _) (hsubtype n)
  have hranked : GenericContext.IsRanked {} (fun _ => 0) (fun _ => 0) := ⟨fun _ => trivial, fun _ => trivial⟩
  refine ⟨Declarations.not_transGen_superclassNamed_returning, hranked, fun hends => ?_, fun n =>
    ⟨hsubtype n, hcommon n, hancestor n, ?_, (hwalks (by rintro n t (rfl | rfl) <;> rfl) n).1⟩⟩
  · obtain ⟨n, hn⟩ := hends.subtype b string
    exact Option.some_ne_none _ ((hn n (Nat.le_refl n)).symm.trans (hsubtype n))
  · exact Declarations.classProtocolsRun_eq_none Declarations.exists_extends_returning (.inl rfl) n

end Package

end Boxlang
