import Boxlang.Proofs.Subtyping.Order
import Boxlang.Proofs.Types.Substitution
import Mathlib.Data.Fintype.EquivFin

/-!
# Subtyping and instantiation

A comparison that holds where a function is declared holds for all its instances, so
that a function can be compiled once.  Variables are the one case with an argument in
it: there an instance is below the instance of the constraint, and transitivity does
the rest (`Declarations.below_erasedInstance`).
-/

namespace Boxlang

/-! ### Chains of constraints -/

namespace GenericContext

variable {c : GenericContext}

/-- Constraints that never lead back to their variable lead nowhere without end. -/
theorem WellConstrained.wellFounded (hc : c.WellConstrained) :
    WellFounded fun t s => c.Leads s t := by
  let ts := (.something :: c.constraints ++ c.ownerConstraints).map Ty.erased
  have hmem {s t : Ty} (h : c.Leads s t) : t ∈ ts := by
    obtain ⟨bound, hbound, rfl⟩ := Option.map_eq_some_iff.mp h
    refine List.mem_map_of_mem ?_
    rcases mem_of_constraint? hbound with rfl | h | h <;> simp_all
  -- The constraints are finitely many, so a strict order on them has no infinite descent.
  have hfin : WellFounded fun t s : {t // t ∈ ts} => Relation.TransGen c.Leads s.1 t.1 := by
    have : Std.Irrefl fun t s : {t // t ∈ ts} => Relation.TransGen c.Leads s.1 t.1 :=
      ⟨fun t => hc.acyclic t.1⟩
    have : IsTrans {t // t ∈ ts} fun t s => Relation.TransGen c.Leads s.1 t.1 :=
      ⟨fun _ _ _ h h' => h'.trans h⟩
    exact Finite.wellFounded_of_trans_of_irrefl _
  have hacc (t : {t // t ∈ ts}) : Acc (fun t s => c.Leads s t) t.1 := by
    induction t using hfin.induction with
    | h t ih => exact ⟨_, fun u hu => ih ⟨u, hmem hu⟩ (.single hu)⟩
  exact ⟨fun s => ⟨_, fun t ht => hacc ⟨t, hmem ht⟩⟩⟩

def EveryConstraint (c : GenericContext) (p : Ty → Prop) : Prop :=
  ∀ v bound, c.constraint? v = some bound → bound.Every p

theorem everyConstraint_of_mem {p : Ty → Prop} (hp : p .something)
    (h : ∀ t ∈ c.constraints ++ c.ownerConstraints, t.Every p) : c.EveryConstraint p := by
  intro v bound hbound
  rcases mem_of_constraint? hbound with rfl | hmem
  · exact hp
  · exact h _ (List.mem_append.mpr hmem)

end GenericContext

/-- A storage mark here stands around a type whose values have the top type. -/
def Ty.MarksBelowTop : Ty → Prop
  | .boxed inner => inner.erased.belowTop = true
  | _ => True

namespace Declarations

variable {d : Declarations} {c s u : GenericContext} {a b : Ty} {n : Nat}

/--
The arguments in `s` can stand for the variables whose constraints `c` gives: seen
from `u`, each of them is below the instance of the constraint.
-/
structure Instantiates (d : Declarations) (c s u : GenericContext) : Prop where
  constrained : c.WellConstrained
  belowTop {v bound : Ty} : c.constraint? v = some bound → d.isSubtype c bound .something = true
  hasArgs : c.EveryConstraint s.HasArg
  ownerErrorFree {i : Nat} {t : Ty} : s.ownerArg? i = some t → t.mentionsError = false
  argsErrorFree : ∀ t ∈ s.args, t.mentionsError = false
  below {v bound : Ty} : c.constraint? v = some bound → s.HasArg v →
    d.isSubtype u (s.instantiate v) (s.instantiate bound) = true

/-- What the types met in a comparison are made of, where its instances are to hold as well. -/
structure Fits (d : Declarations) (s : GenericContext) (t : Ty) : Prop where
  saturated : t.Every d.IsSaturated
  hasArgs : t.Every s.HasArg
  marked : t.Every Ty.MarksBelowTop

theorem every_hasArg_erased {t : Ty} (h : t.Every s.HasArg) : t.erased.Every s.HasArg := by
  refine Ty.every_erased (fun u hu hmark => ?_) t h
  cases u with
  | generic | localGeneric => exact hu
  | boxed => cases hmark
  | _ => exact trivial

theorem every_isSaturated_erased {t : Ty} (h : t.Every d.IsSaturated) : t.erased.Every d.IsSaturated := by
  refine Ty.every_erased (fun u hu hmark => ?_) t h
  cases u with
  | object name args =>
      rw [Ty.erased, Ty.erasedAll_eq_map]
      exact fun decl hdecl => (List.length_map Ty.erased).trans (hu decl hdecl)
  | boxed => cases hmark
  | _ => exact trivial

theorem fits_erased (hsat : a.Every d.IsSaturated) (hargs : a.Every s.HasArg) :
    d.Fits s a.erased where
  saturated := every_isSaturated_erased hsat
  hasArgs := every_hasArg_erased hargs
  marked := by
    refine Ty.every_erased (fun t _ hmark => ?_) a hargs
    cases t with
    | boxed => cases hmark
    | _ => exact trivial

theorem isClosed_fits (hI : d.Instantiates c s u) (hsat : c.EveryConstraint d.IsSaturated)
    (hmark : c.EveryConstraint Ty.MarksBelowTop) : IsClosed c (d.Fits s) where
  constraint _ h := ⟨hsat _ _ h, hI.hasArgs _ _ h, hmark _ _ h⟩
  optional h := ⟨h.saturated.2, h.hasArgs.2, h.marked.2⟩
  typeValue h := ⟨h.saturated.2, h.hasArgs.2, h.marked.2⟩
  params h p hp := ⟨Ty.everyAll_iff.mp h.saturated.2.1 p hp, Ty.everyAll_iff.mp h.hasArgs.2.1 p hp,
    Ty.everyAll_iff.mp h.marked.2.1 p hp⟩
  ret h := ⟨h.saturated.2.2, h.hasArgs.2.2, h.marked.2.2⟩

/-! ### Instances of rules -/

theorem mentionsError_erasedInstance (hI : d.Instantiates c s u) {t : Ty}
    (ht : t.mentionsError = false) : (s.erasedInstance t).mentionsError = false := by
  rw [GenericContext.erasedInstance, Ty.mentionsError_erased]
  refine Ty.mentionsError_subst (fun i u hu => ?_) (fun i u hu => ?_) t ht
  · obtain ⟨v, hv, rfl⟩ := Option.map_eq_some_iff.mp hu
    simpa using hI.ownerErrorFree hv
  · obtain ⟨v, hv, rfl⟩ := Option.map_eq_some_iff.mp hu
    simpa using hI.argsErrorFree v (List.mem_of_getElem? hv)

theorem Instantiates.below_erasedInstance (hI : d.Instantiates c s u) {v bound : Ty}
    (h : c.constraint? v = some bound) (hv : s.HasArg v) :
    d.Below u (s.erasedInstance v) (s.erasedInstance bound) :=
  isSubtype_iff.mp (hI.below h hv)

/-- Types with the top type keep it: no variable has an optional or a type value as its argument. -/
theorem Instantiates.belowTop_erasedInstance (hI : d.Instantiates c s u) {t : Ty}
    (ht : t.erased.Every s.HasArg) (htop : t.erased.belowTop = true) :
    (s.erasedInstance t).belowTop = true := by
  rw [← s.erasedInstance_erased]
  -- The induction follows the constraints, which never come back to a variable.
  induction hw : t.erased using hI.constrained.wellFounded.induction generalizing t with
  | h w ih =>
      subst hw
      cases hbound : c.constraint? t.erased with
      | some bound =>
          have hbelow := hI.below_erasedInstance hbound ht.self
          have htop' : bound.erased.belowTop = true := by
            have h := below_iff.mp (isSubtype_iff.mp (hI.belowTop hbound))
            exact h.belowTop rfl nofun
          have hrec := ih bound.erased (GenericContext.leads_of_constraint? hbound)
            (every_hasArg_erased (hI.hasArgs _ _ hbound)) htop' rfl
          rw [s.erasedInstance_erased] at hrec
          refine (below_iff.mp hbelow).belowTop hrec (Ty.ne_error_of_mentionsError ?_)
          exact mentionsError_erasedInstance hI (hI.constrained.errorFree hbound)
      | none =>
          cases h : t.erased with
          | boxed inner => exact (Ty.erased_ne_boxed t inner h).elim
          | generic | localGeneric => simp [h, GenericContext.constraint?] at hbound
          | optional | typeValue | nothing => simp [h, Ty.belowTop] at htop
          | object | value | callable => simp [Ty.belowTop]
          | _ => rfl

theorem Instantiates.erasedInstance_ne_optional (hI : d.Instantiates c s u) (ha : d.Fits s a)
    (hopt : ∀ x, a ≠ .optional x) (y : Ty) : s.erasedInstance a ≠ .optional y := by
  have hne (h : a.erased.belowTop = true) : s.erasedInstance a ≠ .optional y := by
    intro heq
    have htop := hI.belowTop_erasedInstance (every_hasArg_erased ha.hasArgs) h
    rw [heq] at htop
    cases htop
  cases a with
  | optional x => exact (hopt x rfl).elim
  | boxed inner => exact hne ha.marked.1
  | generic | localGeneric => exact hne rfl
  | object | value | callable | typeValue => simp
  | _ => exact nofun

theorem conformsTo_erasedInstance (hd : d.IsAcyclic) (hw : d.WellFormed) {name : String}
    (ha : a.Every d.IsSaturated) (h : d.conformsTo a name = true) :
    d.conformsTo (s.erasedInstance a) name = true := by
  cases a with
  | object cls args =>
      obtain ⟨r, hr, hp⟩ := conformsTo_object_iff.mp h
      have hclass : name ∈ d.classProtocols (s.erasedInstance r) := by
        cases r with
        | object => simpa [classProtocols] using hp
        | _ => simp [classProtocols] at hp
      rw [GenericContext.erasedInstance_object]
      refine conformsTo_object_iff.mpr ⟨_, ?_, hclass⟩
      rcases List.mem_cons.mp hr with rfl | hr
      · simp [lineage]
      · have hup := transGen_erasedInstance (s := s) hw (hd.mem_ancestors_iff.mp hr) ha
        rw [GenericContext.erasedInstance_object] at hup
        exact List.mem_cons_of_mem _ (hd.mem_ancestors_iff.mpr hup)
  | value => simpa [conformsTo, protocolsOf] using h
  | enum | int | real | bool | byte | symbol => exact h
  | _ => simp [conformsTo, protocolsOf] at h

/-- Every comparison in a definition context holds for the instances at a use site. -/
theorem below_erasedInstance (hd : d.IsAcyclic) (hw : d.WellFormed) (hI : d.Instantiates c s u)
    (hfits : IsClosed c (d.Fits s)) (ha : d.Fits s a) (hb : d.Fits s b)
    (hn : d.isSubtypeWithin c n a b = true) :
    d.Below u (s.erasedInstance a) (s.erasedInstance b) := by
  induction n generalizing a b with
  | zero => simp at hn
  | succ n ih =>
      rw [below_iff]
      cases isSubtypeWithin_succ_iff.mp hn with
      | errorLeft => exact .errorLeft _
      | errorRight => exact .errorRight _
      | refl => exact .refl _
      | top htop =>
          refine .top (hI.belowTop_erasedInstance (every_hasArg_erased ha.hasArgs) ?_)
          cases a with
          | boxed => exact ha.marked.1
          | optional | typeValue | nothing => cases htop
          | _ => rfl
      | optional h => exact .optional (ih (hfits.optional ha) (hfits.optional hb) h)
      | toOptional hopt h =>
          exact .toOptional (hI.erasedInstance_ne_optional ha hopt) (ih ha (hfits.optional hb) h)
      | byConstraint hbound _ _ _ h =>
          -- The instance of a variable is below that of its constraint.
          have hbelow := hI.below_erasedInstance hbound ha.hasArgs.self
          have herr := mentionsError_erasedInstance hI (hI.constrained.errorFree hbound)
          exact below_iff.mp (hbelow.trans hd herr (ih (hfits.constraint ha hbound) hb h))
      | ancestor hmem =>
          have hup := transGen_erasedInstance (s := s) hw (hd.mem_ancestors_iff.mp hmem) ha.saturated
          simp only [GenericContext.erasedInstance_object] at hup ⊢
          exact .ancestor (hd.mem_ancestors_iff.mpr hup)
      | conforms hconf => exact .conforms (conformsTo_erasedInstance hd hw ha.saturated hconf)
      | callable hlen hparams hret =>
          simp only [GenericContext.erasedInstance_callable]
          refine .callable (by simpa using hlen) (fun q hq => ?_) (ih (hfits.ret ha) (hfits.ret hb) hret)
          rw [List.zip_map] at hq
          obtain ⟨r, hr, rfl⟩ := List.mem_map.mp hq
          obtain ⟨h₁, h₂⟩ := List.of_mem_zip hr
          exact ih (hfits.params hb _ h₁) (hfits.params ha _ h₂) (hparams r hr)
      | typeValue h => exact .typeValue (ih (hfits.typeValue ha) (hfits.typeValue hb) h)

/--
Subtyping is stable under instantiation.  Superclasses have to be well-formed, classes
in constraints need all their arguments, and storage marks in constraints may only
stand around types whose values have the top type: a comparison that goes on with a
constraint does not look through its marks.
-/
theorem isSubtype_instantiate (hd : d.IsAcyclic) (hw : d.WellFormed) (hI : d.Instantiates c s u)
    (hsat : c.EveryConstraint d.IsSaturated) (hmark : c.EveryConstraint Ty.MarksBelowTop)
    (a b : Ty) (ha : a.Every d.IsSaturated) (ha' : a.Every s.HasArg) (hb : b.Every d.IsSaturated)
    (hb' : b.Every s.HasArg) (h : d.isSubtype c a b = true) :
    d.isSubtype u (s.instantiate a) (s.instantiate b) = true := by
  obtain ⟨n, hn⟩ := isSubtype_iff.mp h
  have hbelow := below_erasedInstance hd hw hI (isClosed_fits hI hsat hmark) (fits_erased ha ha')
    (fits_erased hb hb') hn
  rw [s.erasedInstance_erased, s.erasedInstance_erased] at hbelow
  exact isSubtype_iff.mpr hbelow

def sequences : Declarations where
  classes := [("Shape", {}), ("Square", { superclass := some (.object "Shape" []) }),
    ("Sequence", { generics := ["E"] }),
    ("Row", { superclass := some (.object "Sequence" [.generic 0 "T"]), generics := ["T"] })]

theorem isAcyclic_sequences : sequences.IsAcyclic :=
  isAcyclic_of_rank (fun name => if name = "Square" ∨ name = "Row" then 1 else 0) (by simp [sequences])

theorem wellFormed_sequences : sequences.WellFormed where
  unmarked := everySuperclass_of_mem (by simp [sequences, Ty.Every, Ty.EveryAll, Ty.IsUnmarked])
  saturated := everySuperclass_of_mem (by
    simp [sequences, Ty.Every, Ty.EveryAll, IsSaturated, class?, List.lookup_cons])
  inScope := everySuperclass_of_mem (by simp [sequences, Ty.Every, Ty.EveryAll, Ty.IsScoped])

def forShapes : GenericContext where
  constraints := [.object "Shape" []]

def withSquares : GenericContext where
  args := [.object "Square" []]

theorem instantiates_forShapes : sequences.Instantiates forShapes withSquares {} where
  constrained := GenericContext.wellConstrained_of_mem (by decide) (by decide)
  belowTop h := by
    rcases GenericContext.mem_of_constraint? h with rfl | h | h
    · decide +kernel
    · obtain rfl := List.mem_singleton.mp h
      decide +kernel
    · cases h
  hasArgs := GenericContext.everyConstraint_of_mem trivial
    (by simp [forShapes, Ty.Every, Ty.EveryAll, GenericContext.HasArg])
  ownerErrorFree h := by cases h
  argsErrorFree := by decide
  below {v bound} h hv := by
    cases v with
    | localGeneric i name =>
        obtain rfl := Option.some.inj h
        obtain rfl : i = 0 := Nat.lt_one_iff.mp hv
        have hsquare : sequences.isSubtype {} (.boxed (.object "Square" [])) (.object "Shape" []) = true := by
          decide +kernel
        exact hsquare
    | generic => cases hv
    | _ => cases h

/-- A function from shapes to rows of them, compared through the constraint and an inherited class. -/
theorem isSubtype_instantiate_sequences :
    let t := Ty.localGeneric 0 "T"
    let a := Ty.callable [.object "Shape" []] (.object "Row" [t])
    let b := Ty.callable [t] (.optional (.object "Sequence" [t]))
    sequences.IsAcyclic ∧ sequences.WellFormed ∧ sequences.Instantiates forShapes withSquares {} ∧
      sequences.isSubtype forShapes a b = true ∧
      sequences.isSubtype {} (withSquares.instantiate a) (withSquares.instantiate b) = true := by
  intro t a b
  have hab : sequences.isSubtype forShapes a b = true := by decide +kernel
  have hsat : forShapes.EveryConstraint sequences.IsSaturated := GenericContext.everyConstraint_of_mem
    trivial (by simp [forShapes, Ty.Every, Ty.EveryAll, IsSaturated, sequences, class?])
  have hmark : forShapes.EveryConstraint Ty.MarksBelowTop := GenericContext.everyConstraint_of_mem
    trivial (by simp [forShapes, Ty.Every, Ty.EveryAll, Ty.MarksBelowTop])
  refine ⟨isAcyclic_sequences, wellFormed_sequences, instantiates_forShapes, hab, ?_⟩
  refine isSubtype_instantiate isAcyclic_sequences wellFormed_sequences instantiates_forShapes
    hsat hmark a b ?_ ?_ ?_ ?_ hab
  · simp [a, t, Ty.Every, Ty.EveryAll, IsSaturated, sequences, class?, List.lookup_cons]
  · simp [a, t, Ty.Every, Ty.EveryAll, GenericContext.HasArg, withSquares]
  · simp [b, t, Ty.Every, Ty.EveryAll, IsSaturated, sequences, class?, List.lookup_cons]
  · simp [b, t, Ty.Every, Ty.EveryAll, GenericContext.HasArg, withSquares]

def looseSequences : Declarations :=
  (sequences.addClass "Loop" { superclass := some (.object "Sequence" [.generic 0 "T"]) }).addClass
    "Line" { superclass := some (.object "Row" []) }

theorem isAcyclic_looseSequences : looseSequences.IsAcyclic :=
  isAcyclic_of_rank (fun name => if name = "Line" then 2 else
      if name = "Square" ∨ name = "Row" ∨ name = "Loop" then 1 else 0)
    (by simp [looseSequences, sequences, addClass])

/-- A variable for functions whose result is marked, and one for rows of unsaid elements. -/
def looselyConstrained : GenericContext where
  constraints := [.callable [] (.boxed (.optional .int)), .object "Row" []]

def withNumbers : GenericContext where
  owner := some (.object "Sequence" [.int])
  args := [.callable [] (.optional .int), .object "Row" []]

theorem instantiates_looselyConstrained :
    looseSequences.Instantiates looselyConstrained withNumbers {} where
  constrained := GenericContext.wellConstrained_of_mem (by decide) (by decide)
  belowTop h := by
    rcases GenericContext.mem_of_constraint? h with rfl | h | h
    · decide +kernel
    · have hall : ∀ t ∈ looselyConstrained.constraints,
          looseSequences.isSubtype looselyConstrained t .something = true := by decide +kernel
      exact hall _ h
    · cases h
  hasArgs := GenericContext.everyConstraint_of_mem trivial
    (by simp [looselyConstrained, Ty.Every, Ty.EveryAll, GenericContext.HasArg])
  ownerErrorFree {i t} h := by
    cases i with
    | zero => exact Option.some.inj h ▸ rfl
    | succ i => cases h
  argsErrorFree := by decide
  below {v bound} h hv := by
    cases v with
    | localGeneric i name =>
        obtain rfl := Option.some.inj h
        rcases i with _ | _ | i
        · exact isSubtype_iff.mpr (.refl _)
        · exact isSubtype_iff.mpr (.refl _)
        · exact absurd hv (Nat.not_lt_of_le (Nat.le_add_left 2 i))
    | generic i name =>
        obtain rfl := Option.some.inj h
        cases i with
        | zero => exact isSubtype_iff.mpr (below_iff.mpr (.top rfl))
        | succ i => cases hv
    | _ => cases h

/--
What instantiation loses without these conditions: a mark around an optional in a
constraint, a class without its arguments there, a superclass in terms of a variable
that its class does not have, and one without its arguments.
-/
theorem lost_looseSequences :
    let elements := Ty.object "Sequence" [.generic 0 "T"]
    let comparisons := [(Ty.localGeneric 0 "F", Ty.callable [] .something),
      (.localGeneric 1 "R", elements), (.object "Loop" [], elements), (.object "Line" [], elements)]
    looseSequences.IsAcyclic ∧ (looseSequences.EverySuperclass fun _ => Ty.IsUnmarked) ∧
      looseSequences.Instantiates looselyConstrained withNumbers {} ∧
      (∀ q ∈ comparisons, q.1.Every looseSequences.IsSaturated ∧ q.1.Every withNumbers.HasArg ∧
        q.2.Every looseSequences.IsSaturated ∧ q.2.Every withNumbers.HasArg) ∧
      ∀ q ∈ comparisons, q.1.mentionsError = false ∧ q.2.mentionsError = false ∧
        looseSequences.isSubtype looselyConstrained q.1 q.2 = true ∧
        looseSequences.isSubtype {} (withNumbers.instantiate q.1) (withNumbers.instantiate q.2) = false := by
  intro elements comparisons
  refine ⟨isAcyclic_looseSequences, ?_, instantiates_looselyConstrained, ?_, by decide +kernel⟩
  · exact everySuperclass_of_mem
      (by simp [looseSequences, sequences, addClass, Ty.Every, Ty.EveryAll, Ty.IsUnmarked])
  · simp [comparisons, elements, Ty.Every, Ty.EveryAll, IsSaturated, GenericContext.HasArg, withNumbers,
      GenericContext.ownerArg?, Ty.unboxed, looseSequences, sequences, addClass, class?, List.lookup_cons]

end Declarations

end Boxlang
