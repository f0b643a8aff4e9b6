import Boxlang.Proofs.Subtyping.LeastJoin

/-!
# The order of candidates

Candidates amount to the least type above them, in whatever order they are added, where the
common supertypes of the candidates and of the types under their optionals and type values
are least (`Candidates.cases_of_perm`).  Where the common supertype of two types is not
least, the order matters (`Candidates.exists_result_ne`).
-/

namespace Boxlang

namespace Candidates

open Declarations

variable {d : Declarations} {c : GenericContext} {candidates : Candidates} {seen all ts us : List Ty}
  {a b t : Ty}

/--
The common type of the candidates seen so far is below all that is above them and agrees with
all candidates there are; where two were in conflict, nothing is above those seen.
-/
def IsLeast (d : Declarations) (c : GenericContext) (seen all : List Ty) : Candidates → Prop
  | .unseen => seen = []
  | .common u => (∀ v : Ty, v.IsRegular → (∀ t ∈ seen, d.Below c t.erased v) → d.Below c u v) ∧
      ∀ t ∈ all, d.Agree c u t.erased
  | .conflict _ _ => ∀ v : Ty, v.IsRegular → ∃ t ∈ seen, ¬ d.Below c t.erased v

section

variable (hd : d.IsAcyclic) (hmarks : d.EverySuperclass fun _ => Ty.IsUnmarked)
  (hall : ∀ t ∈ all, d.IsJoinable t.erased) (hagree : ∀ a ∈ all, ∀ b ∈ all, d.Agree c a.erased b.erased)
include hd hmarks hall hagree

theorem isLeast_add (hbounds : candidates.Bounds d c seen) (h : candidates.IsLeast d c seen all)
    (ht : t ∈ all) : (candidates.add d c t).IsLeast d c (t :: seen) all := by
  cases candidates with
  | unseen => exact ⟨fun v _ hv => hv t List.mem_cons_self, hagree t ht⟩
  | conflict u u' =>
      intro v hv
      obtain ⟨s, hs, hno⟩ := h v hv
      exact ⟨s, List.mem_cons_of_mem _ hs, hno⟩
  | common u =>
      obtain ⟨hu, -⟩ := hbounds
      obtain ⟨hleast, hall'⟩ := h
      have hjoin := (hall' t ht).leastJoins.1
      simp only [add, commonSupertype?, hu.erased_eq, Ty.erased_erased]
      cases hwider : d.commonErased? c u t.erased with
      | none =>
          intro v hv
          by_contra hno
          simp only [not_exists, not_and, not_not] at hno
          obtain ⟨htv, hseen⟩ := List.forall_mem_cons.mp hno
          obtain ⟨r, hr, -⟩ := hjoin v hv (hleast v hv hseen) htv
          simp [hwider] at hr
      | some wider =>
          refine ⟨fun v hv habove => ?_, fun s hs => ?_⟩
          · obtain ⟨htv, hseen⟩ := List.forall_mem_cons.mp habove
            obtain ⟨r, hr, hrv⟩ := hjoin v hv (hleast v hv hseen) htv
            exact Option.some.inj (hwider.symm.trans hr) ▸ hrv
          · exact .of_commonErased? hd hmarks u t.erased wider hu (hall t ht) (hall s hs) hwider
              (hall' s hs) (hagree t ht s hs)

theorem isLeast_foldl (hbounds : candidates.Bounds d c seen) (h : candidates.IsLeast d c seen all)
    (hts : ∀ t ∈ ts, t ∈ all) : (ts.foldl (add d c) candidates).IsLeast d c (ts.reverse ++ seen) all := by
  refine (foldl_add_induction (I := fun seen candidates => candidates.Bounds d c seen ∧
    candidates.IsLeast d c seen all) seen ⟨hbounds, h⟩ fun t ht seen candidates ⟨hbounds, h⟩ => ?_).2
  exact ⟨bounds_add hd hmarks hbounds (hall t (hts t ht)),
    isLeast_add hd hmarks hall hagree hbounds h (hts t ht)⟩

end

section

variable (hd : d.IsAcyclic) (hmarks : d.EverySuperclass fun _ => Ty.IsUnmarked)
  (hall : ∀ t ∈ ts, d.IsJoinable t.erased) (hagree : ∀ a ∈ ts, ∀ b ∈ ts, d.Agree c a.erased b.erased)
include hd hmarks hall hagree

/-- Candidates in any order amount to the least type above them, or to a conflict if there is none. -/
theorem cases_of_perm (hperm : us.Perm ts) :
    (ts = [] ∧ us.foldl (add d c) .unseen = .unseen) ∨
    (∃ u, us.foldl (add d c) .unseen = .common u ∧ u.IsRegular ∧ (∀ t ∈ ts, d.Below c t.erased u) ∧
      ∀ v : Ty, v.IsRegular → (∀ t ∈ ts, d.Below c t.erased v) → d.Below c u v) ∨
    ∃ u u', us.foldl (add d c) .unseen = .conflict u u' ∧
      ∀ v : Ty, v.IsRegular → ∃ t ∈ ts, ¬ d.Below c t.erased v := by
  have hmem (t : Ty) : t ∈ us.reverse ++ [] ↔ t ∈ ts := by simp [hperm.mem_iff]
  have hbounds : (us.foldl (add d c) .unseen).Bounds d c (us.reverse ++ []) :=
    bounds_foldl hd hmarks (show Candidates.unseen.Bounds d c [] from rfl)
      fun t ht => hall t (hperm.mem_iff.mp ht)
  have hleast : (us.foldl (add d c) .unseen).IsLeast d c (us.reverse ++ []) ts :=
    isLeast_foldl hd hmarks hall hagree (show Candidates.unseen.Bounds d c [] from rfl)
      (show Candidates.unseen.IsLeast d c [] ts from rfl) fun t ht => hperm.mem_iff.mp ht
  cases hus : us.foldl (add d c) .unseen <;> rw [hus] at hbounds hleast
  case unseen =>
      have hnil : us.reverse ++ [] = [] := hleast
      obtain rfl : us = [] := by simpa using hnil
      exact .inl ⟨hperm.nil_eq.symm, rfl⟩
  case common u =>
      obtain ⟨hu, habove⟩ := hbounds
      simp only [IsLeast, hmem] at habove hleast
      exact .inr (.inl ⟨u, rfl, hu.isRegular, habove, hleast.1⟩)
  case conflict u u' =>
      simp only [IsLeast, hmem] at hleast
      exact .inr (.inr ⟨u, u', rfl, hleast⟩)

theorem result_of_perm (hc : c.WellConstrained) (hus : us.Perm ts) {us' : List Ty} (hus' : us'.Perm ts) :
    (∀ r, (us.foldl (add d c) .unseen).result = .ok r → (us'.foldl (add d c) .unseen).result = .ok r) ∧
      ∀ u v, (us.foldl (add d c) .unseen).result = .error (.conflict u v) →
        ∃ u v, (us'.foldl (add d c) .unseen).result = .error (.conflict u v) := by
  rcases cases_of_perm hd hmarks hall hagree hus with ⟨-, h⟩ | ⟨u, h, hu, habove, hleast⟩ | ⟨u, v, h, hno⟩
  · simp [h, result]
  · simp only [h, result]
    refine ⟨fun r hr => ?_, fun _ _ hconflict => by cases hconflict⟩
    obtain rfl := Except.ok.inj hr
    rcases cases_of_perm hd hmarks hall hagree hus' with ⟨rfl, -⟩ | ⟨w, h', hw, habove', hleast'⟩ | ⟨_, _, -, hno⟩
    · obtain rfl := hus.eq_nil
      cases h
    · have heq : u = w := Below.antisymm_of_parts hd hc hu.error_notMem hw.error_notMem
        (hleast w hw habove') (hleast' u hu habove)
      rw [h', heq]
    · obtain ⟨t, ht, hnot⟩ := hno u hu
      exact (hnot (habove t ht)).elim
  · simp only [h, result]
    refine ⟨fun r hr => by (cases hr), fun _ _ _ => ?_⟩
    rcases cases_of_perm hd hmarks hall hagree hus' with ⟨rfl, -⟩ | ⟨w, -, hw, habove', -⟩ | ⟨u', v', h', -⟩
    · obtain rfl := hus.eq_nil
      cases h
    · obtain ⟨t, ht, hnot⟩ := hno w hw
      exact (hnot (habove' t ht)).elim
    · exact ⟨u', v', by rw [h']⟩

end

/--
Where the common supertype of two types is not least, the order matters: a type that shows it
is inferred if it is added between the two, but not if it is added after them.
-/
theorem exists_result_ne (hd : d.IsAcyclic) (hmarks : d.EverySuperclass fun _ => Ty.IsUnmarked)
    (hc : c.WellConstrained) (ha : d.IsJoinable a.erased) (hb : d.IsJoinable b.erased)
    (h : ¬ d.HasLeastJoin c a b) :
    ∃ v : Ty, .error ∉ v.erased.parts ∧ d.isSubtype c a v = true ∧ d.isSubtype c b v = true ∧
      ([a, v, b].foldl (add d c) .unseen).result = .ok v.erased ∧
      ([a, b, v].foldl (add d c) .unseen).result ≠ .ok v.erased := by
  simp only [HasLeastJoin, not_forall] at h
  obtain ⟨v, hv, hav, hbv, hno⟩ := h
  have hbelow : d.Below c a.erased v.erased := isSubtype_iff.mp hav
  have hbelow' : d.Below c b.erased v.erased := isSubtype_iff.mp hbv
  have hfirst : (unseen.add d c a).add d c v = common v.erased := by
    simp only [add, commonSupertype?, Ty.erased_erased, commonErased?_of_below hbelow]
  have hsecond : (common v.erased).add d c b = common v.erased := by
    simp only [add, commonSupertype?, Ty.erased_erased]
    by_cases hvb : d.Below c v.erased b.erased
    · rw [commonErased?_of_below hvb, hbelow'.antisymm_of_parts hd hc hb.error_notMem hv hvb]
    · rw [commonErased?_of_above hvb hbelow']
  refine ⟨v, hv, hav, hbv, by simp only [List.foldl_cons, List.foldl_nil, hfirst, hsecond, result], ?_⟩
  simp only [List.foldl_cons, List.foldl_nil, add, commonSupertype?, Ty.erased_erased]
  cases hr : d.commonErased? c a.erased b.erased with
  | none => simp [result]
  | some r =>
      have hrj := ha.commonErased? hd hmarks _ _ r hb hr
      simp only [hrj.erased_eq]
      cases hw : d.commonErased? c r v.erased with
      | none => simp [result]
      | some w =>
          -- The common supertype of `a` and `b` is below whatever it is joined to.
          intro hok
          obtain rfl : w = v.erased := Except.ok.inj hok
          have hrv := (imp_below_of_commonErased? _ _ _ hw).1 hrj.inherits
          refine hno ⟨r, hr, ?_⟩
          rwa [isSubtype_iff, hrj.erased_eq]

/--
The order of candidates does not matter where the common supertypes of the candidates, and of
the types under their optionals and type values, are least.  Where the common supertype of two
types is not least, some third type makes the order matter.  The hierarchy has to be acyclic,
its superclasses without storage marks, the candidates have to inherit from classes only, and
no constraint of a variable may lead back to it.
-/
theorem result_perm (hd : d.IsAcyclic) (hmarks : d.EverySuperclass fun _ => Ty.IsUnmarked)
    (hc : c.WellConstrained) :
    (∀ ts us : List Ty, ts.Perm us → (∀ t ∈ ts, t.mentionsError = false ∧ d.InheritsClasses t.erased) →
      (∀ a ∈ ts, ∀ b ∈ ts, ∀ x ∈ a.erased.layers, ∀ y ∈ b.erased.layers, d.HasLeastJoin c x y) →
      (∀ r, (ts.foldl (add d c) .unseen).result = .ok r ↔ (us.foldl (add d c) .unseen).result = .ok r) ∧
      ((∃ u v, (ts.foldl (add d c) .unseen).result = .error (.conflict u v)) ↔
        ∃ u v, (us.foldl (add d c) .unseen).result = .error (.conflict u v))) ∧
    ∀ a b : Ty, (∀ t ∈ [a, b], t.mentionsError = false ∧ d.InheritsClasses t.erased) →
      ¬ d.HasLeastJoin c a b →
      ∃ v : Ty, .error ∉ v.erased.parts ∧ d.isSubtype c a v = true ∧ d.isSubtype c b v = true ∧
        ([a, v, b].foldl (add d c) .unseen).result = .ok v.erased ∧
        ([a, b, v].foldl (add d c) .unseen).result ≠ .ok v.erased := by
  have hjoinable (t : Ty) (ht : t.mentionsError = false ∧ d.InheritsClasses t.erased) :
      d.IsJoinable t.erased :=
    ⟨Ty.erased_erased t, Ty.error_notMem_parts (by simpa using ht.1), ht.2⟩
  constructor
  · intro ts us hperm hts hleast
    have hall (t : Ty) (ht : t ∈ ts) := hjoinable t (hts t ht)
    have hagree (a : Ty) (ha : a ∈ ts) (b : Ty) (hb : b ∈ ts) : d.Agree c a.erased b.erased :=
      fun x hx y hy =>
        ⟨(hleast a ha b hb x hx y hy).leastJoin hd hmarks ((hall a ha).of_mem_layers hx)
            ((hall b hb).of_mem_layers hy),
          (hleast b hb a ha y hy x hx).leastJoin hd hmarks ((hall b hb).of_mem_layers hy)
            ((hall a ha).of_mem_layers hx)⟩
    obtain ⟨hok, hconflict⟩ := result_of_perm hd hmarks hall hagree hc (.refl ts) hperm.symm
    obtain ⟨hok', hconflict'⟩ := result_of_perm hd hmarks hall hagree hc hperm.symm (.refl ts)
    exact ⟨fun r => ⟨hok r, hok' r⟩,
      fun ⟨u, v, h⟩ => hconflict u v h, fun ⟨u, v, h⟩ => hconflict' u v h⟩
  · intro a b hab h
    exact exists_result_ne hd hmarks hc (hjoinable a (hab a (by simp))) (hjoinable b (hab b (by simp))) h

end Candidates

namespace Declarations

def pets : Declarations where
  classes := [("Animal", {}), ("Dog", { superclass := some (.object "Animal" []) }),
    ("Cat", { superclass := some (.object "Animal" []) })]
  enums := [("Suit", { protocols := ["Shown", "Ordered"] }), ("Rank", { protocols := ["Ordered", "Shown"] })]
  protocols := ["Shown", "Ordered"]

theorem isAcyclic_pets : pets.IsAcyclic :=
  isAcyclic_of_rank (fun name => if name = "Animal" then 0 else 1) (by simp [pets])

theorem extendsClasses_pets : pets.ExtendsClasses :=
  extendsClasses_of_mem (by simp [pets, Ty.Every, Ty.EveryAll, Ty.IsUnmarked])

/-- Neither dogs nor cats conform to a protocol, so what is above both is above animals. -/
theorem leastJoin_pets {name name' : String} (h : name = "Dog" ∨ name = "Cat")
    (h' : name' = "Dog" ∨ name' = "Cat") : pets.LeastJoin {} (.object name []) (.object name' []) := by
  have habove (name : String) (h : name = "Dog" ∨ name = "Cat") :
      pets.Below {} (.object name []) (.object "Animal" []) := by
    rw [← isSubtypeErased_iff]
    rcases h with rfl | rfl <;> decide +kernel
  obtain ⟨r, hjoin, hnearest⟩ := exists_isNearest (a := .object name []) (b := .object name' [])
    (s := .object "Animal" []) isAcyclic_pets extendsClasses_pets ⟨_, _, rfl⟩ ⟨_, _, rfl⟩ ⟨_, _, rfl⟩
    (habove name h) (habove name' h')
  refine .of_isNearest hjoin hnearest rfl rfl fun p hp _ => ?_
  have hnone : pets.protocolsOf (.object name []) = [] := by
    rcases h with rfl | rfl <;> decide +kernel
  simp [conformsTo, hnone] at hp

/-- Dogs, cats and optional animals amount to the same in any order; suits and ranks need not. -/
theorem result_perm_pets :
    let infer (ts : List Ty) := (ts.foldl (Candidates.add pets {}) .unseen).result
    let dog : Ty := .object "Dog" []
    let cat : Ty := .object "Cat" []
    let animal : Ty := .object "Animal" []
    let ts : List Ty := [dog, cat, .optional animal]
    let us : List Ty := [.optional animal, dog, cat]
    (pets.IsAcyclic ∧ (pets.EverySuperclass fun _ => Ty.IsUnmarked) ∧ GenericContext.WellConstrained {}) ∧
    (ts.Perm us ∧ (∀ t ∈ ts, t.mentionsError = false ∧ pets.InheritsClasses t.erased) ∧
      (∀ a ∈ ts, ∀ b ∈ ts, ∀ x ∈ a.erased.layers, ∀ y ∈ b.erased.layers, pets.HasLeastJoin {} x y) ∧
      (∀ r, infer ts = .ok r ↔ infer us = .ok r)) ∧
    ¬ pets.HasLeastJoin {} (.enum "Suit") (.enum "Rank") ∧
      ∃ v : Ty, infer [.enum "Suit", v, .enum "Rank"] = .ok v.erased ∧
        infer [.enum "Suit", .enum "Rank", v] ≠ .ok v.erased := by
  intro infer dog cat animal ts us
  have hmarks := extendsClasses_pets.unmarked
  have hc : GenericContext.WellConstrained {} := GenericContext.wellConstrained_of_mem (by simp) (by simp)
  have herrors : ∀ t ∈ ts, t.mentionsError = false := by decide
  have hts (t : Ty) (ht : t ∈ ts) : t.mentionsError = false ∧ pets.InheritsClasses t.erased :=
    ⟨herrors t ht, extendsClasses_pets.inheritsClasses t.erased⟩
  have hlayers : ∀ t ∈ ts, ∀ x ∈ t.erased.layers, x ∈ [dog, cat, .optional animal, animal] := by decide
  have hplain : ∀ x ∈ [dog, cat, .optional animal, animal], x.erased = x ∧ .error ∉ x.parts := by decide
  have hcases : ∀ x ∈ [dog, cat, .optional animal, animal], ∀ y ∈ [dog, cat, .optional animal, animal],
      pets.isSubtypeErased {} x y = true ∨ pets.isSubtypeErased {} y x = true ∨
        (x = dog ∨ x = cat) ∧ (y = dog ∨ y = cat) := by
    decide +kernel
  have hleast (a : Ty) (ha : a ∈ ts) (b : Ty) (hb : b ∈ ts) (x : Ty) (hx : x ∈ a.erased.layers) (y : Ty)
      (hy : y ∈ b.erased.layers) : pets.HasLeastJoin {} x y := by
    have hx := hlayers a ha x hx
    have hy := hlayers b hb y hy
    have hjoin : pets.LeastJoin {} x y := by
      rcases hcases x hx y hy with hxy | hyx | ⟨rfl | rfl, rfl | rfl⟩
      · exact .of_below (isSubtypeErased_iff.mp hxy)
      · exact .of_above (isSubtypeErased_iff.mp hyx)
      all_goals exact leastJoin_pets (by simp) (by simp)
    exact hjoin.hasLeastJoin isAcyclic_pets hmarks
      ⟨(hplain x hx).1, (hplain x hx).2, extendsClasses_pets.inheritsClasses x⟩
      ⟨(hplain y hy).1, (hplain y hy).2, extendsClasses_pets.inheritsClasses y⟩
  have hnot : ¬ pets.HasLeastJoin {} (.enum "Suit") (.enum "Rank") := by
    intro h
    obtain ⟨r, hr, hbelow⟩ := h (.protocol "Ordered") (by simp [Ty.erased, Ty.parts]) (by decide +kernel)
      (by decide +kernel)
    have hjoin : pets.commonSupertype? {} (.enum "Suit") (.enum "Rank") = some (.protocol "Shown") := by
      decide +kernel
    obtain rfl := Option.some.inj (hjoin.symm.trans hr)
    revert hbelow
    decide +kernel
  have hperm : ts.Perm us := by decide
  obtain ⟨hsame, hdiffer⟩ := Candidates.result_perm (c := {}) isAcyclic_pets hmarks hc
  have henums : ∀ t ∈ [Ty.enum "Suit", .enum "Rank"], t.mentionsError = false ∧ pets.InheritsClasses t.erased :=
    fun t ht => ⟨(by decide : ∀ t ∈ [Ty.enum "Suit", .enum "Rank"], t.mentionsError = false) t ht,
      extendsClasses_pets.inheritsClasses t.erased⟩
  obtain ⟨v, -, -, -, hfirst, hlast⟩ := hdiffer _ _ henums hnot
  exact ⟨⟨isAcyclic_pets, hmarks, hc⟩, ⟨hperm, hts, hleast, (hsame ts us hperm hts hleast).1⟩, hnot, v, hfirst,
    hlast⟩

def circle : Declarations where
  classes := [("Egg", { superclass := some (.object "Hen" []) }),
    ("Hen", { superclass := some (.object "Egg" []) })]

def boxedLists : Declarations where
  classes := [("List", { generics := ["E"] }), ("Row", { superclass := some (.object "List" [.boxed .int]) }),
    ("Column", { superclass := some (.object "List" [.boxed .int]) })]

def forCats : GenericContext where
  constraints := [.object "Cat" []]

def constrainedMutually : GenericContext where
  constraints := [.localGeneric 1 "U", .localGeneric 0 "T"]

/--
The order matters for types that share protocols, for callables, and for variables, also where
any two candidates amount to the same in both orders.  It matters as well for classes that
extend each other, boxed arguments or their own argument, and for variables constrained by
each other.
-/
theorem result_reordered :
    let infer (d : Declarations) (c : GenericContext) (ts : List Ty) :=
      (ts.foldl (Candidates.add d c) .unseen).result
    let t : Ty := .localGeneric 0 "T"
    let u : Ty := .localGeneric 1 "U"
    let dog : Ty := .object "Dog" []
    let x : Ty := .optional (.optional (.typeValue t))
    let y : Ty := .optional (.typeValue (.optional dog))
    let z : Ty := .typeValue (.optional t)
    (infer pets {} [.enum "Suit", .enum "Rank"] = .ok (.protocol "Shown") ∧
      infer pets {} [.enum "Rank", .enum "Suit"] = .ok (.protocol "Ordered")) ∧
    (infer pets {} [.callable [] .int, .callable [] .bool, .callable [] .something] = .ok .something ∧
      infer pets {} [.callable [] .int, .callable [] .something, .callable [] .bool] =
        .ok (.callable [] .something)) ∧
    (infer pets forCats [dog, t] = .ok (.object "Animal" []) ∧
      infer pets forCats [t, dog] = .ok .something) ∧
    ((∀ a ∈ [x, y, z], ∀ b ∈ [x, y, z], infer pets forCats [a, b] = infer pets forCats [b, a]) ∧
      infer pets forCats [x, y, z] ≠ infer pets forCats [x, z, y]) ∧
    (infer circle {} [.object "Egg" [], .object "Hen" []] = .ok (.object "Hen" []) ∧
      infer circle {} [.object "Hen" [], .object "Egg" []] = .ok (.object "Egg" [])) ∧
    (infer boxedLists {} [.object "Row" [], .object "Row" [], .object "Column" []] =
        .ok (.object "List" [.boxed .int]) ∧
      infer boxedLists {} [.object "Row" [], .object "Column" [], .object "Row" []] = .ok .something) ∧
    (infer wrappers {} [.object "Wrapper" [.int], .int] = .ok .int ∧
      infer wrappers {} [.int, .object "Wrapper" [.int]] = .ok .something) ∧
    (infer pets constrainedMutually [t, u] = .ok u ∧ infer pets constrainedMutually [u, t] = .ok t) := by
  intro infer t u dog x y z
  refine ⟨?_, ?_, ?_, ?_, ?_, ?_, ?_, ?_⟩
  all_goals decide +kernel

end Declarations

end Boxlang
