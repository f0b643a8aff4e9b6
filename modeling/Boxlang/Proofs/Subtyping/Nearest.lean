import Boxlang.Proofs.Subtyping.Instantiation
import Boxlang.Proofs.Subtyping.Join

/-!
# Nearest common ancestors

The ancestors of a class form a chain, and the first of them with some property inherits
from all others that have it (`Declarations.reflTransGen_of_findAncestor?`).  So two classes
that some class is above have the nearest such class as their common supertype
(`Declarations.exists_isNearest`), and candidates that some class is above are folded into
the class that is nearest to all of them (`Candidates.result_isNearest`).
-/

namespace Boxlang

def Ty.IsClass (t : Ty) : Prop :=
  ∃ name args, t.erased = .object name args

namespace Declarations

variable {d : Declarations} {c : GenericContext} {a b r s t : Ty} {n : Nat} {ts : List Ty}

/-! ### Walks -/

/-- Whatever a walk meets is inherited from. -/
theorem transGen_of_mem_ancestorsWithin (h : s ∈ d.ancestorsWithin n t) :
    Relation.TransGen d.Extends t s := by
  induction n generalizing t with
  | zero => cases h
  | succ n ih =>
      rw [ancestorsWithin] at h
      cases hsup : d.superclass? t with
      | none => simp [hsup] at h
      | some u =>
          rw [hsup] at h
          rcases List.mem_cons.mp h with rfl | h
          · exact .single hsup
          · exact .head hsup (ih h)

/-- What a walk meets after a type is inherited from by that type. -/
theorem transGen_of_ancestorsWithin_eq_append {nearer farther : List Ty}
    (h : d.ancestorsWithin n t = nearer ++ r :: farther) (hs : s ∈ farther) :
    Relation.TransGen d.Extends r s := by
  induction n generalizing t nearer with
  | zero => simp [ancestorsWithin] at h
  | succ n ih =>
      rw [ancestorsWithin] at h
      cases hsup : d.superclass? t with
      | none => simp [hsup] at h
      | some u =>
          rw [hsup] at h
          cases nearer with
          | nil =>
              obtain ⟨rfl, rfl⟩ := List.cons.inj h
              exact transGen_of_mem_ancestorsWithin hs
          | cons v nearer => exact ih (List.cons.inj h).2

/-- The nearest ancestor with a property inherits from all others that have it. -/
theorem reflTransGen_of_findAncestor? {p : Ty → Bool} (h : d.findAncestor? t p = some r)
    (hs : s ∈ d.ancestors t) (hp : p s = true) : Relation.ReflTransGen d.Extends r s := by
  rw [findAncestor?_eq_find?, List.find?_eq_some_iff_append] at h
  obtain ⟨-, nearer, farther, heq, hnearer⟩ := h
  rw [heq, List.mem_append, List.mem_cons] at hs
  rcases hs with hs | rfl | hs
  · have hno := hnearer s hs
    simp [hp] at hno
  · exact .refl
  · exact (transGen_of_ancestorsWithin_eq_append heq hs).to_reflTransGen

theorem below_object_iff (hd : d.IsAcyclic) {name name' : String} {args args' : List Ty} :
    d.Below c (.object name args) (.object name' args') ↔
      Relation.ReflTransGen d.Extends (.object name args) (.object name' args') := by
  rw [Relation.reflTransGen_iff_eq_or_transGen, ← hd.mem_ancestors_iff]
  constructor
  · intro h
    cases below_iff.mp h with
    | refl => exact .inl rfl
    | ancestor hmem => exact .inr hmem
    | byConstraint hbound => cases hbound
  · rintro (heq | hmem)
    · exact heq ▸ .refl _
    · exact below_iff.mpr (.ancestor hmem)

/-! ### Nearest classes -/

/-- Superclasses are class types without storage marks. -/
structure ExtendsClasses (d : Declarations) : Prop where
  unmarked : d.EverySuperclass fun _ => Ty.IsUnmarked
  isObject {name : String} {decl : ClassDecl} {u : Ty} : d.class? name = some decl →
    decl.superclass = some u → ∃ name' args, u = .object name' args

theorem extendsClasses_of_mem (h : ∀ entry ∈ d.classes, ∀ u, entry.2.superclass = some u →
    u.Every Ty.IsUnmarked ∧ ∃ name args, u = .object name args) : d.ExtendsClasses where
  unmarked := everySuperclass_of_mem fun entry hentry u hsuper => (h entry hentry u hsuper).1
  isObject hdecl hsuper := (h _ (mem_of_class? hdecl) _ hsuper).2

theorem ExtendsClasses.inheritsClasses (h : d.ExtendsClasses) : ∀ t : Ty, d.InheritsClasses t :=
  inheritsClasses_of_class? fun _ _ _ => h.isObject

/-- The type is a class above some types, and below every other class above them. -/
structure IsNearest (d : Declarations) (c : GenericContext) (ts : List Ty) (r : Ty) : Prop where
  isObject : ∃ name args, r = .object name args
  erased_eq : r.erased = r
  above : ∀ t ∈ ts, d.Below c t.erased r
  least : ∀ s : Ty, s.IsClass → (∀ t ∈ ts, d.Below c t.erased s.erased) → d.Below c r s.erased

theorem IsNearest.singleton (ht : t.IsClass) : d.IsNearest c [t] t.erased where
  isObject := ht
  erased_eq := Ty.erased_erased t
  above := List.forall_mem_singleton.mpr (.refl _)
  least _ _ h := h t List.mem_cons_self

theorem isNearest_pair (hr : ∃ name args, r = .object name args) (herased : r.erased = r)
    (har : d.Below c a.erased r) (hbr : d.Below c b.erased r)
    (hleast : ∀ s : Ty, s.IsClass → d.Below c a.erased s.erased → d.Below c b.erased s.erased →
      d.Below c r s.erased) : d.IsNearest c [a, b] r where
  isObject := hr
  erased_eq := herased
  above := by simp [har, hbr]
  least s hs h := hleast s hs (h a (by simp)) (h b (by simp))

/-- The nearest class does not depend on the order of the types. -/
theorem IsNearest.of_mem_iff {us : List Ty} (h : d.IsNearest c ts r) (hmem : ∀ t, t ∈ ts ↔ t ∈ us) :
    d.IsNearest c us r where
  isObject := h.isObject
  erased_eq := h.erased_eq
  above t ht := h.above t ((hmem t).mpr ht)
  least s hs habove := h.least s hs fun t ht => habove t ((hmem t).mp ht)

section

variable (hd : d.IsAcyclic) (hsuper : d.ExtendsClasses)
include hd hsuper

/--
Where some class is above two classes, the nearest such class is their common supertype.
If the first of the two is not that class itself, the walk over its ancestors meets it.
-/
theorem exists_isNearest (ha : a.IsClass) (hb : b.IsClass) (hs : s.IsClass)
    (has : d.Below c a.erased s.erased) (hbs : d.Below c b.erased s.erased) :
    ∃ r, d.commonSupertype? c a b = some r ∧ d.IsNearest c [a, b] r := by
  obtain ⟨name, args, ha⟩ := ha
  obtain ⟨name', args', hb⟩ := hb
  have haerased : (Ty.object name args).erased = .object name args := ha ▸ Ty.erased_erased a
  have hberased : (Ty.object name' args').erased = .object name' args' := hb ▸ Ty.erased_erased b
  simp only [commonSupertype?, ha, hb] at has hbs ⊢
  by_cases hab : d.Below c (.object name args) (.object name' args')
  · exact ⟨_, commonErased?_of_below hab, isNearest_pair ⟨_, _, rfl⟩ hberased (ha ▸ hab)
      (hb ▸ .refl _) fun u _ _ hbu => hb ▸ hbu⟩
  by_cases hba : d.Below c (.object name' args') (.object name args)
  · exact ⟨_, commonErased?_of_above hab hba, isNearest_pair ⟨_, _, rfl⟩ haerased
      (ha ▸ .refl _) (hb ▸ hba) fun u _ hau _ => ha ▸ hau⟩
  -- Neither is above the other, so every class above both is an ancestor of the first.
  have hancestor (u : Ty) (hu : u.IsClass) (hau : d.Below c (.object name args) u.erased)
      (hbu : d.Below c (.object name' args') u.erased) : u.erased ∈ d.ancestors (.object name args) := by
    obtain ⟨m, us, hu⟩ := hu
    rw [hu] at hau hbu ⊢
    rw [hd.mem_ancestors_iff]
    rcases Relation.reflTransGen_iff_eq_or_transGen.mp ((below_object_iff hd).mp hau) with heq | htrans
    · exact (hba (heq ▸ hbu)).elim
    · exact htrans
  cases hfound : d.findAncestor? (.object name args) (d.isSubtypeErased c (.object name' args')) with
  | none =>
      rw [findAncestor?_eq_find?, List.find?_eq_none] at hfound
      exact (hfound _ (hancestor s hs has hbs) (isSubtypeErased_iff.mpr hbs)).elim
  | some r =>
      have hfind := hfound
      rw [findAncestor?_eq_find?] at hfind
      have hmem := List.mem_of_find?_eq_some hfind
      obtain ⟨m, us, rfl⟩ := (hsuper.inheritsClasses _).exists_object hmem
      have hjoin : d.commonErased? c (.object name args) (.object name' args') = some (.object m us) := by
        rw [commonErased?_of_not_below rfl rfl hab hba, nominalJoin, hfound]
      refine ⟨.object m us, hjoin, isNearest_pair ⟨_, _, rfl⟩
        (erased_of_mem_ancestors hsuper.unmarked haerased hmem) (ha ▸ below_iff.mpr (.ancestor hmem))
        (hb ▸ isSubtypeErased_iff.mp (List.find?_some hfind)) fun u hu hau hbu => ?_⟩
      rw [ha] at hau
      rw [hb] at hbu
      have hchain := reflTransGen_of_findAncestor? hfound (hancestor u hu hau hbu)
        (isSubtypeErased_iff.mpr hbu)
      obtain ⟨m', us', hu⟩ := hu
      rw [hu] at hchain ⊢
      exact (below_object_iff hd).mpr hchain

end

end Declarations

/-! ### Candidates -/

namespace Candidates

open Declarations

variable {d : Declarations} {c : GenericContext} {candidates : Candidates} {seen ts : List Ty} {s t : Ty}

def Nearest (d : Declarations) (c : GenericContext) (seen : List Ty) : Candidates → Prop
  | .unseen => seen = []
  | .common u => d.IsNearest c seen u
  | .conflict _ _ => False

/-- Where some class is above the candidates and one more, their common type stays the nearest. -/
theorem nearest_add (hd : d.IsAcyclic) (hsuper : d.ExtendsClasses) (h : candidates.Nearest d c seen)
    (ht : t.IsClass) (hs : s.IsClass) (habove : ∀ u ∈ t :: seen, d.Below c u.erased s.erased) :
    (candidates.add d c t).Nearest d c (t :: seen) := by
  obtain ⟨hts, hseen⟩ := List.forall_mem_cons.mp habove
  cases candidates with
  | unseen =>
      obtain rfl : seen = [] := h
      exact IsNearest.singleton ht
  | conflict => exact h.elim
  | common u =>
      have h : d.IsNearest c seen u := h
      obtain ⟨name, args, rfl⟩ := h.isObject
      have hus : d.Below c (Ty.object name args).erased s.erased := h.erased_eq.symm ▸ h.least s hs hseen
      obtain ⟨r, hr, hnearest⟩ := exists_isNearest hd hsuper ⟨name, args, h.erased_eq⟩
        (b := t.erased) (by rwa [Ty.IsClass, Ty.erased_erased]) hs hus (by rwa [Ty.erased_erased])
      simp only [add, hr]
      have hur : d.Below c (.object name args) r := h.erased_eq ▸ hnearest.above _ (by simp)
      exact {
        isObject := hnearest.isObject
        erased_eq := hnearest.erased_eq
        above := by
          refine List.forall_mem_cons.mpr ⟨?_, fun u hu => ?_⟩
          · exact Ty.erased_erased t ▸ hnearest.above t.erased (by simp)
          · exact (h.above u hu).trans_of_parts hd (by simp [Ty.parts]) hur
        least := fun v hv hbelow => by
          obtain ⟨htv, hseenv⟩ := List.forall_mem_cons.mp hbelow
          refine hnearest.least v hv ?_
          simp only [List.forall_mem_cons, Ty.erased_erased, h.erased_eq]
          exact ⟨h.least v hv hseenv, htv, by simp⟩ }

theorem nearest_foldl (hd : d.IsAcyclic) (hsuper : d.ExtendsClasses) (hs : s.IsClass)
    (h : candidates.Nearest d c seen) (hseen : ∀ t ∈ seen, d.Below c t.erased s.erased)
    (hts : ∀ t ∈ ts, t.IsClass) (habove : ∀ t ∈ ts, d.Below c t.erased s.erased) :
    (ts.foldl (add d c) candidates).Nearest d c (ts.reverse ++ seen) := by
  refine (foldl_add_induction (I := fun seen candidates => candidates.Nearest d c seen ∧
    ∀ t ∈ seen, d.Below c t.erased s.erased) seen ⟨h, hseen⟩ fun t ht seen candidates ⟨h, hseen⟩ => ?_).1
  have hbelow : ∀ u ∈ t :: seen, d.Below c u.erased s.erased :=
    List.forall_mem_cons.mpr ⟨habove t ht, hseen⟩
  exact ⟨nearest_add hd hsuper h (hts t ht) hs hbelow, hbelow⟩

/--
Classes that some class is above are folded into the nearest class above all of them, where
the hierarchy is acyclic and superclasses are class types without storage marks.
-/
theorem result_isNearest (hd : d.IsAcyclic) (hsuper : d.ExtendsClasses) (ts : List Ty) (hne : ts ≠ [])
    (hts : ∀ t ∈ ts, t.IsClass) (s : Ty) (hs : s.IsClass) (habove : ∀ t ∈ ts, d.isSubtype c t s = true) :
    ∃ name args, (ts.foldl (add d c) .unseen).result = .ok (.object name args) ∧
      (∀ t ∈ ts, d.isSubtype c t (.object name args) = true) ∧
      ∀ u : Ty, u.IsClass → (∀ t ∈ ts, d.isSubtype c t u = true) →
        d.isSubtype c (.object name args) u = true := by
  simp only [isSubtype_iff] at habove ⊢
  have hfold : (ts.foldl (add d c) .unseen).Nearest d c (ts.reverse ++ []) :=
    nearest_foldl hd hsuper hs (show Candidates.unseen.Nearest d c [] from rfl) (by simp) hts habove
  cases hc : ts.foldl (add d c) .unseen <;> rw [hc] at hfold
  case unseen => exact (hne (by simpa using show ts.reverse ++ [] = [] from hfold)).elim
  case conflict => exact hfold.elim
  case common r =>
      have hr : d.IsNearest c ts r := IsNearest.of_mem_iff hfold (by simp)
      obtain ⟨name, args, rfl⟩ := hr.isObject
      refine ⟨name, args, rfl, ?_⟩
      rw [hr.erased_eq]
      exact ⟨hr.above, hr.least⟩

end Candidates

namespace Declarations

theorem extendsClasses_sequences : sequences.ExtendsClasses :=
  extendsClasses_of_mem (by simp [sequences, Ty.Every, Ty.EveryAll, Ty.IsUnmarked])

/-- Rows and sequences of shapes are folded into sequences of shapes. -/
theorem result_isNearest_sequences :
    let ts : List Ty := [.object "Row" [.object "Shape" []], .boxed (.object "Sequence" [.object "Shape" []])]
    let s : Ty := .object "Sequence" [.object "Shape" []]
    sequences.IsAcyclic ∧ sequences.ExtendsClasses ∧ ts ≠ [] ∧ (∀ t ∈ ts, t.IsClass) ∧ s.IsClass ∧
      (∀ t ∈ ts, sequences.isSubtype {} t s = true) ∧
      ∃ name args, (ts.foldl (Candidates.add sequences {}) .unseen).result = .ok (.object name args) ∧
        (∀ t ∈ ts, sequences.isSubtype {} t (.object name args) = true) ∧
        ∀ u : Ty, u.IsClass → (∀ t ∈ ts, sequences.isSubtype {} t u = true) →
          sequences.isSubtype {} (.object name args) u = true := by
  intro ts s
  have hts : ∀ t ∈ ts, t.IsClass := by
    simp only [ts, List.forall_mem_cons]
    exact ⟨⟨_, _, rfl⟩, ⟨_, _, rfl⟩, by simp⟩
  have hs : s.IsClass := ⟨_, _, rfl⟩
  have habove : ∀ t ∈ ts, sequences.isSubtype {} t s = true := by decide +kernel
  exact ⟨isAcyclic_sequences, extendsClasses_sequences, by simp [ts], hts, hs, habove,
    Candidates.result_isNearest isAcyclic_sequences extendsClasses_sequences ts (by simp [ts]) hts s hs
      habove⟩

end Declarations
end Boxlang
