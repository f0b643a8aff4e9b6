import Boxlang.Proofs.Types.Ancestors
import Mathlib.Data.Fintype.Card
import Mathlib.Data.Fintype.EquivFin
import Mathlib.Order.WellFounded

/-!
# The graph of classes

A class is above another if the walk over superclasses meets it, whatever arguments the
other is applied to (`Declarations.ClassAbove`).  These are the names along the declared
superclasses (`classAbove_iff_transGen`), unless a superclass is a parameter of its class:
then the walk goes on with an argument that some class below has given for it, and the
declared names alone do not tell which classes it meets.

All walks end exactly where no class is above itself (`isAcyclic_iff_classAbove`): the classes
are finitely many, and a walk that never ends comes from a class whose own walk never ends
(`exists_class_of_not_ends`).
-/

namespace Boxlang

namespace Declarations

variable {d : Declarations} {s t u v : Ty} {A B C : String}

/-- The walk from class `A`, its own arguments left open, meets class `B`. -/
def ClassAbove (d : Declarations) (A B : String) : Prop :=
  ∃ args, Relation.TransGen d.Extends (.object A []) (.object B args)

/-- The declared superclass of class `A` is class `B`, applied to some arguments. -/
def SuperclassNamed (d : Declarations) (A B : String) : Prop :=
  ∃ decl args, d.class? A = some decl ∧ decl.superclass = some (.object B args)

abbrev Ends (d : Declarations) : Ty → Prop :=
  Acc fun s t => d.Extends t s

theorem ends_of_not_object (h : ∀ name args, t ≠ .object name args) : d.Ends t :=
  Acc.intro t fun s hs => by
    rw [Extends, superclass?_eq_none h] at hs
    cases hs

/-! ### Walks side by side -/

def IsNoClass (t : Ty) : Prop :=
  ∀ name args, t ≠ .object name args

open IsAcyclic (Follows follows_subst)

theorem exists_extends_of_follows {P : Ty → Prop} (hP : ∀ w, IsNoClass w → P w) {us vs : List Ty}
    (hargs : ∀ i w, vs[i]? = some w → Follows P (us.getD i .nothing) w)
    (h : d.Extends (.object A vs) v) :
    ∃ u, d.Extends (.object A us) u ∧ Follows P u v := by
  obtain ⟨_, _, decl, w, heq, hdecl, hsuper, rfl⟩ := h.exists_superclass
  obtain ⟨rfl, rfl⟩ := Ty.object.inj heq
  refine ⟨w.subst (fun i => us[i]?) fun _ => none, ?_, follows_subst hP hargs w⟩
  rw [Extends, superclass?_object, hdecl]
  simp [hsuper]

/-- A walk that meets a class meets it from every type of the same classes. -/
theorem transGen_of_follows {bs : List Ty} (h : Relation.TransGen d.Extends v (.object B bs))
    (hfollows : Follows IsNoClass u v) : ∃ cs, Relation.TransGen d.Extends u (.object B cs) := by
  induction h using Relation.TransGen.head_induction_on generalizing u with
  | single hext =>
      obtain ⟨A, vs, -, -, rfl, -⟩ := hext.exists_superclass
      cases hfollows with
      | stop hno => exact (hno A vs rfl).elim
      | object hargs =>
          obtain ⟨w, hw, hfollows⟩ := exists_extends_of_follows (fun _ => id) hargs hext
          cases hfollows with
          | stop hno => exact (hno B bs rfl).elim
          | @object _ cs _ _ => exact ⟨cs, .single hw⟩
  | head hext _ ih =>
      obtain ⟨A, vs, -, -, rfl, -⟩ := hext.exists_superclass
      cases hfollows with
      | stop hno => exact (hno A vs rfl).elim
      | object hargs =>
          obtain ⟨w, hw, hfollows⟩ := exists_extends_of_follows (fun _ => id) hargs hext
          obtain ⟨cs, hcs⟩ := ih hfollows
          exact ⟨cs, .head hw hcs⟩

theorem follows_open (A : String) (args : List Ty) (P : Ty → Prop) :
    Follows P (.object A args) (.object A []) :=
  .object fun _ _ h => by simp at h

theorem ClassAbove.trans (hAB : d.ClassAbove A B) (hBC : d.ClassAbove B C) : d.ClassAbove A C := by
  obtain ⟨bs, hbs⟩ := hAB
  obtain ⟨_, hcs⟩ := hBC
  obtain ⟨cs, hcs⟩ := transGen_of_follows hcs (follows_open B bs IsNoClass)
  exact ⟨cs, hbs.trans hcs⟩

/-! ### Walks that never end -/

/-- Where one walk ends, the walk beside it ends or goes on from a type that it is not bounded by. -/
theorem exists_stop_of_not_ends {P : Ty → Prop} (hP : ∀ w, IsNoClass w → P w) (hu : d.Ends u)
    (hfollows : Follows P u v) (hv : ¬ d.Ends v) :
    ∃ w, Relation.ReflTransGen d.Extends v w ∧ P w ∧ ¬ d.Ends w := by
  induction hu generalizing v with
  | intro u _ ih =>
      cases hfollows with
      | stop h => exact ⟨v, .refl, h, hv⟩
      | @object A us vs hargs =>
          obtain ⟨s, hends, hs⟩ := exists_not_acc_lt_of_not_acc hv
          obtain ⟨r, hr, hfollows⟩ := exists_extends_of_follows hP hargs hs
          obtain ⟨w, hsw, hw⟩ := ih r hr hfollows hends
          exact ⟨w, .head hs hsw, hw⟩

/-- A walk that never ends meets a class whose own walk never ends. -/
theorem exists_class_of_not_ends (t : Ty) (ht : ¬ d.Ends t) :
    ∃ A args, Relation.ReflTransGen d.Extends t (.object A args) ∧ ¬ d.Ends (.object A []) := by
  induction hn : t.size using Nat.strongRecOn generalizing t with
  | ind n ih =>
      subst hn
      obtain ⟨A, args, rfl⟩ : ∃ A args, t = .object A args := by
        by_contra hno
        exact ht (ends_of_not_object fun A args heq => hno ⟨A, args, heq⟩)
      by_cases hA : d.Ends (.object A [])
      · -- The walk leaves the classes that `A` itself climbs through at one of its arguments.
        obtain ⟨w, hw, hmem | hno, hends⟩ := exists_stop_of_not_ends
          (P := fun w => w ∈ args ∨ IsNoClass w) (fun _ => .inr) hA
          (.object fun _ _ hw => .stop (.inl (List.mem_of_getElem? hw))) ht
        · have hsize := Ty.size_le_of_mem hmem
          obtain ⟨B, bs, hB, hends⟩ := ih w.size (by rw [Ty.size]; omega) w hends rfl
          exact ⟨B, bs, hw.trans hB, hends⟩
        · exact (hends (ends_of_not_object hno)).elim
      · exact ⟨A, args, .refl, hA⟩

theorem exists_classAbove_of_not_ends (h : ¬ d.Ends (.object A [])) :
    ∃ B, d.ClassAbove A B ∧ ¬ d.Ends (.object B []) := by
  obtain ⟨s, hends, hs⟩ := exists_not_acc_lt_of_not_acc h
  obtain ⟨B, args, hB, hends⟩ := exists_class_of_not_ends s hends
  exact ⟨B, ⟨args, .head' hs hB⟩, hends⟩

theorem mem_classes_of_not_ends (h : ¬ d.Ends (.object A [])) : A ∈ d.classes.map Prod.fst := by
  obtain ⟨s, -, hs⟩ := exists_not_acc_lt_of_not_acc h
  obtain ⟨_, _, decl, _, heq, hdecl, -⟩ := hs.exists_superclass
  obtain ⟨rfl, -⟩ := Ty.object.inj heq
  exact List.mem_map.mpr ⟨_, mem_of_class? hdecl, rfl⟩

theorem isAcyclic_of_classAbove (h : ∀ A, ¬ d.ClassAbove A A) : d.IsAcyclic := by
  let above (B A : { A // A ∈ d.classes.map Prod.fst }) : Prop := d.ClassAbove A B
  have hwf : WellFounded above := by
    have : IsTrans _ above := ⟨fun _ _ _ hBA hCB => hCB.trans hBA⟩
    have : Std.Irrefl above := ⟨fun A => h A⟩
    exact Finite.wellFounded_of_trans_of_irrefl above
  have hown (A : { A // A ∈ d.classes.map Prod.fst }) : d.Ends (.object A.1 []) := by
    induction A using hwf.induction with
    | h A ih =>
        by_contra hends
        obtain ⟨B, hAB, hends⟩ := exists_classAbove_of_not_ends hends
        exact hends (ih ⟨B, mem_classes_of_not_ends hends⟩ hAB)
  refine ⟨fun t => by_contra fun ht => ?_⟩
  obtain ⟨A, _, -, hA⟩ := exists_class_of_not_ends t ht
  exact hA (hown ⟨A, mem_classes_of_not_ends hA⟩)

theorem not_ends_of_classAbove (h : d.ClassAbove A A) (args : List Ty) : ¬ d.Ends (.object A args) := by
  intro hends
  have hacc := hends.transGen
  generalize ht : Ty.object A args = t at hacc
  induction hacc generalizing args with
  | intro t _ ih =>
      subst ht
      obtain ⟨_, habove⟩ := h
      obtain ⟨cs, hcs⟩ := transGen_of_follows habove (follows_open A args IsNoClass)
      have hback := Relation.transGen_swap.mpr hcs
      exact ih _ hback cs (hends.inv_of_transGen hback) rfl

/-- All walks over superclasses end exactly where no class is above itself. -/
theorem isAcyclic_iff_classAbove : d.IsAcyclic ↔ ∀ A, ¬ d.ClassAbove A A :=
  ⟨fun hd _ h => not_ends_of_classAbove h [] (hd.apply _), isAcyclic_of_classAbove⟩

/-! ### Declared names -/

def ExtendsNoParameter (d : Declarations) : Prop :=
  ∀ name decl i n, d.class? name = some decl → decl.superclass ≠ some (.generic i n)

theorem SuperclassNamed.classAbove (h : d.SuperclassNamed A B) : d.ClassAbove A B := by
  obtain ⟨decl, args, hdecl, hsuper⟩ := h
  refine ⟨Ty.substAll (fun _ => none) (fun _ => none) args, .single ?_⟩
  simp [Extends, superclass?_object, hdecl, hsuper, Ty.subst]

section

variable (hparam : d.ExtendsNoParameter)
include hparam

theorem Extends.superclassNamed {args bs : List Ty} (h : d.Extends (.object A args) (.object B bs)) :
    d.SuperclassNamed A B := by
  obtain ⟨_, _, decl, u, heq, hdecl, hsuper, hu⟩ := h.exists_superclass
  obtain ⟨rfl, rfl⟩ := Ty.object.inj heq
  cases u with
  | object C cs =>
      obtain ⟨rfl, -⟩ := Ty.object.inj hu
      exact ⟨decl, cs, hdecl, hsuper⟩
  | generic i n => exact (hparam _ decl i n hdecl hsuper).elim
  | boxed inner => exact (Ty.inBox_ne_object _ _ _ hu.symm).elim
  | _ => cases hu

theorem transGen_superclassNamed {args bs : List Ty}
    (h : Relation.TransGen d.Extends (.object A args) (.object B bs)) :
    Relation.TransGen d.SuperclassNamed A B := by
  generalize ht : Ty.object A args = t at h
  induction h using Relation.TransGen.head_induction_on generalizing A args with
  | single h =>
      subst ht
      exact .single (h.superclassNamed hparam)
  | head h hrest ih =>
      subst ht
      -- The walk goes on from the superclass, so that one is a class as well.
      obtain ⟨_, hnext, -⟩ := Relation.TransGen.head'_iff.mp hrest
      obtain ⟨C, cs, -, -, rfl, -⟩ := hnext.exists_superclass
      exact .head (h.superclassNamed hparam) (ih rfl)

theorem classAbove_iff_transGen : d.ClassAbove A B ↔ Relation.TransGen d.SuperclassNamed A B := by
  refine ⟨fun ⟨_, h⟩ => transGen_superclassNamed hparam h, fun h => ?_⟩
  induction h with
  | single h => exact h.classAbove
  | tail _ h ih => exact ih.trans h.classAbove

end

theorem lt_of_transGen_superclassNamed {rank : String → Nat}
    (h : ∀ A B, d.SuperclassNamed A B → rank B < rank A) (hAB : Relation.TransGen d.SuperclassNamed A B) :
    rank B < rank A := by
  induction hAB with
  | single hAB => exact h _ _ hAB
  | tail _ hBC ih => exact Nat.lt_trans (h _ _ hBC) ih

theorem not_classAbove_of_rank (rank : String → Nat)
    (h : ∀ entry ∈ d.classes, ∀ s, entry.2.superclass = some s →
      ∃ name args, s = .object name args ∧ rank name < rank entry.1) (A : String) :
    ¬ d.ClassAbove A A := by
  have hparam : d.ExtendsNoParameter := fun name decl i n hdecl hsuper => by
    obtain ⟨_, _, heq, -⟩ := h _ (mem_of_class? hdecl) _ hsuper
    cases heq
  have hstep (A B : String) (hAB : d.SuperclassNamed A B) : rank B < rank A := by
    obtain ⟨decl, args, hdecl, hsuper⟩ := hAB
    obtain ⟨_, _, heq, hlt⟩ := h _ (mem_of_class? hdecl) _ hsuper
    obtain ⟨rfl, -⟩ := Ty.object.inj heq
    exact hlt
  exact fun hA => Nat.lt_irrefl _
    (lt_of_transGen_superclassNamed hstep ((classAbove_iff_transGen hparam).mp hA))

end Declarations

end Boxlang
