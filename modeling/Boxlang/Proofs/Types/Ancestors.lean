import Boxlang.Declarations
import Mathlib.Algebra.Group.Nat.Defs
import Mathlib.Logic.Relation
import Mathlib.Tactic.SplitIfs

/-!
# Ancestors

A class hierarchy is acyclic where every walk over superclasses ends.  Such a walk
ends within `ancestorSteps`, so that `ancestors` lists all types that a type inherits
from (`mem_ancestors_iff`).

The bound rests on the walk from a class without arguments, its own climb.  A walk
from a type climbs at most once from each of its nodes, and no climb through a class
arrives at that class again: the walk would repeat for ever.  So the own climb of a
class is longer than that of every class it meets, and it is at most the size of its
superclass times the longest of these.
-/

namespace Boxlang

namespace Ty

theorem inBox_ne_object (t : Ty) (name : String) (args : List Ty) : t.inBox ≠ .object name args := by
  cases t <;> simp [inBox]

theorem size_inBox_le (t : Ty) : t.inBox.size ≤ 1 + t.size := by
  cases t <;> simp only [inBox, size] <;> omega

mutual

/-- Replacing nothing makes no type larger; marks may only be normalised. -/
theorem size_subst_none : ∀ t : Ty, (t.subst (fun _ => none) fun _ => none).size ≤ t.size
  | .error | .nothing | .int | .real | .bool | .byte | .symbol | .something => Nat.le_refl _
  | .enum _ | .protocol _ | .generic _ _ | .localGeneric _ _ => Nat.le_refl _
  | .object _ args | .value _ args => by
      have := sizeAll_substAll_none args
      simp only [subst, size]
      omega
  | .callable params ret => by
      have := sizeAll_substAll_none params
      have := size_subst_none ret
      simp only [subst, size]
      omega
  | .optional inner | .typeValue inner => by
      have := size_subst_none inner
      simp only [subst, size]
      omega
  | .boxed inner => by
      have := size_subst_none inner
      have := size_inBox_le (inner.subst (fun _ => none) fun _ => none)
      simp only [subst, size]
      omega

theorem sizeAll_substAll_none :
    ∀ ts : List Ty, sizeAll (substAll (fun _ => none) (fun _ => none) ts) ≤ sizeAll ts
  | [] => Nat.le_refl _
  | t :: ts => by
      have := size_subst_none t
      have := sizeAll_substAll_none ts
      simp only [substAll, sizeAll]
      omega

end

end Ty

namespace Declarations

variable {d : Declarations}

/-- The class of `t` names `s`, applied to the arguments of `t`, as its superclass. -/
def Extends (d : Declarations) (t s : Ty) : Prop :=
  d.superclass? t = some s

/-- A class hierarchy in which every walk over superclasses ends. -/
def IsAcyclic (d : Declarations) : Prop :=
  WellFounded fun s t => d.Extends t s

theorem superclass?_eq_none {t : Ty} (h : ∀ name args, t ≠ .object name args) :
    d.superclass? t = none := by
  unfold superclass?
  split
  next name args => exact absurd rfl (h name args)
  next => rfl

theorem superclass?_object (name : String) (args : List Ty) :
    d.superclass? (.object name args) = ((d.class? name).bind (·.superclass)).map
      (Ty.subst (fun i => args[i]?) fun _ => none) :=
  rfl

theorem Extends.exists_superclass {t s : Ty} (h : d.Extends t s) :
    ∃ name args decl u, t = .object name args ∧ d.class? name = some decl ∧
      decl.superclass = some u ∧ s = u.subst (fun i => args[i]?) fun _ => none := by
  cases t with
  | object name args =>
      rw [Extends, superclass?_object] at h
      obtain ⟨u, hu, rfl⟩ := Option.map_eq_some_iff.mp h
      obtain ⟨decl, hdecl, hsuper⟩ := Option.bind_eq_some_iff.mp hu
      exact ⟨name, args, decl, u, rfl, hdecl, hsuper, rfl⟩
  | _ => cases h

theorem mem_of_class? {name : String} {decl : ClassDecl} (h : d.class? name = some decl) :
    (name, decl) ∈ d.classes := by
  obtain ⟨l₁, l₂, hl, -⟩ := List.lookup_eq_some_iff.mp h
  simp [hl]

/-- Where the superclasses of all types of `Q` are of `P`, so are all their ancestors. -/
theorem forall_mem_ancestorsWithin {P Q : Ty → Prop}
    (hstep : ∀ {t s}, Q t → d.superclass? t = some s → P s) (hweaken : ∀ {t}, P t → Q t) {n : Nat}
    {t : Ty} (ht : Q t) : ∀ s ∈ d.ancestorsWithin n t, P s := by
  induction n generalizing t with
  | zero => simp [ancestorsWithin]
  | succ n ih =>
      simp only [ancestorsWithin]
      cases hsup : d.superclass? t with
      | none => simp
      | some u =>
          have hu := hstep ht hsup
          exact List.forall_mem_cons.mpr ⟨hu, ih (hweaken hu)⟩

def rankOf (rank : String → Nat) : Ty → Nat
  | .object name _ => rank name
  | _ => 0

theorem isAcyclic_of_rank (rank : String → Nat)
    (h : ∀ entry ∈ d.classes, ∀ s, entry.2.superclass = some s →
      ∃ name args, s = .object name args ∧ rank name < rank entry.1) : d.IsAcyclic := by
  refine Subrelation.wf (r := InvImage (· < ·) (rankOf rank)) ?_ (InvImage.wf _ Nat.lt_wfRel.wf)
  intro s t hext
  obtain ⟨name, args, decl, u, rfl, hdecl, hsuper, rfl⟩ := Extends.exists_superclass hext
  obtain ⟨name', args', rfl, hlt⟩ := h _ (mem_of_class? hdecl) u hsuper
  exact hlt

/-! ### The length of a walk -/

namespace IsAcyclic

variable (hd : d.IsAcyclic)

noncomputable def climb : Ty → Nat :=
  WellFounded.fix hd fun t ih =>
    match h : d.superclass? t with
    | none => 0
    | some s => ih s h + 1

theorem climb_of_none {t : Ty} (h : d.superclass? t = none) : hd.climb t = 0 := by
  refine (WellFounded.fix_eq hd _ t).trans ?_
  split
  next => rfl
  next s hs => simp [h] at hs

theorem climb_of_some {t s : Ty} (h : d.superclass? t = some s) :
    hd.climb t = hd.climb s + 1 := by
  refine (WellFounded.fix_eq hd _ t).trans ?_
  split
  next hs => simp [h] at hs
  next s' hs =>
    obtain rfl : s = s' := by simpa [h] using hs
    rfl

theorem climb_of_not_object {t : Ty} (h : ∀ name args, t ≠ .object name args) :
    hd.climb t = 0 :=
  hd.climb_of_none (superclass?_eq_none h)

/-- A walk that is long enough meets all ancestors. -/
theorem mem_ancestorsWithin_iff {n : Nat} {t s : Ty} (hn : hd.climb t ≤ n) :
    s ∈ d.ancestorsWithin n t ↔ Relation.TransGen d.Extends t s := by
  induction n generalizing t with
  | zero =>
      have hno (u : Ty) (hu : d.superclass? t = some u) : False := by
        rw [hd.climb_of_some hu] at hn
        omega
      refine ⟨fun hs => by simp [ancestorsWithin] at hs, fun hs => ?_⟩
      obtain ⟨u, hu, -⟩ := Relation.TransGen.head'_iff.mp hs
      exact (hno u hu).elim
  | succ n ih =>
      rw [ancestorsWithin]
      cases h : d.superclass? t with
      | none =>
          refine ⟨fun hs => by simp at hs, fun hs => ?_⟩
          obtain ⟨u, hu, -⟩ := Relation.TransGen.head'_iff.mp hs
          simp [Extends, h] at hu
      | some u =>
          rw [hd.climb_of_some h] at hn
          rw [List.mem_cons, ih (Nat.le_of_succ_le_succ hn)]
          constructor
          · rintro (rfl | hs)
            · exact .single h
            · exact .head h hs
          · intro hs
            obtain ⟨v, hv, hvs⟩ := Relation.TransGen.head'_iff.mp hs
            obtain rfl : u = v := by simpa [Extends, h] using hv
            rcases Relation.reflTransGen_iff_eq_or_transGen.mp hvs with rfl | hvs
            · exact .inl rfl
            · exact .inr hvs

/-! ### Climbs compared -/

/-- `v` is a class applied to arguments that are bounded, or that `u` is applied to as well. -/
inductive Follows (bounded : Ty → Prop) : Ty → Ty → Prop where
  | stop {u v : Ty} : bounded v → Follows bounded u v
  | object {name : String} {us vs : List Ty} :
      (∀ i v, vs[i]? = some v → Follows bounded (us.getD i .nothing) v) →
      Follows bounded (.object name us) (.object name vs)

mutual

/-- Superclasses declared for two such classes, applied to their arguments, are again such types. -/
theorem follows_subst {bounded : Ty → Prop} {us vs : List Ty}
    (hstop : ∀ v, (∀ name args, v ≠ .object name args) → bounded v)
    (hargs : ∀ i v, vs[i]? = some v → Follows bounded (us.getD i .nothing) v) :
    ∀ t : Ty, Follows bounded (t.subst (fun i => us[i]?) fun _ => none)
      (t.subst (fun i => vs[i]?) fun _ => none)
  | .generic i n => by
      cases hv : vs[i]? with
      | none => exact .stop (hstop _ (by simp [Ty.subst, hv]))
      | some v =>
          have h := hargs i v hv
          cases hu : us[i]? with
          | some u => simpa [Ty.subst, hu, hv] using h
          | none =>
              -- Without an argument on the left the one on the right is bounded.
              rw [List.getD_eq_getElem?_getD, hu] at h
              cases h with
              | stop hb => exact .stop (by simpa [Ty.subst, hv] using hb)
  | .object name args => .object (follows_substAll hstop hargs args)
  | .boxed inner => .stop (hstop _ (Ty.inBox_ne_object _))
  | .error | .nothing | .int | .real | .bool | .byte | .symbol | .something => .stop (hstop _ nofun)
  | .enum _ | .protocol _ | .localGeneric _ _ | .value _ _ => .stop (hstop _ nofun)
  | .callable _ _ | .optional _ | .typeValue _ => .stop (hstop _ nofun)

theorem follows_substAll {bounded : Ty → Prop} {us vs : List Ty}
    (hstop : ∀ v, (∀ name args, v ≠ .object name args) → bounded v)
    (hargs : ∀ i v, vs[i]? = some v → Follows bounded (us.getD i .nothing) v) :
    ∀ (ts : List Ty) (i : Nat) (v : Ty),
      (Ty.substAll (fun i => vs[i]?) (fun _ => none) ts)[i]? = some v →
      Follows bounded ((Ty.substAll (fun i => us[i]?) (fun _ => none) ts).getD i .nothing) v
  | [], _, _, h => by simp [Ty.substAll] at h
  | t :: ts, 0, v, h => by
      obtain rfl : _ = v := Option.some.inj h
      exact follows_subst hstop hargs t
  | t :: ts, i + 1, v, h => follows_substAll hstop hargs ts i v h

end

/-- A type that follows another climbs at most as far, and then at most as far as its bounded part. -/
theorem climb_le_of_follows {bound extra : Nat} {u v : Ty}
    (h : Follows (fun v => hd.climb v ≤ bound → hd.climb v ≤ extra) u v)
    (hv : hd.climb v ≤ bound) : hd.climb v ≤ hd.climb u + extra := by
  induction u using hd.induction generalizing v with
  | h u ih =>
      cases h with
      | stop hb => exact Nat.le_add_left_of_le (hb hv)
      | @object name us vs hargs =>
          cases hdecl : (d.class? name).bind (·.superclass) with
          | none =>
              rw [hd.climb_of_none (t := .object name vs) (by rw [superclass?_object, hdecl]; rfl)]
              exact Nat.zero_le _
          | some s =>
              have hu : d.superclass? (.object name us) = some (s.subst (fun i => us[i]?) fun _ => none) := by
                rw [superclass?_object, hdecl]
                rfl
              have hv' : d.superclass? (.object name vs) = some (s.subst (fun i => vs[i]?) fun _ => none) := by
                rw [superclass?_object, hdecl]
                rfl
              rw [hd.climb_of_some hv'] at hv ⊢
              rw [hd.climb_of_some hu]
              have := ih _ hu (follows_subst (fun v hno _ => by simp [hd.climb_of_not_object hno]) hargs s)
                (Nat.le_of_succ_le hv)
              omega

noncomputable def ownClimb (name : String) : Nat :=
  hd.climb (.object name [])

theorem ownClimb_le (name : String) (args : List Ty) :
    hd.ownClimb name ≤ hd.climb (.object name args) := by
  have h : Follows (fun v => hd.climb v ≤ hd.ownClimb name → hd.climb v ≤ 0)
      (.object name args) (.object name []) := .object fun i v hv => by simp at hv
  exact hd.climb_le_of_follows h (Nat.le_refl _)

theorem climb_object_le {bound extra : Nat} {name : String} {args : List Ty}
    (hargs : ∀ a ∈ args, hd.climb a ≤ bound → hd.climb a ≤ extra)
    (h : hd.climb (.object name args) ≤ bound) :
    hd.climb (.object name args) ≤ hd.ownClimb name + extra :=
  hd.climb_le_of_follows (.object fun _ v hv => .stop (hargs v (List.mem_of_getElem? hv))) h

/-! ### A bound -/

/-- A walk climbs at most once from each node of the type, and through no class that climbs further. -/
theorem climb_le_size_mul {bound height : Nat}
    (h : ∀ name, hd.ownClimb name ≤ bound → hd.ownClimb name ≤ height) (t : Ty)
    (ht : hd.climb t ≤ bound) : hd.climb t ≤ t.size * height := by
  induction hn : t.size using Nat.strongRecOn generalizing t with
  | ind n ih =>
      subst hn
      cases t with
      | object name args =>
          have hargs (a : Ty) (ha : a ∈ args) (hb : hd.climb a ≤ bound) :
              hd.climb a ≤ Ty.sizeAll args * height := by
            have hsize := Ty.size_le_of_mem ha
            have hlt : a.size < (Ty.object name args).size := by
              rw [Ty.size]
              omega
            exact Nat.le_trans (ih a.size hlt a hb rfl) (Nat.mul_le_mul_right _ hsize)
          have hown := h name (Nat.le_trans (hd.ownClimb_le name args) ht)
          calc hd.climb (.object name args) ≤ hd.ownClimb name + Ty.sizeAll args * height :=
                hd.climb_object_le hargs ht
            _ ≤ height + Ty.sizeAll args * height := Nat.add_le_add_right hown _
            _ = (Ty.object name args).size * height := by rw [Ty.size, Nat.add_mul, Nat.one_mul]
      | _ =>
          rw [hd.climb_of_not_object (by simp)]
          exact Nat.zero_le _

noncomputable def factor (bound : Nat) (entry : String × ClassDecl) : Nat :=
  if hd.ownClimb entry.1 ≤ bound then entry.2.superclassSize + 1 else 1

/-- A bound on the own climbs that are within `bound`. -/
noncomputable def weight (bound : Nat) (classes : List (String × ClassDecl)) : Nat :=
  (classes.map (hd.factor bound)).prod

theorem factor_bounds (bound : Nat) (entry : String × ClassDecl) :
    1 ≤ hd.factor bound entry ∧ hd.factor bound entry ≤ entry.2.superclassSize + 1 := by
  unfold factor
  split_ifs <;> omega

theorem one_le_weight (bound : Nat) (classes : List (String × ClassDecl)) :
    1 ≤ hd.weight bound classes := by
  induction classes with
  | nil => exact Nat.le_refl _
  | cons entry classes ih =>
      simp only [weight, List.map_cons, List.prod_cons]
      exact Nat.mul_le_mul (hd.factor_bounds bound entry).1 ih

theorem factor_mono {b b' : Nat} (h : b ≤ b') (entry : String × ClassDecl) :
    hd.factor b entry ≤ hd.factor b' entry := by
  unfold factor
  split_ifs <;> omega

theorem weight_mono {b b' : Nat} (h : b ≤ b') (classes : List (String × ClassDecl)) :
    hd.weight b classes ≤ hd.weight b' classes := by
  induction classes with
  | nil => exact Nat.le_refl _
  | cons entry classes ih =>
      simp only [weight, List.map_cons, List.prod_cons]
      exact Nat.mul_le_mul (hd.factor_mono h entry) ih

/-- A class whose own climb is past a bound adds its factor to the weight. -/
theorem mul_weight_le {b : Nat} {entry : String × ClassDecl} {classes : List (String × ClassDecl)}
    (hmem : entry ∈ classes) (hb : b < hd.ownClimb entry.1) :
    (entry.2.superclassSize + 1) * hd.weight b classes ≤
      hd.weight (hd.ownClimb entry.1) classes := by
  induction classes with
  | nil => simp at hmem
  | cons other classes ih =>
      simp only [weight, List.map_cons, List.prod_cons]
      rcases List.mem_cons.mp hmem with rfl | hmem
      · rw [factor, factor, if_neg (Nat.not_le_of_gt hb), if_pos (Nat.le_refl _), Nat.one_mul]
        exact Nat.mul_le_mul_left _ (hd.weight_mono (Nat.le_of_lt hb) classes)
      · rw [Nat.mul_left_comm]
        exact Nat.mul_le_mul (hd.factor_mono (Nat.le_of_lt hb) other) (ih hmem)

theorem ownClimb_le_weight (name : String) :
    hd.ownClimb name ≤ hd.weight (hd.ownClimb name) d.classes := by
  induction hn : hd.ownClimb name using Nat.strongRecOn generalizing name with
  | ind n ih =>
      subst hn
      cases hsup : d.superclass? (.object name []) with
      | none =>
          rw [ownClimb, hd.climb_of_none hsup]
          exact Nat.zero_le _
      | some s =>
          have hown : hd.ownClimb name = hd.climb s + 1 := hd.climb_of_some hsup
          obtain ⟨u, hu, hs⟩ := Option.map_eq_some_iff.mp hsup
          obtain ⟨decl, hdecl, hsuper⟩ := Option.bind_eq_some_iff.mp hu
          have hmem := mem_of_class? hdecl
          have hsize : s.size ≤ decl.superclassSize := by
            rw [← hs, ClassDecl.superclassSize, hsuper]
            exact Ty.size_subst_none u
          have hmet (m : String) (hm : hd.ownClimb m ≤ hd.climb s) :
              hd.ownClimb m ≤ hd.weight (hd.climb s) d.classes :=
            Nat.le_trans (ih _ (by omega) m rfl) (hd.weight_mono hm _)
          calc hd.ownClimb name = hd.climb s + 1 := hown
            _ ≤ s.size * hd.weight (hd.climb s) d.classes + hd.weight (hd.climb s) d.classes :=
                Nat.add_le_add (hd.climb_le_size_mul hmet s (Nat.le_refl _)) (hd.one_le_weight _ _)
            _ ≤ (decl.superclassSize + 1) * hd.weight (hd.climb s) d.classes := by
                rw [Nat.add_mul, Nat.one_mul]
                exact Nat.add_le_add_right (Nat.mul_le_mul_right _ hsize) _
            _ ≤ hd.weight (hd.ownClimb name) d.classes :=
                hd.mul_weight_le hmem (Nat.lt_of_lt_of_eq (Nat.lt_succ_self _) hown.symm)

theorem mul_weight_le_ancestorSteps (bound : Nat) (t : Ty) :
    t.size * hd.weight bound d.classes ≤ d.ancestorSteps t := by
  unfold ancestorSteps weight
  induction d.classes with
  | nil => simp
  | cons entry classes ih =>
      rw [List.map_cons, List.prod_cons, List.foldr_cons, Nat.mul_left_comm]
      exact Nat.mul_le_mul (hd.factor_bounds bound entry).2 ih

/-- Every walk ends within the number of steps it is given. -/
theorem climb_le_ancestorSteps (t : Ty) : hd.climb t ≤ d.ancestorSteps t := by
  refine Nat.le_trans (hd.climb_le_size_mul (fun name hname => ?_) t (Nat.le_refl _))
    (hd.mul_weight_le_ancestorSteps (hd.climb t) t)
  exact Nat.le_trans (hd.ownClimb_le_weight name) (hd.weight_mono hname _)

theorem not_transGen_self (hd : d.IsAcyclic) (t : Ty) : ¬ Relation.TransGen d.Extends t t := by
  induction t using (WellFounded.transGen hd).induction with
  | h t ih => exact fun h => ih t (Relation.transGen_swap.mpr h) h

theorem mem_ancestors_iff (hd : d.IsAcyclic) {t s : Ty} :
    s ∈ d.ancestors t ↔ Relation.TransGen d.Extends t s :=
  hd.mem_ancestorsWithin_iff (hd.climb_le_ancestorSteps t)

end IsAcyclic

end Declarations

end Boxlang
