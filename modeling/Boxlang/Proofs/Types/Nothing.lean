import Boxlang.Proofs.Subtyping.Rules
import Boxlang.Proofs.Types.ErrorFree

/-!
# Where nothing may occur

The type nothing is the result of functions that return none.  Where a program writes
it only as a result, no type that is computed from the written ones has it anywhere
else: it is above and below no other type, and is never inferred for a variable.
-/

namespace Boxlang

namespace Ty

def isNothing (t : Ty) : Bool :=
  match t.unboxed with
  | .nothing => true
  | _ => false

mutual

def onlyReturnsNothing : Ty → Bool
  | .nothing => false
  | .object _ args | .value _ args => allOnlyReturnNothing args
  | .callable params ret => allOnlyReturnNothing params && (isNothing ret || onlyReturnsNothing ret)
  | .optional inner | .typeValue inner | .boxed inner => onlyReturnsNothing inner
  | _ => true

def allOnlyReturnNothing : List Ty → Bool
  | [] => true
  | t :: ts => onlyReturnsNothing t && allOnlyReturnNothing ts

end

/-- Whether nothing occurs in the type only as a result, which the type itself may be. -/
def isResult (t : Ty) : Bool :=
  t.isNothing || t.onlyReturnsNothing

variable {t u : Ty}

theorem allOnlyReturnNothing_iff {ts : List Ty} :
    allOnlyReturnNothing ts = true ↔ ∀ t ∈ ts, t.onlyReturnsNothing = true := by
  induction ts with
  | nil => simp [allOnlyReturnNothing]
  | cons t ts ih => simp [allOnlyReturnNothing, ih]

theorem onlyReturnsNothing_callable {params : List Ty} {ret : Ty} :
    (callable params ret).onlyReturnsNothing = true ↔
      (∀ p ∈ params, p.onlyReturnsNothing = true) ∧ ret.isResult = true := by
  simp [onlyReturnsNothing, allOnlyReturnNothing_iff, isResult]

theorem isNothing_iff : t.isNothing = true ↔ t.unboxed = .nothing := by
  unfold isNothing
  split <;> simp_all

theorem isResult_of_onlyReturnsNothing (h : t.onlyReturnsNothing = true) : t.isResult = true := by
  simp [isResult, h]

theorem isResult_iff : t.isResult = true ↔ t.unboxed = .nothing ∨ t.onlyReturnsNothing = true := by
  simp [isResult, isNothing_iff]

/-! ### Storage marks -/

@[simp]
theorem onlyReturnsNothing_inBox (t : Ty) : t.inBox.onlyReturnsNothing = t.onlyReturnsNothing := by
  cases t <;> simp [inBox, onlyReturnsNothing]

@[simp]
theorem onlyReturnsNothing_unboxed (t : Ty) :
    t.unboxed.onlyReturnsNothing = t.onlyReturnsNothing := by
  cases t <;> simp [unboxed, onlyReturnsNothing]

/-- A type that has another outermost constructor is no result but that of a value. -/
theorem onlyReturnsNothing_of_unboxed (h : t.isResult = true) (hu : t.unboxed = u)
    (hne : u ≠ .nothing) : u.onlyReturnsNothing = true := by
  rcases isResult_iff.mp h with hnothing | honly
  · exact absurd (hu.symm.trans hnothing) hne
  · rwa [← hu, onlyReturnsNothing_unboxed]

theorem erased_eq_nothing (h : t.unboxed = .nothing) : t.erased = .nothing := by
  rw [← erased_unboxed, h]
  simp [erased]

mutual

theorem onlyReturnsNothing_erased :
    ∀ t : Ty, t.onlyReturnsNothing = true → t.erased.onlyReturnsNothing = true
  | .nothing, h => by cases h
  | .error, _ | .int, _ | .real, _ | .bool, _ | .byte, _ | .symbol, _ | .something, _ => rfl
  | .enum _, _ | .protocol _, _ | .generic _ _, _ | .localGeneric _ _, _ => rfl
  | .object _ args, h | .value _ args, h => allOnlyReturnNothing_erasedAll args h
  | .callable params ret, h => by
      obtain ⟨hparams, hret⟩ := onlyReturnsNothing_callable.mp h
      have hparams' := allOnlyReturnNothing_erasedAll params (allOnlyReturnNothing_iff.mpr hparams)
      refine onlyReturnsNothing_callable.mpr ⟨allOnlyReturnNothing_iff.mp hparams', ?_⟩
      rcases isResult_iff.mp hret with hret | hret
      · rw [erased_eq_nothing hret]
        rfl
      · exact isResult_of_onlyReturnsNothing (onlyReturnsNothing_erased ret hret)
  | .optional inner, h | .typeValue inner, h => onlyReturnsNothing_erased inner h
  | .boxed inner, h => by
      rw [erased]
      exact onlyReturnsNothing_erased inner h

theorem allOnlyReturnNothing_erasedAll :
    ∀ ts : List Ty, allOnlyReturnNothing ts = true → allOnlyReturnNothing (erasedAll ts) = true
  | [], _ => rfl
  | t :: ts, h => by
      simp only [allOnlyReturnNothing, erasedAll, Bool.and_eq_true] at h ⊢
      exact ⟨onlyReturnsNothing_erased t h.1, allOnlyReturnNothing_erasedAll ts h.2⟩

end

theorem erased_of_isResult (h : t.isResult = true) :
    t.erased = .nothing ∨ t.erased.onlyReturnsNothing = true :=
  (isResult_iff.mp h).imp erased_eq_nothing (onlyReturnsNothing_erased t)

theorem onlyReturnsNothing_heldIn (s : Storage) (h : t.onlyReturnsNothing = true) :
    (t.heldIn s).onlyReturnsNothing = true := by
  cases s with
  | simple => simpa [heldIn] using h
  | box =>
      unfold heldIn
      dsimp only
      split
      · exact h
      · simpa using h
  | simpleOptional =>
      have hu : t.unboxed.onlyReturnsNothing = true := by simpa using h
      unfold heldIn
      dsimp only
      split
      next heq => rwa [heq] at hu
      next => simpa [onlyReturnsNothing] using hu

/-! ### Components -/

theorem descends_isResult : Descends (·.isResult = true) := by
  intro t ht u hu
  have hne (h : t.unboxed ≠ .nothing) : t.onlyReturnsNothing = true :=
    (isResult_iff.mp ht).resolve_left h
  cases t with
  | object name args | value name args =>
      have hargs := allOnlyReturnNothing_iff.mp (hne (by simp [unboxed]))
      exact isResult_of_onlyReturnsNothing (hargs u hu)
  | callable params ret =>
      obtain ⟨hparams, hret⟩ := onlyReturnsNothing_callable.mp (hne (by simp [unboxed]))
      rcases List.mem_cons.mp hu with rfl | hu
      · exact hret
      · exact isResult_of_onlyReturnsNothing (hparams u hu)
  | optional inner | typeValue inner =>
      obtain rfl := List.mem_singleton.mp hu
      exact isResult_of_onlyReturnsNothing (hne (by simp [unboxed]))
  | boxed inner =>
      obtain rfl := List.mem_singleton.mp hu
      rcases isResult_iff.mp ht with hnothing | honly
      · replace hnothing : u = .nothing := hnothing
        rw [hnothing]
        rfl
      · exact isResult_of_onlyReturnsNothing honly
  | _ => cases hu

/-! ### Substitution -/

section Substitution

variable {owner locals : Nat → Option Ty}

theorem unboxed_subst_eq_nothing (h : t.unboxed = .nothing) :
    (t.subst owner locals).unboxed = .nothing := by
  cases t <;> simp_all [unboxed, subst, inBox]

mutual

theorem onlyReturnsNothing_subst
    (ho : ∀ i u, owner i = some u → u.onlyReturnsNothing = true)
    (hl : ∀ i u, locals i = some u → u.onlyReturnsNothing = true) :
    ∀ t : Ty, t.onlyReturnsNothing = true → (t.subst owner locals).onlyReturnsNothing = true
  | .nothing, h => by cases h
  | .error, _ | .int, _ | .real, _ | .bool, _ | .byte, _ | .symbol, _ | .something, _ => rfl
  | .enum _, _ | .protocol _, _ => rfl
  | .generic i n, _ => by
      cases hi : owner i with
      | none => simp [subst, hi, onlyReturnsNothing]
      | some u => simpa [subst, hi] using ho i u hi
  | .localGeneric i n, _ => by
      cases hi : locals i with
      | none => simp [subst, hi, onlyReturnsNothing]
      | some u => simpa [subst, hi] using hl i u hi
  | .object _ args, h | .value _ args, h => allOnlyReturnNothing_substAll ho hl args h
  | .callable params ret, h => by
      obtain ⟨hparams, hret⟩ := onlyReturnsNothing_callable.mp h
      have hparams' :=
        allOnlyReturnNothing_substAll ho hl params (allOnlyReturnNothing_iff.mpr hparams)
      refine onlyReturnsNothing_callable.mpr ⟨allOnlyReturnNothing_iff.mp hparams', ?_⟩
      exact isResult_iff.mpr ((isResult_iff.mp hret).imp unboxed_subst_eq_nothing
        (onlyReturnsNothing_subst ho hl ret))
  | .optional inner, h | .typeValue inner, h => onlyReturnsNothing_subst ho hl inner h
  | .boxed inner, h => by
      rw [subst, onlyReturnsNothing_inBox]
      exact onlyReturnsNothing_subst ho hl inner h

theorem allOnlyReturnNothing_substAll
    (ho : ∀ i u, owner i = some u → u.onlyReturnsNothing = true)
    (hl : ∀ i u, locals i = some u → u.onlyReturnsNothing = true) :
    ∀ ts : List Ty, allOnlyReturnNothing ts = true →
      allOnlyReturnNothing (substAll owner locals ts) = true
  | [], _ => rfl
  | t :: ts, h => by
      simp only [allOnlyReturnNothing, substAll, Bool.and_eq_true] at h ⊢
      exact ⟨onlyReturnsNothing_subst ho hl t h.1, allOnlyReturnNothing_substAll ho hl ts h.2⟩

end

theorem isResult_subst (ho : ∀ i u, owner i = some u → u.onlyReturnsNothing = true)
    (hl : ∀ i u, locals i = some u → u.onlyReturnsNothing = true) (h : t.isResult = true) :
    (t.subst owner locals).isResult = true :=
  isResult_iff.mpr ((isResult_iff.mp h).imp unboxed_subst_eq_nothing
    (onlyReturnsNothing_subst ho hl t))

end Substitution

end Ty

/-! ### Contexts -/

structure GenericContext.OnlyReturnsNothing (c : GenericContext) : Prop where
  owner : ∀ t, c.owner = some t → t.onlyReturnsNothing = true
  ownerConstraints : ∀ t ∈ c.ownerConstraints, t.onlyReturnsNothing = true
  args : ∀ t ∈ c.args, t.onlyReturnsNothing = true
  constraints : ∀ t ∈ c.constraints, t.onlyReturnsNothing = true

namespace GenericContext.OnlyReturnsNothing

variable {c : GenericContext} (h : c.OnlyReturnsNothing)
include h

theorem ownerArg? {i : Nat} {t : Ty} (ht : c.ownerArg? i = some t) :
    t.onlyReturnsNothing = true := by
  obtain ⟨owner, args, howner, hmem, name, hu⟩ := exists_of_ownerArg? ht
  have hargs := (Ty.onlyReturnsNothing_unboxed owner).trans (h.owner owner howner)
  rcases hu with hu | hu <;> rw [hu] at hargs <;>
    exact Ty.allOnlyReturnNothing_iff.mp hargs t hmem

theorem constraint? {v bound : Ty} (hv : c.constraint? v = some bound) :
    bound.onlyReturnsNothing = true := by
  rcases mem_of_constraint? hv with rfl | hmem | hmem
  · rfl
  · exact h.constraints bound hmem
  · exact h.ownerConstraints bound hmem

theorem instantiate_args {i : Nat} {t : Ty} (ht : c.args[i]?.map Ty.inBox = some t) :
    t.onlyReturnsNothing = true := by
  obtain ⟨u, hu, rfl⟩ := Option.map_eq_some_iff.mp ht
  simpa using h.args u (List.mem_of_getElem? hu)

theorem instantiate_owner {i : Nat} {t : Ty} (ht : (c.ownerArg? i).map Ty.inBox = some t) :
    t.onlyReturnsNothing = true := by
  obtain ⟨u, hu, rfl⟩ := Option.map_eq_some_iff.mp ht
  simpa using h.ownerArg? hu

theorem instantiate {t : Ty} (ht : t.onlyReturnsNothing = true) :
    (c.instantiate t).onlyReturnsNothing = true :=
  Ty.onlyReturnsNothing_subst (fun _ _ => h.instantiate_owner) (fun _ _ => h.instantiate_args) t ht

theorem isResult_instantiate {t : Ty} (ht : t.isResult = true) :
    (c.instantiate t).isResult = true :=
  Ty.isResult_subst (fun _ _ => h.instantiate_owner) (fun _ _ => h.instantiate_args) ht

theorem upperBound {t : Ty} (ht : t.onlyReturnsNothing = true) :
    (c.upperBound t).onlyReturnsNothing = true := by
  refine Ty.onlyReturnsNothing_subst (fun i u hu => ?_) (fun i u hu => ?_) t ht
  · obtain rfl := Option.some.inj hu
    cases hv : c.ownerArg? i with
    | none => exact h.constraint? (v := .generic i "") rfl
    | some v => exact h.ownerArg? hv
  · obtain rfl := Option.some.inj hu
    cases hv : c.args[i]? with
    | none => exact h.constraint? (v := .localGeneric i "") rfl
    | some v => exact h.args v (List.mem_of_getElem? hv)

end GenericContext.OnlyReturnsNothing

/-! ### Subtyping -/

namespace Declarations

variable {d : Declarations} {c : GenericContext} {a b : Ty}

theorem not_below_nothing_left (hbe : b.mentionsError = false) (hb : b.onlyReturnsNothing = true) :
    ¬ d.Below c .nothing b := by
  rintro ⟨n, h⟩
  induction n generalizing b with
  | zero => simp at h
  | succ n ih =>
      cases isSubtypeWithin_succ_iff.mp h with
      | errorRight => simp [Ty.mentionsError] at hbe
      | refl => cases hb
      | top htop => cases htop
      | @toOptional _ b _ hbelow =>
          exact ih (b := b) (by simpa [Ty.mentionsError] using hbe) hb hbelow
      | byConstraint hbound => cases hbound
      | conforms hconforms => cases (belowTop_of_conformsTo (c := c) hconforms).1

theorem not_below_nothing_right (hce : c.ErrorFree) (hc : c.OnlyReturnsNothing)
    (hae : a.mentionsError = false) (ha : a.onlyReturnsNothing = true) :
    ¬ d.Below c a .nothing := by
  rintro ⟨n, h⟩
  induction n generalizing a with
  | zero => simp at h
  | succ n ih =>
      cases isSubtypeWithin_succ_iff.mp h with
      | errorLeft => simp [Ty.mentionsError] at hae
      | refl => cases ha
      | byConstraint hbound _ _ _ h =>
          refine ih ?_ (hc.constraint? hbound) h
          rcases GenericContext.mem_of_constraint? hbound with rfl | hmem | hmem
          · rfl
          · exact hce.constraints _ hmem
          · exact hce.ownerConstraints _ hmem

def OnlyReturnsNothing (d : Declarations) : Prop :=
  ∀ name decl t, (name, decl) ∈ d.classes → decl.superclass = some t → t.onlyReturnsNothing = true

namespace OnlyReturnsNothing

variable (h : d.OnlyReturnsNothing)
include h

theorem superclass? {t s : Ty} (ht : t.isResult = true) (hs : d.superclass? t = some s) :
    s.onlyReturnsNothing = true := by
  obtain ⟨name, args, decl, u, rfl, hdecl, hsuper, rfl⟩ := Extends.exists_superclass hs
  have hargs := Ty.onlyReturnsNothing_of_unboxed ht (u := .object name args) rfl (by simp)
  refine Ty.onlyReturnsNothing_subst (fun i v hv => ?_) (by simp) u
    (h name decl u (mem_of_class? hdecl) hsuper)
  exact Ty.allOnlyReturnNothing_iff.mp hargs v (List.mem_of_getElem? hv)

theorem nominalJoin (c : GenericContext) (ha : a.isResult = true) (b : Ty) :
    (d.nominalJoin c a b).onlyReturnsNothing = true := by
  unfold Declarations.nominalJoin
  split
  next ancestor hfound =>
    rw [findAncestor?_eq_find?] at hfound
    exact forall_mem_ancestorsWithin h.superclass? Ty.isResult_of_onlyReturnsNothing ha ancestor
      (List.mem_of_find?_eq_some hfound)
  next => split <;> rfl

theorem commonErased? (hce : c.ErrorFree) (hc : c.OnlyReturnsNothing) (a b : Ty) :
    ∀ t, a.mentionsError = false → b.mentionsError = false →
      a = .nothing ∨ a.onlyReturnsNothing = true → b = .nothing ∨ b.onlyReturnsNothing = true →
      d.commonErased? c a b = some t → t.isResult = true ∧
        (a.onlyReturnsNothing = true ∨ b.onlyReturnsNothing = true → t.onlyReturnsNothing = true) := by
  have hresult {x : Ty} (hx : x = .nothing ∨ x.onlyReturnsNothing = true) : x.isResult = true :=
    hx.elim (by rintro rfl; rfl) Ty.isResult_of_onlyReturnsNothing
  have hvalue {x : Ty} {q : Prop} (hx : x.onlyReturnsNothing = true) :
      x.isResult = true ∧ (q → x.onlyReturnsNothing = true) :=
    ⟨Ty.isResult_of_onlyReturnsNothing hx, fun _ => hx⟩
  have habove {x y : Ty} (hxe : x.mentionsError = false)
      (hy : y = .nothing ∨ y.onlyReturnsNothing = true) (hxy : d.isSubtypeErased c x y = true)
      (hx : x.onlyReturnsNothing = true) : y.onlyReturnsNothing = true := by
    rcases hy with rfl | hy
    · exact absurd ⟨_, hxy⟩ (not_below_nothing_right hce hc hxe hx)
    · exact hy
  fun_induction d.commonErased? c a b <;> intro t hae hbe ha hb ht
  case case1 herror => cases Ty.isError_eq_false hae ▸ herror
  case case2 hbelow =>
    cases ht
    exact ⟨hresult hb, fun h => h.elim (habove hae hb hbelow) id⟩
  case case3 hbelow =>
    cases ht
    exact ⟨hresult ha, fun h => h.elim id (habove hbe ha hbelow)⟩
  case case4 x y _ _ _ ih =>
    obtain ⟨u, hu, rfl⟩ := Option.map_eq_some_iff.mp ht
    have hx : x.onlyReturnsNothing = true := ha.resolve_left (by simp)
    have hy : y.onlyReturnsNothing = true := hb.resolve_left (by simp)
    exact hvalue ((ih u hae hbe (.inr hx) (.inr hy) hu).2 (.inl hx))
  case case5 x y _ _ _ _ ih =>
    obtain ⟨u, hu, rfl⟩ := Option.map_eq_some_iff.mp ht
    have hx : x.onlyReturnsNothing = true := ha.resolve_left (by simp)
    exact hvalue ((ih u hae hbe (.inr hx) hb hu).2 (.inl hx))
  case case6 x y _ _ _ _ ih =>
    obtain ⟨u, hu, rfl⟩ := Option.map_eq_some_iff.mp ht
    have hy : y.onlyReturnsNothing = true := hb.resolve_left (by simp)
    exact hvalue ((ih u hbe hae (.inr hy) ha hu).2 (.inl hy))
  case case7 x y _ _ _ ih =>
    obtain ⟨u, hu, rfl⟩ := Option.map_eq_some_iff.mp ht
    have hx : x.onlyReturnsNothing = true := ha.resolve_left (by simp)
    have hy : y.onlyReturnsNothing = true := hb.resolve_left (by simp)
    exact hvalue ((ih u hae hbe (.inr hx) (.inr hy) hu).2 (.inl hx))
  case case12 =>
    cases ht
    exact hvalue (h.nominalJoin c (hresult ha) _)
  all_goals cases ht

theorem commonSupertype? (hce : c.ErrorFree) (hc : c.OnlyReturnsNothing) {t : Ty}
    (hae : a.mentionsError = false) (hbe : b.mentionsError = false) (ha : a.isResult = true)
    (hb : b.isResult = true) (ht : d.commonSupertype? c a b = some t) : t.isResult = true :=
  (h.commonErased? hce hc a.erased b.erased t (by simpa using hae) (by simpa using hbe)
    (Ty.erased_of_isResult ha) (Ty.erased_of_isResult hb) ht).1

end OnlyReturnsNothing

end Declarations

/-! ### Written types -/

namespace WrittenType

def isNothing : WrittenType → Bool
  | .named _ name _ => name == "Nothing"
  | _ => false

mutual

def onlyReturnsNothing : WrittenType → Bool
  | .named _ name args => name != "Nothing" && allOnlyReturnNothing args
  | .optional _ inner => onlyReturnsNothing inner
  | .callable _ params ret =>
    allOnlyReturnNothing params && (isNothing ret || onlyReturnsNothing ret)

def allOnlyReturnNothing : List WrittenType → Bool
  | [] => true
  | t :: ts => onlyReturnsNothing t && allOnlyReturnNothing ts

end

def isResult (t : WrittenType) : Bool :=
  t.isNothing || t.onlyReturnsNothing

end WrittenType

namespace Signature

variable {f : Signature} {d : Declarations}

theorem onlyReturnsNothing_named? {name : String} {args : List Ty} {t : Ty}
    (hname : name ≠ "Nothing") (ha : ∀ u ∈ args, u.onlyReturnsNothing = true)
    (h : f.named? d name args = some t) : t.onlyReturnsNothing = true := by
  have hargs := Ty.allOnlyReturnNothing_iff.mpr ha
  unfold named? at h
  split at h
  next u hu =>
    obtain rfl := Option.some.inj h
    unfold Ty.builtin? at hu
    split at hu <;> first | cases hu; rfl | exact absurd rfl hname | cases hu
  next =>
    split at h
    · obtain rfl := Option.some.inj h
      rfl
    · split at h
      · obtain rfl := Option.some.inj h
        rfl
      · obtain ⟨u, hu, rfl⟩ := Option.map_eq_some_iff.mp h
        unfold Declarations.type? at hu
        split_ifs at hu <;> cases hu <;> simp [Ty.onlyReturnsNothing, hargs]

theorem unboxed_resolve_of_isNothing {w : WrittenType} {t : Ty} (hw : w.isNothing = true)
    (h : f.resolve d w = .ok t) : t.unboxed = .nothing := by
  cases w with
  | named span name args =>
      obtain rfl : name = "Nothing" := by simpa [WrittenType.isNothing] using hw
      rw [resolve] at h
      obtain ⟨ts, -, h⟩ := exists_of_bind_eq_ok h
      cases h
      rfl
  | _ => cases hw

mutual

theorem onlyReturnsNothing_resolve (f : Signature) (d : Declarations) :
    ∀ (w : WrittenType) (t : Ty), w.onlyReturnsNothing = true → f.resolve d w = .ok t →
      t.onlyReturnsNothing = true
  | .optional _ inner, t, hw, h => by
      rw [resolve] at h
      obtain ⟨u, hu, h⟩ := exists_of_bind_eq_ok h
      cases h
      exact onlyReturnsNothing_resolve f d inner u hw hu
  | .callable _ params ret, t, hw, h => by
      rw [resolve] at h
      obtain ⟨ps, hps, h⟩ := exists_of_bind_eq_ok h
      obtain ⟨r, hr, h⟩ := exists_of_bind_eq_ok h
      cases h
      simp only [WrittenType.onlyReturnsNothing, Bool.and_eq_true, Bool.or_eq_true] at hw
      refine Ty.onlyReturnsNothing_callable.mpr
        ⟨onlyReturnsNothing_resolveAll f d params ps hw.1 hps, Ty.isResult_iff.mpr ?_⟩
      exact hw.2.imp (unboxed_resolve_of_isNothing · hr)
        (onlyReturnsNothing_resolve f d ret r · hr)
  | .named span name args, t, hw, h => by
      rw [resolve] at h
      obtain ⟨ts, hts, h⟩ := exists_of_bind_eq_ok h
      simp only [WrittenType.onlyReturnsNothing, Bool.and_eq_true, bne_iff_ne] at hw
      split at h
      next u hu =>
        cases h
        exact onlyReturnsNothing_named? hw.1 (onlyReturnsNothing_resolveAll f d args ts hw.2 hts) hu
      next => cases h

theorem onlyReturnsNothing_resolveAll (f : Signature) (d : Declarations) :
    ∀ (ws : List WrittenType) (ts : List Ty), WrittenType.allOnlyReturnNothing ws = true →
      f.resolveAll d ws = .ok ts → ∀ t ∈ ts, t.onlyReturnsNothing = true
  | [], ts, _, h => by
      cases h
      simp
  | w :: ws, ts, hw, h => by
      rw [resolveAll] at h
      obtain ⟨u, hu, h⟩ := exists_of_bind_eq_ok h
      obtain ⟨us, hus, h⟩ := exists_of_bind_eq_ok h
      cases h
      simp only [WrittenType.allOnlyReturnNothing, Bool.and_eq_true] at hw
      exact List.forall_mem_cons.mpr ⟨onlyReturnsNothing_resolve f d w u hw.1 hu,
        onlyReturnsNothing_resolveAll f d ws us hw.2 hus⟩

end

theorem isResult_resolve {w : WrittenType} {t : Ty} (hw : w.isResult = true)
    (h : f.resolve d w = .ok t) : t.isResult = true := by
  rw [WrittenType.isResult, Bool.or_eq_true] at hw
  exact Ty.isResult_iff.mpr (hw.imp (unboxed_resolve_of_isNothing · h)
    (onlyReturnsNothing_resolve f d w t · h))

structure OnlyReturnsNothing (f : Signature) : Prop where
  owner : ∀ t, f.owner? = some t → t.onlyReturnsNothing = true
  constraints : ∀ g ∈ f.generics, g.constraint.onlyReturnsNothing = true
  params : ∀ param ∈ f.params, param.type.onlyReturnsNothing = true
  ret : f.ret.isResult = true

theorem OnlyReturnsNothing.context (h : f.OnlyReturnsNothing) (d : Declarations) :
    (f.context d).OnlyReturnsNothing where
  owner := h.owner
  ownerConstraints t ht := by
    rw [eq_something_of_mem_context ht]
    rfl
  args t ht := by simp [Signature.context] at ht
  constraints t ht := by
    obtain ⟨g, hg, rfl⟩ := List.mem_map.mp ht
    exact h.constraints g hg

end Signature

/-! ### Packages -/

/-- A package in whose superclasses, constraints and signatures nothing occurs only as a result. -/
structure Package.OnlyReturnsNothing (p : Package) : Prop where
  declarations : p.declarations.OnlyReturnsNothing
  functions : ∀ f ∈ p.functions, f.OnlyReturnsNothing

theorem Package.OnlyReturnsNothing.signature {p : Package} (h : p.OnlyReturnsNothing)
    {id : FunctionId} (hid : id < p.functions.length) : (p.signature id).OnlyReturnsNothing :=
  h.functions _ (p.signature_mem hid)

end Boxlang
