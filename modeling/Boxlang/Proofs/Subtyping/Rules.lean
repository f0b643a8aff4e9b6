import Boxlang.Subtyping
import Mathlib.Data.Finset.Prod
import Mathlib.Data.Finset.Card
import Mathlib.Order.Monotone.Basic

/-!
# The rules of subtyping

`Declarations.Rule` is one step of a comparison: what makes a type be below another,
given which of their parts are.  A comparison within some number of nested steps
applies the rules that often (`isSubtypeWithin_succ_iff`), and `Declarations.Below`
holds where some number of steps suffices.

The number of steps that `isSubtype` takes always suffices (`isSubtypeErased_iff`).
A comparison only meets pairs of parts of the two types and of the constraints, so
the set of pairs found to be related stops growing within as many steps as there are
pairs.
-/

namespace Boxlang

namespace Ty

def belowTop : Ty → Bool
  | .optional _ | .typeValue _ | .nothing => false
  | _ => true

mutual

/-- The types that a comparison of the type meets before it turns to constraints. -/
def parts : Ty → List Ty
  | .callable params ret => .callable params ret :: (partsAll params ++ parts ret)
  | .optional inner => .optional inner :: parts inner
  | .typeValue inner => .typeValue inner :: parts inner
  | t => [t]

def partsAll : List Ty → List Ty
  | [] => []
  | t :: ts => parts t ++ partsAll ts

end

theorem mem_partsAll {t : Ty} {ts : List Ty} : t ∈ partsAll ts ↔ ∃ u ∈ ts, t ∈ u.parts := by
  induction ts with
  | nil => simp [partsAll]
  | cons u ts ih => simp [partsAll, ih]

theorem mem_parts_self (t : Ty) : t ∈ t.parts := by
  cases t <;> simp [parts]

mutual

theorem length_parts_le : ∀ t : Ty, t.parts.length ≤ t.size
  | .callable params ret => by
      have := length_partsAll_le params
      have := length_parts_le ret
      simp only [parts, size, List.length_cons, List.length_append]
      omega
  | .optional inner | .typeValue inner => by
      have := length_parts_le inner
      simp only [parts, size, List.length_cons]
      omega
  | .boxed inner => by simp [parts, size]
  | .object _ _ | .value _ _ => by simp [parts, size]
  | .error | .nothing | .int | .real | .bool | .byte | .symbol | .something => Nat.le_refl _
  | .enum _ | .protocol _ | .generic _ _ | .localGeneric _ _ => Nat.le_refl _

theorem length_partsAll_le : ∀ ts : List Ty, (partsAll ts).length ≤ sizeAll ts
  | [] => Nat.le_refl _
  | t :: ts => by
      have := length_parts_le t
      have := length_partsAll_le ts
      simp only [partsAll, sizeAll, List.length_append]
      omega

end

mutual

theorem mem_parts_trans {x y : Ty} (hy : y ∈ x.parts) : ∀ {t : Ty}, x ∈ t.parts → y ∈ t.parts
  | .callable params ret, hx => by
      simp only [parts, List.mem_cons, List.mem_append] at hx
      rcases hx with rfl | hx | hx
      · exact hy
      · simp [parts, mem_partsAll_trans hy hx]
      · simp [parts, mem_parts_trans hy hx]
  | .optional inner, hx | .typeValue inner, hx => by
      simp only [parts, List.mem_cons] at hx
      rcases hx with rfl | hx
      · exact hy
      · simp [parts, mem_parts_trans hy hx]
  | .boxed _, hx | .object _ _, hx | .value _ _, hx => by
      obtain rfl := List.mem_singleton.mp hx
      exact hy
  | .error, hx | .nothing, hx | .int, hx | .real, hx | .bool, hx | .byte, hx | .symbol, hx
  | .something, hx | .enum _, hx | .protocol _, hx | .generic _ _, hx | .localGeneric _ _, hx => by
      obtain rfl := List.mem_singleton.mp hx
      exact hy

theorem mem_partsAll_trans {x y : Ty} (hy : y ∈ x.parts) :
    ∀ {ts : List Ty}, x ∈ partsAll ts → y ∈ partsAll ts
  | [], hx => by simp [partsAll] at hx
  | t :: ts, hx => by
      simp only [partsAll, List.mem_append] at hx ⊢
      rcases hx with hx | hx
      · exact .inl (mem_parts_trans hy hx)
      · exact .inr (mem_partsAll_trans hy hx)

end

end Ty

namespace GenericContext

theorem mem_getD_something (ts : List Ty) (i : Nat) :
    ts.getD i .something = .something ∨ ts.getD i .something ∈ ts := by
  rw [List.getD_eq_getElem?_getD]
  cases h : ts[i]? with
  | none => exact .inl rfl
  | some t => exact .inr (List.mem_of_getElem? h)

/-- A constraint is one of the declared ones, or the top where none is declared. -/
theorem mem_of_constraint? {c : GenericContext} {v bound : Ty} (h : c.constraint? v = some bound) :
    bound = .something ∨ bound ∈ c.constraints ∨ bound ∈ c.ownerConstraints := by
  cases v with
  | localGeneric i name => exact Option.some.inj h ▸ (mem_getD_something c.constraints i).imp_right .inl
  | generic i name => exact Option.some.inj h ▸ (mem_getD_something c.ownerConstraints i).imp_right .inr
  | _ => cases h

end GenericContext

namespace Declarations

/--
What makes a type be below another, given a relation between their parts.  What is
above an optional is optional itself, and a variable is compared by its constraint
except with optionals and with the top.
-/
inductive Rule (d : Declarations) (c : GenericContext) (R : Ty → Ty → Prop) : Ty → Ty → Prop where
  | errorLeft (b : Ty) : Rule d c R .error b
  | errorRight (a : Ty) : Rule d c R a .error
  | refl (a : Ty) : Rule d c R a a
  | top {a : Ty} : a.belowTop = true → Rule d c R a .something
  | optional {a b : Ty} : R a b → Rule d c R (.optional a) (.optional b)
  | toOptional {a b : Ty} : (∀ x, a ≠ .optional x) → R a b → Rule d c R a (.optional b)
  | byConstraint {a bound b : Ty} : c.constraint? a = some bound → bound ≠ a → b ≠ .something →
      (∀ x, b ≠ .optional x) → R bound b → Rule d c R a b
  | ancestor {name name' : String} {args args' : List Ty} :
      .object name' args' ∈ d.ancestors (.object name args) →
      Rule d c R (.object name args) (.object name' args')
  | conforms {a : Ty} {name : String} : d.conformsTo a name = true → Rule d c R a (.protocol name)
  | callable {params params' : List Ty} {ret ret' : Ty} : params.length = params'.length →
      (∀ q ∈ params'.zip params, R q.1 q.2) → R ret ret' →
      Rule d c R (.callable params ret) (.callable params' ret')
  | typeValue {a b : Ty} : R a b → Rule d c R (.typeValue a) (.typeValue b)

variable {d : Declarations} {c : GenericContext} {a b : Ty} {n m : Nat}

/-- Variables, optionals and callables conform to no protocol, nor do the other built-in shapes. -/
theorem belowTop_of_conformsTo {name : String} (h : d.conformsTo a name = true) :
    a.belowTop = true ∧ c.constraint? a = none := by
  cases a with
  | optional _ | typeValue _ | nothing | generic _ _ | localGeneric _ _ =>
      simp [conformsTo, protocolsOf] at h
  | _ => exact ⟨rfl, rfl⟩

@[simp]
theorem isSubtypeWithin_zero : d.isSubtypeWithin c 0 a b = false := rfl

/-- A comparison with one more nested step applies one more rule. -/
theorem isSubtypeWithin_succ_iff : d.isSubtypeWithin c (n + 1) a b = true ↔
    d.Rule c (fun x y => d.isSubtypeWithin c n x y = true) a b := by
  constructor
  · intro h
    unfold isSubtypeWithin at h
    split at h
    next hif =>
      simp only [Bool.or_eq_true, Ty.isError, beq_iff_eq] at hif
      rcases hif with (rfl | rfl) | rfl
      · exact .errorLeft b
      · exact .errorRight a
      · exact .refl a
    next hif =>
      split at h
      case h_1 | h_2 | h_3 | h_6 | h_14 => cases h
      case h_4 hopt htype hnothing =>
        refine .top ?_
        cases a with
        | optional x => exact (hopt x rfl).elim
        | typeValue x => exact (htype x rfl).elim
        | nothing => exact (hnothing rfl).elim
        | _ => rfl
      case h_5 => exact .optional h
      case h_7 hopt => exact .toOptional hopt h
      case h_8 htop hopt | h_9 htop hopt =>
        split at h
        next bound hbound =>
          simp only [Bool.and_eq_true, bne_iff_ne] at h
          exact .byConstraint hbound h.1 htop hopt h.2
        next => cases h
      case h_10 =>
        rw [hasAncestor_eq_any, List.any_eq_true] at h
        obtain ⟨s, hs, heq⟩ := h
        exact .ancestor (beq_iff_eq.mp heq ▸ hs)
      case h_11 => exact .conforms h
      case h_12 =>
        simp only [Bool.and_eq_true, beq_iff_eq, List.all_eq_true] at h
        exact .callable h.1.1 h.1.2 h.2
      case h_13 => exact .typeValue h
  · intro h
    cases h with
    | errorLeft => simp [isSubtypeWithin, Ty.isError]
    | errorRight => simp [isSubtypeWithin, Ty.isError]
    | refl => simp [isSubtypeWithin]
    | top h => cases a <;> simp_all [isSubtypeWithin, Ty.belowTop]
    | optional h => simp [isSubtypeWithin, h]
    | @toOptional _ b hopt h =>
        cases a with
        | optional x => exact (hopt x rfl).elim
        | _ => simp [isSubtypeWithin, h]
    | @byConstraint _ bound _ hbound hne htop hopt h =>
        cases a with
        | generic i name | localGeneric i name =>
            cases b with
            | something => exact (htop rfl).elim
            | optional x => exact (hopt x rfl).elim
            | _ => simp [isSubtypeWithin, hbound, hne, h]
        | _ => cases hbound
    | ancestor h => simp [isSubtypeWithin, hasAncestor_eq_any, h]
    | conforms h =>
        obtain ⟨htop, hvar⟩ := belowTop_of_conformsTo (c := c) h
        cases a with
        | optional x => cases htop
        | generic i name | localGeneric i name => cases hvar
        | _ => simp [isSubtypeWithin, h]
    | callable hlen hparams hret =>
        simp only [isSubtypeWithin]
        split
        · rfl
        · simp only [Bool.and_eq_true, beq_iff_eq, List.all_eq_true]
          exact ⟨⟨hlen, hparams⟩, hret⟩
    | typeValue h => simp [isSubtypeWithin, h]

/-! ### Monotonicity -/

/-- A set of types that holds, with a type, all types that a comparison of it goes on with. -/
structure IsClosed (c : GenericContext) (P : Ty → Prop) : Prop where
  constraint {a bound : Ty} : P a → c.constraint? a = some bound → P bound
  optional {a : Ty} : P (.optional a) → P a
  typeValue {a : Ty} : P (.typeValue a) → P a
  params {ps : List Ty} {ret : Ty} : P (.callable ps ret) → ∀ p ∈ ps, P p
  ret {ps : List Ty} {ret : Ty} : P (.callable ps ret) → P ret

theorem Rule.mono_of_isClosed {P : Ty → Prop} {R R' : Ty → Ty → Prop} (hP : IsClosed c P)
    (ha : P a) (hb : P b) (hR : ∀ x y, P x → P y → R x y → R' x y) (h : d.Rule c R a b) :
    d.Rule c R' a b := by
  cases h with
  | errorLeft => exact .errorLeft b
  | errorRight => exact .errorRight a
  | refl => exact .refl a
  | top h => exact .top h
  | optional h => exact .optional (hR _ _ (hP.optional ha) (hP.optional hb) h)
  | toOptional hopt h => exact .toOptional hopt (hR _ _ ha (hP.optional hb) h)
  | byConstraint hbound hne htop hopt h =>
      exact .byConstraint hbound hne htop hopt (hR _ _ (hP.constraint ha hbound) hb h)
  | ancestor h => exact .ancestor h
  | conforms h => exact .conforms h
  | callable hlen hparams hret =>
      refine .callable hlen (fun q hq => ?_) (hR _ _ (hP.ret ha) (hP.ret hb) hret)
      obtain ⟨h₁, h₂⟩ := List.of_mem_zip hq
      exact hR _ _ (hP.params hb _ h₁) (hP.params ha _ h₂) (hparams q hq)
  | typeValue h => exact .typeValue (hR _ _ (hP.typeValue ha) (hP.typeValue hb) h)

theorem Rule.mono {R R' : Ty → Ty → Prop} (hR : ∀ x y, R x y → R' x y) (h : d.Rule c R a b) :
    d.Rule c R' a b :=
  h.mono_of_isClosed (P := fun _ => True) ⟨fun _ _ => trivial, fun _ => trivial, fun _ => trivial,
    fun _ _ _ => trivial, fun _ => trivial⟩ trivial trivial fun x y _ _ => hR x y

theorem isSubtypeWithin_succ (h : d.isSubtypeWithin c n a b = true) :
    d.isSubtypeWithin c (n + 1) a b = true := by
  induction n generalizing a b with
  | zero => simp at h
  | succ n ih =>
      rw [isSubtypeWithin_succ_iff] at h ⊢
      exact h.mono fun x y => ih

/-- More nested steps change no comparison that has succeeded. -/
theorem isSubtypeWithin_mono (hnm : n ≤ m) (h : d.isSubtypeWithin c n a b = true) :
    d.isSubtypeWithin c m a b = true := by
  induction hnm with
  | refl => exact h
  | step _ ih => exact isSubtypeWithin_succ ih

/-! ### Below -/

/-- One type is below another: the rules relate them in some number of nested steps. -/
def Below (d : Declarations) (c : GenericContext) (a b : Ty) : Prop :=
  ∃ n, d.isSubtypeWithin c n a b = true

theorem exists_isSubtypeWithin_of_forall {pairs : List (Ty × Ty)} (h : ∀ q ∈ pairs, d.Below c q.1 q.2) :
    ∃ n, ∀ q ∈ pairs, d.isSubtypeWithin c n q.1 q.2 = true := by
  induction pairs with
  | nil => exact ⟨0, by simp⟩
  | cons q pairs ih =>
      obtain ⟨n, hn⟩ := h q List.mem_cons_self
      obtain ⟨m, hm⟩ := ih fun q hq => h q (List.mem_cons_of_mem _ hq)
      refine ⟨max n m, List.forall_mem_cons.mpr ⟨?_, fun q hq => ?_⟩⟩
      · exact isSubtypeWithin_mono (Nat.le_max_left n m) hn
      · exact isSubtypeWithin_mono (Nat.le_max_right n m) (hm q hq)

theorem below_iff : d.Below c a b ↔ d.Rule c (d.Below c) a b := by
  have intro_rule (k : Nat) (h : d.Rule c (fun x y => d.isSubtypeWithin c k x y = true) a b) :
      d.Below c a b := ⟨k + 1, isSubtypeWithin_succ_iff.mpr h⟩
  constructor
  · rintro ⟨n, hn⟩
    cases n with
    | zero => simp at hn
    | succ n => exact (isSubtypeWithin_succ_iff.mp hn).mono fun x y h => ⟨n, h⟩
  · intro h
    cases h with
    | errorLeft => exact intro_rule 0 (.errorLeft b)
    | errorRight => exact intro_rule 0 (.errorRight a)
    | refl => exact intro_rule 0 (.refl a)
    | top h => exact intro_rule 0 (.top h)
    | optional h =>
        obtain ⟨n, hn⟩ := h
        exact intro_rule n (.optional hn)
    | toOptional hopt h =>
        obtain ⟨n, hn⟩ := h
        exact intro_rule n (.toOptional hopt hn)
    | byConstraint hbound hne htop hopt h =>
        obtain ⟨n, hn⟩ := h
        exact intro_rule n (.byConstraint hbound hne htop hopt hn)
    | ancestor h => exact intro_rule 0 (.ancestor h)
    | conforms h => exact intro_rule 0 (.conforms h)
    | callable hlen hparams hret =>
        obtain ⟨n, hn⟩ := exists_isSubtypeWithin_of_forall hparams
        obtain ⟨m, hm⟩ := hret
        refine intro_rule (max n m) (.callable hlen (fun q hq => ?_) ?_)
        · exact isSubtypeWithin_mono (Nat.le_max_left n m) (hn q hq)
        · exact isSubtypeWithin_mono (Nat.le_max_right n m) hm
    | typeValue h =>
        obtain ⟨n, hn⟩ := h
        exact intro_rule n (.typeValue hn)

/-! ### What a rule says of shapes -/

theorem Rule.belowTop {R : Ty → Ty → Prop} (h : d.Rule c R a b) (hb : b.belowTop = true)
    (hbe : b ≠ .error) : a.belowTop = true := by
  cases h with
  | errorLeft => rfl
  | errorRight => exact (hbe rfl).elim
  | refl => exact hb
  | top h => exact h
  | optional | toOptional | typeValue => cases hb
  | byConstraint hbound =>
      cases a with
      | generic | localGeneric => rfl
      | _ => cases hbound
  | ancestor | callable => rfl
  | conforms h => exact (belowTop_of_conformsTo (c := c) h).1

theorem Rule.exists_optional {R : Ty → Ty → Prop} {x : Ty} (h : d.Rule c R (.optional x) b)
    (hbe : b ≠ .error) : ∃ y, b = .optional y := by
  cases h with
  | errorRight => exact (hbe rfl).elim
  | refl => exact ⟨x, rfl⟩
  | top h => cases h
  | optional => exact ⟨_, rfl⟩
  | toOptional => exact ⟨_, rfl⟩
  | byConstraint hbound => cases hbound
  | conforms h => cases (belowTop_of_conformsTo (c := c) h).1

theorem Below.refl (a : Ty) : d.Below c a a :=
  below_iff.mpr (.refl a)

theorem below_optional_iff : d.Below c (.optional a) (.optional b) ↔ d.Below c a b := by
  refine ⟨fun h => ?_, fun h => below_iff.mpr (.optional h)⟩
  cases below_iff.mp h with
  | refl => exact .refl a
  | optional h => exact h
  | toOptional hopt => exact (hopt a rfl).elim
  | byConstraint hbound => cases hbound

theorem Below.of_optional (h : d.Below c a (.optional b)) (hopt : ∀ x, a ≠ .optional x) :
    d.Below c a b := by
  cases below_iff.mp h with
  | errorLeft => exact below_iff.mpr (.errorLeft b)
  | refl | optional => exact (hopt _ rfl).elim
  | toOptional _ h => exact h
  | byConstraint _ _ _ hopt => exact (hopt b rfl).elim

/-- An optional of what is above a type is above it, whether the type is an optional or not. -/
theorem Below.toOptional {a b : Ty} (h : d.Below c a b) : d.Below c a (.optional b) := by
  by_cases hopt : ∃ x, a = .optional x
  · obtain ⟨x, rfl⟩ := hopt
    rw [below_optional_iff]
    by_cases hb : b = .error
    · exact hb ▸ below_iff.mpr (.errorRight x)
    · obtain ⟨y, rfl⟩ := (below_iff.mp h).exists_optional hb
      exact toOptional (below_optional_iff.mp h)
  · exact below_iff.mpr (.toOptional (fun x hx => hopt ⟨x, hx⟩) h)
termination_by a.size
decreasing_by
  rw [‹a = .optional x›, Ty.size]
  omega

theorem below_callable_iff {params params' : List Ty} {ret ret' : Ty} :
    d.Below c (.callable params ret) (.callable params' ret') ↔
      params.length = params'.length ∧ (∀ q ∈ params'.zip params, d.Below c q.1 q.2) ∧
        d.Below c ret ret' := by
  refine ⟨fun h => ?_, fun ⟨hlen, hparams, hret⟩ => below_iff.mpr (.callable hlen hparams hret)⟩
  cases below_iff.mp h with
  | refl =>
      refine ⟨rfl, fun q hq => ?_, .refl ret⟩
      obtain ⟨i, hi, rfl⟩ := List.getElem_of_mem hq
      rw [List.getElem_zip]
      exact .refl _
  | callable hlen hparams hret => exact ⟨hlen, hparams, hret⟩
  | byConstraint hbound => cases hbound

/-! ### Enough steps -/

section Related

variable {types : Finset Ty}

def related (d : Declarations) (c : GenericContext) (types : Finset Ty) (n : Nat) : Finset (Ty × Ty) :=
  (types ×ˢ types).filter fun q => d.isSubtypeWithin c n q.1 q.2

theorem mem_related {q : Ty × Ty} : q ∈ d.related c types n ↔
    (q.1 ∈ types ∧ q.2 ∈ types) ∧ d.isSubtypeWithin c n q.1 q.2 = true := by
  rw [related, Finset.mem_filter, Finset.mem_product]

theorem related_mono : Monotone (d.related c types) := fun n m hnm q hq => by
  rw [mem_related] at hq ⊢
  exact ⟨hq.1, isSubtypeWithin_mono hnm hq.2⟩

/-- Where one more step relates no new pairs of a closed set of types, no further step does. -/
theorem related_stable (hclosed : IsClosed c (· ∈ types))
    (h : d.related c types n = d.related c types (n + 1)) :
    d.related c types (n + 1) = d.related c types (n + 2) := by
  refine (related_mono (Nat.le_succ _)).antisymm fun q hq => ?_
  obtain ⟨⟨h₁, h₂⟩, hq⟩ := mem_related.mp hq
  refine mem_related.mpr ⟨⟨h₁, h₂⟩, isSubtypeWithin_succ_iff.mpr ?_⟩
  refine (isSubtypeWithin_succ_iff.mp hq).mono_of_isClosed hclosed h₁ h₂ fun x y hx hy hxy => ?_
  have hmem : (x, y) ∈ d.related c types (n + 1) := mem_related.mpr ⟨⟨hx, hy⟩, hxy⟩
  exact (mem_related.mp (h ▸ hmem)).2

/-- As many steps as there are pairs suffice. -/
theorem isSubtypeWithin_card_mul_card (hclosed : IsClosed c (· ∈ types)) (ha : a ∈ types)
    (hb : b ∈ types) (h : d.Below c a b) :
    d.isSubtypeWithin c (types.card * types.card) a b = true := by
  obtain ⟨n, hn⟩ := h
  let pairs := types.card * types.card
  have hle (k : Nat) : (d.related c types k).card ≤ pairs :=
    (Finset.card_filter_le _ _).trans_eq (Finset.card_product types types)
  have hstable (k : Nat) (hk : (d.related c types k).card = (d.related c types (k + 1)).card) :
      (d.related c types (k + 1)).card = (d.related c types (k + 2)).card := by
    have heq := Finset.eq_of_subset_of_card_le (related_mono (Nat.le_succ k)) hk.ge
    rw [related_stable hclosed heq]
  have hcard := Nat.stabilises_of_monotone (f := fun k => (d.related c types k).card)
    (fun _ _ hkl => Finset.card_le_card (related_mono hkl)) hle hstable (Nat.le_max_right n pairs)
  have heq := Finset.eq_of_subset_of_card_le (related_mono (Nat.le_max_right n pairs)) hcard.le
  have hmem : (a, b) ∈ d.related c types (max n pairs) :=
    mem_related.mpr ⟨⟨ha, hb⟩, isSubtypeWithin_mono (Nat.le_max_left n pairs) hn⟩
  exact (mem_related.mp (heq ▸ hmem)).2

end Related

theorem isClosed_partsAll {ts : List Ty} (hsome : .something ∈ ts)
    (hlocal : ∀ t ∈ c.constraints, t ∈ ts) (howner : ∀ t ∈ c.ownerConstraints, t ∈ ts) :
    IsClosed c (· ∈ Ty.partsAll ts) where
  constraint {t bound} _ hbound := by
    refine Ty.mem_partsAll.mpr ⟨bound, ?_, Ty.mem_parts_self bound⟩
    rcases GenericContext.mem_of_constraint? hbound with rfl | hmem | hmem
    · exact hsome
    · exact hlocal bound hmem
    · exact howner bound hmem
  optional := Ty.mem_partsAll_trans (by simp [Ty.parts, Ty.mem_parts_self])
  typeValue := Ty.mem_partsAll_trans (by simp [Ty.parts, Ty.mem_parts_self])
  params h p hp := Ty.mem_partsAll_trans
    (by simp [Ty.parts, Ty.mem_partsAll.mpr ⟨p, hp, Ty.mem_parts_self p⟩]) h
  ret := Ty.mem_partsAll_trans (by simp [Ty.parts, Ty.mem_parts_self])

/-- The number of steps that a comparison is given suffices. -/
theorem isSubtypeErased_iff : d.isSubtypeErased c a b = true ↔ d.Below c a b := by
  refine ⟨fun h => ⟨_, h⟩, fun h => ?_⟩
  let ts := .something :: a :: b :: (c.constraints ++ c.ownerConstraints)
  have hclosed : IsClosed c (· ∈ (Ty.partsAll ts).toFinset) := by
    simp only [List.mem_toFinset]
    exact isClosed_partsAll (by simp [ts]) (fun t ht => by simp [ts, ht]) fun t ht => by simp [ts, ht]
  have hmem (t : Ty) (ht : t ∈ ts) : t ∈ (Ty.partsAll ts).toFinset :=
    List.mem_toFinset.mpr (Ty.mem_partsAll.mpr ⟨t, ht, Ty.mem_parts_self t⟩)
  have hcard : (Ty.partsAll ts).toFinset.card ≤
      1 + a.size + b.size + Ty.sizeAll c.constraints + Ty.sizeAll c.ownerConstraints :=
    calc (Ty.partsAll ts).toFinset.card ≤ (Ty.partsAll ts).length := List.toFinset_card_le _
      _ ≤ Ty.sizeAll ts := Ty.length_partsAll_le ts
      _ = 1 + a.size + b.size + Ty.sizeAll c.constraints + Ty.sizeAll c.ownerConstraints := by
          simp only [ts, Ty.sizeAll, Ty.sizeAll_append, Ty.size]
          omega
  refine isSubtypeWithin_mono (Nat.le_succ_of_le (Nat.mul_le_mul hcard hcard)) ?_
  exact isSubtypeWithin_card_mul_card hclosed (hmem a (by simp [ts])) (hmem b (by simp [ts])) h

theorem isSubtype_iff : d.isSubtype c a b = true ↔ d.Below c a.erased b.erased :=
  isSubtypeErased_iff

end Declarations

end Boxlang
