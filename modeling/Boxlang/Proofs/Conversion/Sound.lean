import Boxlang.Conversion.Between
import Boxlang.Proofs.Types.Representation

/-!
# Sound conversions

A conversion from a value of one type to one of another is well-formed if it starts
from the storage of the one and ends in that of the other, and, where it adapts a
callable, each of its entries is well-formed again: from a parameter of the caller
to that of the wrapped callable, and from the result of the wrapped callable to
that of the caller (`Conversion.WellFormed`).  It is sound if its code also leaves
a value of the LLVM type of the target, at every depth (`Conversion.IsSound`).

What holds of every single step from a type to one above it holds everywhere in such a
step (`between_of_widens`).  So the conversions that are computed from two types, one
below the other, are sound.
-/

namespace Boxlang

open Llvm (LType)

namespace Conversion

/--
`P` holds of the conversion and of all conversions inside its adapters, with the
types that each converts between, and `Q` of the types of the entries that convert
nothing.
-/
inductive Everywhere (P : Conversion → Ty → Ty → Prop) (Q : Ty → Ty → Prop) :
    Conversion → Ty → Ty → Prop where
  | step {op : Conversion} {source target : Ty} :
      (∀ s t args ret, op ≠ .adaptCallable s t args ret) → P op source target →
      Everywhere P Q op source target
  | adapt {source target : Ty} {params params' : List Ty} {r r' : Ty}
      {args : List (Option Conversion)} {ret : Option Conversion} :
      P (.adaptCallable source target args ret) source target →
      source.unboxed = .callable params r → target.unboxed = .callable params' r' →
      params'.length = params.length → args.length = params.length →
      (∀ e ∈ args.zip (params'.zip params), e.1 = none → Q e.2.1 e.2.2) →
      (∀ e ∈ args.zip (params'.zip params), ∀ op, e.1 = some op →
        Everywhere P Q op e.2.1 e.2.2) →
      (ret = none → Q r r') → (∀ op, ret = some op → Everywhere P Q op r r') →
      Everywhere P Q (.adaptCallable source target args ret) source target

namespace Everywhere

variable {P P' : Conversion → Ty → Ty → Prop} {Q Q' : Ty → Ty → Prop} {op : Conversion}
  {source target : Ty}

theorem self (h : Everywhere P Q op source target) : P op source target := by
  cases h with
  | step _ hp => exact hp
  | adapt hp _ _ _ _ _ _ _ _ => exact hp

theorem mono (h : Everywhere P Q op source target) (hP : ∀ op s t, P op s t → P' op s t)
    (hQ : ∀ a b, Q a b → Q' a b) : Everywhere P' Q' op source target := by
  induction h with
  | step hop hp => exact .step hop (hP _ _ _ hp)
  | adapt hp hs ht hparams hargs hnone _ hretNone _ ihargs ihret =>
      exact .adapt (hP _ _ _ hp) hs ht hparams hargs (fun e he h => hQ _ _ (hnone e he h)) ihargs
        (fun h => hQ _ _ (hretNone h)) ihret

end Everywhere

/-- A conversion from the storage of `source` to that of `target`, also inside adapters. -/
def WellFormed : Conversion → Ty → Ty → Prop :=
  Everywhere (fun op source target => op.consumes = source.storage ∧ op.produces = target.storage)
    fun a b => a.storage = b.storage

/-- The LLVM type of the value that the code of a conversion leaves. -/
def realizedType (d : Declarations) (op : Conversion) (source target : Ty) : LType :=
  match op with
  | .unbox t | .unboxOptional t => d.llvmType t
  | .wrapOptional => d.llvmType target
  | .unwrapOptional => d.llvmType (source.optionalInner?.getD source)
  | .box _ _ | .boxOptional _ | .rebox _ | .unwrapBoxOptional | .adaptCallable _ _ _ _ => .ptr

structure StepSound (d : Declarations) (op : Conversion) (source target : Ty) : Prop where
  consumes_eq : op.consumes = source.storage
  produces_eq : op.produces = target.storage
  realizedType_eq : op.realizedType d source target = d.llvmType target

/-- Values that need no conversion: they are held alike and have the same LLVM type. -/
structure Alike (d : Declarations) (a b : Ty) : Prop where
  storage_eq : a.storage = b.storage
  llvmType_eq : d.llvmType a = d.llvmType b

/-- A well-formed conversion whose code leaves values of the right LLVM types. -/
def IsSound (d : Declarations) : Conversion → Ty → Ty → Prop :=
  Everywhere (StepSound d) (Alike d)

theorem IsSound.wellFormed {d : Declarations} {op : Conversion} {source target : Ty}
    (h : op.IsSound d source target) : op.WellFormed source target :=
  h.mono (fun _ _ _ hs => ⟨hs.consumes_eq, hs.produces_eq⟩) fun _ _ hab => hab.storage_eq

end Conversion

open Conversion

variable {d : Declarations} {c : GenericContext}

/-! ### Parts of callables -/

structure CallableWidens (d : Declarations) (c : GenericContext) (params params' : List Ty)
    (ret ret' : Ty) : Prop where
  length_eq : params'.length = params.length
  params : ∀ q ∈ params'.zip params, d.Widens c q.1 q.2
  ret : d.Widens c ret ret'

theorem callableWidens_of_widens {a b ret ret' : Ty} {params params' : List Ty}
    (h : d.Widens c a b) (ha : a.unboxed = .callable params ret)
    (hb : b.unboxed = .callable params' ret') : CallableWidens d c params params' ret ret' := by
  rw [Declarations.widens_iff, ← Ty.erased_unboxed a, ← Ty.erased_unboxed b, ha, hb, Ty.erased,
    Ty.erased, Declarations.below_callable_iff, Ty.erasedAll_eq_map, Ty.erasedAll_eq_map,
    List.zip_map] at h
  obtain ⟨hlen, hparams, hret⟩ := h
  refine ⟨by simpa using hlen.symm, fun q hq => ?_, hret⟩
  exact hparams (q.1.erased, q.2.erased) (List.mem_map.mpr ⟨q, hq, rfl⟩)

/-! ### Adapters -/

theorem exists_callable_of_representationsDiffer {a b : Ty} (h : representationsDiffer a b = true)
    (ha : a.storage = .box) (hb : b.storage = .box) :
    ∃ params ret params' ret', a.unboxed = .callable params ret ∧
      b.unboxed = .callable params' ret' ∧ params.length = params'.length := by
  rw [representationsDiffer] at h
  split at h
  next params ret params' ret' hau hbu =>
    split at h
    next hlen => exact ⟨params, ret, params', ret', hau, hbu, hlen⟩
    next => simp [ha, hb] at h
  next => simp [ha, hb] at h

theorem conversionsBetween_eq_map (as bs : List Ty) :
    conversionsBetween as bs = (as.zip bs).map fun q => conversionBetween? q.1 q.2 := by
  induction as generalizing bs with
  | nil => simp [conversionsBetween]
  | cons a as ih =>
      cases bs with
      | nil => simp [conversionsBetween]
      | cons b bs => simp [conversionsBetween, ih]

theorem callableAdapter_eq {a b ret ret' : Ty} {params params' : List Ty}
    (ha : a.unboxed = .callable params ret) (hb : b.unboxed = .callable params' ret') :
    callableAdapter a b = .adaptCallable a b
      ((params'.zip params).map fun q => conversionBetween? q.1 q.2) (conversionBetween? ret ret') := by
  rw [callableAdapter]
  split
  next ps r ps' r' hps hps' =>
    obtain ⟨rfl, rfl⟩ : ps = params ∧ r = ret := by simpa [ha] using hps.symm
    obtain ⟨rfl, rfl⟩ : ps' = params' ∧ r' = ret' := by simpa [hb] using hps'.symm
    rw [conversionsBetween_eq_map]
  next hno => exact absurd hb (hno _ _ _ _ ha)

/-- What holds of the step computed from two types, and of two types that need none. -/
def Between (P : Conversion → Ty → Ty → Prop) (Q : Ty → Ty → Prop) (a b : Ty) : Prop :=
  (conversionBetween? a b = none → Q a b) ∧
    ∀ op, conversionBetween? a b = some op → Everywhere P Q op a b

variable {P : Conversion → Ty → Ty → Prop} {Q : Ty → Ty → Prop}

/-- What holds of the steps for its parameters and its result holds everywhere in an adapter. -/
theorem everywhere_callableAdapter {a b ret ret' : Ty} {params params' : List Ty}
    (ha : a.unboxed = .callable params ret) (hb : b.unboxed = .callable params' ret')
    (hlen : params'.length = params.length) (hself : P (callableAdapter a b) a b)
    (hparams : ∀ q ∈ params'.zip params, Between P Q q.1 q.2) (hret : Between P Q ret ret') :
    Everywhere P Q (callableAdapter a b) a b := by
  have hentry (e : Option Conversion × Ty × Ty)
      (he : e ∈ ((params'.zip params).map fun q => conversionBetween? q.1 q.2).zip
        (params'.zip params)) :
      e.2 ∈ params'.zip params ∧ e.1 = conversionBetween? e.2.1 e.2.2 := by
    generalize params'.zip params = l at he ⊢
    have hzip : (l.map fun q => conversionBetween? q.1 q.2).zip l =
        l.map fun q => (conversionBetween? q.1 q.2, q) := by
      simpa using List.zip_map' (l := l) (f := fun q => conversionBetween? q.1 q.2) (g := id)
    obtain ⟨q, hq, rfl⟩ := List.mem_map.mp (hzip ▸ he)
    exact ⟨hq, rfl⟩
  rw [callableAdapter_eq ha hb] at hself ⊢
  refine .adapt hself ha hb hlen (by simp [hlen]) ?_ ?_ hret.1 hret.2
  · intro e he hnone
    obtain ⟨hq, heq⟩ := hentry e he
    exact (hparams e.2 hq).1 (heq ▸ hnone)
  · intro e he op hop
    obtain ⟨hq, heq⟩ := hentry e he
    exact (hparams e.2 hq).2 op (heq ▸ hop)

theorem of_conversionBetween?_eq_adaptCallable {a b source target : Ty}
    {args : List (Option Conversion)} {ret : Option Conversion}
    (h : conversionBetween? a b = some (.adaptCallable source target args ret)) :
    a.storage = .box ∧ b.storage = .box ∧ representationsDiffer a b = true ∧
      callableAdapter a b = .adaptCallable source target args ret := by
  rw [conversionBetween?] at h
  cases ha : a.storage <;> cases hb : b.storage <;> simp only [ha, hb] at h <;> try cases h
  split at h
  next => split at h <;> cases h
  next =>
    split at h
    next hdiffer => exact ⟨rfl, rfl, hdiffer, Option.some.inj h⟩
    next => cases h
  next => cases h

/--
Of a step from a type to one above it holds everywhere what holds of each such step by
itself, where the types do not mention the error type.
-/
theorem between_of_widens
    (hnone : ∀ a b, d.Widens c a b → a.mentionsError = false → b.mentionsError = false →
      conversionBetween? a b = none → Q a b)
    (hsome : ∀ a b op, d.Widens c a b → a.mentionsError = false → b.mentionsError = false →
      conversionBetween? a b = some op → P op a b)
    {a b : Ty} (h : d.Widens c a b) (hae : a.mentionsError = false) (hbe : b.mentionsError = false) :
    Between P Q a b := by
  induction hn : a.size + b.size using Nat.strongRecOn generalizing a b with
  | ind n ih =>
      refine ⟨hnone a b h hae hbe, fun op hop => ?_⟩
      have hself := hsome a b op h hae hbe hop
      by_cases hadapter : ∃ s t args ret, op = .adaptCallable s t args ret
      · obtain ⟨source, target, args, ret, rfl⟩ := hadapter
        obtain ⟨ha, hb, hdiffer, heq⟩ := of_conversionBetween?_eq_adaptCallable hop
        obtain ⟨params, r, params', r', hau, hbu, -⟩ :=
          exists_callable_of_representationsDiffer hdiffer ha hb
        obtain ⟨hlen, hparams, hret⟩ := callableWidens_of_widens h hau hbu
        have hsize := Ty.size_unboxed_le a
        have hsize' := Ty.size_unboxed_le b
        rw [hau] at hsize
        rw [hbu] at hsize'
        simp only [Ty.size] at hsize hsize'
        obtain ⟨hpe, hre⟩ := Ty.mentionsError_of_unboxed_callable hae hau
        obtain ⟨hqe, hse⟩ := Ty.mentionsError_of_unboxed_callable hbe hbu
        rw [← heq] at hself ⊢
        refine everywhere_callableAdapter hau hbu hlen hself (fun q hq => ?_)
          (ih _ (by omega) hret hre hse rfl)
        obtain ⟨hq1, hq2⟩ := List.of_mem_zip hq
        have h1 := Ty.size_le_of_mem hq1
        have h2 := Ty.size_le_of_mem hq2
        exact ih _ (by omega) (hparams q hq) (hqe _ hq1) (hpe _ hq2) rfl
      · exact .step (fun s t args ret heq => hadapter ⟨s, t, args, ret, heq⟩) hself

theorem isSound_step {op : Conversion} {a b : Ty} (hop : ∀ s t args ret, op ≠ .adaptCallable s t args ret)
    (hc : op.consumes = a.storage) (hp : op.produces = b.storage)
    (hr : op.realizedType d a b = d.llvmType b) : op.IsSound d a b :=
  .step hop ⟨hc, hp, hr⟩

theorem isSound_unwrapOptional {t v : Ty} (h : t.optionalInner? = some v)
    (hs : t.storage = .simpleOptional) : unwrapOptional.IsSound d t v :=
  isSound_step (by simp) hs.symm (Ty.storage_of_optionalInner? h hs).symm
    (by simp [realizedType, h])

theorem isSound_unwrapBoxOptional {t v : Ty} (hs : t.storage = .box)
    (hv : v.mentionsError = false) : unwrapBoxOptional.IsSound d t (v.heldIn .box) := by
  have hbox := Ty.storage_heldIn_box (Ty.ne_error_of_mentionsError hv)
  exact isSound_step (by simp) hs.symm hbox.symm (Declarations.llvmType_of_box d hbox).symm

theorem not_widens_optional {a b : Ty} (h : d.Widens c (.optional a) b) (hb : b.storage = .simple)
    (hbe : b.mentionsError = false) : False := by
  have hbe' : b.erased ≠ .error := Ty.ne_error_of_mentionsError (by simpa using hbe)
  obtain ⟨y, hy⟩ := (Declarations.below_iff.mp h).exists_optional hbe'
  have hs := Ty.storage_erased_of_simple hb
  rw [hy] at hs
  exact Ty.storage_optional_ne_simple y hs

/-! ### Steps that are computed from two types -/

section Steps

variable {a b : Ty} (h : d.Widens c a b) (hae : a.mentionsError = false)
  (hbe : b.mentionsError = false)
include h hae hbe

omit h hae hbe in
/-- Where nothing is converted, the types are held alike. -/
theorem storage_eq_of_conversionBetween?_eq_none (hnone : conversionBetween? a b = none) :
    a.storage = b.storage := by
  rw [conversionBetween?] at hnone
  cases ha : a.storage <;> cases hb : b.storage <;> simp [ha, hb] at hnone <;> rfl

theorem alike_of_conversionBetween?_eq_none (hnone : conversionBetween? a b = none) :
    Alike d a b :=
  have hs := storage_eq_of_conversionBetween?_eq_none hnone
  ⟨hs, Declarations.llvmType_eq_of_widens h hae hbe hs⟩

omit hae in
/-- What one step is, by how the types are held; a value is not taken out of an optional. -/
theorem conversionBetween?_cases {op : Conversion} (hop : conversionBetween? a b = some op) :
    (a.storage = .simple ∧ b.storage = .simpleOptional ∧ op = .wrapOptional) ∨
    (a.storage = .simple ∧ b.storage = .box ∧ op = .box a b.protocolName?) ∨
    (a.storage = .simpleOptional ∧ b.storage = .box ∧
      op = .boxOptional (a.optionalInner?.getD a)) ∨
    (a.storage = .box ∧ b.storage = .simple ∧ op = .unbox b) ∨
    (a.storage = .box ∧ b.storage = .simpleOptional ∧ op = .unboxOptional b) ∨
    (a.storage = .box ∧ b.storage = .box ∧
      ((∃ name, op = .rebox name) ∨ ∃ args ret, op = .adaptCallable a b args ret)) := by
  have hub (hb : b.storage ≠ .box) : b.unboxed = b := Ty.unboxed_of_storage_ne_box hb
  have hcases := hop
  rw [conversionBetween?] at hcases
  cases ha : a.storage <;> cases hb : b.storage <;> simp only [ha, hb] at hcases
  case simple.simple => cases hcases
  case simpleOptional.simpleOptional => cases hcases
  case simpleOptional.simple =>
      obtain ⟨x, rfl, -⟩ := Ty.exists_optional_of_storage ha
      exact (not_widens_optional h hb hbe).elim
  case box.simple => simpa [hub (by simp [hb])] using hcases.symm
  case box.simpleOptional => simpa [hub (by simp [hb])] using hcases.symm
  case box.box =>
      split at hcases
      next =>
        split at hcases
        next => cases hcases
        next => simpa using .inl ⟨_, (Option.some.inj hcases).symm⟩
      next =>
        split at hcases
        next hdiffer =>
          obtain ⟨params, r, params', r', hau, hbu, -⟩ :=
            exists_callable_of_representationsDiffer hdiffer ha hb
          have heq := (Option.some.inj hcases).symm.trans (callableAdapter_eq hau hbu)
          simpa using .inr ⟨_, _, heq⟩
        next => cases hcases
      next => cases hcases
  all_goals simpa using hcases.symm

omit hae in
theorem stepSound_of_conversionBetween? {op : Conversion} (hop : conversionBetween? a b = some op) :
    StepSound d op a b := by
  have hbox (hb : b.storage = .box) : .ptr = d.llvmType b := (Declarations.llvmType_of_box d hb).symm
  obtain ⟨ha, hb, rfl⟩ | ⟨ha, hb, rfl⟩ | ⟨ha, hb, rfl⟩ | ⟨ha, hb, rfl⟩ | ⟨ha, hb, rfl⟩ |
    ⟨ha, hb, ⟨name, rfl⟩ | ⟨args, ret, rfl⟩⟩ := conversionBetween?_cases h hbe hop
  · exact ⟨ha.symm, hb.symm, rfl⟩
  · exact ⟨ha.symm, hb.symm, hbox hb⟩
  · exact ⟨ha.symm, hb.symm, hbox hb⟩
  · exact ⟨ha.symm, hb.symm, rfl⟩
  · exact ⟨ha.symm, hb.symm, rfl⟩
  · exact ⟨ha.symm, hb.symm, hbox hb⟩
  · exact ⟨ha.symm, hb.symm, hbox hb⟩

/-- A step from a type to one above it is sound, where neither mentions the error type. -/
theorem soundBetween_of_widens : Between (StepSound d) (Alike d) a b :=
  between_of_widens (fun _ _ => alike_of_conversionBetween?_eq_none)
    (fun _ _ _ h _ hbe => stepSound_of_conversionBetween? h hbe) h hae hbe

end Steps

end Boxlang
