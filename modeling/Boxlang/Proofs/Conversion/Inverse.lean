import Mathlib.Data.List.Forall2
import Mathlib.Data.Option.Basic
import Boxlang.Proofs.Conversion.Differ
import Boxlang.Proofs.Types.Walk

/-!
# Converting there and back

Two types that agree up to storage marks say the same of a value and may still hold it
differently.  The step from the one to the other then has an inverse, which is the step
back (`Conversion.inverse_of_erased_eq`): a value that is put into a box is taken out of
it as the same type, and an adapted callable is adapted back, position by position.
-/

namespace Boxlang

namespace Conversion

/--
The second conversion takes back what the first one does.  An adapter is taken back by
one in the other direction that takes back each of its entries, and converts nothing
where it converts nothing.
-/
inductive Inverse : Conversion → Conversion → Prop where
  | box (v : Ty) : Inverse (.box v none) (.unbox v)
  | unbox (v : Ty) : Inverse (.unbox v) (.box v none)
  | boxOptional (v : Ty) : Inverse (.boxOptional v) (.unboxOptional (.optional v))
  | unboxOptional (v : Ty) : Inverse (.unboxOptional (.optional v)) (.boxOptional v)
  | adaptCallable {source target : Ty} {args args' : List (Option Conversion)}
      {ret ret' : Option Conversion} :
      List.Forall₂ (Option.Rel Inverse) args args' → Option.Rel Inverse ret ret' →
      Inverse (.adaptCallable source target args ret) (.adaptCallable target source args' ret')

end Conversion

open Conversion

/-! ### Types that agree up to marks -/

namespace Ty

variable {a b : Ty}

/-- A type without a mark is a protocol if it is one without marks inside. -/
theorem eq_protocol_of_erased {name : String} (ha : ∀ u, a ≠ .boxed u) (h : a.erased = .protocol name) :
    a = .protocol name := by
  cases a with
  | boxed u => exact (ha u rfl).elim
  | protocol => exact h
  | _ => cases h

/-- A type without a mark is a callable if it is one without marks inside. -/
theorem exists_callable_of_erased {params : List Ty} {ret : Ty} (ha : ∀ u, a ≠ .boxed u)
    (h : a.erased = .callable params ret) :
    ∃ ps r, a = .callable ps r ∧ ps.map erased = params ∧ r.erased = ret := by
  cases a with
  | boxed u => exact (ha u rfl).elim
  | callable ps r =>
      rw [erased, erasedAll_eq_map] at h
      obtain ⟨hps, hr⟩ := Ty.callable.inj h
      exact ⟨ps, r, rfl, hps, hr⟩
  | _ => cases h

/-- Types that agree up to marks are held alike if neither is held in a box. -/
theorem storage_eq_of_erased_eq (h : a.erased = b.erased) (ha : a.storage ≠ .box)
    (hb : b.storage ≠ .box) : a.storage = b.storage := by
  rw [← storage_erased_of_ne_box ha, ← storage_erased_of_ne_box hb, h]

theorem protocolName?_of_erased_eq (h : a.erased = b.erased) (ha : a.storage ≠ .box) :
    b.protocolName? = none := by
  unfold protocolName?
  split
  next name hu =>
    have herased : a.erased = .protocol name := by
      rw [h, ← erased_unboxed b, hu]
      rfl
    have hs := storage_erased_of_ne_box ha
    rw [herased] at hs
    exact (ha hs.symm).elim
  next => rfl

end Ty

/-! ### Steps there and back -/

variable {a b : Ty}

theorem inverse_of_simple (h : a.erased = b.erased) (has : a.storage = .simple)
    (hbs : b.storage = .box) :
    ∃ v, conversionBetween? a b = some (.box v none) ∧ conversionBetween? b a = some (.unbox v) := by
  have hne : a.storage ≠ .box := by simp [has]
  have hno := Ty.protocolName?_of_erased_eq h hne
  refine ⟨a, ?_, ?_⟩
  · rw [conversionBetween?]
    simp [has, hbs, hno]
  · rw [conversionBetween?]
    simp [has, hbs, Ty.unboxed_of_storage_ne_box hne]

theorem inverse_of_simpleOptional (has : a.storage = .simpleOptional) (hbs : b.storage = .box) :
    ∃ v, conversionBetween? a b = some (.boxOptional v) ∧
      conversionBetween? b a = some (.unboxOptional (.optional v)) := by
  obtain ⟨v, rfl, -⟩ := Ty.exists_optional_of_storage has
  refine ⟨v, ?_, ?_⟩
  · rw [conversionBetween?]
    simp [has, hbs, Ty.optionalInner?, Ty.unboxed]
  · rw [conversionBetween?]
    simp [has, hbs, Ty.unboxed]

theorem forall₂_conversionsBetween {as bs : List Ty} (h : as.map Ty.erased = bs.map Ty.erased)
    (hinv : ∀ a ∈ as, ∀ b ∈ bs, a.erased = b.erased →
      Option.Rel Inverse (conversionBetween? a b) (conversionBetween? b a)) :
    List.Forall₂ (Option.Rel Inverse) (conversionsBetween as bs) (conversionsBetween bs as) := by
  induction as generalizing bs with
  | nil =>
      obtain rfl : bs = [] := by simpa using h.symm
      simp [conversionsBetween]
  | cons a as ih =>
      cases bs with
      | nil => simp at h
      | cons b bs =>
          obtain ⟨hab, htail⟩ := List.cons.inj h
          rw [conversionsBetween, conversionsBetween]
          apply List.Forall₂.cons
          · exact hinv a List.mem_cons_self b List.mem_cons_self hab
          · apply ih htail
            intro a' ha' b' hb'
            exact hinv a' (List.mem_cons_of_mem a ha') b' (List.mem_cons_of_mem b hb')

/-- Boxes of types that agree up to marks need no step, or are callables that are adapted both ways. -/
theorem inverse_of_boxes (ha : ∀ u, a.unboxed ≠ .boxed u) (hb : ∀ u, b.unboxed ≠ .boxed u)
    (h : a.erased = b.erased) (has : a.storage = .box) (hbs : b.storage = .box)
    (hparts : ∀ params ret params' ret', a.unboxed = .callable params ret →
      b.unboxed = .callable params' ret' → params'.map Ty.erased = params.map Ty.erased →
      ret.erased = ret'.erased →
      List.Forall₂ (Option.Rel Inverse) (conversionsBetween params' params) (conversionsBetween params params') ∧
        Option.Rel Inverse (conversionBetween? ret ret') (conversionBetween? ret' ret)) :
    Option.Rel Inverse (conversionBetween? a b) (conversionBetween? b a) := by
  have hu : a.unboxed.erased = b.unboxed.erased := by rw [Ty.erased_unboxed, Ty.erased_unboxed, h]
  by_cases hprotocol : ∃ name, b.unboxed = .protocol name
  · obtain ⟨name, hbu⟩ := hprotocol
    have hau : a.unboxed = .protocol name := Ty.eq_protocol_of_erased ha (by rw [hu, hbu]; rfl)
    rw [conversionBetween?_protocol has hbs hbu, conversionBetween?_protocol hbs has hau, hau, hbu,
      if_pos rfl]
    exact .none
  by_cases hcallable : b.isCallable = true
  · obtain ⟨params', ret', hbu⟩ := Ty.exists_callable_of_isCallable hcallable
    obtain ⟨params, ret, hau, hparams, hret⟩ :=
      Ty.exists_callable_of_erased ha (by rw [hu, hbu, Ty.erased, Ty.erasedAll_eq_map])
    rw [conversionBetween?_callable has hbs hbu, conversionBetween?_callable hbs has hau,
      representationsDiffer_comm b a, callableAdapter_eq hau hbu, callableAdapter_eq hbu hau,
      ← conversionsBetween_eq_map, ← conversionsBetween_eq_map]
    split
    next =>
      obtain ⟨hargs, hresult⟩ := hparts params ret params' ret' hau hbu hparams.symm hret
      exact .some (.adaptCallable hargs hresult)
    next => exact .none
  · have hbp (name : String) (hbu : b.unboxed = .protocol name) : False := hprotocol ⟨name, hbu⟩
    have hap (name : String) (hau : a.unboxed = .protocol name) : False :=
      hbp name (Ty.eq_protocol_of_erased hb (by rw [← hu, hau]; rfl))
    have hac : a.isCallable = false := by
      rw [← Bool.not_eq_true]
      intro hc
      obtain ⟨params, ret, hau⟩ := Ty.exists_callable_of_isCallable hc
      obtain ⟨params', ret', hbu, -⟩ := Ty.exists_callable_of_erased hb (by rw [← hu, hau, Ty.erased])
      exact hcallable (by rw [Ty.isCallable, hbu])
    rw [conversionBetween?_of_box has hbs hbp (by simpa using hcallable),
      conversionBetween?_of_box hbs has hap hac]
    exact .none

/--
The steps between two types that agree up to storage marks, where no mark stands
directly within another: either none is needed in either direction, or each of the two
takes back what the other one does.
-/
theorem Conversion.inverse_of_erased_eq (ha : a.Every Ty.IsMarkedOnce) (hb : b.Every Ty.IsMarkedOnce)
    (h : a.erased = b.erased) :
    Option.Rel Inverse (conversionBetween? a b) (conversionBetween? b a) := by
  induction hn : a.size + b.size using Nat.strongRecOn generalizing a b with
  | ind n ih =>
      have halike (ha : a.storage ≠ .box) (hb : b.storage ≠ .box) := Ty.storage_eq_of_erased_eq h ha hb
      cases has : a.storage <;> cases hbs : b.storage
      case simple.simpleOptional | simpleOptional.simple => simp [has, hbs] at halike
      case simple.simple | simpleOptional.simpleOptional =>
          rw [conversionBetween?, conversionBetween?]
          simp only [has, hbs]
          exact .none
      case simple.box =>
          obtain ⟨v, hthere, hback⟩ := inverse_of_simple h has hbs
          rw [hthere, hback]
          exact .some (.box v)
      case box.simple =>
          obtain ⟨v, hback, hthere⟩ := inverse_of_simple h.symm hbs has
          rw [hthere, hback]
          exact .some (.unbox v)
      case simpleOptional.box =>
          obtain ⟨v, hthere, hback⟩ := inverse_of_simpleOptional has hbs
          rw [hthere, hback]
          exact .some (.boxOptional v)
      case box.simpleOptional =>
          obtain ⟨v, hback, hthere⟩ := inverse_of_simpleOptional hbs has
          rw [hthere, hback]
          exact .some (.unboxOptional v)
      case box.box =>
          apply inverse_of_boxes (fun _ => Ty.not_boxed_of_isMarkedOnce ha.self)
            (fun _ => Ty.not_boxed_of_isMarkedOnce hb.self) h has hbs
          intro params ret params' ret' hau hbu hparams hret
          obtain ⟨-, hparamsMarked, hretMarked⟩ := hau ▸ ha.unboxed
          obtain ⟨-, hparamsMarked', hretMarked'⟩ := hbu ▸ hb.unboxed
          rw [Ty.everyAll_iff] at hparamsMarked hparamsMarked'
          have hsize := Ty.size_unboxed_le a
          have hsize' := Ty.size_unboxed_le b
          rw [hau, Ty.size] at hsize
          rw [hbu, Ty.size] at hsize'
          constructor
          · apply forall₂_conversionsBetween hparams
            intro p' hp' p hp herased
            have := Ty.size_le_of_mem hp
            have := Ty.size_le_of_mem hp'
            exact ih _ (by omega) (hparamsMarked' p' hp') (hparamsMarked p hp) herased rfl
          · exact ih _ (by omega) hretMarked hretMarked' hret rfl

section Examples

def takesSimple : Ty :=
  .callable [.callable [.int] .bool, .boxed (.optional .int)] .string

def takesBoxed : Ty :=
  .callable [.callable [.boxed .int] .bool, .optional .int] (.boxed .string)

/-- An adapter with an adapter inside is taken back by another one. -/
theorem inverse_takesSimple_takesBoxed :
    takesSimple.Every Ty.IsMarkedOnce ∧ takesBoxed.Every Ty.IsMarkedOnce ∧
      takesSimple.erased = takesBoxed.erased ∧ (conversionBetween? takesSimple takesBoxed).isSome ∧
      Option.Rel Inverse (conversionBetween? takesSimple takesBoxed)
        (conversionBetween? takesBoxed takesSimple) := by
  have ha : takesSimple.Every Ty.IsMarkedOnce := by
    simp [takesSimple, Ty.string, Ty.Every, Ty.EveryAll, Ty.IsMarkedOnce]
  have hb : takesBoxed.Every Ty.IsMarkedOnce := by
    simp [takesBoxed, Ty.string, Ty.Every, Ty.EveryAll, Ty.IsMarkedOnce]
  have herased : takesSimple.erased = takesBoxed.erased := by decide
  exact ⟨ha, hb, herased, by decide +kernel, inverse_of_erased_eq ha hb herased⟩

end Examples

end Boxlang
