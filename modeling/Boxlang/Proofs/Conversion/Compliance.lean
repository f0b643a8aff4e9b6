import Boxlang.Analysis.Compliance
import Boxlang.Proofs.Conversion.Differ

/-!
# Compliance is sound

What is decided for a value below the type that is expected: where a conversion is
inserted, it is sound, and where the storage is that of the expected type, the
value ends up with the LLVM type of the expected type.
-/

namespace Boxlang

open Conversion

variable {d : Declarations} {c : GenericContext} {e : Expectation} {actual : Ty}

/-- What holds of a value of type `t` that is to meet the expectation. -/
structure Expectation.MetBy (d : Declarations) (e : Expectation) (t : Ty) : Prop where
  mentionsError_eq : t.mentionsError = false
  alike : e.policy = .declared → Alike d t e.type

def Compliance.type? : Compliance → Option Ty
  | .asIs t | .convert _ t => some t
  | .refused => none

/-- What a sound decision for a value analysed as `actual` amounts to. -/
def Compliance.IsSound (d : Declarations) (e : Expectation) (actual : Ty) : Compliance → Prop
  | .asIs t => t = actual ∧ e.MetBy d t
  | .convert op t => op.IsSound d actual t ∧ e.MetBy d t
  | .refused => True

section Steps

variable (hw : d.Widens c actual e.type) (ha : actual.mentionsError = false)
  (he : e.type.mentionsError = false)
include hw ha he

/-- A value in the storage that is asked for meets the expectation. -/
theorem metBy_self (hs : actual.storage = e.target actual) : e.MetBy d actual := by
  refine ⟨ha, fun hp => ?_⟩
  have htarget : actual.storage = e.type.storage := by simpa [Expectation.target, hp] using hs
  exact ⟨htarget, Declarations.llvmType_eq_of_widens hw ha he htarget⟩

omit hw ha he in
theorem metBy_box {t : Ty} (ht : t.mentionsError = false) (hs : t.storage = .box)
    (htarget : e.target actual = .box) : e.MetBy d t := by
  refine ⟨ht, fun hp => ?_⟩
  have hbox : e.type.storage = .box := by simpa [Expectation.target, hp] using htarget
  exact ⟨hs.trans hbox.symm,
    by rw [Declarations.llvmType_of_box d hs, Declarations.llvmType_of_box d hbox]⟩

theorem isSound_boxToBox (hs : actual.storage = .box) (ht : e.target actual = .box) :
    (e.boxToBox actual).IsSound d e actual := by
  unfold Expectation.boxToBox
  split
  · exact ⟨rfl, metBy_self hw ha he (hs.trans ht.symm)⟩
  next name _ =>
    split
    · exact ⟨rfl, metBy_self hw ha he (hs.trans ht.symm)⟩
    · exact ⟨isSound_step (by simp) hs.symm rfl rfl, metBy_box rfl rfl ht⟩

theorem isSound_boxToSimple (hs : actual.storage = .box) (ht : e.target actual = .simple) :
    (e.boxToSimple actual).IsSound d e actual := by
  unfold Expectation.boxToSimple
  split
  next hu =>
    have hue : actual.unboxed.mentionsError = false := by simpa using ha
    refine ⟨isSound_step (by simp) hs.symm hu.symm rfl, hue, fun hp => ?_⟩
    have hsimple : e.type.storage = .simple := by simpa [Expectation.target, hp] using ht
    have hwu : d.Widens c actual.unboxed e.type := by
      obtain ⟨n, hn⟩ := hw
      exact ⟨n, by rwa [Ty.erased_unboxed]⟩
    exact ⟨hu.trans hsimple.symm,
      Declarations.llvmType_eq_of_widens hwu hue he (hu.trans hsimple.symm)⟩
  · trivial

omit hw ha in
theorem alike_optional {t u : Ty} (hu : e.type = .optional u) (hus : u.storage = .simple)
    (hts : t.storage = .simple) (hte : t.mentionsError = false)
    (hwt : d.Widens c t u) :
    Alike d (.optional t) e.type := by
  have hue : u.mentionsError = false := by simpa [hu, Ty.mentionsError] using he
  have hstorage : (Ty.optional t).storage = (Ty.optional u).storage := by
    rw [Ty.storage_optional_of_simple hts, Ty.storage_optional_of_simple hus]
  rw [hu]
  refine ⟨hstorage, Declarations.llvmType_eq_of_widens (c := c) ?_
    (by simpa [Ty.mentionsError] using hte) (by simpa [Ty.mentionsError] using hue) hstorage⟩
  exact Declarations.widens_iff.mpr (Declarations.below_optional_iff.mpr hwt)

theorem isSound_boxToSimpleOptional (hs : actual.storage = .box)
    (ht : e.target actual = .simpleOptional) :
    (e.boxToSimpleOptional actual).IsSound d e actual := by
  have hae : actual.erased.mentionsError = false := by simpa using ha
  have hexpected (hp : e.policy = .declared) : ∃ u, e.type = .optional u ∧ u.storage = .simple :=
    Ty.exists_optional_of_storage (by simpa [Expectation.target, hp] using ht)
  rw [Declarations.widens_iff] at hw
  unfold Expectation.boxToSimpleOptional
  split
  next inner hinner =>
    split
    next hsimple =>
      have hie : inner.mentionsError = false := by simpa [hinner, Ty.mentionsError] using hae
      have hidem : inner.erased = inner := by
        have := Ty.erased_erased actual
        simpa [hinner, Ty.erased] using this
      have hproduces := Ty.storage_optional_of_simple hsimple
      refine ⟨isSound_step (by simp) hs.symm hproduces.symm rfl,
        by simpa [Ty.mentionsError] using hie, fun hp => ?_⟩
      obtain ⟨u, hu, hus⟩ := hexpected hp
      rw [hinner, hu, Ty.erased, Declarations.below_optional_iff] at hw
      refine alike_optional (c := c) he hu hus hsimple hie ?_
      rwa [Declarations.widens_iff, hidem]
    next => trivial
  next hno =>
    split
    next hsimple =>
      have hidem : actual.erased.erased = actual.erased := Ty.erased_erased actual
      have hproduces := Ty.storage_optional_of_simple hsimple
      refine ⟨isSound_step (by simp) hs.symm hproduces.symm rfl,
        by simpa [Ty.mentionsError] using hae, fun hp => ?_⟩
      obtain ⟨u, hu, hus⟩ := hexpected hp
      rw [hu, Ty.erased] at hw
      refine alike_optional (c := c) he hu hus hsimple hae ?_
      rw [Declarations.widens_iff, hidem]
      exact hw.of_optional hno
    next => trivial

omit hw he in
theorem isSound_simpleToBox (hs : actual.storage = .simple) (ht : e.target actual = .box) :
    (e.simpleToBox actual).IsSound d e actual := by
  unfold Expectation.simpleToBox
  split
  · exact ⟨isSound_step (by simp) hs.symm rfl rfl, metBy_box rfl rfl ht⟩
  · have hbox := Ty.storage_heldIn_box (Ty.ne_error_of_mentionsError ha)
    refine ⟨isSound_step (by simp) hs.symm hbox.symm ?_,
      metBy_box (Ty.mentionsError_heldIn .box ha) hbox ht⟩
    rw [realizedType, Declarations.llvmType_of_box d hbox]

theorem isSound_storageCompliance : (e.storageCompliance actual).IsSound d e actual := by
  unfold Expectation.storageCompliance
  cases hs : actual.storage <;> cases ht : e.target actual
  case box.box => exact isSound_boxToBox hw ha he hs ht
  case box.simple => exact isSound_boxToSimple hw ha he hs ht
  case box.simpleOptional => exact isSound_boxToSimpleOptional hw ha he hs ht
  case simple.box => exact isSound_simpleToBox ha hs ht
  case simpleOptional.box =>
      have hbox := Ty.storage_heldIn_box (Ty.ne_error_of_mentionsError ha)
      refine ⟨isSound_step (by simp) hs.symm hbox.symm ?_,
        metBy_box (Ty.mentionsError_heldIn .box ha) hbox ht⟩
      rw [realizedType, Declarations.llvmType_of_box d hbox]
  case simple.simpleOptional =>
      have hproduces := Ty.storage_optional_of_simple hs
      refine ⟨isSound_step (by simp) hs.symm hproduces.symm rfl,
        by simpa [Ty.mentionsError] using ha, fun hp => ?_⟩
      obtain ⟨u, hu, hus⟩ := Ty.exists_optional_of_storage (t := e.type)
        (by simpa [Expectation.target, hp] using ht)
      rw [Declarations.widens_iff, hu, Ty.erased] at hw
      exact alike_optional (c := c) he hu hus hs ha
        (hw.of_optional (Ty.erased_ne_optional_of_simple hs))
  case simpleOptional.simple => trivial
  case simple.simple => exact ⟨rfl, metBy_self hw ha he (hs.trans ht.symm)⟩
  case simpleOptional.simpleOptional => exact ⟨rfl, metBy_self hw ha he (hs.trans ht.symm)⟩

omit hw ha he in
theorem conversionBetween?_of_needsAdapter (h : e.needsAdapter actual = true) :
    conversionBetween? actual e.type = some (callableAdapter actual e.type) := by
  have hboxes {t : Ty} (ht : t.isCallable = true) :
      t.storage = .box ∧ ∃ params ret, t.unboxed = .callable params ret := by
    unfold Ty.isCallable at ht
    split at ht
    next hu => exact ⟨Ty.storage_of_unboxed_callable hu, _, _, hu⟩
    next => cases ht
  obtain ⟨⟨hac, hec⟩, hdiffer⟩ : (actual.isCallable = true ∧ e.type.isCallable = true) ∧
      representationsDiffer actual e.type = true := by
    simpa [Expectation.needsAdapter] using h
  obtain ⟨hbox, params, ret, hu⟩ := hboxes hec
  rw [conversionBetween?]
  simp [(hboxes hac).1, hbox, hu, hdiffer]

theorem isSound_adapted (h : e.needsAdapter actual = true) :
    (e.adapted actual).IsSound d e actual :=
  ⟨(soundBetween_of_widens hw ha he).2 _ (conversionBetween?_of_needsAdapter h), he,
    fun _ => ⟨rfl, rfl⟩⟩

/-- What is decided for a value below the expected type is sound. -/
theorem isSound_compliance : (e.compliance actual).IsSound d e actual := by
  unfold Expectation.compliance
  rw [Ty.isError_eq_false ha, Ty.isError_eq_false he]
  simp only [Bool.or_self, Bool.false_eq_true, if_false]
  split
  next hneeds => exact isSound_adapted hw ha he hneeds
  next => exact isSound_storageCompliance hw ha he

end Steps

theorem type?_compliance_preferSimple {t : Ty} (hpolicy : e.policy = .preferSimple)
    (htype : e.type = actual.erased) (ha : actual.mentionsError = false)
    (h : (e.compliance actual).type? = some t) :
    t.erased = actual.erased ∧ t.storage = actual.erased.storage := by
  have hself : actual.erased.erased = actual.erased := Ty.erased_erased actual
  have hae : e.type.mentionsError = false := by simpa [htype] using ha
  have htarget : e.target actual = actual.erased.storage := by rw [Expectation.target, hpolicy]
  unfold Expectation.compliance at h
  rw [Ty.isError_eq_false ha, Ty.isError_eq_false hae] at h
  simp only [Bool.or_self, Bool.false_eq_true, if_false] at h
  split at h
  next =>
    obtain rfl := Option.some.inj h
    rw [htype]
    exact ⟨hself, rfl⟩
  next =>
    unfold Expectation.storageCompliance at h
    cases hs : actual.storage with
    | simple | simpleOptional => 
        have hkeep := storage_erased_of_ne_box (t := actual) (by simp [hs])
        simp only [hs, htarget, hkeep] at h
        obtain rfl := Option.some.inj h
        exact ⟨rfl, hkeep.symm⟩
    | box =>
        rw [hs, htarget] at h
        cases ht : actual.erased.storage <;> rw [ht] at h
        case simple =>
          replace h : (e.boxToSimple actual).type? = some t := h
          unfold Expectation.boxToSimple at h
          split at h
          next hu =>
            obtain rfl := Option.some.inj h
            exact ⟨Ty.erased_unboxed actual, hu⟩
          next => cases h
        case simpleOptional =>
          obtain ⟨u, hu, husimple⟩ := Ty.exists_optional_of_storage ht
          replace h : (e.boxToSimpleOptional actual).type? = some t := h
          simp only [Expectation.boxToSimpleOptional, hu, husimple, if_true] at h
          obtain rfl := Option.some.inj h
          exact ⟨by rw [← hu, hself], by rw [← hu, ht]⟩
        case box =>
          replace h : (e.boxToBox actual).type? = some t := h
          unfold Expectation.boxToBox at h
          split at h
          next =>
            obtain rfl := Option.some.inj h
            exact ⟨rfl, hs⟩
          next name hname =>
            split at h <;> obtain rfl := Option.some.inj h
            · exact ⟨rfl, hs⟩
            · rw [htype, Ty.protocolName?, Ty.unboxed_erased] at hname
              split at hname
              next heq =>
                obtain rfl := Option.some.inj hname
                rw [heq]
                exact ⟨rfl, rfl⟩
              next => cases hname

end Boxlang
