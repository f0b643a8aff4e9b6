import Mathlib.Data.List.Zip
import Boxlang.Proofs.Conversion.Sound

/-!
# Types that are held differently

Two types are held differently if their storages differ, or if they are callables of
one arity with a parameter or a result that is held differently.  It does not matter
which of the two comes first, and there is a step from the one to the other wherever
they are held differently.  The only other steps are those that change the tag of a box
(`representationsDiffer_iff`).
-/

namespace Boxlang

variable {a b ret ret' : Ty} {params params' : List Ty}

theorem Ty.exists_callable_of_isCallable (h : a.isCallable = true) :
    ∃ params ret, a.unboxed = .callable params ret := by
  unfold isCallable at h
  split at h
  next params ret hu => exact ⟨params, ret, hu⟩
  next => cases h

/-- Simple optionals are simple optionals without marks as well. -/
theorem storage_erased_of_ne_box {t : Ty} (h : t.storage ≠ .box) : t.erased.storage = t.storage := by
  cases hs : t.storage with
  | box => exact (h hs).elim
  | simple => exact Ty.storage_erased_of_simple hs
  | simpleOptional =>
      obtain ⟨u, rfl, hu⟩ := Ty.exists_optional_of_storage hs
      exact Ty.storage_optional_of_simple (Ty.storage_erased_of_simple hu)

/-! ### Differences -/

theorem anyRepresentationsDiffer_eq_any (as bs : List Ty) :
    anyRepresentationsDiffer as bs = (as.zip bs).any fun q => representationsDiffer q.1 q.2 := by
  induction as generalizing bs with
  | nil => simp [anyRepresentationsDiffer]
  | cons a as ih =>
      cases bs with
      | nil => simp [anyRepresentationsDiffer]
      | cons b bs => simp [anyRepresentationsDiffer, ih]

theorem representationsDiffer_callable (ha : a.unboxed = .callable params ret)
    (hb : b.unboxed = .callable params' ret') : representationsDiffer a b =
      (decide (params.length = params'.length) &&
        ((params.zip params').any (fun q => representationsDiffer q.1 q.2) || representationsDiffer ret ret')) := by
  rw [representationsDiffer]
  split
  next ps r ps' r' hps hps' =>
    obtain ⟨rfl, rfl⟩ : ps = params ∧ r = ret := by simpa [ha] using hps.symm
    obtain ⟨rfl, rfl⟩ : ps' = params' ∧ r' = ret' := by simpa [hb] using hps'.symm
    rw [anyRepresentationsDiffer_eq_any, Ty.storage_of_unboxed_callable ha,
      Ty.storage_of_unboxed_callable hb]
    split_ifs with hlen <;> simp [hlen]
  next h => exact (h _ _ _ _ ha hb).elim

theorem representationsDiffer_of_isCallable (h : a.isCallable = false ∨ b.isCallable = false) :
    representationsDiffer a b = (a.storage != b.storage) := by
  rw [representationsDiffer]
  split
  next ha hb => simp [Ty.isCallable, ha, hb] at h
  next => rfl

theorem storage_eq_of_representationsDiffer (h : representationsDiffer a b = false) :
    a.storage = b.storage := by
  rw [representationsDiffer] at h
  split at h
  next hau hbu => rw [Ty.storage_of_unboxed_callable hau, Ty.storage_of_unboxed_callable hbu]
  next => simpa using h

theorem representationsDiffer_self (a : Ty) : representationsDiffer a a = false := by
  induction hn : a.size using Nat.strongRecOn generalizing a with
  | ind n ih =>
      subst hn
      by_cases hcallable : a.isCallable = true
      · obtain ⟨params, ret, hu⟩ := Ty.exists_callable_of_isCallable hcallable
        have hsize := Ty.size_unboxed_le a
        rw [hu, Ty.size] at hsize
        simp only [representationsDiffer_callable hu hu, decide_true, Bool.true_and,
          Bool.or_eq_false_iff, List.any_eq_false, Bool.not_eq_true]
        refine ⟨fun q hq => ?_, ih _ (by omega) ret rfl⟩
        obtain ⟨i, hi, rfl⟩ := List.getElem_of_mem hq
        have := Ty.size_le_of_mem (List.getElem_mem (l := params) (n := i) (by simpa using hi))
        simp only [List.getElem_zip]
        exact ih _ (by omega) _ rfl
      · rw [representationsDiffer]
        split
        next hu _ => exact (hcallable (by rw [Ty.isCallable, hu])).elim
        next => simp

theorem representationsDiffer_comm (a b : Ty) : representationsDiffer a b = representationsDiffer b a := by
  induction hn : a.size using Nat.strongRecOn generalizing a b with
  | ind n ih =>
      by_cases hcallable : a.isCallable = true ∧ b.isCallable = true
      · obtain ⟨params, ret, ha⟩ := Ty.exists_callable_of_isCallable hcallable.1
        obtain ⟨params', ret', hb⟩ := Ty.exists_callable_of_isCallable hcallable.2
        have hsize := Ty.size_unboxed_le a
        rw [ha, Ty.size] at hsize
        have hparams : ((params.zip params').any fun q => representationsDiffer q.1 q.2) =
            (params'.zip params).any fun q => representationsDiffer q.1 q.2 := by
          rw [← List.zip_swap params params', List.any_map, Bool.eq_iff_iff, List.any_eq_true,
            List.any_eq_true]
          apply exists_congr
          intro q
          apply and_congr_right
          intro hq
          have := Ty.size_le_of_mem (List.of_mem_zip hq).1
          rw [Function.comp_apply, Prod.fst_swap, Prod.snd_swap, ih _ (by omega) q.1 q.2 rfl]
        rw [representationsDiffer_callable ha hb, representationsDiffer_callable hb ha, hparams,
          ih _ (by omega) ret ret' rfl, decide_eq_decide.mpr (eq_comm (a := params.length))]
      · have hone : a.isCallable = false ∨ b.isCallable = false := by
          rw [← Bool.not_eq_true, ← Bool.not_eq_true]
          exact not_and_or.mp hcallable
        rw [representationsDiffer_of_isCallable hone, representationsDiffer_of_isCallable hone.symm,
          bne_comm]

/-! ### Steps from box to box -/

section Boxes

variable (ha : a.storage = .box) (hb : b.storage = .box)
include ha hb

/-- From box to box only a protocol asks for another tag. -/
theorem conversionBetween?_protocol {name : String} (hu : b.unboxed = .protocol name) :
    conversionBetween? a b = if a.unboxed = b.unboxed then none else some (.rebox name) := by
  rw [conversionBetween?]
  simp [ha, hb, hu]

theorem conversionBetween?_callable (hu : b.unboxed = .callable params ret) :
    conversionBetween? a b =
      if representationsDiffer a b = true then some (callableAdapter a b) else none := by
  rw [conversionBetween?]
  simp [ha, hb, hu]

theorem conversionBetween?_of_box (hp : ∀ name, b.unboxed ≠ .protocol name)
    (hc : b.isCallable = false) : conversionBetween? a b = none := by
  rw [conversionBetween?]
  simp only [ha, hb]
  split
  next name hu => exact (hp name hu).elim
  next hu => simp [Ty.isCallable, hu] at hc
  next => rfl

end Boxes

/-- A conversion that changes the tag of a box and leaves the value as it is held. -/
def Conversion.IsRebox (op : Conversion) : Prop :=
  ∃ name, op = .rebox name

theorem exists_conversionBetween?_of_storage_ne (h : a.storage ≠ b.storage) :
    ∃ op, conversionBetween? a b = some op ∧ ¬ op.IsRebox := by
  rw [conversionBetween?]
  cases ha : a.storage <;> cases hb : b.storage
  case simple.simple | simpleOptional.simpleOptional | box.box => exact (h (ha.trans hb.symm)).elim
  all_goals
    refine ⟨_, rfl, ?_⟩
    rintro ⟨name, hname⟩
    cases hname

/-- Two types are held differently where the step between them changes more than a tag. -/
theorem representationsDiffer_iff : representationsDiffer a b = true ↔
    ∃ op, conversionBetween? a b = some op ∧ ¬ op.IsRebox := by
  by_cases hs : a.storage = b.storage
  case neg =>
    have hdiffer : representationsDiffer a b = true := by
      rw [← Bool.not_eq_false]
      exact fun hsame => hs (storage_eq_of_representationsDiffer hsame)
    exact iff_of_true hdiffer (exists_conversionBetween?_of_storage_ne hs)
  by_cases hc : b.isCallable = true
  · obtain ⟨params, ret, hu⟩ := Ty.exists_callable_of_isCallable hc
    have hb := Ty.storage_of_unboxed_callable hu
    rw [conversionBetween?_callable (hs.trans hb) hb hu]
    have hadapter : ¬ (callableAdapter a b).IsRebox := by
      rw [callableAdapter]
      split <;> exact nofun
    split
    next hdiffer => exact iff_of_true hdiffer ⟨_, rfl, hadapter⟩
    next hsame => exact iff_of_false hsame nofun
  · rw [Bool.not_eq_true] at hc
    have hsame : representationsDiffer a b ≠ true := by
      rw [representationsDiffer_of_isCallable (.inr hc)]
      simpa using hs
    refine iff_of_false hsame ?_
    rintro ⟨op, hop, hnot⟩
    cases hb : b.storage with
    | simple | simpleOptional =>
        rw [conversionBetween?] at hop
        simp [hs, hb] at hop
    | box =>
        by_cases hp : ∃ name, b.unboxed = .protocol name
        · obtain ⟨name, hu⟩ := hp
          rw [conversionBetween?_protocol (hs.trans hb) hb hu] at hop
          split at hop
          next => cases hop
          next => exact hnot ⟨name, (Option.some.inj hop).symm⟩
        · rw [conversionBetween?_of_box (hs.trans hb) hb (not_exists.mp hp) hc] at hop
          cases hop

end Boxlang
