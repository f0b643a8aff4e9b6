import Boxlang.Proofs.Conversion.Differ
import Boxlang.Proofs.Conversion.Optional

/-!
# Where an adapter is required

A callable is adapted to an expected callable where the two are held differently
somewhere.  The adapter that would be inserted converts some positions and passes on the
others.  The two agree but for one case: a box that only changes its tag is held alike
before and after, so a callable whose adapter would do nothing but change tags is passed
on as it is, and the tags stay as they were.
-/

namespace Boxlang

open Conversion

theorem Conversion.entryCount_eq_length_entries (op : Conversion) : op.entryCount = op.entries.length := by
  cases op with
  | adaptCallable source target args ret =>
      rw [entryCount, entries, List.filterMap_append, List.length_append,
        List.length_filterMap_eq_countP]
      cases ret <;> rfl
  | _ => rfl

variable {actual a b ret ret' : Ty} {params params' : List Ty} {e : Expectation}

theorem mem_entries_callableAdapter {op : Conversion} (ha : a.unboxed = .callable params ret)
    (hb : b.unboxed = .callable params' ret') : op ∈ (callableAdapter a b).entries ↔
      (∃ q ∈ params'.zip params, conversionBetween? q.1 q.2 = some op) ∨
        conversionBetween? ret ret' = some op := by
  rw [callableAdapter_eq ha hb, entries, List.filterMap_append, List.mem_append,
    List.filterMap_map, List.mem_filterMap]
  apply or_congr Iff.rfl
  simp [eq_comm]

/-- Callables of one arity are held differently where an adapter changes more than tags. -/
theorem representationsDiffer_iff_exists_entry (ha : a.unboxed = .callable params ret)
    (hb : b.unboxed = .callable params' ret') (hlen : params.length = params'.length) :
    representationsDiffer a b = true ↔ ∃ op ∈ (callableAdapter a b).entries, ¬ op.IsRebox := by
  -- Arguments go from the target to the source, so the parameters are compared in that order.
  rw [representationsDiffer_comm, representationsDiffer_callable hb ha, decide_eq_true hlen.symm,
    Bool.true_and, Bool.or_eq_true, List.any_eq_true, representationsDiffer_comm ret' ret]
  constructor
  · intro h
    rcases h with ⟨q, hq, hdiffer⟩ | hdiffer
    · obtain ⟨op, hop, hnot⟩ := representationsDiffer_iff.mp hdiffer
      exact ⟨op, (mem_entries_callableAdapter ha hb).mpr (.inl ⟨q, hq, hop⟩), hnot⟩
    · obtain ⟨op, hop, hnot⟩ := representationsDiffer_iff.mp hdiffer
      exact ⟨op, (mem_entries_callableAdapter ha hb).mpr (.inr hop), hnot⟩
  · intro h
    obtain ⟨op, hmem, hnot⟩ := h
    rcases (mem_entries_callableAdapter ha hb).mp hmem with ⟨q, hq, hop⟩ | hop
    · exact .inl ⟨q, hq, representationsDiffer_iff.mpr ⟨op, hop, hnot⟩⟩
    · exact .inr (representationsDiffer_iff.mpr ⟨op, hop, hnot⟩)

section Callables

variable (hactual : actual.unboxed = .callable params ret)
  (htype : e.type.unboxed = .callable params' ret')
include hactual htype

theorem needsAdapter_eq_representationsDiffer :
    e.needsAdapter actual = representationsDiffer actual e.type := by
  simp [Expectation.needsAdapter, Ty.isCallable, hactual, htype]

theorem compliance_of_callable : e.compliance actual =
    if e.needsAdapter actual = true then .convert (callableAdapter actual e.type) e.type
    else .asIs actual := by
  have hnotError {t r : Ty} {ps : List Ty} (h : t.unboxed = .callable ps r) : t.isError = false := by
    rw [Ty.isError, beq_eq_false_iff_ne]
    rintro rfl
    cases h
  have htarget : e.target actual = .box := by
    unfold Expectation.target
    split
    · exact Ty.storage_of_unboxed_callable htype
    · rfl
    · rw [← Ty.erased_unboxed, hactual]
      rfl
  have hprotocol : e.type.protocolName? = none := by rw [Ty.protocolName?, htype]
  rw [Expectation.compliance, hnotError hactual, hnotError htype]
  simp only [Bool.or_self, Bool.false_eq_true, if_false, Expectation.adapted]
  split
  next => rfl
  next =>
    rw [Expectation.storageCompliance, Ty.storage_of_unboxed_callable hactual, htarget]
    simp only [Expectation.boxToBox, hprotocol]

/--
For a value of a callable type and an expected callable of the same arity, an adapter is
needed exactly if it has an entry that changes more than the tag of a box.  So whether
one is needed tells whether it has entries, unless it has some and all of them change
tags; then the callable is passed on unchanged.
-/
theorem needsAdapter_iff_of_length_eq (hlen : params.length = params'.length) :
    (e.needsAdapter actual = true ↔
      ∃ op ∈ (callableAdapter actual e.type).entries, ¬ op.IsRebox) ∧
    ((e.needsAdapter actual = true ↔ 0 < (callableAdapter actual e.type).entryCount) ↔
      ((∀ op ∈ (callableAdapter actual e.type).entries, op.IsRebox) →
        (callableAdapter actual e.type).entryCount = 0)) ∧
    e.compliance actual =
      if e.needsAdapter actual = true then .convert (callableAdapter actual e.type) e.type
      else .asIs actual := by
  have hneeds : e.needsAdapter actual = true ↔
      ∃ op ∈ (callableAdapter actual e.type).entries, ¬ op.IsRebox := by
    rw [needsAdapter_eq_representationsDiffer hactual htype]
    exact representationsDiffer_iff_exists_entry hactual htype hlen
  refine ⟨hneeds, ?_, compliance_of_callable hactual htype⟩
  rw [hneeds, entryCount_eq_length_entries, List.length_pos_iff_exists_mem, List.length_eq_zero_iff]
  constructor
  · intro h hall
    rw [List.eq_nil_iff_forall_not_mem]
    intro op hop
    obtain ⟨entry, hentry, hnot⟩ := h.mpr ⟨op, hop⟩
    exact hnot (hall entry hentry)
  · intro h
    constructor
    · rintro ⟨op, hop, -⟩
      exact ⟨op, hop⟩
    · rintro ⟨op, hop⟩
      by_contra hno
      have hall (entry : Conversion) (hentry : entry ∈ (callableAdapter actual e.type).entries) :
          entry.IsRebox := by
        by_contra hnot
        exact hno ⟨entry, hentry, hnot⟩
      rw [h hall] at hop
      cases hop

end Callables

section Examples

def printableDogs : Declarations :=
  Declarations.prelude |>.addProtocol "Printable" |>.addClass "Dog" { protocols := ["Printable"] }

def makesDog : Ty :=
  .callable [.int] (.boxed (.object "Dog" []))

def makesPrintable : Ty :=
  .callable [.boxed .int] (.protocol "Printable")

/-- An argument is taken out of its box, so the tag of the result is changed as well. -/
theorem needsAdapter_makesDog : makesDog.unboxed = .callable [.int] (.boxed (.object "Dog" [])) ∧
    makesPrintable.unboxed = .callable [.boxed .int] (.protocol "Printable") ∧
    printableDogs.isSubtype {} makesDog makesPrintable = true ∧
    ({ type := makesPrintable } : Expectation).needsAdapter makesDog = true ∧
    (callableAdapter makesDog makesPrintable).entryCount = 2 := by
  have hall := needsAdapter_iff_of_length_eq (e := { type := makesPrintable })
    (show makesDog.unboxed = .callable [.int] (.boxed (.object "Dog" [])) from rfl)
    (show makesPrintable.unboxed = _ from rfl) rfl
  have hentry : Conversion.unbox .int ∈ (callableAdapter makesDog makesPrintable).entries :=
    (mem_entries_callableAdapter rfl rfl).mpr (.inl ⟨_, List.mem_singleton_self _, by
      rw [conversionBetween?]
      rfl⟩)
  refine ⟨rfl, rfl, by decide +kernel, hall.1.mpr ⟨_, hentry, ?_⟩, by decide +kernel⟩
  rintro ⟨name, hname⟩
  cases hname

/-- Where only the tag of the result would change, no adapter is needed, and the tag stays. -/
theorem not_needsAdapter_of_rebox :
    let makesDogs : Ty := .callable [] (.boxed (.object "Dog" []))
    let expected : Expectation := { type := .callable [] (.protocol "Printable") }
    printableDogs.isSubtype {} makesDogs expected.type = true ∧
      expected.needsAdapter makesDogs = false ∧
      conversionBetween? (.boxed (.object "Dog" [])) (.protocol "Printable") =
        some (.rebox "Printable") ∧
      (callableAdapter makesDogs expected.type).entryCount = 1 ∧
      expected.compliance makesDogs = .asIs makesDogs := by
  refine ⟨by decide +kernel, by decide +kernel, ?_, by decide +kernel, ?_⟩
  · rw [conversionBetween?]
    rfl
  · rw [compliance_of_callable rfl rfl]
    exact if_neg (by decide +kernel)

end Examples

end Boxlang
