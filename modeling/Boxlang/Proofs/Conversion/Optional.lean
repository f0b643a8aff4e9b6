import Boxlang.Proofs.Conversion.Compliance

/-!
# Values of optionals in conversions

Two conversions take the value out of an optional.  The step from a simple optional to a
simple type is one of them, but nothing simple is above an optional.  So neither occurs
in the step from a type to one above it, nor in any adapter inside, and neither does in
what is decided for a value that widens to the type that is expected of it.
-/

namespace Boxlang

namespace Conversion

def IsUnwrap (op : Conversion) : Prop :=
  op = .unwrapOptional ∨ op = .unwrapBoxOptional

def entries : Conversion → List Conversion
  | .adaptCallable _ _ args ret => (args ++ [ret]).filterMap id
  | _ => []

/-- The second conversion is an entry of the first one, at any depth of adapters. -/
def Contains : Conversion → Conversion → Prop :=
  Relation.TransGen fun op entry => entry ∈ op.entries

/-- A conversion without an entry at any depth that takes the value out of an optional. -/
def AdaptsWithoutUnwrap (op : Conversion) : Prop :=
  ∀ entry, op.Contains entry → ¬ entry.IsUnwrap

variable {op entry : Conversion}

theorem adaptsWithoutUnwrap_of_entries_eq_nil (h : op.entries = []) : op.AdaptsWithoutUnwrap := by
  intro entry hentry
  obtain ⟨first, hfirst, -⟩ := Relation.TransGen.head'_iff.mp hentry
  rw [h] at hfirst
  exact absurd hfirst List.not_mem_nil

namespace Everywhere

variable {P : Conversion → Ty → Ty → Prop} {Q : Ty → Ty → Prop} {source target : Ty}

theorem of_mem_entries (h : Everywhere P Q op source target) (he : entry ∈ op.entries) :
    ∃ s t, Everywhere P Q entry s t := by
  cases h with
  | step hop _ =>
      cases op with
      | adaptCallable s t args ret => exact absurd rfl (hop s t args ret)
      | _ => cases he
  | @adapt _ _ params params' r r' args ret _ _ _ hparams hargs _ hsome _ hret =>
      obtain ⟨e, hmem, rfl⟩ := List.mem_filterMap.mp he
      rcases List.mem_append.mp hmem with hmem | hmem
      · obtain ⟨i, hi, heq⟩ := List.mem_iff_getElem.mp hmem
        have hlt : i < (args.zip (params'.zip params)).length := by
          simp only [List.length_zip]
          omega
        refine ⟨_, _, hsome _ (List.getElem_mem hlt) entry ?_⟩
        simpa using heq
      · exact ⟨r, r', hret entry (List.mem_singleton.mp hmem).symm⟩

/-- What holds everywhere holds of the entries of adapters at any depth. -/
theorem of_contains (h : Everywhere P Q op source target) (he : op.Contains entry) :
    ∃ s t, P entry s t := by
  suffices hall : ∃ s t, Everywhere P Q entry s t by
    obtain ⟨s, t, hst⟩ := hall
    exact ⟨s, t, hst.self⟩
  induction he with
  | single he => exact h.of_mem_entries he
  | tail _ he ih =>
      obtain ⟨s, t, hst⟩ := ih
      exact hst.of_mem_entries he

end Everywhere

end Conversion

open Conversion

variable {d : Declarations} {c : GenericContext}

/-- A step from a type to one above it does not take the value out of an optional. -/
theorem not_isUnwrap_of_conversionBetween? {a b : Ty} {op : Conversion} (h : d.Widens c a b)
    (hbe : b.mentionsError = false) (hop : conversionBetween? a b = some op) : ¬ op.IsUnwrap := by
  obtain ⟨-, -, rfl⟩ | ⟨-, -, rfl⟩ | ⟨-, -, rfl⟩ | ⟨-, -, rfl⟩ | ⟨-, -, rfl⟩ |
    ⟨-, -, ⟨name, rfl⟩ | ⟨args, ret, rfl⟩⟩ := conversionBetween?_cases h hbe hop
  all_goals simp [IsUnwrap]

section Compliance

variable {e : Expectation} {actual t : Ty} {op : Conversion}

/-- What changes the storage of a value is no adapter and takes nothing out of an optional. -/
theorem of_storageCompliance_eq_convert (h : e.storageCompliance actual = .convert op t) :
    op.entries = [] ∧ ¬ op.IsUnwrap := by
  have hstep {op' : Conversion} {t' : Ty} (h : Compliance.convert op' t' = .convert op t)
      (hop : op'.entries = [] ∧ ¬ op'.IsUnwrap) : op.entries = [] ∧ ¬ op.IsUnwrap := by
    cases h
    exact hop
  unfold Expectation.storageCompliance at h
  split at h
  next =>
    unfold Expectation.boxToBox at h
    split at h
    next => cases h
    next =>
      split at h
      next => cases h
      next => exact hstep h (by simp [entries, IsUnwrap])
  next =>
    unfold Expectation.boxToSimple at h
    split at h
    next => exact hstep h (by simp [entries, IsUnwrap])
    next => cases h
  next =>
    unfold Expectation.boxToSimpleOptional at h
    split at h
    all_goals
      split at h
      next => exact hstep h (by simp [entries, IsUnwrap])
      next => cases h
  next =>
    unfold Expectation.simpleToBox at h
    split at h
    all_goals exact hstep h (by simp [entries, IsUnwrap])
  next => exact hstep h (by simp [entries, IsUnwrap])
  next => exact hstep h (by simp [entries, IsUnwrap])
  all_goals cases h

/--
What is inserted for a value below the expected type does not take the value out of an
optional, at any depth of adapters.
-/
theorem not_isUnwrap_of_compliance (hw : d.Widens c actual e.type) (ha : actual.mentionsError = false)
    (he : e.type.mentionsError = false) (h : e.compliance actual = .convert op t) :
    ¬ op.IsUnwrap ∧ op.AdaptsWithoutUnwrap := by
  unfold Expectation.compliance at h
  rw [Ty.isError_eq_false ha, Ty.isError_eq_false he] at h
  simp only [Bool.or_self, Bool.false_eq_true, if_false] at h
  split at h
  next hneeds =>
    obtain ⟨rfl, rfl⟩ : callableAdapter actual e.type = op ∧ e.type = t := by
      simpa [Expectation.adapted] using h
    have hstep := conversionBetween?_of_needsAdapter hneeds
    have hall : Everywhere (fun op _ _ => ¬ op.IsUnwrap) (fun _ _ => True)
        (callableAdapter actual e.type) actual e.type :=
      (between_of_widens (fun _ _ _ _ _ _ => trivial)
        (fun _ _ _ h _ hbe hop => not_isUnwrap_of_conversionBetween? h hbe hop) hw ha he).2 _ hstep
    refine ⟨hall.self, fun entry hentry => ?_⟩
    obtain ⟨-, -, hnot⟩ := hall.of_contains hentry
    exact hnot
  next =>
    obtain ⟨hentries, hnot⟩ := of_storageCompliance_eq_convert h
    exact ⟨hnot, adaptsWithoutUnwrap_of_entries_eq_nil hentries⟩

end Compliance

end Boxlang
