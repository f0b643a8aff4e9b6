import Boxlang.Proofs.Subtyping.Join

/-!
# The error type among candidates

The error type is below every type and above it, and a join takes the second of two such
types.  So an erroneous candidate replaces the common type of the candidates before it, and
the next candidate replaces the error type: unless those before are in conflict already,
they are forgotten (`Candidates.result_append_error`).
-/

namespace Boxlang

namespace Candidates

open Declarations

variable {d : Declarations} {c : GenericContext} {candidates : Candidates} {ts : List Ty} {u v : Ty}

theorem foldl_conflict : ts.foldl (add d c) (.conflict u v) = .conflict u v := by
  induction ts with
  | nil => rfl
  | cons t ts ih => exact ih

theorem add_error (h : ∀ u v, candidates ≠ .conflict u v) : candidates.add d c .error = .common .error := by
  cases candidates with
  | unseen => rfl
  | common u =>
      have hjoin : d.commonErased? c u.erased .error = some .error :=
        commonErased?_of_below (below_iff.mpr (.errorRight _))
      simp only [add, commonSupertype?, Ty.erased, hjoin]
  | conflict u v => exact (h u v rfl).elim

/-- After the error type a candidate is like the first one. -/
theorem add_common_error (t : Ty) : (common .error).add d c t = unseen.add d c t := by
  have hjoin : d.commonErased? c .error t.erased = some t.erased :=
    commonErased?_of_below (below_iff.mpr (.errorLeft _))
  simp only [add, commonSupertype?, Ty.erased, Ty.erased_erased, hjoin]

theorem foldl_common_error (hts : ts ≠ []) :
    ts.foldl (add d c) (.common .error) = ts.foldl (add d c) .unseen := by
  cases ts with
  | nil => exact (hts rfl).elim
  | cons t ts => rw [List.foldl_cons, List.foldl_cons, add_common_error]

theorem foldl_replicate_error_append (n : Nat) (hts : ts ≠ []) :
    (List.replicate n Ty.error ++ ts).foldl (add d c) .unseen = ts.foldl (add d c) .unseen := by
  induction n with
  | zero => rfl
  | succ n ih =>
      have hne : List.replicate n Ty.error ++ ts ≠ [] := by simp [hts]
      calc (List.replicate (n + 1) Ty.error ++ ts).foldl (add d c) .unseen
          = (List.replicate n Ty.error ++ ts).foldl (add d c) (.common .error) := rfl
        _ = (List.replicate n Ty.error ++ ts).foldl (add d c) .unseen := foldl_common_error hne
        _ = ts.foldl (add d c) .unseen := ih

theorem result_eq_conflict : candidates.result = .error (.conflict u v) ↔ candidates = .conflict u v := by
  cases candidates <;> simp [result]

/--
An erroneous candidate in the middle of others makes the candidates before it be forgotten,
unless they are in conflict.  So it is neutral exactly where those before it are in conflict
or the candidates after it alone amount to the same as all of them, as where only erroneous
candidates come before it.
-/
theorem result_append_error (xs ys : List Ty) :
    let outcome (ts : List Ty) := (ts.foldl (add d c) .unseen).result
    let afterwards := if ys = [] then .ok .error else outcome ys
    (∀ u v, outcome xs = .error (.conflict u v) →
      outcome (xs ++ .error :: ys) = .error (.conflict u v) ∧ outcome (xs ++ ys) = .error (.conflict u v)) ∧
    ((∀ u v, outcome xs ≠ .error (.conflict u v)) → outcome (xs ++ .error :: ys) = afterwards) ∧
    (outcome (xs ++ .error :: ys) = outcome (xs ++ ys) ↔
      (∃ u v, outcome xs = .error (.conflict u v)) ∨ outcome (xs ++ ys) = afterwards) ∧
    ∀ n, ys ≠ [] → outcome (List.replicate n Ty.error ++ ys) = outcome ys := by
  intro outcome afterwards
  have hconflict (u v : Ty) (h : outcome xs = .error (.conflict u v)) :
      outcome (xs ++ .error :: ys) = .error (.conflict u v) ∧
        outcome (xs ++ ys) = .error (.conflict u v) := by
    have h := result_eq_conflict.mp h
    simp only [outcome, List.foldl_append, h, foldl_conflict, result, and_self]
  have hforgotten (h : ∀ u v, outcome xs ≠ .error (.conflict u v)) :
      outcome (xs ++ .error :: ys) = afterwards := by
    have h (u v : Ty) : xs.foldl (add d c) .unseen ≠ .conflict u v :=
      fun heq => h u v (result_eq_conflict.mpr heq)
    simp only [outcome, afterwards, List.foldl_append, List.foldl_cons, add_error h]
    split
    next hys => rw [hys]; rfl
    next hys => rw [foldl_common_error hys]
  refine ⟨hconflict, hforgotten, ?_, fun n hys => congrArg result (foldl_replicate_error_append n hys)⟩
  by_cases h : ∃ u v, outcome xs = .error (.conflict u v)
  · obtain ⟨u, v, h⟩ := h
    obtain ⟨hwith, hwithout⟩ := hconflict u v h
    simp [hwith, hwithout, h]
  · rw [hforgotten (by simpa using h), eq_comm, or_iff_right h]

/-- A number is forgotten at an erroneous candidate, and is not below what is inferred then. -/
theorem result_forgets_int :
    let outcome (ts : List Ty) := (ts.foldl (add {} {}) .unseen).result
    outcome [.int, .bool] = .ok .something ∧ outcome [.int, .error, .bool] = .ok .bool ∧
      outcome [.int, .error] = .ok .error ∧ isSubtype {} {} .int .bool = false := by
  decide +kernel

end Candidates

end Boxlang
