import Boxlang.Inference

/-!
# Properties of types and their components

Generic arguments are inferred from components of the types of arguments.  A property
that passes from types to their components, and from candidates to candidates, is a
property of everything that is collected.
-/

namespace Boxlang

namespace Ty

def components : Ty → List Ty
  | .object _ args | .value _ args => args
  | .callable params ret => ret :: params
  | .optional inner | .typeValue inner | .boxed inner => [inner]
  | _ => []

def Descends (P : Ty → Prop) : Prop :=
  ∀ t, P t → ∀ u ∈ t.components, P u

variable {P : Ty → Prop} {t : Ty}

theorem Descends.unboxed (hP : Descends P) (h : P t) : P t.unboxed := by
  cases t with
  | boxed inner => exact hP _ h inner List.mem_cons_self
  | _ => exact h

/-- Under a storage mark, too, the components have the property. -/
theorem Descends.of_unboxed (hP : Descends P) (h : P t) {u : Ty} (hu : t.unboxed = u) :
    ∀ v ∈ u.components, P v :=
  hP u (hu ▸ hP.unboxed h)

end Ty

theorem GenericContext.ownerArg?_eq_some_iff {c : GenericContext} {i : Nat} {t : Ty} :
    c.ownerArg? i = some t ↔ ∃ owner name args, c.owner = some owner ∧
      (owner.unboxed = .object name args ∨ owner.unboxed = .value name args) ∧ args[i]? = some t := by
  unfold ownerArg?
  constructor
  · intro h
    split at h
    case h_1 name args hu =>
      obtain ⟨owner, howner, hu⟩ := Option.map_eq_some_iff.mp hu
      exact ⟨owner, name, args, howner, .inl hu, h⟩
    case h_2 name args hu =>
      obtain ⟨owner, howner, hu⟩ := Option.map_eq_some_iff.mp hu
      exact ⟨owner, name, args, howner, .inr hu, h⟩
    case h_3 => cases h
  · rintro ⟨owner, name, args, howner, hu, h⟩
    rcases hu with hu | hu <;> simp [howner, hu, h]

theorem GenericContext.exists_of_ownerArg? {c : GenericContext} {i : Nat} {t : Ty}
    (h : c.ownerArg? i = some t) : ∃ owner args, c.owner = some owner ∧ t ∈ args ∧
      ∃ name, owner.unboxed = .object name args ∨ owner.unboxed = .value name args := by
  obtain ⟨owner, name, args, howner, hu, hi⟩ := ownerArg?_eq_some_iff.mp h
  exact ⟨owner, args, howner, List.mem_of_getElem? hi, name, hu⟩

namespace Candidates

def Yields (P : Ty → Prop) (candidates : Candidates) : Prop :=
  ∀ t, candidates.result = .ok t → P t

variable {d : Declarations} {c : GenericContext} {P : Ty → Prop} {Q : Candidates → Prop}

theorem forall_mem_modify {all : List Candidates} {f : Candidates → Candidates}
    (hf : ∀ candidates, Q candidates → Q (f candidates)) (h : ∀ candidates ∈ all, Q candidates)
    (i : Nat) : ∀ candidates ∈ all.modify i f, Q candidates := by
  intro candidates hc
  obtain ⟨j, hj⟩ := List.mem_iff_getElem?.mp hc
  rw [List.getElem?_modify] at hj
  obtain ⟨old, hold, rfl⟩ := Option.map_eq_some_iff.mp hj
  have hmem := List.mem_of_getElem? hold
  split
  · exact hf old (h old hmem)
  · exact h old hmem

mutual

theorem forall_mem_collect (hP : Ty.Descends P)
    (hadd : ∀ candidates t, Q candidates → P t → Q (candidates.add d c t))
    (declared actual : Ty) (all : List Candidates) (ha : P actual)
    (h : ∀ candidates ∈ all, Q candidates) :
    ∀ candidates ∈ collect d c declared actual all, Q candidates := by
  have hcomponents {t u : Ty} (hy : actual.unboxed = t) (hu : u ∈ t.components) : P u :=
    hP.of_unboxed ha hy u hu
  rw [collect]
  split
  next i n hx =>
    exact forall_mem_modify (fun _ hc => hadd _ _ hc (hP.unboxed ha)) h i
  next x y hx hy =>
    exact forall_mem_collect hP hadd x y all (hcomponents hy List.mem_cons_self) h
  next _ x hx _ =>
    exact forall_mem_collect hP hadd x _ all (hP.unboxed ha) h
  next n xs m ys hx hy =>
    split
    · exact forall_mem_collectAll hP hadd xs ys all (fun _ => hcomponents hy) h
    · exact h
  next n xs m ys hx hy =>
    split
    · exact forall_mem_collectAll hP hadd xs ys all (fun _ => hcomponents hy) h
    · exact h
  next n xs m ys hx hy =>
    split
    · exact forall_mem_collectAll hP hadd xs ys all (fun _ => hcomponents hy) h
    · exact h
  next n xs m ys hx hy =>
    split
    · exact forall_mem_collectAll hP hadd xs ys all (fun _ => hcomponents hy) h
    · exact h
  next params ret params' ret' hx hy =>
    split
    · refine forall_mem_collect hP hadd ret ret' _ (hcomponents hy List.mem_cons_self) ?_
      exact forall_mem_collectAll hP hadd params params' all
        (fun _ hu => hcomponents hy (List.mem_cons_of_mem ret' hu)) h
    · exact h
  next x y hx hy =>
    exact forall_mem_collect hP hadd x y all (hcomponents hy List.mem_cons_self) h
  next => exact h
termination_by 2 * declared.size
decreasing_by
  all_goals
    have hle := Ty.size_unboxed_le declared
    simp only [‹declared.unboxed = _›, Ty.size] at hle
    omega

theorem forall_mem_collectAll (hP : Ty.Descends P)
    (hadd : ∀ candidates t, Q candidates → P t → Q (candidates.add d c t))
    (declared actual : List Ty) (all : List Candidates)
    (ha : ∀ t ∈ actual, P t) (h : ∀ candidates ∈ all, Q candidates) :
    ∀ candidates ∈ collectAll d c declared actual all, Q candidates := by
  match declared, actual with
  | x :: xs, y :: ys =>
      rw [collectAll]
      have hy := forall_mem_collect hP hadd x y all (ha y List.mem_cons_self) h
      exact forall_mem_collectAll hP hadd xs ys _ (fun t ht => ha t (List.mem_cons_of_mem y ht)) hy
  | [], _ => simpa [collectAll] using h
  | _ :: _, [] => simpa [collectAll] using h
termination_by 2 * Ty.sizeAll declared + 1
decreasing_by
  all_goals
    have := Ty.size_pos x
    simp only [Ty.sizeAll]
    omega

end

end Candidates

end Boxlang
