import Boxlang.Scope
import Mathlib.Data.List.Forall2

/-!
# Scopes while expressions are read

Reading names leaves the bindings of a scope alone and may add to what the open
closures captured (`Scope.Extends`).  A closure that is entered, given its
parameters and left again has no other effect on the scope around it.
-/

namespace Boxlang

structure OpenClosure.Extends (c c' : OpenClosure) : Prop where
  base_eq : c'.base = c.base
  captures_subset : c.captures ⊆ c'.captures

namespace OpenClosure.Extends

variable {c c' c'' : OpenClosure}

theorem refl (c : OpenClosure) : c.Extends c :=
  ⟨rfl, List.Subset.refl _⟩

theorem trans (h : c.Extends c') (h' : c'.Extends c'') : c.Extends c'' :=
  ⟨h'.base_eq.trans h.base_eq, List.Subset.trans h.captures_subset h'.captures_subset⟩

theorem noteRead (c : OpenClosure) (depth id : Nat) :
    c.Extends (Scope.OpenClosure.noteRead c depth id) := by
  unfold Scope.OpenClosure.noteRead
  split
  · exact ⟨rfl, List.subset_append_left _ _⟩
  · exact refl c

end OpenClosure.Extends

namespace Scope

/-- A scope with the same bindings, whose closures may have captured more. -/
structure Extends (s s' : Scope) : Prop where
  innermost_eq : s'.innermost = s.innermost
  outer_eq : s'.outer = s.outer
  closures : List.Forall₂ OpenClosure.Extends s.closures s'.closures
  count_le : s.count ≤ s'.count

theorem forall₂_extends_refl (cs : List OpenClosure) : List.Forall₂ OpenClosure.Extends cs cs := by
  induction cs with
  | nil => exact .nil
  | cons c cs ih => exact .cons (.refl c) ih

theorem forall₂_extends_trans {cs cs' cs'' : List OpenClosure}
    (h : List.Forall₂ OpenClosure.Extends cs cs') (h' : List.Forall₂ OpenClosure.Extends cs' cs'') :
    List.Forall₂ OpenClosure.Extends cs cs'' := by
  induction h generalizing cs'' with
  | nil =>
      cases h'
      exact .nil
  | cons hc _ ih =>
      cases h' with
      | cons hc' h' => exact .cons (hc.trans hc') (ih h')

namespace Extends

variable {s s' s'' : Scope}

theorem refl (s : Scope) : s.Extends s :=
  ⟨rfl, rfl, forall₂_extends_refl _, Nat.le_refl _⟩

theorem trans (h : s.Extends s') (h' : s'.Extends s'') : s.Extends s'' :=
  ⟨h'.innermost_eq.trans h.innermost_eq, h'.outer_eq.trans h.outer_eq,
    forall₂_extends_trans h.closures h'.closures, Nat.le_trans h.count_le h'.count_le⟩

theorem frames_eq (h : s.Extends s') : s'.frames = s.frames := by
  simp [frames, h.innermost_eq, h.outer_eq]

end Extends

theorem forall₂_extends_noteRead (cs : List OpenClosure) (depth id : Nat) :
    List.Forall₂ OpenClosure.Extends cs (cs.map (OpenClosure.noteRead · depth id)) := by
  induction cs with
  | nil => exact .nil
  | cons c cs ih => exact .cons (.noteRead c depth id) ih

theorem extends_resolve (s : Scope) (name : String) : s.Extends (s.resolve name).2 := by
  unfold resolve
  cases find? name s.frames with
  | none => exact .refl s
  | some p => exact ⟨rfl, rfl, forall₂_extends_noteRead _ _ _, Nat.le_refl _⟩

/-! ### Parameters -/

def declareAll (s : Scope) (params : List (String × Ty)) : Scope :=
  params.foldl (fun s p => (s.declare p.1 p.2 false).2) s

/-- The bindings of parameters that are numbered from `n` on. -/
def paramFrame (n : Nat) (params : List (String × Ty)) : Frame :=
  (params.zipIdx n).map fun (p, i) => (p.1, { id := i, type := p.2, isMutable := false })

theorem paramFrame_cons (n : Nat) (p : String × Ty) (params : List (String × Ty)) :
    paramFrame n (p :: params) =
      (p.1, { id := n, type := p.2, isMutable := false }) :: paramFrame (n + 1) params := by
  simp [paramFrame, List.zipIdx_cons]

theorem declareAll_eq (s : Scope) (params : List (String × Ty)) :
    s.declareAll params =
      { s with
        innermost := (paramFrame s.count params).reverse ++ s.innermost
        count := s.count + params.length } := by
  induction params generalizing s with
  | nil => simp [declareAll, paramFrame]
  | cons p params ih =>
      show declareAll (s.declare p.1 p.2 false).2 params = _
      rw [ih]
      simp only [declare, paramFrame, List.zipIdx_cons, List.map_cons, List.reverse_cons,
        List.append_assoc, List.singleton_append, List.length_cons]
      congr 1
      omega

theorem ofSignature_eq (f : Signature) :
    ofSignature f = declareAll {} (f.params.map fun p => (p.name, p.type)) := by
  simp [ofSignature, declareAll, List.foldl_map]

/-! ### Closures -/

/-- `t` is a scope inside a closure that was entered in `s`. -/
structure EntersFrom (s t : Scope) : Prop where
  outer_eq : t.outer = s.frames
  closures : ∃ c cs, t.closures = c :: cs ∧ c.base = s.frames.length ∧
    List.Forall₂ OpenClosure.Extends s.closures cs
  count_le : s.count ≤ t.count

namespace EntersFrom

variable {s t t' : Scope}

theorem declareAll (s : Scope) (params : List (String × Ty)) :
    s.EntersFrom (s.enterClosure.declareAll params) := by
  rw [declareAll_eq]
  exact ⟨rfl, ⟨_, _, rfl, rfl, forall₂_extends_refl _⟩, Nat.le_add_right _ _⟩

theorem extends' (h : s.EntersFrom t) (ht : t.Extends t') : s.EntersFrom t' := by
  obtain ⟨c, cs, hcs, hbase, hall⟩ := h.closures
  have hext := ht.closures
  rw [hcs] at hext
  cases hclosures : t'.closures with
  | nil =>
      rw [hclosures] at hext
      cases hext
  | cons c' cs' =>
      rw [hclosures] at hext
      cases hext with
      | cons hc hrest =>
          exact ⟨ht.outer_eq.trans h.outer_eq,
            ⟨c', cs', hclosures, hc.base_eq.trans hbase, forall₂_extends_trans hall hrest⟩,
            Nat.le_trans h.count_le ht.count_le⟩

/-- Leaving the closure gives back the scope it was entered in. -/
theorem exitClosure (h : s.EntersFrom t) : s.Extends t.exitClosure.2 := by
  obtain ⟨c, cs, hcs, -, hall⟩ := h.closures
  have hpop : t.pop = { t with innermost := s.innermost, outer := s.outer } := by
    simp [pop, h.outer_eq, frames]
  simp only [Scope.exitClosure, hcs, hpop]
  exact ⟨rfl, rfl, hall, h.count_le⟩

end EntersFrom

end Scope

end Boxlang
