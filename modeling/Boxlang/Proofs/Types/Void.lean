import Boxlang.Proofs.Types.Representation

/-!
# Where void occurs in LLVM types

Of the types that can be written, only nothing has no values at run time, and only an
optional of nothing has void inside: it stands beside the flag of the optional.  The
LLVM type of any type is void itself, or the type of something that is held
(`Llvm.LType.IsHeld`).
-/

namespace Boxlang

open Llvm (LType)

namespace Llvm.LType

mutual

def mentionsVoid : LType → Bool
  | .void => true
  | .struct fields => anyMentionsVoid fields
  | _ => false

def anyMentionsVoid : List LType → Bool
  | [] => false
  | t :: ts => t.mentionsVoid || anyMentionsVoid ts

end

def HasVoidInside (t : LType) : Prop :=
  t ≠ .void ∧ t.mentionsVoid = true

def loneFlag : LType :=
  .struct [.int 1, .void]

/--
A type of values that are held somewhere: it is not void, and void occurs in it only
beside the flags of optionals of nothing.
-/
inductive IsHeld : LType → Prop where
  | free {t : LType} : t.mentionsVoid = false → IsHeld t
  | loneFlag : IsHeld loneFlag
  /-- The context of a closure, with a field for each captured value. -/
  | context {fields : List LType} : (∀ t ∈ fields, IsHeld t) → IsHeld (.struct fields)

/-- The type of what an expression gives: void, or the type of something that is held. -/
def IsGiven (t : LType) : Prop :=
  t = .void ∨ t.IsHeld

variable {t : LType}

theorem IsHeld.isVoid_eq (h : t.IsHeld) : t.isVoid = false := by
  cases h with
  | free h => cases t <;> first | rfl | cases h
  | loneFlag | context => rfl

theorem IsHeld.isGiven (h : t.IsHeld) : t.IsGiven :=
  .inr h

theorem IsGiven.isHeld (h : t.IsGiven) (hvoid : ¬ t.isVoid) : t.IsHeld := by
  apply h.resolve_left
  intro heq
  apply hvoid
  rw [heq]
  rfl

@[simp]
theorem isHeld_ptr : IsHeld .ptr :=
  .free rfl

@[simp]
theorem isHeld_int (bits : Nat) : IsHeld (.int bits) :=
  .free rfl

@[simp]
theorem isHeld_box : IsHeld .box :=
  .free rfl

end Llvm.LType

/-! ### Types of values -/

namespace Declarations

variable (d : Declarations) {t : Ty}

theorem nativeType_cases (t : Ty) :
    d.nativeType t = .void ∨ (d.nativeType t).mentionsVoid = false := by
  unfold nativeType
  split <;> first | exact .inr rfl | exact .inl rfl

theorem mentionsVoid_nativeType_iff (ht : t.mentionsError = false) (hs : t.storage = .simple) :
    (d.nativeType t).mentionsVoid = true ↔ t = .nothing := by
  have hvoid := d.isVoid_llvmType_iff ht
  rw [llvmType_of_simple d hs] at hvoid
  rw [← hvoid]
  rcases d.nativeType_cases t with heq | hfree
  · simp [heq, LType.mentionsVoid, LType.isVoid]
  · simp [hfree, (LType.IsHeld.free hfree).isVoid_eq]

/-- An optional of a simple type has a flag where the type has no niche, as nothing has none. -/
theorem optionalType_cases (t : Ty) :
    d.optionalType t = .struct [.int 1, d.nativeType t] ∨
      d.optionalType t = d.nativeType t ∧ (d.nativeType t).mentionsVoid = false := by
  unfold optionalType OptionalLayout.ofType nativeType
  cases t.unboxed <;> first | exact .inl rfl | exact .inr ⟨rfl, rfl⟩

theorem mentionsVoid_llvmType_iff (ht : t.mentionsError = false) :
    (d.llvmType t).mentionsVoid = true ↔ t = .nothing ∨ t = .optional .nothing := by
  cases hs : t.storage with
  | box =>
    rw [llvmType_of_box d hs]
    constructor
    · intro h
      cases h
    · rintro (rfl | rfl) <;> cases hs
  | simple =>
    rw [llvmType_of_simple d hs, d.mentionsVoid_nativeType_iff ht hs]
    constructor
    · exact .inl
    · rintro (h | rfl)
      · exact h
      · cases hs
  | simpleOptional =>
    obtain ⟨u, rfl, hu⟩ := Ty.exists_optional_of_storage hs
    have hnative := d.mentionsVoid_nativeType_iff (t := u) ht hu
    rw [llvmType_optional d hu]
    rcases d.optionalType_cases u with heq | ⟨heq, hfree⟩
    · simp [heq, LType.mentionsVoid, LType.anyMentionsVoid, hnative]
    · rw [heq, hnative]
      simp

theorem llvmType_void_iff (ht : t.mentionsError = false) :
    (d.llvmType t = .void ↔ t = .nothing) ∧
      ((d.llvmType t).HasVoidInside ↔ t = .optional .nothing) := by
  have hvoid : d.llvmType t = .void ↔ t = .nothing := by
    rw [← d.isVoid_llvmType_iff ht]
    constructor
    · intro h
      rw [h]
      rfl
    · exact eq_void_of_isVoid
  refine ⟨hvoid, ?_⟩
  rw [LType.HasVoidInside, ne_eq, hvoid, d.mentionsVoid_llvmType_iff ht]
  constructor
  · exact fun h => h.2.resolve_left h.1
  · rintro rfl
    simp

/-! ### Types of what is held -/

theorem isHeld_llvmType (hs : t.storage ≠ .simple) : (d.llvmType t).IsHeld := by
  cases hstorage : t.storage with
  | simple => exact absurd hstorage hs
  | box =>
    rw [llvmType_of_box d hstorage]
    exact LType.isHeld_ptr
  | simpleOptional =>
    obtain ⟨u, rfl, hu⟩ := Ty.exists_optional_of_storage hstorage
    rw [llvmType_optional d hu]
    rcases d.optionalType_cases u with heq | ⟨heq, hfree⟩
    · rw [heq]
      rcases d.nativeType_cases u with hvoid | hfree
      · rw [hvoid]
        exact .loneFlag
      · exact .free (by simp [LType.mentionsVoid, LType.anyMentionsVoid, hfree])
    · rw [heq]
      exact .free hfree

/-- What an expression of the type gives is void, or it is held. -/
theorem isGiven_llvmType (t : Ty) : (d.llvmType t).IsGiven := by
  by_cases hs : t.storage = .simple
  · rw [llvmType_of_simple d hs]
    exact (d.nativeType_cases t).imp_right .free
  · exact (d.isHeld_llvmType hs).isGiven

end Declarations

end Boxlang
