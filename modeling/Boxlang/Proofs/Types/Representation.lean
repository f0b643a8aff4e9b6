import Boxlang.Emit.Module
import Boxlang.Proofs.Subtyping.Rules
import Boxlang.Proofs.Types.ErrorFree
import Boxlang.Proofs.Types.Substitution

/-!
# How types are represented

The storage and the LLVM type of a type do not change when boxes are substituted
for its variables, and of two types held in the same storage, one of which is
below the other, both have the same LLVM type.
-/

namespace Boxlang

open Llvm (LType)

namespace Ty

/-! ### Storage -/

theorem unboxed_of_storage_ne_box {t : Ty} (h : t.storage ≠ .box) : t.unboxed = t := by
  cases t <;> simp_all [unboxed, storage]

theorem storage_optional (t : Ty) : (Ty.optional t).storage = .box ∧ t.storage ≠ .simple ∨
    (Ty.optional t).storage = .simpleOptional ∧ t.storage = .simple := by
  simp only [storage]
  cases t.storage <;> simp

theorem storage_optional_ne_simple (t : Ty) : (Ty.optional t).storage ≠ .simple := by
  rcases storage_optional t with ⟨h, -⟩ | ⟨h, -⟩ <;> simp [h]

theorem exists_optional_of_storage {t : Ty} (h : t.storage = .simpleOptional) :
    ∃ u, t = .optional u ∧ u.storage = .simple := by
  cases t with
  | optional u =>
      rcases storage_optional u with ⟨hbox, -⟩ | ⟨-, hu⟩
      · simp [hbox] at h
      · exact ⟨u, rfl, hu⟩
  | _ => simp [storage] at h

theorem storage_optional_of_simple {t : Ty} (h : t.storage = .simple) :
    (Ty.optional t).storage = .simpleOptional := by
  simp [storage, h]

theorem storage_ne_simple_of_optionalInner? {t v : Ty} (h : t.optionalInner? = some v) :
    t.storage ≠ .simple := by
  intro hs
  rw [optionalInner?, unboxed_of_storage_ne_box (by simp [hs])] at h
  split at h
  next inner => exact storage_optional_ne_simple inner hs
  next => cases h

theorem storage_of_optionalInner? {t v : Ty} (h : t.optionalInner? = some v)
    (hs : t.storage = .simpleOptional) : v.storage = .simple := by
  obtain ⟨u, rfl, hu⟩ := exists_optional_of_storage hs
  obtain rfl : u = v := Option.some.inj h
  exact hu

theorem storage_of_unboxed_callable {t ret : Ty} {params : List Ty}
    (h : t.unboxed = .callable params ret) : t.storage = .box := by
  cases t <;> simp_all [unboxed, storage]

theorem isCallable_of_storage_ne_box {t : Ty} (h : t.storage ≠ .box) : t.isCallable = false := by
  unfold isCallable
  split
  next hu => exact (h (storage_of_unboxed_callable hu)).elim
  next => rfl

/-! ### Substitution -/

mutual

theorem every_of_mentionsError {p : Ty → Prop} (hp : ∀ t : Ty, t.mentionsError = false → p t) :
    ∀ t : Ty, t.mentionsError = false → t.Every p
  | .object _ args, h | .value _ args, h => ⟨hp _ h, everyAll_of_anyMentionsError hp args h⟩
  | .callable params ret, h => by
      have hparts : anyMentionsError params = false ∧ ret.mentionsError = false := by
        simpa [mentionsError] using h
      exact ⟨hp _ h, everyAll_of_anyMentionsError hp params hparts.1,
        every_of_mentionsError hp ret hparts.2⟩
  | .optional inner, h | .typeValue inner, h | .boxed inner, h =>
      ⟨hp _ h, every_of_mentionsError hp inner h⟩
  | .error, h | .nothing, h | .int, h | .real, h | .bool, h | .byte, h | .symbol, h => hp _ h
  | .something, h | .enum _, h | .protocol _, h | .generic _ _, h | .localGeneric _ _, h => hp _ h

theorem everyAll_of_anyMentionsError {p : Ty → Prop} (hp : ∀ t : Ty, t.mentionsError = false → p t) :
    ∀ ts : List Ty, anyMentionsError ts = false → EveryAll p ts
  | [], _ => trivial
  | t :: ts, h => by
      have hparts : t.mentionsError = false ∧ anyMentionsError ts = false := by
        simpa [anyMentionsError] using h
      exact ⟨every_of_mentionsError hp t hparts.1, everyAll_of_anyMentionsError hp ts hparts.2⟩

end

/-- A mark on the error type would get lost when the type is built anew. -/
theorem every_ne_boxed_error {t : Ty} (h : t.mentionsError = false) : t.Every (· ≠ .boxed .error) := by
  refine every_of_mentionsError (fun u hu => ?_) t h
  rintro rfl
  simp [mentionsError] at hu

def OnlyBoxes (substitutes : Nat → Option Ty) : Prop :=
  ∀ i u, substitutes i = some u → u.storage = .box

theorem onlyBoxes_map_inBox {substitutes : Nat → Option Ty} (h : ∀ i, substitutes i ≠ some .error) :
    OnlyBoxes fun i => (substitutes i).map inBox := by
  intro i u hu
  obtain ⟨v, hv, rfl⟩ := Option.map_eq_some_iff.mp hu
  exact storage_inBox fun hve => h i (hve ▸ hv)

variable {owner locals : Nat → Option Ty}

theorem subst_ne_error (ho : OnlyBoxes owner) (hl : OnlyBoxes locals) :
    ∀ t : Ty, t.Every (· ≠ .boxed .error) → t ≠ .error → t.subst owner locals ≠ .error
  | .generic i n, _, _ => by
      cases hi : owner i with
      | none => simp [subst, hi]
      | some u =>
          rintro hu
          obtain rfl : u = .error := by simpa [subst, hi] using hu
          cases ho i _ hi
  | .localGeneric i n, _, _ => by
      cases hi : locals i with
      | none => simp [subst, hi]
      | some u =>
          rintro hu
          obtain rfl : u = .error := by simpa [subst, hi] using hu
          cases hl i _ hi
  | .boxed inner, h, _ => by
      have hinner := subst_ne_error ho hl inner h.2 fun he => h.1 (he ▸ rfl)
      rw [subst]
      cases hs : inner.subst owner locals <;> simp_all [inBox]
  | .error, _, h => (h rfl).elim
  | .nothing, _, _ | .int, _, _ | .real, _, _ | .bool, _, _ | .byte, _, _ | .symbol, _, _ => nofun
  | .something, _, _ | .enum _, _, _ | .protocol _, _, _ | .object _ _, _, _ => nofun
  | .value _ _, _, _ | .callable _ _, _, _ | .optional _, _, _ | .typeValue _, _, _ => nofun

theorem storage_subst (ho : OnlyBoxes owner) (hl : OnlyBoxes locals) :
    ∀ t : Ty, t.Every (· ≠ .boxed .error) → (t.subst owner locals).storage = t.storage
  | .generic i n, _ => by
      cases hi : owner i with
      | none => simp [subst, hi]
      | some u => simpa [subst, hi, storage] using ho i u hi
  | .localGeneric i n, _ => by
      cases hi : locals i with
      | none => simp [subst, hi]
      | some u => simpa [subst, hi, storage] using hl i u hi
  | .optional inner, h => by
      simp only [subst, storage, storage_subst ho hl inner h.2]
  | .boxed inner, h => by
      simp only [subst, storage]
      exact storage_inBox (subst_ne_error ho hl inner h.2 fun he => h.1 (he ▸ rfl))
  | .error, _ | .nothing, _ | .int, _ | .real, _ | .bool, _ | .byte, _ | .symbol, _ => rfl
  | .something, _ | .enum _, _ | .protocol _, _ | .object _ _, _ | .value _ _, _ => rfl
  | .callable _ _, _ | .typeValue _, _ => rfl

end Ty

/-! ### LLVM types -/

namespace Declarations

variable (d : Declarations)

theorem llvmType_of_box {t : Ty} (h : t.storage = .box) : d.llvmType t = .ptr := by
  simp [llvmType, h]

theorem llvmType_of_simple {t : Ty} (h : t.storage = .simple) :
    d.llvmType t = d.nativeType t := by
  simp [llvmType, h]

def optionalType (t : Ty) : LType :=
  match OptionalLayout.ofType t with
  | .flagged => .struct [.int 1, d.nativeType t]
  | .nullPointer | .sentinel _ => d.nativeType t

theorem llvmType_optional {t : Ty} (h : t.storage = .simple) :
    d.llvmType (.optional t) = d.optionalType t := by
  cases hlayout : OptionalLayout.ofType t
  all_goals
    simp only [llvmType, Ty.storage_optional_of_simple h, Ty.optionalInner?, Ty.unboxed,
      Option.getD_some, optionalType, hlayout]

end Declarations

namespace Ty

def head : Ty → Ty
  | .object _ _ => .object "" []
  | .value name _ => .value name []
  | .typeValue _ => .typeValue .nothing
  | t => t

theorem head_erased {t : Ty} (h : t.storage = .simple) : t.erased.head = t.head := by
  cases t with
  | optional u => exact absurd h (storage_optional_ne_simple u)
  | _ => simp_all [storage, erased, head]

theorem storage_erased_of_simple {t : Ty} (h : t.storage = .simple) :
    t.erased.storage = .simple := by
  cases t with
  | optional u => exact absurd h (storage_optional_ne_simple u)
  | _ => simp_all [storage, erased]

theorem erased_ne_optional_of_simple {t : Ty} (h : t.storage = .simple) (u : Ty) :
    t.erased ≠ .optional u := by
  intro hu
  have hsimple := storage_erased_of_simple h
  rw [hu] at hsimple
  exact storage_optional_ne_simple u hsimple

end Ty

namespace Declarations

variable {d : Declarations} {c : GenericContext}

theorem nativeType_eq_of_head_eq {a b : Ty} (h : a.head = b.head) : d.nativeType a = d.nativeType b := by
  have hhead (t : Ty) : d.nativeType t.head = d.nativeType t := by
    cases t <;> rfl
  rw [← hhead a, h, hhead b]

theorem optionalType_eq_of_head_eq {a b : Ty} (h : a.head = b.head) : d.optionalType a = d.optionalType b := by
  have hlayout (t : Ty) : OptionalLayout.ofType t.head = OptionalLayout.ofType t := by
    cases t <;> rfl
  unfold optionalType
  rw [← hlayout a, h, hlayout b, nativeType_eq_of_head_eq h]

theorem eq_or_of_below {a b : Ty} (h : d.Below c a b) (ha : a.storage = .simple)
    (hb : b.storage = .simple) (hae : a ≠ .error) (hbe : b ≠ .error) :
    a = b ∨ (∃ n as m bs, a = .object n as ∧ b = .object m bs) ∨ ∃ x y, a = .typeValue x ∧ b = .typeValue y := by
  cases below_iff.mp h with
  | errorLeft => exact (hae rfl).elim
  | errorRight => exact (hbe rfl).elim
  | refl => exact .inl rfl
  | top | conforms | callable => simp [Ty.storage] at hb
  | optional | toOptional => exact absurd hb (Ty.storage_optional_ne_simple _)
  | byConstraint hbound =>
      cases a with
      | generic | localGeneric => simp [Ty.storage] at ha
      | _ => cases hbound
  | ancestor => exact .inr (.inl ⟨_, _, _, _, rfl, rfl⟩)
  | typeValue => exact .inr (.inr ⟨_, _, rfl, rfl⟩)

theorem head_eq_of_below {a b : Ty} (h : d.Below c a b) (ha : a.storage = .simple)
    (hb : b.storage = .simple) (hae : a ≠ .error) (hbe : b ≠ .error) : a.head = b.head := by
  obtain rfl | ⟨_, _, _, _, rfl, rfl⟩ | ⟨_, _, rfl, rfl⟩ := eq_or_of_below h ha hb hae hbe
  all_goals rfl

/-! ### Substitution -/

theorem llvmType_subst {owner locals : Nat → Option Ty} (ho : Ty.OnlyBoxes owner)
    (hl : Ty.OnlyBoxes locals) {t : Ty} (ht : t.Every (· ≠ .boxed .error)) :
    d.llvmType (t.subst owner locals) = d.llvmType t := by
  have hstorage := Ty.storage_subst ho hl t ht
  have hhead (u : Ty) (hu : u.storage = .simple) : (u.subst owner locals).head = u.head := by
    cases u with
    | optional v => exact absurd hu (Ty.storage_optional_ne_simple v)
    | _ => first | rfl | simp [Ty.storage] at hu
  cases hs : t.storage with
  | box => rw [llvmType_of_box d (hstorage.trans hs), llvmType_of_box d hs]
  | simple =>
      rw [llvmType_of_simple d (hstorage.trans hs), llvmType_of_simple d hs]
      exact nativeType_eq_of_head_eq (hhead t hs)
  | simpleOptional =>
      obtain ⟨u, rfl, hu⟩ := Ty.exists_optional_of_storage hs
      have hsu : (u.subst owner locals).storage = .simple := (Ty.storage_subst ho hl u ht.2).trans hu
      rw [Ty.subst, llvmType_optional d hsu, llvmType_optional d hu]
      exact optionalType_eq_of_head_eq (hhead u hu)

section Instantiation

variable (hargs : .error ∉ c.args) (howner : ∀ i, c.ownerArg? i ≠ some .error)
include hargs howner

theorem storage_instantiate_of_ne_error {t : Ty} (ht : t.Every (· ≠ .boxed .error)) :
    (c.instantiate t).storage = t.storage :=
  Ty.storage_subst (Ty.onlyBoxes_map_inBox howner)
    (Ty.onlyBoxes_map_inBox fun _ h => hargs (List.mem_of_getElem? h)) t ht

theorem llvmType_instantiate_of_ne_error {t : Ty} (ht : t.Every (· ≠ .boxed .error)) :
    d.llvmType (c.instantiate t) = d.llvmType t :=
  llvmType_subst (Ty.onlyBoxes_map_inBox howner)
    (Ty.onlyBoxes_map_inBox fun _ h => hargs (List.mem_of_getElem? h)) ht

end Instantiation

/-- What stands for a variable is held as the variable is. -/
theorem storage_instantiate (hc : c.ErrorFree) {t : Ty} (ht : t.mentionsError = false) :
    (c.instantiate t).storage = t.storage :=
  storage_instantiate_of_ne_error hc.error_notMem_args hc.ownerArg?_ne_error
    (Ty.every_ne_boxed_error ht)

/-- A callee is called with the representations that its own signature asks for. -/
theorem llvmType_instantiate (hc : c.ErrorFree) {t : Ty} (ht : t.mentionsError = false) :
    d.llvmType (c.instantiate t) = d.llvmType t :=
  llvmType_instantiate_of_ne_error hc.error_notMem_args hc.ownerArg?_ne_error
    (Ty.every_ne_boxed_error ht)

/-! ### Subtyping -/

/-- One type is below another, whatever the number of steps it takes to see that. -/
def Widens (d : Declarations) (c : GenericContext) (a b : Ty) : Prop :=
  ∃ n, d.isSubtypeWithin c n a.erased b.erased = true

theorem widens_of_isSubtype {a b : Ty} (h : d.isSubtype c a b = true) : d.Widens c a b :=
  ⟨_, h⟩

theorem widens_iff {a b : Ty} : d.Widens c a b ↔ d.Below c a.erased b.erased := Iff.rfl

theorem widens_of_erased_eq {a b : Ty} (h : a.erased = b.erased) : d.Widens c a b :=
  widens_iff.mpr (h ▸ .refl a.erased)

theorem head_eq_of_widens {a b : Ty} (h : d.Widens c a b) (ha : a.storage = .simple)
    (hb : b.storage = .simple) (hae : a.mentionsError = false) (hbe : b.mentionsError = false) :
    a.head = b.head := by
  rw [← Ty.head_erased ha, ← Ty.head_erased hb]
  refine head_eq_of_below (widens_iff.mp h) (Ty.storage_erased_of_simple ha)
    (Ty.storage_erased_of_simple hb) ?_ ?_
  · exact Ty.ne_error_of_mentionsError (by simpa using hae)
  · exact Ty.ne_error_of_mentionsError (by simpa using hbe)

theorem llvmType_eq_of_widens {a b : Ty} (h : d.Widens c a b) (hae : a.mentionsError = false)
    (hbe : b.mentionsError = false) (hs : a.storage = b.storage) :
    d.llvmType a = d.llvmType b := by
  cases hb : b.storage with
  | box => rw [llvmType_of_box d (hs.trans hb), llvmType_of_box d hb]
  | simple =>
      rw [llvmType_of_simple d (hs.trans hb), llvmType_of_simple d hb]
      exact nativeType_eq_of_head_eq (head_eq_of_widens h (hs.trans hb) hb hae hbe)
  | simpleOptional =>
      obtain ⟨x, rfl, hx⟩ := Ty.exists_optional_of_storage (hs.trans hb)
      obtain ⟨y, rfl, hy⟩ := Ty.exists_optional_of_storage hb
      have hxy : d.Widens c x y := below_optional_iff.mp (widens_iff.mp h)
      rw [llvmType_optional d hx, llvmType_optional d hy]
      exact optionalType_eq_of_head_eq (head_eq_of_widens hxy hx hy
        (by simpa [Ty.mentionsError] using hae) (by simpa [Ty.mentionsError] using hbe))

/-! ### Values of no size -/

theorem eq_void_of_isVoid {t : LType} (h : t.isVoid = true) : t = .void := by
  cases t <;> simp_all [LType.isVoid]

theorem isVoid_llvmType_iff {t : Ty} (ht : t.mentionsError = false) :
    (d.llvmType t).isVoid = true ↔ t = .nothing := by
  cases hs : t.storage with
  | box =>
      rw [llvmType_of_box d hs]
      constructor
      · intro h
        cases h
      · rintro rfl
        simp [Ty.storage] at hs
  | simple =>
      rw [llvmType_of_simple d hs]
      cases t with
      | optional u => exact absurd hs (Ty.storage_optional_ne_simple u)
      | _ => simp_all [nativeType, Ty.unboxed, LType.isVoid, Ty.storage, Ty.mentionsError]
  | simpleOptional =>
      obtain ⟨u, rfl, hu⟩ := Ty.exists_optional_of_storage hs
      rw [llvmType_optional d hu]
      cases u with
      | optional v => exact absurd hu (Ty.storage_optional_ne_simple v)
      | _ => simp_all [optionalType, OptionalLayout.ofType, nativeType, Ty.unboxed, LType.isVoid,
          Ty.storage]

end Declarations

end Boxlang
