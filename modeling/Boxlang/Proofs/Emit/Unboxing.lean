import Boxlang.Proofs.Emit.Tags

/-!
# Unboxing as a supertype

A value is boxed as its own type and may be unboxed as one above it.  Among simple types
that makes a difference for classes, whose boxes are not checked, and for type values,
whose tags are compared by the written forms of their types.  So a type value that was
boxed as that of a class is stopped where it is unboxed as that of a superclass, though
it is a value of that type.
-/

namespace Boxlang

open Llvm

namespace Llvm

/-- Every tag that the first code gives to its box is one that the second lets pass in its own. -/
def PassesChecks (boxing : List Instr) (box : Operand) (unboxing : List Instr) (box' : Operand) : Prop :=
  ∃ tag, storedTags boxing box = [tag] ∧ ∀ x ∈ comparedMetas unboxing box', tag = .global x

end Llvm

variable {d : Declarations} {c : GenericContext} {a b : Ty}

/-! ### Simple types one of which is below the other -/

namespace Ty

variable {t u : Ty} {name : String} {args : List Ty}

theorem exists_object_of_erased (h : t.erased = .object name args) (hs : t.storage = .simple) :
    ∃ args', t = .object name args' := by
  cases t with
  | boxed => cases hs
  | object => exact ⟨_, by rw [(object.inj h).1]⟩
  | _ => cases h

theorem exists_typeValue_of_erased (h : t.erased = .typeValue u) (hs : t.storage = .simple) :
    ∃ u', t = .typeValue u' := by
  cases t with
  | boxed => cases hs
  | typeValue => exact ⟨_, rfl⟩
  | _ => cases h

theorem metaName_of_simple (h : t.storage = .simple) : t.metaName = t.erased.text := by
  rw [metaName, isCallable_of_storage_ne_box (by simp [h]), if_neg Bool.false_ne_true]

end Ty

section Simple

variable (hsa : a.storage = .simple) (hsb : b.storage = .simple)
include hsa hsb

theorem erased_eq_or_of_widens (h : d.Widens c a b) (ha : a.mentionsError = false)
    (hb : b.mentionsError = false) :
    a.erased = b.erased ∨ (∃ n as m bs, a = .object n as ∧ b = .object m bs) ∨
      ∃ x y, a = .typeValue x ∧ b = .typeValue y := by
  have hcases := Declarations.eq_or_of_below (Declarations.widens_iff.mp h)
    (Ty.storage_erased_of_simple hsa) (Ty.storage_erased_of_simple hsb)
    (Ty.ne_error_of_mentionsError (by simpa using ha))
    (Ty.ne_error_of_mentionsError (by simpa using hb))
  obtain heq | ⟨n, as, m, bs, hao, hbo⟩ | ⟨x, y, hat, hbt⟩ := hcases
  · exact .inl heq
  · obtain ⟨as', rfl⟩ := Ty.exists_object_of_erased hao hsa
    obtain ⟨bs', rfl⟩ := Ty.exists_object_of_erased hbo hsb
    exact .inr (.inl ⟨_, _, _, _, rfl, rfl⟩)
  · obtain ⟨x', rfl⟩ := Ty.exists_typeValue_of_erased hat hsa
    obtain ⟨y', rfl⟩ := Ty.exists_typeValue_of_erased hbt hsb
    exact .inr (.inr ⟨_, _, rfl, rfl⟩)

end Simple

namespace Emit

/-! ### The code of both conversions -/

theorem metaGlobal_inj {name name' : String} : metaGlobal name = metaGlobal name' ↔ name = name' := by
  simp [metaGlobal]

/-- A conversion of a box that holds a value of a simple type to that type, or to the optional of it. -/
def UnboxesAs (op : Conversion) (t : Ty) : Prop :=
  op = .unbox t ∨ op = .unboxOptional (.optional t)

variable {op : Conversion} (env env' : FunctionEnv) {n : Nat}

theorem writes_realize_box (value : Value) (t source target : Ty) :
    Writes env n (realize (.box t none) value source target) fun v _ new =>
      ∃ tag, storedTags new v.operand = [tag] ∧
        ((∀ name args, t.unboxed ≠ .object name args) → tag = .global (metaGlobal t.metaName)) :=
  writes_realizeBox value t

theorem writes_realize_unbox (hop : UnboxesAs op b) (value : Value) (source target : Ty) :
    Writes env n (realize op value source target) fun _ _ new =>
      comparedMetas new value.operand = checkedMetas b := by
  rcases hop with rfl | rfl
  · exact writes_realizeUnbox value b
  · exact writes_realizeUnboxOptional value b

/-- From the world `w` the step succeeds with a result, and adds the code to the function. -/
def Yields {α : Type} (env : FunctionEnv) (w : World) (step : Emit α) (a : α) (code : List Instr) : Prop :=
  ∃ w', step.runIn env w = (.ok a, w') ∧ w'.function.code = w.function.code ++ code

theorem Writes.exists_yields {α : Type} {env : FunctionEnv} {w : World} {step : Emit α} {Q : α → Nat → List Instr → Prop}
    (h : Writes env w.function.nextRegister step Q) : ∃ a m code, Yields env w step a code ∧ Q a m code := by
  obtain ⟨a, w', hrun, code, hcode, hQ⟩ := (h w rfl).exists_ok trivial
  exact ⟨a, _, code, ⟨w', hrun, hcode⟩, hQ⟩

theorem exists_yields_realize (hop : UnboxesAs op b) (a : Ty) (w w' : World) (value value' : Value)
    (source target source' target' : Ty) :
    ∃ box boxing result unboxing tag,
      Yields env w (realize (.box a none) value source target) box boxing ∧
      Yields env' w' (realize op value' source' target') result unboxing ∧
      ((∀ name args, a.unboxed ≠ .object name args) → tag = Operand.global (metaGlobal a.metaName)) ∧
      (PassesChecks boxing box.operand unboxing value'.operand ↔
        ∀ x ∈ checkedMetas b, tag = Operand.global x) := by
  obtain ⟨box, -, boxing, hbox, tag, htags, htag⟩ :=
    (writes_realize_box env value a source target).exists_yields (w := w)
  obtain ⟨result, -, unboxing, hresult, hmetas⟩ :=
    (writes_realize_unbox env' hop value' source' target').exists_yields (w := w')
  refine ⟨box, boxing, result, unboxing, tag, hbox, hresult, htag, ?_⟩
  rw [PassesChecks, htags, hmetas]
  constructor
  · rintro ⟨tag', heq, h⟩
    obtain rfl : tag = tag' := by simpa using heq
    exact h
  · exact fun h => ⟨tag, rfl, h⟩

/-! ### Which boxes pass -/

/--
A box made of a value of a simple type passes where it is unboxed as a type above that
one, in whatever functions and states the two happen, exactly unless both are type
values whose types are written differently.
-/
theorem passesChecks_iff_of_isSubtype (hsub : d.isSubtype c a b = true)
    (hsa : a.storage = .simple) (hsb : b.storage = .simple)
    (ha : a.mentionsError = false) (hb : b.mentionsError = false) (hop : UnboxesAs op b)
    (w w' : World) (value value' : Value) (source target source' target' : Ty) :
    ∃ box boxing result unboxing,
      Yields env w (realize (.box a none) value source target) box boxing ∧
      Yields env' w' (realize op value' source' target') result unboxing ∧
      (PassesChecks boxing box.operand unboxing value'.operand ↔
        ∀ t, b = .typeValue t → a.erased.text = b.erased.text) := by
  obtain ⟨box, boxing, result, unboxing, tag, hbox, hresult, htag, hpasses⟩ :=
    exists_yields_realize env env' hop a w w' value value' source target source' target'
  refine ⟨box, boxing, result, unboxing, hbox, hresult, hpasses.trans ?_⟩
  have hua : a.unboxed = a := Ty.unboxed_of_storage_ne_box (by simp [hsa])
  have hub : b.unboxed = b := Ty.unboxed_of_storage_ne_box (by simp [hsb])
  rw [hua] at htag
  obtain heq | ⟨_, _, _, _, rfl, rfl⟩ | ⟨x, y, rfl, rfl⟩ :=
    erased_eq_or_of_widens hsa hsb (Declarations.widens_of_isSubtype hsub) ha hb
  · -- One type apart from marks: a class is not checked, every other type is tagged as it is checked.
    refine iff_of_true ?_ fun _ _ => by rw [heq]
    by_cases hobject : ∃ name args, b = .object name args
    · obtain ⟨name, args, rfl⟩ := hobject
      simp [checkedMetas, Ty.unboxed]
    · have hnb : ∀ name args, b ≠ .object name args := fun name args h => hobject ⟨name, args, h⟩
      have hna : ∀ name args, a ≠ .object name args := by
        rintro name args rfl
        obtain ⟨args', h⟩ := Ty.exists_object_of_erased heq.symm hsb
        exact hnb name args' h
      rw [checkedMetas_of_ne_object (by rwa [hub]), htag hna, Ty.metaName_of_simple hsa,
        Ty.metaName_of_simple hsb, heq]
      simp
  · simp [checkedMetas, Ty.unboxed]
  · rw [checkedMetas_of_ne_object (by simp [Ty.unboxed]), htag (by simp), Ty.metaName_of_simple hsa,
      Ty.metaName_of_simple hsb]
    simp [metaGlobal_inj]

def animals : Declarations :=
  Declarations.prelude.addClass "Animal" {}
    |>.addClass "Dog" { superclass := some (.object "Animal" []) }

def animalsEnv : FunctionEnv where
  package := { declarations := animals }
  name := "main"
  arena := {}
  variableCount := 0
  style := .free

def animalsWorld : World :=
  ⟨.start 0, {}⟩

/-- A dog that was boxed is unboxed as an animal without a check. -/
theorem passesChecks_dog :
    let dog : Ty := .object "Dog" []
    let animal : Ty := .object "Animal" []
    animals.isSubtype {} dog animal = true ∧ dog.storage = .simple ∧ animal.storage = .simple ∧
      dog.mentionsError = false ∧ animal.mentionsError = false ∧ UnboxesAs (.unbox animal) animal ∧
      ∃ box boxing result unboxing,
        Yields animalsEnv animalsWorld (realize (.box dog none) (.pointer (.param 0)) dog (.boxed dog))
          box boxing ∧
        Yields animalsEnv animalsWorld (realize (.unbox animal) (.pointer (.param 0)) (.boxed dog) animal)
          result unboxing ∧
        PassesChecks boxing box.operand unboxing (.param 0) := by
  intro dog animal
  have hsub : animals.isSubtype {} dog animal = true := by decide +kernel
  obtain ⟨box, boxing, result, unboxing, hbox, hresult, hpasses⟩ :=
    passesChecks_iff_of_isSubtype animalsEnv animalsEnv hsub rfl rfl rfl rfl (.inl rfl) animalsWorld
      animalsWorld (.pointer (.param 0)) (.pointer (.param 0)) dog (.boxed dog) (.boxed dog) animal
  exact ⟨hsub, rfl, rfl, rfl, rfl, .inl rfl, box, boxing, result, unboxing, hbox, hresult,
    hpasses.mpr nofun⟩

/-- The type of dogs that was boxed is stopped where it is unboxed as a type of animals. -/
theorem not_passesChecks_typeOfDogs :
    let dogs : Ty := .typeValue (.object "Dog" [])
    let types : Ty := .typeValue (.object "Animal" [])
    animals.isSubtype {} dogs types = true ∧ dogs.storage = .simple ∧ types.storage = .simple ∧
      dogs.mentionsError = false ∧ types.mentionsError = false ∧
      ∃ box boxing result unboxing,
        Yields animalsEnv animalsWorld (realize (.box dogs none) (.pointer (.param 0)) dogs (.boxed dogs))
          box boxing ∧
        Yields animalsEnv animalsWorld (realize (.unbox types) (.pointer (.param 0)) (.boxed dogs) types)
          result unboxing ∧
        ¬ PassesChecks boxing box.operand unboxing (.param 0) := by
  intro dogs types
  have hsub : animals.isSubtype {} dogs types = true := by decide +kernel
  obtain ⟨box, boxing, result, unboxing, tag, hbox, hresult, htag, hpasses⟩ :=
    exists_yields_realize animalsEnv animalsEnv (.inl rfl : UnboxesAs (.unbox types) types) dogs
      animalsWorld animalsWorld (.pointer (.param 0)) (.pointer (.param 0)) dogs (.boxed dogs) (.boxed dogs)
      types
  refine ⟨hsub, rfl, rfl, rfl, rfl, box, boxing, result, unboxing, hbox, hresult, fun h => ?_⟩
  have heq := hpasses.mp h (metaGlobal types.metaName) (by decide)
  rw [htag nofun] at heq
  exact absurd heq (by decide)

end Emit

end Boxlang
