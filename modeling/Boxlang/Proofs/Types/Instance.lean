import Boxlang.Proofs.Types.Representation

/-!
# One signature for all instances

A function is compiled once for all the arguments that its variables can have.  This
fits because an argument is put for a variable in a box, and a box is what the
variable itself is held in: no part of a signature is held otherwise in an instance.

The error type is the exception, since it takes no mark.  So no argument may be the
error type, and no mark may stand on it.
-/

namespace Boxlang

def Signature.allTypes (f : Signature) : List Ty :=
  f.ret :: (f.owner?.toList ++ f.params.map (·.type))

namespace Declarations

variable {d : Declarations} {c : GenericContext}

section Instantiation

variable (hargs : .error ∉ c.args) (howner : ∀ i, c.ownerArg? i ≠ some .error)
include hargs howner

/-- A function is declared with the LLVM types that its instance in a context asks for. -/
theorem declarationOf_eq_instance {f : Signature} (hf : ∀ t ∈ f.allTypes, t.Every (· ≠ .boxed .error)) :
    Emit.declarationOf d f =
      { symbol := ⟨f.qualifiedName⟩
        ret := d.llvmType (c.instantiate f.ret)
        params := (f.owner?.map fun t => d.llvmType (c.instantiate t)).toList ++
          (f.params.map fun p => d.llvmType (c.instantiate p.type)).filter (!·.isVoid) } := by
  have hsame {t : Ty} (ht : t ∈ f.allTypes) : d.llvmType (c.instantiate t) = d.llvmType t :=
    llvmType_instantiate_of_ne_error hargs howner (hf t ht)
  have howner : f.owner?.map (fun t => d.llvmType (c.instantiate t)) = f.owner?.map d.llvmType :=
    Option.map_congr fun t ht => hsame (by simp [Signature.allTypes, Option.mem_def.mp ht])
  have hparams : f.params.map (fun p => d.llvmType (c.instantiate p.type)) =
      f.params.map fun p => d.llvmType p.type :=
    List.map_congr_left fun p hp => hsame (by
      simpa [Signature.allTypes] using .inr (.inr ⟨p, hp, rfl⟩))
  rw [howner, hparams, hsame List.mem_cons_self]
  rfl

/--
Instantiation never changes how a value is held, so that one compiled signature of a
function fits all its instances.
-/
theorem representation_instantiate :
    (∀ t : Ty, t.Every (· ≠ .boxed .error) →
      (c.instantiate t).storage = t.storage ∧ d.llvmType (c.instantiate t) = d.llvmType t) ∧
    ∀ f : Signature, (∀ t ∈ f.allTypes, t.Every (· ≠ .boxed .error)) →
      Emit.declarationOf d f =
        { symbol := ⟨f.qualifiedName⟩
          ret := d.llvmType (c.instantiate f.ret)
          params := (f.owner?.map fun t => d.llvmType (c.instantiate t)).toList ++
            (f.params.map fun p => d.llvmType (c.instantiate p.type)).filter (!·.isVoid) } :=
  ⟨fun _ ht => ⟨storage_instantiate_of_ne_error hargs howner ht,
      llvmType_instantiate_of_ne_error hargs howner ht⟩,
    fun _ hf => declarationOf_eq_instance hargs howner hf⟩

end Instantiation

/-- A method `map[Result](pick: (Element) -> Result, first: Element?) -> Result?` of lists. -/
def mapSignature : Signature where
  name := "map"
  owner? := some (.object "List" [.generic 0 "Element"])
  generics := [{ name := "Result" }]
  params := [
    { name := "pick", type := .callable [.generic 0 "Element"] (.localGeneric 0 "Result") },
    { name := "first", type := .optional (.boxed (.generic 0 "Element")) },
    { name := "count", type := .optional .int }]
  ret := .optional (.localGeneric 0 "Result")

/-- Lists of optional integers, and a call for a result that is a string. -/
def mapContext : GenericContext where
  owner := some (.object "List" [.optional .int])
  args := [.string]

theorem representation_mapSignature :
    .error ∉ mapContext.args ∧ (∀ i, mapContext.ownerArg? i ≠ some .error) ∧
      (∀ t ∈ mapSignature.allTypes, t.Every (· ≠ .boxed .error)) ∧
      mapContext.instantiate mapSignature.ret = .optional (.boxed .string) ∧
      prelude.llvmType (mapContext.instantiate mapSignature.ret) = prelude.llvmType mapSignature.ret ∧
      Emit.declarationOf prelude mapSignature =
        { symbol := ⟨mapSignature.qualifiedName⟩
          ret := prelude.llvmType (.optional (.boxed .string))
          params := [.ptr, .ptr, .ptr, .struct [.int 1, .int 64]] } := by
  have hargs : .error ∉ mapContext.args := by decide
  have howner : ∀ i, mapContext.ownerArg? i ≠ some .error := by
    intro i
    cases i <;> simp [mapContext, GenericContext.ownerArg?, Ty.unboxed]
  have hf : ∀ t ∈ mapSignature.allTypes, t.Every (· ≠ .boxed .error) := by
    simp [mapSignature, Signature.allTypes, Ty.Every, Ty.EveryAll]
  obtain ⟨hty, hsig⟩ := representation_instantiate hargs howner (d := prelude)
  exact ⟨hargs, howner, hf, rfl, (hty _ (hf _ List.mem_cons_self)).2, hsig mapSignature hf⟩

end Declarations

end Boxlang
