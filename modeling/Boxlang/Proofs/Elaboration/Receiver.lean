import Boxlang.Proofs.Elaboration.Complete

/-!
# Receivers

The method that a call resolves to is found on the type of the receiver with its
variables replaced by their constraints, while the receiver is held as its own type
permits.  So the receiver is held as the owner of the method expects it exactly if its
type is itself of the kind of declaration that owns the method; a generic variable
never is.
-/

namespace Boxlang

open Conversion

/-- The kinds of declarations whose values have native representations. -/
inductive DeclKind where
  | object
  | value
  | enum
  deriving DecidableEq

def Ty.declKind? : Ty → Option DeclKind
  | .object _ _ => some .object
  | .value _ _ => some .value
  | .enum _ => some .enum
  | _ => none

/-! ### What a method is found on -/

namespace Package

variable {p : Package} {name : String} {t : Ty} {id : FunctionId}

theorem test_of_findLast? {test : Signature → Bool} (h : p.findLast? test = some id) :
    test (p.signature id) = true := by
  obtain ⟨⟨f, i⟩, hfound, rfl⟩ := Option.map_eq_some_iff.mp h
  have hmem := List.mem_reverse.mp (List.mem_of_find?_eq_some hfound)
  obtain rfl : p.signature i = f := by
    rw [signature, List.getD_eq_getElem?_getD, List.mem_zipIdx_iff_getElem?.mp hmem]
    rfl
  exact List.find?_some (p := fun q : Signature × Nat => test q.1) hfound

theorem ownerName_of_ownMethod? (h : p.ownMethod? name t = some id) :
    ∃ owner, t.nominalName? = some owner ∧ (p.signature id).ownerName? = some owner := by
  obtain ⟨owner, howner, hfind⟩ := Option.bind_eq_some_iff.mp h
  have htest := test_of_findLast? hfind
  simp only [Bool.and_eq_true, decide_eq_true_eq] at htest
  exact ⟨owner, howner, htest.1⟩

theorem ownerName_of_method? (hsuper : p.declarations.superclass? t.unboxed = none)
    (h : p.method? t name = some id) :
    ∃ owner, t.unboxed.nominalName? = some owner ∧ (p.signature id).ownerName? = some owner := by
  have hno : p.declarations.findSomeAncestor? t.unboxed (p.ownMethod? name) = none := by
    rw [Declarations.findSomeAncestor?_eq_findSome?, Declarations.ancestors]
    cases p.declarations.ancestorSteps t.unboxed with
    | zero => rfl
    | succ n => simp [Declarations.ancestorsWithin, hsuper]
  rw [method?, hno] at h
  exact ownerName_of_ownMethod? (by simpa using h)

end Package

/-! ### Receivers and owners -/

namespace Ty

variable {t : Ty} {k : DeclKind}

theorem storage_of_declKind? (h : t.declKind? = some k) : t.storage = .simple := by
  cases t with
  | object | value | enum => rfl
  | _ => cases h

end Ty

namespace Declarations

variable {d : Declarations} {t u : Ty} {k : DeclKind}

theorem llvmType_of_simple_erased (h : t.storage = .simple) : d.llvmType t = d.nativeType t.erased :=
  (llvmType_of_simple d h).trans (nativeType_eq_of_head_eq (Ty.head_erased h).symm)

theorem declKind?_eq_of_nativeType_eq {l : DeclKind} (ht : t.declKind? = some k) (hu : u.declKind? = some l)
    (h : d.nativeType t = d.nativeType u) : k = l := by
  cases t <;> cases ht <;> cases u <;> cases hu <;> first | rfl | cases h

end Declarations

variable {p : Package} {t owner : Ty} {name : String} {id : FunctionId} {k : DeclKind}

theorem ReceiverOk.exists_name (h : ReceiverOk p t name id)
    (hsuper : ∀ c : GenericContext, p.declarations.superclass? (c.upperBound t.erased).unboxed = none) :
    ∃ (c : GenericContext) (owner : String), (c.upperBound t.erased).unboxed.nominalName? = some owner ∧
      (p.signature id).ownerName? = some owner := by
  obtain ⟨c, hfound⟩ := h.found
  exact ⟨c, Package.ownerName_of_method? (hsuper c) hfound⟩

theorem ReceiverOk.alike_iff (h : ReceiverOk p t name id) (howner : (p.signature id).owner? = some owner)
    (hk : owner.declKind? = some k) : Alike p.declarations t owner ↔ t.erased.declKind? = some k := by
  have hos := Ty.storage_of_declKind? hk
  have hnative (hs : t.storage = .simple) : p.declarations.llvmType t = p.declarations.llvmType owner ↔
      p.declarations.nativeType t.erased = p.declarations.nativeType owner := by
    rw [Declarations.llvmType_of_simple_erased hs, Declarations.llvmType_of_simple _ hos]
  constructor
  · intro ha
    have hs : t.storage = .simple := ha.storage_eq.trans hos
    have heq := (hnative hs).mp ha.llvmType_eq
    have hes : t.erased.storage = .simple := h.storage_eq.symm.trans hs
    cases he : t.erased with
    | object | value | enum =>
        rw [he] at heq
        exact congrArg some (Declarations.declKind?_eq_of_nativeType_eq rfl hk heq)
    | optional u => exact (Ty.storage_optional_ne_simple u (he ▸ hes)).elim
    | protocol | something | generic | localGeneric | callable => simp [he, Ty.storage] at hes
    | boxed u => exact (Ty.erased_ne_boxed t u he).elim
    | error | nothing | int | real | bool | byte | symbol | typeValue =>
        -- Nothing is found on types without a name, although some are represented as enums are.
        obtain ⟨c, name, hname, -⟩ := h.exists_name fun c => by rw [he]; rfl
        rw [he] at hname
        cases hname
  · intro hkind
    have hs : t.storage = .simple := h.storage_eq.trans (Ty.storage_of_declKind? hkind)
    refine ⟨hs.trans hos.symm, (hnative hs).mpr ?_⟩
    cases he : t.erased with
    | object | enum =>
        rw [he] at hkind
        cases hkind
        cases owner <;> cases hk
        rfl
    | value cls args =>
        rw [he] at hkind
        cases hkind
        cases owner <;> cases hk
        -- Value types differ in width, but the owner has the name of the one it was found on.
        next cls' args' =>
          obtain ⟨c, name, hname, hownerName⟩ := h.exists_name fun c => by rw [he]; rfl
          rw [he] at hname
          obtain rfl : cls = name := Option.some.inj hname
          rw [Signature.ownerName?, howner] at hownerName
          obtain rfl : cls' = cls := Option.some.inj hownerName
          rfl
    | _ => simp [he, Ty.declKind?] at hkind

/--
The receivers of all method calls in a body analysed without errors: a method of a
class, value type or enum gets its receiver in the representation of its owner exactly
if the type of the receiver is of that kind of declaration, and not, say, a generic
variable whose constraint has the method.
-/
theorem alike_owner_iff_of_analysesCleanly (p : Package) (warnDeprecated : Bool) (reports : List Report)
    (definition : Definition) (hp : p.ErrorFree) (hf : definition.function < p.functions.length)
    (hb : definition.body.IsFresh) (hclean : p.AnalysesCleanly warnDeprecated reports definition) :
    let after := (p.analyseDefinition warnDeprecated reports definition).1.body
    ∀ root ∈ after.stmts.flatMap Stmt.slots, ∀ slot, after.arena.Reaches root slot →
      ∀ receiver method arguments id owner k,
        (after.arena.get slot).kind = .methodCall receiver method arguments (some id) →
        (p.signature id).owner? = some owner → owner.declKind? = some k →
        ∃ t, (after.arena.get receiver).type? = some t ∧
          (Alike p.declarations t owner ↔ t.erased.declKind? = some k) := by
  intro after root hroot slot hreach receiver method arguments id owner k hkind howner hk
  have h := elaboratedFrom_analyseDefinition hp warnDeprecated reports hf hb hclean
  obtain ⟨Δ, hslot⟩ := h.elaborated_of_reaches hroot hreach
  have hform := hslot.nodeOk.form
  have hreceiver := hslot.operands receiver (by rw [hkind]; exact List.mem_cons_self)
  rw [hkind] at hform
  cases hform with
  | methodCall hok => exact ⟨_, hreceiver.nodeOk.typed, hok.alike_iff howner hk⟩

def meterPackage : Package where
  declarations := Declarations.prelude.addValue "Meter" {}
  functions := [
    { name := "get", owner? := some (.value "Meter" []), ret := .int },
    { name := "generic", generics := [⟨"T", .value "Meter" []⟩], params := [⟨"x", .localGeneric 0 "T"⟩] },
    { name := "native", params := [⟨"x", .value "Meter" []⟩] }]

/-- `x.get()` -/
def readMeter : Body where
  arena := { nodes := #[
    { span := ⟨0, 1⟩, kind := .localRef ⟨"x", ⟨0, 1⟩⟩ none },
    { span := ⟨0, 7⟩, kind := .methodCall 0 ⟨"get", ⟨2, 3⟩⟩ { span := ⟨5, 2⟩, args := [] } none }] }
  stmts := [.expr 1]

theorem errorFree_meterPackage : meterPackage.ErrorFree := by
  decide

theorem isFresh_readMeter : readMeter.IsFresh := by
  decide

/-- A value of the type itself is passed as the method expects it. -/
theorem alike_owner_nativeReceiver :
    meterPackage.ErrorFree ∧ 2 < meterPackage.functions.length ∧ readMeter.IsFresh ∧
      meterPackage.AnalysesCleanly true [] ⟨2, readMeter⟩ ∧
      ∃ t, ((meterPackage.analyseDefinition true [] ⟨2, readMeter⟩).1.body.arena.get 0).type? = some t ∧
        Alike meterPackage.declarations t (.value "Meter" []) := by
  have hclean : meterPackage.AnalysesCleanly true [] ⟨2, readMeter⟩ := by decide
  have htype : ((meterPackage.analyseDefinition true [] ⟨2, readMeter⟩).1.body.arena.get 0).type? =
      some (.value "Meter" []) := by decide
  obtain ⟨t, ht, hiff⟩ := alike_owner_iff_of_analysesCleanly meterPackage true [] ⟨2, readMeter⟩
    errorFree_meterPackage (by decide) isFresh_readMeter hclean 1 (by decide) 1 (.refl _ 1) 0
    ⟨"get", ⟨2, 3⟩⟩ { span := ⟨5, 2⟩, args := [] } 0 (.value "Meter" []) .value rfl rfl rfl
  obtain rfl : t = .value "Meter" [] := Option.some.inj (ht.symm.trans htype)
  exact ⟨errorFree_meterPackage, by decide, isFresh_readMeter, hclean, _, ht, hiff.mpr rfl⟩

/-- A value of a variable with that constraint stays in its box. -/
theorem not_alike_owner_genericReceiver :
    meterPackage.ErrorFree ∧ readMeter.IsFresh ∧ meterPackage.AnalysesCleanly true [] ⟨1, readMeter⟩ ∧
      let after := (meterPackage.analyseDefinition true [] ⟨1, readMeter⟩).1.body
      (after.arena.get 1).kind = .methodCall 0 ⟨"get", ⟨2, 3⟩⟩ { span := ⟨5, 2⟩, args := [] } (some 0) ∧
      (meterPackage.signature 0).owner? = some (.value "Meter" []) ∧
      (after.arena.get 0).type? = some (.localGeneric 0 "T") ∧
      (Ty.localGeneric 0 "T").storage ≠ (Ty.value "Meter" []).storage ∧
      meterPackage.declarations.llvmType (.localGeneric 0 "T") ≠
        meterPackage.declarations.llvmType (.value "Meter" []) :=
  ⟨errorFree_meterPackage, isFresh_readMeter, by decide, rfl, rfl, by decide, by decide, nofun⟩

end Boxlang
