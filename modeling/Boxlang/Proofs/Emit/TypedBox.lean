import Boxlang.Proofs.Emit.Typing

/-!
# Code for boxes and optionals type checks

The words of a box and its tag are pointers.  What is read from a box as a value of some
type, and what is taken out of a simple optional, has the LLVM type of that.
-/

namespace Boxlang

namespace Emit

open Llvm

variable {env : FunctionEnv} {params : List Value} {w : World}

/-! ### Memory -/

section Memory

variable {pointer : Operand} (hpointer : w.Has params pointer .ptr)
include hpointer

theorem produces_address {type : LType} (htype : type.isVoid = false) (indices : List Nat) :
    Produces env params w (define (.address · type pointer indices)) [] fun o w' =>
      w'.Has params o .ptr :=
  produces_define (fun _ => ⟨htype, hpointer⟩) (fun _ => rfl) (fun _ => rfl) fun _ => rfl

theorem produces_load {type : LType} (htype : type.isVoid = false) :
    Produces env params w (define (.load · type pointer)) [] fun o w' => w'.Has params o type :=
  produces_define (fun _ => ⟨htype, hpointer⟩) (fun _ => rfl) (fun _ => rfl) fun _ => rfl

theorem produces_store {value : Value} {type : LType} (hvoid : type.isVoid = false)
    (hvalue : w.Holds params value type) :
    Produces env params w (emit (.store value pointer)) [] Anything :=
  produces_emit ⟨hvalue.typeChecks hvoid, hpointer⟩ rfl rfl

theorem produces_storePointer {value : Operand} (hvalue : w.Has params value .ptr) :
    Produces env params w (storePointer value pointer) [] Anything :=
  produces_store hpointer rfl ⟨rfl, hvalue⟩

end Memory

/-- A call of the run-time library with the types that it is declared with. -/
theorem produces_emitCall {ret : LType} {name : String} {args : List Value}
    (hlibrary : ⟨⟨name⟩, ret, (args.filter (!·.isVoid)).map (·.type)⟩ ∈ library)
    (hargs : ∀ v ∈ args, w.Has params v.operand v.type) :
    Produces env params w (emitCall ret (runtime name) args) [] fun v w' =>
      w'.Holds params v ret := by
  have hchecks (v : Value) (hv : v ∈ args.filter (!·.isVoid)) :
      v.TypeChecks params w.function.code := by
    obtain ⟨hmem, hvoid⟩ := List.mem_filter.mp hv
    exact ⟨by simpa using hvoid, hargs v hmem⟩
  unfold emitCall
  dsimp only
  split
  next hvoid =>
    obtain rfl := LType.eq_void hvoid
    refine .and_then (produces_emit ⟨hlibrary, hchecks⟩ rfl rfl) fun _ _ _ _ => .pure ?_
    exact ⟨rfl, .none⟩
  next hvoid =>
    refine .map ?_
    refine .mono (produces_define (t := ret) (fun _ => ⟨by simpa using hvoid, hlibrary, hchecks⟩)
      (fun _ => rfl) (fun _ => rfl) fun _ => rfl) fun _ _ _ h => ⟨rfl, h⟩

theorem produces_sizeFor {type : LType} (htype : type.isVoid = false) :
    Produces env params w (sizeFor type) [] fun o w' => w'.Has params o (.int 64) := by
  unfold sizeFor
  refine (produces_address .null htype _).and_then fun stop _ _ hstop => ?_
  exact produces_define (fun _ => hstop) (fun _ => rfl) (fun _ => rfl) fun _ => rfl

theorem produces_allocSize {size : Operand} (hsize : w.Has params size (.int 64)) :
    Produces env params w (emitCall .ptr (runtime "ember_alloc") [⟨.int 64, size⟩]) [] fun v w' =>
      w'.Has params v.operand .ptr := by
  refine (produces_emitCall ?_ (by simpa using hsize)).mono fun _ _ _ h => h.2
  exact List.mem_cons_self

theorem produces_alloc {type : LType} (htype : type.isVoid = false) :
    Produces env params w (alloc type) [] fun o w' => w'.Has params o .ptr := by
  unfold alloc
  refine (produces_sizeFor htype).and_then fun size _ _ hsize => ?_
  exact .map (produces_allocSize hsize)

/-! ### Fields of a box -/

section Fields

variable {box : Operand} (hbox : w.Has params box .ptr)
include hbox

theorem produces_metaOfObject :
    Produces env params w (metaOfObject box) [] fun o w' => w'.Has params o .ptr :=
  produces_load hbox rfl

theorem produces_tagField :
    Produces env params w (tagField box) [] fun o w' => w'.Has params o .ptr :=
  produces_address hbox rfl _

theorem produces_valueField :
    Produces env params w (valueField box) [] fun o w' => w'.Has params o .ptr :=
  produces_address hbox rfl _

theorem produces_wordField (word : Nat) :
    Produces env params w (wordField box word) [] fun o w' => w'.Has params o .ptr :=
  produces_address hbox rfl _

theorem produces_loadWord (word : Nat) :
    Produces env params w (loadWord box word) [] fun o w' => w'.Has params o .ptr ∧
      ∃ n, o = .register n ∧ LoadsWord w'.function.code box word n := by
  unfold loadWord wordField
  refine .and_then (produces_define_mem (fun _ => ⟨rfl, hbox⟩) (fun _ => rfl) fun _ => rfl)
    fun field w₁ _ hfield => ?_
  obtain ⟨f, rfl, haddress⟩ := hfield
  have hfield : w₁.Has params (.register f) .ptr := .register haddress rfl rfl
  refine .mono (produces_define_mem (fun _ => ⟨rfl, hfield⟩) (fun _ => rfl) fun _ => rfl)
    fun o w₂ h₂ hload => ?_
  obtain ⟨n, rfl, hload⟩ := hload
  exact ⟨.register hload rfl rfl, n, rfl, f, h₂.code.subset haddress, hload⟩

theorem produces_storeWord (word : Nat) {value : Operand} (hvalue : w.Has params value .ptr) :
    Produces env params w (storeWord box word value) [] Anything := by
  unfold storeWord
  exact (produces_wordField hbox word).and_then fun field w₁ h₁ hfield =>
    produces_storePointer hfield (hvalue.mono h₁)

theorem produces_loadTag :
    Produces env params w (loadTag box) [] fun o w' => w'.Has params o .ptr := by
  unfold loadTag
  exact (produces_tagField hbox).and_then fun field w₁ _ hfield => produces_load hfield rfl

theorem produces_boxIsEmpty :
    Produces env params w (boxIsEmpty box) [] fun o w' => w'.Has params o (.int 1) := by
  unfold boxIsEmpty
  refine (produces_loadTag hbox).and_then fun tag w₁ _ htag => ?_
  exact produces_define (fun _ => ⟨rfl, htag, .null⟩) (fun _ => rfl) (fun _ => rfl) fun _ => rfl

theorem produces_storeInBox {value : Value} {type : LType} (hvalue : w.Holds params value type)
    (t : Ty) : Produces env params w (storeInBox box value t) [] Anything := by
  obtain rfl : value.type = type := hvalue.1
  unfold storeInBox
  split
  next => exact .pure trivial
  next hvoid =>
    replace hvoid : value.type.isVoid = false := by simpa [Value.isVoid] using hvoid
    refine (produces_valueField hbox).and_then fun field w₁ h₁ hfield => ?_
    refine (produces_storedInline t).and_then fun inline w₂ h₂ _ => ?_
    split
    next => exact produces_store (hfield.mono h₂) hvoid (hvalue.mono (h₁.trans h₂))
    next =>
      refine (produces_alloc hvoid).and_then fun memory w₃ h₃ hmemory => ?_
      refine (produces_store hmemory hvoid (hvalue.mono ((h₁.trans h₂).trans h₃))).and_then
        fun _ w₄ h₄ _ => ?_
      exact produces_storePointer ((hfield.mono h₂).mono (h₃.trans h₄)) (hmemory.mono h₄)

theorem produces_loadFromBox (t : Ty) :
    Produces env params w (loadFromBox box t) [] fun v w' =>
      w'.Holds params v (env.package.declarations.llvmType t) := by
  unfold loadFromBox
  refine (produces_llvmType t).and_then fun type w₁ _ htype => ?_
  obtain ⟨rfl, rfl⟩ := htype
  split
  next hvoid =>
    rw [LType.eq_void hvoid]
    exact .pure ⟨rfl, .none⟩
  next hvoid =>
    replace hvoid : (env.package.declarations.llvmType t).isVoid = false := by simpa using hvoid
    refine (produces_valueField hbox).and_then fun field w₂ _ hfield => ?_
    refine (produces_storedInline t).and_then fun inline w₃ h₃ _ => ?_
    split
    next =>
      rw [pure_bind]
      refine .map ?_
      exact (produces_load (hfield.mono h₃) hvoid).mono fun _ _ _ h => ⟨rfl, h⟩
    next =>
      refine (produces_load (hfield.mono h₃) rfl).and_then fun source w₄ _ hsource => ?_
      refine .map ?_
      exact (produces_load hsource hvoid).mono fun _ _ _ h => ⟨rfl, h⟩

end Fields

/-! ### Tags -/

theorem produces_dynamicMeta {value : Value} {t : Ty}
    (hvalue : ∀ name args, t.unboxed = .object name args → w.Has params value.operand .ptr) :
    Produces env params w (dynamicMeta value t) [] fun o w' => w'.Has params o .ptr := by
  unfold dynamicMeta
  split
  next name args hu => exact produces_metaOfObject (hvalue name args hu)
  next =>
    refine .map ?_
    exact (produces_liftM _ (by simp)).mono fun g _ _ _ => .global g

theorem produces_conformanceOf {tag : Operand} (htag : w.Has params tag .ptr) (protocol : String) :
    Produces env params w (conformanceOf tag protocol) [] fun o w' => w'.Has params o .ptr := by
  unfold conformanceOf
  refine (produces_liftM _ (by simp)).and_then fun symbol w₁ h₁ _ => ?_
  refine .map ?_
  refine (produces_emitCall (by simp [library, Value.pointer, Value.isVoid, LType.isVoid]) ?_).mono
    fun _ _ _ h => h.2
  simpa [Value.pointer] using ⟨htag.mono h₁, .global symbol⟩

theorem produces_makeCallable {function bound : Operand} (hfunction : w.Has params function .ptr)
    (hbound : w.Has params bound .ptr) :
    Produces env params w (makeCallable function bound) [] fun v w' => w'.Holds params v .ptr := by
  unfold makeCallable
  refine (produces_alloc rfl).and_then fun box w₁ h₁ hbox => ?_
  refine (produces_liftM _ (by simp)).and_then fun tag w₂ h₂ _ => ?_
  refine (produces_tagField (hbox.mono h₂)).and_then fun field w₃ h₃ hfield => ?_
  refine (produces_storePointer hfield (.global tag)).and_then fun _ w₄ h₄ _ => ?_
  have hbox₄ := hbox.mono ((h₂.trans h₃).trans h₄)
  have h₁₄ := (h₁.trans h₂).trans (h₃.trans h₄)
  refine (produces_storeWord hbox₄ 0 (hfunction.mono h₁₄)).and_then fun _ w₅ h₅ _ => ?_
  refine (produces_storeWord (hbox₄.mono h₅) 1 (hbound.mono (h₁₄.trans h₅))).and_then
    fun _ w₆ h₆ _ => .pure ⟨rfl, hbox₄.mono (h₅.trans h₆)⟩

/-! ### Simple optionals -/

inductive Represents : OptionalLayout → LType → LType → Prop where
  | nullPointer : Represents .nullPointer .ptr .ptr
  | sentinel (word : Int64) (bits : Nat) : Represents (.sentinel word) (.int bits) (.int bits)
  | flagged (t : LType) : Represents .flagged t (.struct [.int 1, t])

theorem represents_ofType (d : Declarations) {t : Ty} (h : t.storage = .simple) :
    Represents (.ofType t) (d.llvmType t) (d.llvmType (.optional t)) := by
  rw [d.llvmType_of_simple h, d.llvmType_optional h]
  cases t with
  | optional u => exact absurd h (Ty.storage_optional_ne_simple u)
  | object | typeValue => exact .nullPointer
  | symbol | enum => exact .sentinel _ _
  | _ => first | exact .flagged _ | cases h

theorem Represents.isVoid_eq_false {layout : OptionalLayout} {payload optional : LType}
    (h : Represents layout payload optional) : optional.isVoid = false := by
  cases h <;> rfl

section Optionals

variable {layout : OptionalLayout} {payload optional : LType}
  (hlayout : Represents layout payload optional)
include hlayout

theorem Represents.has_absentOperand (w : World) : w.Has params (absentOperand layout) optional := by
  cases hlayout with
  | nullPointer => exact .null
  | sentinel word bits => exact .int _ bits
  | flagged t => exact .zero _

theorem produces_optionalIsEmpty {value : Value} (hvalue : w.Holds params value optional) :
    Produces env params w (optionalIsEmpty value layout) [] fun o w' =>
      w'.Has params o (.int 1) := by
  obtain ⟨type, operand⟩ := value
  obtain ⟨rfl, hvalue⟩ := hvalue
  unfold optionalIsEmpty
  cases hlayout with
  | nullPointer =>
      exact produces_define (fun _ => ⟨rfl, hvalue, .null⟩) (fun _ => rfl) (fun _ => rfl)
        fun _ => rfl
  | sentinel word bits =>
      exact produces_define (fun _ => ⟨rfl, hvalue, .int _ bits⟩) (fun _ => rfl) (fun _ => rfl)
        fun _ => rfl
  | flagged t =>
      refine .and_then (produces_define (t := .int 1) (fun _ => ⟨⟨rfl, hvalue⟩, _, rfl, rfl⟩)
        (fun _ => rfl) (fun _ => rfl) fun _ => rfl) fun flag w₁ _ hflag => ?_
      exact produces_define (fun _ => hflag) (fun _ => rfl) (fun _ => rfl) fun _ => rfl

theorem produces_optionalPayload (hvoid : payload.isVoid = false) {value : Value}
    (hvalue : w.Holds params value optional) :
    Produces env params w (optionalPayload value layout payload) [] fun v w' =>
      w'.Holds params v payload := by
  obtain ⟨type, operand⟩ := value
  obtain ⟨rfl, hvalue⟩ := hvalue
  unfold optionalPayload
  cases hlayout with
  | nullPointer | sentinel => exact .pure ⟨rfl, hvalue⟩
  | flagged =>
      refine .map ?_
      exact .mono (produces_define (t := payload) (fun _ => ⟨⟨rfl, hvalue⟩, _, rfl, hvoid⟩)
        (fun _ => rfl) (fun _ => rfl) fun _ => rfl) fun _ _ _ h => ⟨rfl, h⟩

theorem produces_wrapOptional (hvoid : payload.isVoid = false) {value : Value}
    (hvalue : w.Holds params value payload) :
    Produces env params w (wrapOptional value layout optional) [] fun v w' =>
      w'.Holds params v optional := by
  obtain ⟨type, operand⟩ := value
  obtain ⟨rfl, hvalue⟩ := hvalue
  unfold wrapOptional
  cases hlayout with
  | nullPointer | sentinel => exact .pure ⟨rfl, hvalue⟩
  | flagged =>
      let optional : LType := .struct [.int 1, type]
      refine .and_then (produces_define (t := optional)
        (fun _ => ⟨⟨rfl, .undef _⟩, ⟨rfl, .bool true⟩, rfl⟩) (fun _ => rfl) (fun _ => rfl)
        fun _ => rfl) fun present w₁ h₁ hpresent => ?_
      refine .map ?_
      exact .mono (produces_define (t := optional)
        (fun _ => ⟨⟨rfl, hpresent⟩, ⟨hvoid, hvalue.mono h₁⟩, rfl⟩) (fun _ => rfl) (fun _ => rfl)
        fun _ => rfl) fun _ _ _ h => ⟨rfl, h⟩

end Optionals

/-! ### Checks -/

theorem produces_emitCheck {failed : Operand} (hfailed : w.Has params failed (.int 1))
    (message : String) : Produces env params w (emitCheck failed message) [] Anything := by
  unfold emitCheck
  refine (produces_freshLabel .checkFail).and_then fun fail w₁ h₁ _ => ?_
  refine (produces_freshLabel .checkOk).and_then fun ok w₂ h₂ _ => ?_
  refine .and_then (produces_finishBlock (hfailed.mono (h₁.trans h₂)) not_false) fun _ _ _ _ => ?_
  refine (produces_startBlock fail).and_then fun _ _ _ _ => ?_
  refine (produces_liftM _ (by simp)).and_then fun text w₃ _ _ => ?_
  refine .and_then (produces_emit ⟨?_, ?_⟩ rfl rfl) fun _ _ _ _ => ?_
  · simp [Operand.TakesTypes, runtime, library, Value.pointer]
  · simpa [Value.pointer] using ⟨rfl, .global text⟩
  refine .and_then (produces_finishBlock trivial not_false) fun _ _ _ _ => ?_
  exact produces_startBlock ok

end Emit

end Boxlang
