import Boxlang.Emit.Box
import Boxlang.Proofs.Discipline.Basic

/-!
# Code for boxes keeps to a discipline

The code of boxes and optionals uses the operands that it is given, constants, symbols that
it is handed and the registers that it defines.  Of a value that may be void nothing is
stored or passed on, other than beside the flag of an optional.
-/

namespace Boxlang

namespace Emit

open Llvm

variable {p : Package} {D : Discipline p} {env : FunctionEnv} {owed : List Label}
  {pt : Point D.Ghost}

/-! ### Constants -/

section Constants

@[simp]
theorem has_none : D.Has pt .none :=
  D.has_constant trivial

@[simp]
theorem has_null : D.Has pt .null :=
  D.has_constant trivial

@[simp]
theorem has_undef : D.Has pt .undef :=
  D.has_constant trivial

@[simp]
theorem has_int (value : Int) : D.Has pt (.int value) :=
  D.has_constant trivial

@[simp]
theorem has_bool (value : Bool) : D.Has pt (.bool value) :=
  D.has_constant trivial

@[simp]
theorem has_real (bits : UInt64) : D.Has pt (.real bits) :=
  D.has_constant trivial

theorem isConstant_absentOperand (layout : OptionalLayout) : (absentOperand layout).IsConstant := by
  cases layout <;> trivial

@[simp]
theorem has_absentOperand (layout : OptionalLayout) : D.Has pt (absentOperand layout) :=
  D.has_constant (isConstant_absentOperand layout)

theorem gives_void : D.Gives pt .void :=
  ⟨has_none, fun _ => .inl rfl⟩

theorem gives_word {o : Operand} (ho : D.Has pt o) (bits : Nat) : D.Gives pt ⟨.int bits, o⟩ :=
  ⟨ho, fun _ => (LType.isHeld_int bits).isGiven⟩

end Constants

/-! ### Calls -/

theorem keeps_emitCall {ret : LType} {callee : Operand} {args : List Value}
    (hret : D.Typed → ret.IsGiven) (hcallee : D.Has pt callee)
    (hargs : ∀ v ∈ args, D.Gives pt v) :
    D.Keeps env owed pt (emitCall ret callee args) fun v pt' =>
      D.Has pt' v.operand ∧ v.type = ret := by
  have huses (o : Operand) (ho : o ∈ callee :: (args.filter (!·.isVoid)).map (·.operand)) :
      D.Has pt o := by
    rcases List.mem_cons.mp ho with rfl | ho
    · exact hcallee
    · obtain ⟨v, hv, rfl⟩ := List.mem_map.mp ho
      exact (hargs v (List.mem_filter.mp hv).1).has
  have hheld (htyped : D.Typed) : ∀ v ∈ args.filter (!·.isVoid), v.type.IsHeld := fun _ =>
    isHeld_of_mem_filter fun v hv => (hargs v hv).isGiven htyped
  unfold emitCall
  dsimp only
  split
  next hvoid =>
    refine .bind (D.emit ⟨huses, hheld⟩ rfl not_false) fun _ _ _ _ => .pure ?_
    exact ⟨has_none, (Declarations.eq_void_of_isVoid hvoid).symm⟩
  next hvoid =>
    refine .map (.mono (D.define (fun _ => ⟨huses, fun htyped => ?_⟩) (fun _ => rfl)
      fun _ => not_false) fun o _ ho => ⟨ho, rfl⟩)
    exact ⟨(hret htyped).isHeld hvoid, hheld htyped⟩

theorem keeps_callRuntime {name : String} (h : name ∈ runtimeNames) {args : List Value}
    (hargs : ∀ v ∈ args, D.Gives pt v) :
    D.Keeps env owed pt (emitCall .ptr (runtime name) args) fun v pt' => D.Gives pt' v :=
  (keeps_emitCall (fun _ => LType.isHeld_ptr.isGiven) (D.has_runtime h) hargs).mono
    fun _ _ ⟨hv, htype⟩ => ⟨hv, fun _ => htype ▸ LType.isHeld_ptr.isGiven⟩

/-! ### Memory -/

section Memory

variable {type : LType} {pointer : Operand}

theorem keeps_address (htype : D.Typed → type.IsHeld) (hpointer : D.Has pt pointer)
    (indices : List Nat) :
    D.Keeps env owed pt (define (.address · type pointer indices)) fun o pt' => D.Has pt' o :=
  D.define (fun _ => ⟨by simpa [Instr.uses] using hpointer, htype⟩) (fun _ => rfl)
    fun _ => not_false

theorem keeps_load (htype : D.Typed → type.IsHeld) (hpointer : D.Has pt pointer) :
    D.Keeps env owed pt (define (.load · type pointer)) fun o pt' => D.Has pt' o :=
  D.define (fun _ => ⟨by simpa [Instr.uses] using hpointer, htype⟩) (fun _ => rfl)
    fun _ => not_false

theorem keeps_loadPointer (hpointer : D.Has pt pointer) :
    D.Keeps env owed pt (define (.load · .ptr pointer)) fun o pt' => D.Has pt' o :=
  keeps_load (fun _ => LType.isHeld_ptr) hpointer

theorem keeps_store {v : Value} (hv : D.Has pt v.operand) (htype : D.Typed → v.type.IsHeld)
    (hpointer : D.Has pt pointer) :
    D.Keeps env owed pt (emit (.store v pointer)) fun _ pt' =>
      pt'.function.label = pt.function.label :=
  D.emit ⟨by simpa [Instr.uses] using ⟨hv, hpointer⟩, htype⟩ rfl not_false

theorem keeps_storePointer {value : Operand} (hvalue : D.Has pt value)
    (hpointer : D.Has pt pointer) :
    D.Keeps env owed pt (storePointer value pointer) fun _ pt' =>
      pt'.function.label = pt.function.label :=
  keeps_store (v := .pointer value) hvalue (fun _ => LType.isHeld_ptr) hpointer

theorem keeps_compare (relation : Relation) {v : Value} {other : Operand}
    (hv : D.Has pt v.operand) (htype : D.Typed → v.type.IsHeld) (hother : D.Has pt other) :
    D.Keeps env owed pt (define (.compare · relation v other)) fun o pt' => D.Has pt' o :=
  D.define (fun _ => ⟨by simpa [Instr.uses] using ⟨hv, hother⟩, htype⟩) (fun _ => rfl)
    fun _ => not_false

theorem keeps_comparePointer (relation : Relation) {value other : Operand}
    (hvalue : D.Has pt value) (hother : D.Has pt other) :
    D.Keeps env owed pt (define (.compare · relation (.pointer value) other)) fun o pt' =>
      D.Has pt' o :=
  keeps_compare relation (v := .pointer value) hvalue (fun _ => LType.isHeld_ptr) hother

theorem keeps_sizeFor (htype : D.Typed → type.IsHeld) :
    D.Keeps env owed pt (sizeFor type) fun o pt' => D.Has pt' o := by
  unfold sizeFor
  refine (keeps_address htype has_null [1]).bind fun stop pt₁ _ hstop => ?_
  exact D.define (fun _ => ⟨by simpa [Instr.uses] using hstop, fun _ => trivial⟩) (fun _ => rfl)
    fun _ => not_false

theorem keeps_alloc (htype : D.Typed → type.IsHeld) :
    D.Keeps env owed pt (alloc type) fun o pt' => D.Has pt' o := by
  unfold alloc
  refine (keeps_sizeFor htype).bind fun size pt₁ _ hsize => .map ?_
  refine (keeps_callRuntime (by decide) ?_).mono fun _ _ h => h.has
  simpa using gives_word hsize 64

theorem keeps_allocBox : D.Keeps env owed pt (alloc .box) fun o pt' => D.Has pt' o :=
  keeps_alloc fun _ => LType.isHeld_box

end Memory

/-! ### Fields of a box -/

section Fields

variable {box : Operand} (hbox : D.Has pt box)
include hbox

theorem keeps_metaOfObject : D.Keeps env owed pt (metaOfObject box) fun o pt' => D.Has pt' o :=
  keeps_loadPointer hbox

theorem keeps_tagField : D.Keeps env owed pt (tagField box) fun o pt' => D.Has pt' o :=
  keeps_address (fun _ => LType.isHeld_box) hbox _

theorem keeps_valueField : D.Keeps env owed pt (valueField box) fun o pt' => D.Has pt' o :=
  keeps_address (fun _ => LType.isHeld_box) hbox _

theorem keeps_wordField (word : Nat) :
    D.Keeps env owed pt (wordField box word) fun o pt' => D.Has pt' o :=
  keeps_address (fun _ => LType.isHeld_box) hbox _

theorem keeps_loadWord (word : Nat) :
    D.Keeps env owed pt (loadWord box word) fun o pt' => D.Has pt' o := by
  unfold loadWord
  exact (keeps_wordField hbox word).bind fun _ _ _ hfield => keeps_loadPointer hfield

theorem keeps_storeWord (word : Nat) {value : Operand} (hvalue : D.Has pt value) :
    D.Keeps env owed pt (storeWord box word value) Frame.Whatever := by
  unfold storeWord
  refine (keeps_wordField hbox word).bind fun field pt₁ h₁ hfield => ?_
  exact (keeps_storePointer (h₁.has hvalue) hfield).whatever

theorem keeps_loadTag : D.Keeps env owed pt (loadTag box) fun o pt' => D.Has pt' o := by
  unfold loadTag
  exact (keeps_tagField hbox).bind fun _ _ _ hfield => keeps_loadPointer hfield

theorem keeps_boxIsEmpty : D.Keeps env owed pt (boxIsEmpty box) fun o pt' => D.Has pt' o := by
  unfold boxIsEmpty
  exact (keeps_loadTag hbox).bind fun _ _ _ htag => keeps_comparePointer .eq htag has_null

/-- Nothing is stored of a value that is void. -/
theorem keeps_storeInBox {v : Value} (hv : D.Gives pt v) (t : Ty) :
    D.Keeps env owed pt (storeInBox box v t) Frame.Whatever := by
  unfold storeInBox
  split
  next => exact .pure trivial
  next hvoid =>
    have hheld := hv.isHeld hvoid
    refine (keeps_valueField hbox).bind fun field pt₁ h₁ hfield => ?_
    have hv₁ := h₁.has hv.has
    refine .read (reads_storedInline t) fun inline _ => ?_
    split
    next => exact (keeps_store hv₁ hheld hfield).whatever
    next =>
      refine (keeps_alloc hheld).bind fun memory pt₂ h₂ hmemory => ?_
      refine (keeps_store (h₂.has hv₁) hheld hmemory).bind fun _ pt₃ h₃ _ => ?_
      exact (keeps_storePointer (h₃.has hmemory) ((h₂.trans h₃).has hfield)).whatever

/-- Nothing is loaded of a type of void values. -/
theorem keeps_loadFromBox (t : Ty) :
    D.Keeps env owed pt (loadFromBox box t) fun v pt' =>
      D.Has pt' v.operand ∧ v.type = env.package.declarations.llvmType t := by
  unfold loadFromBox
  refine .read (reads_llvmType t) fun type htype => ?_
  subst htype
  split
  next hvoid => exact .pure ⟨has_none, (Declarations.eq_void_of_isVoid hvoid).symm⟩
  next hvoid =>
    have hheld := (env.package.declarations.isGiven_llvmType t).isHeld hvoid
    refine (keeps_valueField hbox).bind fun field pt₁ _ hfield => ?_
    refine .read (reads_storedInline t) fun inline _ => ?_
    have hload {source : Operand} {pt' : Point D.Ghost} (hsource : D.Has pt' source) :
        D.Keeps env owed pt' (do
          return Value.mk (env.package.declarations.llvmType t)
            (← define (.load · (env.package.declarations.llvmType t) source)))
          fun v pt'' => D.Has pt'' v.operand ∧ v.type = env.package.declarations.llvmType t :=
      .map ((keeps_load (fun _ => hheld) hsource).mono fun _ _ ho => ⟨ho, rfl⟩)
    split
    next =>
      rw [pure_bind]
      exact hload hfield
    next => exact (keeps_loadPointer hfield).bind fun _ _ _ hsource => hload hsource

theorem keeps_conformanceOf {protocol : String} (hprotocol : D.IsName protocol) :
    D.Keeps env owed pt (conformanceOf box protocol) fun o pt' => D.Has pt' o := by
  unfold conformanceOf
  refine (D.note (.protocol hprotocol)).bind fun symbol pt₁ h₁ hsymbol => .map ?_
  refine (keeps_callRuntime (by decide) ?_).mono fun _ _ h => h.has
  simpa using ⟨Frame.Gives.pointer (h₁.has hbox), Frame.Gives.pointer hsymbol⟩

end Fields

theorem keeps_metaSymbol {t : Ty} (ht : D.IsType t) :
    D.Keeps env owed pt (do return .global (← metaSymbol t)) fun o pt' => D.Has pt' o :=
  .map (D.note (.type ht))

theorem keeps_dynamicMeta {t : Ty} (ht : D.IsType t) {v : Value} (hv : D.Has pt v.operand) :
    D.Keeps env owed pt (dynamicMeta v t) fun o pt' => D.Has pt' o := by
  unfold dynamicMeta
  split
  next => exact keeps_metaOfObject hv
  next => exact keeps_metaSymbol ht

theorem keeps_makeCallable {function bound : Operand} (hfunction : D.Has pt function)
    (hbound : D.Has pt bound) :
    D.Keeps env owed pt (makeCallable function bound) fun v pt' => D.Gives pt' v := by
  unfold makeCallable
  refine keeps_allocBox.bind fun box pt₁ h₁ hbox => ?_
  refine (D.note .callable).bind fun tag pt₂ h₂ htag => ?_
  refine (keeps_tagField (h₂.has hbox)).bind fun field pt₃ h₃ hfield => ?_
  refine (keeps_storePointer (h₃.has htag) hfield).bind fun _ pt₄ h₄ _ => ?_
  have h₂₄ := (h₂.trans h₃).trans h₄
  have h₁₄ := h₁.trans h₂₄
  refine (keeps_storeWord (h₂₄.has hbox) 0 (h₁₄.has hfunction)).bind fun _ pt₅ h₅ _ => ?_
  refine (keeps_storeWord ((h₂₄.trans h₅).has hbox) 1 ((h₁₄.trans h₅).has hbound)).bind
    fun _ pt₆ h₆ _ => .pure ?_
  exact .pointer (((h₂₄.trans h₅).trans h₆).has hbox)

/-! ### Simple optionals -/

section Optionals

variable {v : Value} (hv : D.Has pt v.operand) (hheld : D.Typed → v.type.IsHeld)
  (layout : OptionalLayout)

section Held

include hv hheld

theorem keeps_extractValue (index : Nat) :
    D.Keeps env owed pt (define (.extractValue · v index)) fun o pt' => D.Has pt' o :=
  D.define (fun _ => ⟨by simpa [Instr.uses] using hv, hheld⟩) (fun _ => rfl) fun _ => not_false

theorem keeps_optionalIsEmpty :
    D.Keeps env owed pt (optionalIsEmpty v layout) fun o pt' => D.Has pt' o := by
  unfold optionalIsEmpty
  split
  next => exact keeps_comparePointer .eq hv has_null
  next => exact keeps_compare .eq hv hheld (has_int _)
  next =>
    refine (keeps_extractValue hv hheld 0).bind fun flag _ _ hflag => ?_
    exact D.define (fun _ => ⟨by simpa [Instr.uses] using hflag, fun _ => trivial⟩) (fun _ => rfl)
      fun _ => not_false

theorem keeps_optionalPayload (type : LType) :
    D.Keeps env owed pt (optionalPayload v layout type) fun u pt' =>
      D.Has pt' u.operand ∧ u.type = type := by
  unfold optionalPayload
  split
  next => exact .map ((keeps_extractValue hv hheld 1).mono fun _ _ ho => ⟨ho, rfl⟩)
  all_goals exact .pure ⟨hv, rfl⟩

end Held

/-- What is put into an optional may be void. -/
theorem keeps_wrapOptional {payload : Value} (hpayload : D.Gives pt payload) {type : LType}
    (htype : D.Typed → type.IsHeld) :
    D.Keeps env owed pt (wrapOptional payload layout type) fun u pt' =>
      D.Has pt' u.operand ∧ u.type = type := by
  unfold wrapOptional
  split
  next =>
    refine .bind (D.define (fun _ => ⟨by simp [Instr.uses], fun htyped => ?_⟩) (fun _ => rfl)
      fun _ => not_false) fun present pt₁ h₁ hpresent => .map ?_
    · exact ⟨htype htyped, .inl (LType.isHeld_int 1)⟩
    refine .mono (D.define (fun _ => ⟨?_, fun htyped => ?_⟩) (fun _ => rfl) fun _ => not_false)
      fun _ _ ho => ⟨ho, rfl⟩
    · simpa [Instr.uses] using ⟨hpresent, h₁.has hpayload.has⟩
    · exact ⟨htype htyped, (hpayload.isGiven htyped).symm.imp_right (⟨rfl, ·⟩)⟩
  all_goals exact .pure ⟨hpayload.has, rfl⟩

end Optionals

end Emit

end Boxlang
