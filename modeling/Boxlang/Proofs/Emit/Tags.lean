import Boxlang.Emit.Conversion
import Boxlang.Proofs.Emit.Run
import Boxlang.Proofs.Symbols.References
import Boxlang.Proofs.Types.Representation

/-!
# Tags of boxes

A value is boxed with the meta of its own type as the tag, and unboxed as the type it
is used as.  The code that unboxes it compares the tag with the meta of that type and
traps if they differ, except for classes.

`storedTags` and `comparedMetas` read from code what is stored as the tag of a box and
what its tag is compared with.  `Emit.Writes` follows a step of generation to the code
that it adds.
-/

namespace Boxlang

open Llvm

namespace Llvm

/-! ### What code does to the tag of a box -/

def tagFields (code : List Instr) (box : Operand) : List Nat :=
  code.filterMap fun
    | .address dst _ base indices => if base = box ∧ indices = [0, 0] then some dst else none
    | _ => none

def storedTags (code : List Instr) (box : Operand) : List Operand :=
  code.filterMap fun
    | .store value (.register r) => if r ∈ tagFields code box then some value.operand else none
    | _ => none

def loadedTags (code : List Instr) (box : Operand) : List Nat :=
  code.filterMap fun
    | .load dst _ (.register r) => if r ∈ tagFields code box then some dst else none
    | _ => none

def Instr.comparedMeta? (tags : List Nat) : Instr → Option Global
  | .compare _ .ne ⟨_, .register r⟩ (.global x) => if r ∈ tags then some x else none
  | _ => none

def comparedMetas (code : List Instr) (box : Operand) : List Global :=
  code.filterMap (Instr.comparedMeta? (loadedTags code box))

def Instr.IsUncompared : Instr → Prop
  | .compare _ .ne _ (.global _) => False
  | _ => True

theorem Instr.IsUncompared.comparedMeta?_eq_none {i : Instr} (h : i.IsUncompared) (tags : List Nat) :
    i.comparedMeta? tags = none := by
  unfold comparedMeta?
  split
  next => exact h.elim
  next => rfl

/-- An instruction that has nothing to do with the tag of a box, where registers below `n` hold its address. -/
def Instr.IsUntagged (n : Nat) (box : Operand) : Instr → Prop
  | .address _ _ base indices => ¬ (base = box ∧ indices = [0, 0])
  | .load _ _ (.register r) | .store _ (.register r) => n ≤ r
  | .compare _ .ne _ (.global _) => False
  | _ => True

theorem Instr.IsUntagged.isUncompared {n : Nat} {box : Operand} {i : Instr} (h : i.IsUntagged n box) :
    i.IsUncompared := by
  unfold IsUncompared
  split
  next => exact h
  next => trivial

section Append

theorem filterMap_append_of_eq_none {α : Type} {read : Instr → Option α} (code : List Instr) {more : List Instr}
    (h : ∀ i ∈ more, read i = none) : (code ++ more).filterMap read = code.filterMap read := by
  rw [List.filterMap_append, List.filterMap_eq_nil_iff.mpr h, List.append_nil]

variable (code : List Instr) {more : List Instr} {box : Operand} {n : Nat}
  (hmore : ∀ i ∈ more, i.IsUntagged n box)
include hmore

theorem tagFields_append_of_isUntagged : tagFields (code ++ more) box = tagFields code box := by
  refine filterMap_append_of_eq_none code fun i hi => ?_
  have h := hmore i hi
  cases i <;> first | rfl | exact if_neg h

variable (hcode : ∀ r ∈ tagFields code box, r < n)
include hcode

theorem storedTags_append_of_isUntagged : storedTags (code ++ more) box = storedTags code box := by
  unfold storedTags
  rw [tagFields_append_of_isUntagged code hmore]
  refine filterMap_append_of_eq_none code fun i hi => ?_
  have h := hmore i hi
  split
  next r => exact if_neg fun hr => Nat.not_lt_of_le h (hcode r hr)
  next => rfl

theorem loadedTags_append_of_isUntagged : loadedTags (code ++ more) box = loadedTags code box := by
  unfold loadedTags
  rw [tagFields_append_of_isUntagged code hmore]
  refine filterMap_append_of_eq_none code fun i hi => ?_
  have h := hmore i hi
  split
  next r => exact if_neg fun hr => Nat.not_lt_of_le h (hcode r hr)
  next => rfl

theorem comparedMetas_append_of_isUntagged :
    comparedMetas (code ++ more) box = comparedMetas code box := by
  unfold comparedMetas
  rw [loadedTags_append_of_isUntagged code hmore hcode]
  exact filterMap_append_of_eq_none code fun i hi => (hmore i hi).isUncompared.comparedMeta?_eq_none _

end Append

end Llvm

namespace Emit

/-! ### Following a step to its code -/

/--
From every state whose next register is `n` the step succeeds and adds code, such that
`Q` holds of its result, of the next register then and of the code added.
-/
def Writes {α : Type} (env : FunctionEnv) (n : Nat) (step : Emit α)
    (Q : α → Nat → List Instr → Prop) : Prop :=
  ∀ w : World, w.function.nextRegister = n →
    Succeeds env w step fun a w' => ∃ new, w'.function.code = w.function.code ++ new ∧
      Q a w'.function.nextRegister new

namespace Writes

variable {α β : Type} {env : FunctionEnv} {n : Nat} {Q : α → Nat → List Instr → Prop}
  {R : β → Nat → List Instr → Prop}

theorem pure {a : α} (h : Q a n []) : Writes env n (pure a) Q :=
  fun _ hn => .pure ⟨[], (List.append_nil _).symm, hn ▸ h⟩

theorem mono {step : Emit α} {Q' : α → Nat → List Instr → Prop} (h : Writes env n step Q)
    (hQ : ∀ a m new, Q a m new → Q' a m new) : Writes env n step Q' := fun w hn =>
  (h w hn).mono fun _ _ ⟨new, hcode, ha⟩ => ⟨new, hcode, hQ _ _ _ ha⟩

theorem bind {step : Emit α} {next : α → Emit β}
    (h : Writes env n step fun a m new => Writes env m (next a) fun b k more => R b k (new ++ more)) :
    Writes env n (step >>= next) R := fun w hn =>
  (h w hn).bind_true fun _ w₁ ⟨new, hcode, hnext⟩ =>
    (hnext w₁ rfl).mono fun _ _ ⟨more, hmore, hR⟩ =>
      ⟨new ++ more, by rw [hmore, hcode, List.append_assoc], hR⟩

theorem of_runIn {step : Emit α} {f : World → α} {g : World → World}
    (hrun : ∀ w, step.runIn env w = (.ok (f w), g w))
    (hcode : ∀ w, (g w).function.code = w.function.code)
    (hnext : ∀ w, (g w).function.nextRegister = w.function.nextRegister) (h : ∀ w, Q (f w) n []) :
    Writes env n step Q := by
  intro w hn
  refine .of_runIn (hrun w) ⟨[], ?_, ?_⟩
  · rw [hcode w, List.append_nil]
  · rw [hnext w, hn]
    exact h w

theorem liftM {step : ModuleM α} (h : ∀ m, Q (step.run m).1 n []) :
    Writes env n (liftM step) Q :=
  of_runIn (fun _ => runIn_liftM step) (fun _ => rfl) (fun _ => rfl) fun w => h w.refs

theorem llvmType {t : Ty} {Q : LType → Nat → List Instr → Prop}
    (h : Q (env.package.declarations.llvmType t) n []) : Writes env n (llvmType t) Q :=
  of_runIn (g := id) (fun _ => rfl) (fun _ => rfl) (fun _ => rfl) fun _ => h

theorem storedInline {t : Ty} {Q : Bool → Nat → List Instr → Prop}
    (h : Q (env.package.declarations.storedInline t) n []) : Writes env n (storedInline t) Q :=
  of_runIn (g := id) (fun _ => rfl) (fun _ => rfl) (fun _ => rfl) fun _ => h

theorem get {Q : FunctionState → Nat → List Instr → Prop} (h : ∀ s, Q s n []) :
    Writes env n get Q :=
  of_runIn (g := id) (fun _ => runIn_get) (fun _ => rfl) (fun _ => rfl) fun w => h w.function

theorem freshLabel {role : BlockRole} {Q : Label → Nat → List Instr → Prop} (h : ∀ l, Q l n []) :
    Writes env n (freshLabel role) Q :=
  of_runIn (fun _ => runIn_modifyGet _) (fun _ => rfl) (fun _ => rfl) fun _ => h _

section Unit

variable {Q : Unit → Nat → List Instr → Prop}

theorem startBlock {label : Label} (h : Q () n []) : Writes env n (startBlock label) Q :=
  of_runIn (fun _ => runIn_modify _) (fun _ => rfl) (fun _ => rfl) fun _ => h

theorem finishBlock {exit : Terminator} (h : Q () n []) : Writes env n (finishBlock exit) Q := by
  refine of_runIn (fun _ => runIn_modify _) (fun w => ?_) (fun _ => rfl) fun _ => h
  simp [FunctionState.code]

theorem emit {i : Instr} (h : Q () n [i]) : Writes env n (emit i) Q := by
  intro w hn
  refine .of_runIn (runIn_modify _) ⟨[i], ?_, hn ▸ h⟩
  simp [FunctionState.code]

end Unit

theorem define {instr : Nat → Instr} {Q : Operand → Nat → List Instr → Prop}
    (h : Q (.register n) (n + 1) [instr n]) : Writes env n (define instr) Q := by
  intro w hn
  subst hn
  refine .of_runIn (a := .register w.function.nextRegister) (v := ⟨{ w.function with
    nextRegister := w.function.nextRegister + 1
    body := w.function.body ++ [instr w.function.nextRegister] }, w.refs⟩) rfl ⟨_, ?_, h⟩
  simp [FunctionState.code]

end Writes

/-! ### The check of a tag -/

section Check

variable {n : Nat} {box : Operand} {t : Ty} {args : List Value}

/--
The code that checks the tag of a box that is unboxed as the type, where `n` is the next
register.
-/
def tagCheck (n : Nat) (box : Operand) (t : Ty) (args : List Value) : List Instr :=
  match t.unboxed with
  | .object _ _ => []
  | _ => [
    .address n .box box [0, 0], .load (n + 1) .ptr (.register n),
    .compare (n + 2) .ne (.pointer (.register (n + 1))) (.global (metaGlobal t.metaName)),
    .callVoid (runtime "ember_panic") args]

theorem tagCheck_of_object {name : String} {targs : List Ty} (h : t.unboxed = .object name targs) :
    tagCheck n box t args = [] := by
  simp [tagCheck, h]

theorem tagCheck_of_ne_object (h : ∀ name targs, t.unboxed ≠ .object name targs) :
    tagCheck n box t args = [
      .address n .box box [0, 0], .load (n + 1) .ptr (.register n),
      .compare (n + 2) .ne (.pointer (.register (n + 1))) (.global (metaGlobal t.metaName)),
      .callVoid (runtime "ember_panic") args] := by
  unfold tagCheck
  split
  next name targs ht => exact (h name targs ht).elim
  next => rfl

def checkedMetas (t : Ty) : List Global :=
  match t.unboxed with
  | .object _ _ => []
  | _ => [metaGlobal t.metaName]

theorem checkedMetas_of_ne_object {t : Ty} (h : ∀ name args, t.unboxed ≠ .object name args) :
    checkedMetas t = [metaGlobal t.metaName] := by
  unfold checkedMetas
  split
  next name args ht => exact (h name args ht).elim
  next => rfl

theorem comparedMetas_around_tagCheck (code : List Instr) {rest : List Instr} {m : Nat}
    (hcode : ∀ i ∈ code, i.IsUncompared) (hrest : ∀ i ∈ rest, i.IsUntagged m box)
    (hbelow : ∀ r ∈ tagFields (code ++ tagCheck n box t args) box, r < m) :
    comparedMetas (code ++ tagCheck n box t args ++ rest) box = checkedMetas t := by
  rw [comparedMetas_append_of_isUntagged _ hrest hbelow, comparedMetas, List.filterMap_append,
    List.filterMap_eq_nil_iff.mpr fun i hi => (hcode i hi).comparedMeta?_eq_none _, List.nil_append]
  by_cases h : ∃ name targs, t.unboxed = .object name targs
  · obtain ⟨name, targs, ht⟩ := h
    simp [tagCheck_of_object ht, checkedMetas, ht]
  · have hne : ∀ name targs, t.unboxed ≠ .object name targs := fun _ _ ht => h ⟨_, _, ht⟩
    rw [checkedMetas_of_ne_object hne]
    have hloaded : n + 1 ∈ loadedTags (code ++ tagCheck n box t args) box := by
      simp [tagCheck_of_ne_object hne, loadedTags, tagFields]
    generalize loadedTags (code ++ tagCheck n box t args) box = tags at hloaded
    simp [tagCheck_of_ne_object hne, List.filterMap_cons, Instr.comparedMeta?, Value.pointer, hloaded]

end Check

/-! ### Steps that leave the tag alone -/

section Steps

variable {env : FunctionEnv} {n : Nat} {box : Operand}

theorem writes_alloc {type : LType} {Q : Operand → Nat → List Instr → Prop}
    (h : ∀ args, Q (.register (n + 2)) (n + 3) [.address n type .null [1],
      .pointerToInt (n + 1) (.register n), .call (n + 2) .ptr (runtime "ember_alloc") args]) :
    Writes env n (alloc type) Q :=
  .bind (.bind (.define (.define (.bind (.bind (.define (.pure (.pure (h _)))))))))

theorem writes_emitCheck {failed : Operand} {message : String} {Q : Unit → Nat → List Instr → Prop}
    (h : ∀ args, Q () n [.callVoid (runtime "ember_panic") args]) :
    Writes env n (emitCheck failed message) Q := by
  unfold emitCheck
  refine .bind (.freshLabel fun fail => .bind (.freshLabel fun ok => ?_))
  refine .bind (.finishBlock (.bind (.startBlock (.bind (.liftM fun m => ?_)))))
  exact .bind (.emit (.bind (.finishBlock (.startBlock (h _)))))

theorem writes_storeInBox {value : Value} {t : Ty} {Q : Unit → Nat → List Instr → Prop}
    (h : ∀ m new, (∀ i ∈ new, i.IsUntagged n box) → Q () m new) :
    Writes env n (storeInBox box value t) Q := by
  unfold storeInBox
  split
  next => exact .pure (h _ _ (by simp))
  next =>
    refine .bind (.define (.bind (.storedInline ?_)))
    split
    next =>
      refine .emit (h _ _ ?_)
      simp [Instr.IsUntagged]
    next =>
      refine .bind (writes_alloc fun args => .bind (.emit (.emit (h _ _ ?_))))
      simp [Instr.IsUntagged]
      omega

theorem writes_loadFromBox {t : Ty} {Q : Value → Nat → List Instr → Prop}
    (h : ∀ v m new, (∀ i ∈ new, i.IsUntagged n box) → Q v m new) :
    Writes env n (loadFromBox box t) Q := by
  unfold loadFromBox
  refine .bind (.llvmType ?_)
  split
  next => exact .pure (h _ _ _ (by simp))
  next =>
    refine .bind (.define (.bind (.storedInline ?_)))
    split
    next =>
      refine .bind (.pure (.bind (.define (.pure (h _ _ _ ?_)))))
      simp [Instr.IsUntagged]
    next =>
      refine .bind (.define (.bind (.define (.pure (h _ _ _ ?_)))))
      simp [Instr.IsUntagged]

theorem writes_wrapOptional {payload : Value} {layout : OptionalLayout} {type : LType}
    {Q : Value → Nat → List Instr → Prop}
    (h : ∀ v m new, (∀ r box, ∀ i ∈ new, i.IsUntagged r box) → Q v m new) :
    Writes env n (wrapOptional payload layout type) Q := by
  unfold wrapOptional
  split
  next =>
    refine .bind (.define (.bind (.define (.pure (h _ _ _ ?_)))))
    simp [Instr.IsUntagged]
  all_goals exact .pure (h _ _ _ (by simp))

/-! ### Steps that have to do with the tag -/

theorem metaSymbol_run_fst (t : Ty) (m : ModuleState) :
    ((metaSymbol t).run m).1 = metaGlobal t.metaName := by
  unfold metaSymbol Ty.metaName
  split <;> rfl

theorem writes_boxTag {value : Value} {t : Ty} {Q : Operand → Nat → List Instr → Prop}
    (hclass : ∀ name args, t.unboxed = .object name args →
      Q (.register n) (n + 1) [.load n .ptr value.operand])
    (hother : (∀ name args, t.unboxed ≠ .object name args) → Q (.global (metaGlobal t.metaName)) n []) :
    Writes env n (boxTag value t none) Q := by
  show Writes env n (dynamicMeta value t) Q
  unfold dynamicMeta
  split
  next name args ht => exact .define (hclass name args ht)
  next hne =>
    refine .bind (.liftM fun m => .pure ?_)
    rw [metaSymbol_run_fst]
    exact hother hne

/-- Classes are not checked; the tag of every other box is compared with the meta of the type. -/
theorem writes_checkTag {t : Ty} {Q : Unit → Nat → List Instr → Prop}
    (h : ∀ m args, n ≤ m → (∀ r ∈ tagFields (tagCheck n box t args) box, r < m) →
      Q () m (tagCheck n box t args)) :
    Writes env n (checkTag box t) Q := by
  unfold checkTag
  split
  next name args ht =>
    refine .pure ?_
    simpa [tagCheck_of_object ht, tagFields] using h n []
  next hne =>
    refine .bind (.bind (.define (.define (.bind (.liftM fun m => ?_)))))
    refine .bind (.define (writes_emitCheck fun args => ?_))
    rw [metaSymbol_run_fst]
    simpa [tagCheck_of_ne_object hne, tagFields] using h (n + 3) args

end Steps

/-! ### Boxing and unboxing -/

section Conversions

variable {env : FunctionEnv} {n : Nat}

/-- A box gets one tag, and unless it holds an object that is the meta of its type. -/
theorem writes_realizeBox (value : Value) (t : Ty) :
    Writes env n (realizeBox value t none) fun v _ new =>
      ∃ tag, storedTags new v.operand = [tag] ∧
        ((∀ name args, t.unboxed ≠ .object name args) → tag = .global (metaGlobal t.metaName)) := by
  refine .bind (writes_alloc fun args => .bind (writes_boxTag (fun name targs ht => ?_) fun hne => ?_))
  all_goals
    refine .bind (.define (.bind (.emit (.bind (writes_storeInBox fun m new hnew => .pure ?_)))))
    rw [List.append_nil]
  · refine ⟨.register (n + 3), ?_, fun hne => (hne name targs ht).elim⟩
    refine (storedTags_append_of_isUntagged [.address n .box .null [1],
      .pointerToInt (n + 1) (.register n), .call (n + 2) .ptr (runtime "ember_alloc") args,
      .load (n + 3) .ptr value.operand, .address (n + 4) .box (.register (n + 2)) [0, 0],
      .store (.pointer (.register (n + 3))) (.register (n + 4))] hnew ?_).trans ?_
    all_goals simp [storedTags, tagFields, Value.pointer]
  · refine ⟨.global (metaGlobal t.metaName), ?_, fun _ => rfl⟩
    refine (storedTags_append_of_isUntagged [.address n .box .null [1],
      .pointerToInt (n + 1) (.register n), .call (n + 2) .ptr (runtime "ember_alloc") args,
      .address (n + 3) .box (.register (n + 2)) [0, 0],
      .store (.pointer (.global (metaGlobal t.metaName))) (.register (n + 3))] hnew ?_).trans ?_
    all_goals simp [storedTags, tagFields, Value.pointer]

theorem writes_realizeUnbox (value : Value) (t : Ty) :
    Writes env n (realizeUnbox value t) fun _ _ new =>
      comparedMetas new value.operand = checkedMetas t := by
  refine .bind (writes_checkTag fun m args _ hbelow => writes_loadFromBox fun v _ new hnew => ?_)
  exact comparedMetas_around_tagCheck [] (by simp) hnew hbelow

theorem writes_realizeUnboxOptional (value : Value) (t : Ty) :
    Writes env n (realizeUnboxOptional value (.optional t)) fun _ _ new =>
      comparedMetas new value.operand = checkedMetas t := by
  unfold realizeUnboxOptional
  refine .bind (.llvmType (.bind (.bind (.bind (.define (.define (.define ?_)))))))
  refine .bind (.freshLabel fun _ => .bind (.freshLabel fun _ => .bind (.freshLabel fun _ => ?_)))
  refine .bind (.finishBlock (.bind (.startBlock (.bind ?_))))
  refine writes_checkTag (t := t) fun m args hm hbelow => ?_
  refine .bind (writes_loadFromBox fun v _ new hnew => .bind (writes_wrapOptional fun _ _ new' hnew' => ?_))
  refine .bind (.get fun _ => .bind (.finishBlock (.bind (.startBlock (.bind (.finishBlock ?_))))))
  refine .bind (.startBlock (.bind (.define (.pure ?_))))
  -- The test for an empty box reads the tag too, but compares it with null.
  refine (comparedMetas_around_tagCheck [
      .address n .box value.operand [0, 0], .load (n + 1) .ptr (.register n),
      .compare (n + 2) .eq (.pointer (.register (n + 1))) .null] (by simp [Instr.IsUncompared])
    (List.forall_mem_append.mpr ⟨hnew, List.forall_mem_append.mpr ⟨hnew' m _, ?_⟩⟩) ?_)
  · simp [Instr.IsUntagged]
  · intro r hr
    rw [tagFields, List.filterMap_append, List.mem_append] at hr
    rcases hr with hr | hr
    · obtain rfl : r = n := by simpa using hr
      omega
    · exact hbelow r hr

end Conversions

end Emit

end Boxlang
