import Boxlang.Emit.Package
import Boxlang.Proofs.Emit.Box

/-!
# Code that type checks

An operand has a type in a function: a register has that of the instruction that
defines it.  A function type checks if every instruction gets operands of the types it
asks for, and every end of a block a result of the declared type
(`FunctionDef.TypeChecks`).

The steps of generation keep what they find type checking (`Emit.Produces`).  Functions
that they make along the way are adapters of callables, and for each there is said
between which types it stands (`Emit.IsAdapter`).
-/

namespace Boxlang

open Llvm

namespace Llvm

/-! ### Types of operands -/

def LType.field? : LType → Nat → Option LType
  | .struct fields, i => fields[i]?
  | _, _ => none

def LType.isScalar : LType → Bool
  | .int _ | .ptr => true
  | _ => false

def Instr.resultType? : Instr → Option LType
  | .address _ _ _ _ | .alloca _ _ => some .ptr
  | .pointerToInt _ _ => some (.int 64)
  | .load _ type _ | .phi _ type _ => some type
  | .compare _ _ _ _ | .negate _ _ => some (.int 1)
  | .extractValue _ aggregate index => aggregate.type.field? index
  | .insertValue _ aggregate _ _ => some aggregate.type
  | .call _ ret _ _ => some ret
  | .store _ _ | .callVoid _ _ => none

inductive Operand.HasType (params : List Value) (code : List Instr) : Operand → LType → Prop where
  | none : HasType params code .none .void
  | param {o : Operand} {t : LType} : ⟨t, o⟩ ∈ params → HasType params code o t
  | register {i : Instr} {n : Nat} {t : LType} : i ∈ code → i.dst? = some n →
      i.resultType? = some t → HasType params code (.register n) t
  | global (g : Global) : HasType params code (.global g) .ptr
  | null : HasType params code .null .ptr
  | undef (t : LType) : HasType params code .undef t
  | zero (t : LType) : HasType params code .zero t
  | int (value : Int) (bits : Nat) : HasType params code (.int value) (.int bits)
  | bool (value : Bool) : HasType params code (.bool value) (.int 1)
  | real (bits : UInt64) : HasType params code (.real bits) .double

def library : List Emit.Declared :=
  [⟨⟨"ember_alloc"⟩, .ptr, [.int 64]⟩, ⟨⟨"ember_string_new"⟩, .ptr, [.ptr, .int 64]⟩,
    ⟨⟨"ember_conformance"⟩, .ptr, [.ptr, .ptr]⟩, ⟨⟨"ember_method"⟩, .ptr, [.ptr, .ptr]⟩,
    ⟨⟨"ember_panic"⟩, .void, [.ptr]⟩,
    ⟨⟨"llvm.memcpy.p0.p0.i64"⟩, .void, [.ptr, .ptr, .int 64, .int 1]⟩]

/-- The library is declared as in the text of a module, but that a panic does not return. -/
example : (library.zip Emit.runtimeLines).all (fun (f, line) =>
    line == f.line || line == f.line ++ " noreturn") = true := by
  decide +kernel

section Typing

variable (params : List Value) (code : List Instr)

def Value.TypeChecks (v : Value) : Prop :=
  v.isVoid = false ∧ v.operand.HasType params code v.type

/--
What can be called with arguments of the given types: by its name, a function of the
run-time library, with the types it is declared with; otherwise any pointer.
-/
def Operand.TakesTypes (callee : Operand) (ret : LType) (args : List LType) : Prop :=
  match callee with
  | .global g => ⟨g, ret, args⟩ ∈ library
  | _ => callee.HasType params code .ptr

def Instr.TypeChecks : Instr → Prop
  | .address _ type base _ => type.isVoid = false ∧ base.HasType params code .ptr
  | .pointerToInt _ pointer => pointer.HasType params code .ptr
  | .load _ type pointer => type.isVoid = false ∧ pointer.HasType params code .ptr
  | .store value pointer => value.TypeChecks params code ∧ pointer.HasType params code .ptr
  | .alloca _ type => type.isVoid = false
  | .compare _ _ value other =>
    value.type.isScalar = true ∧ value.operand.HasType params code value.type ∧
      other.HasType params code value.type
  | .negate _ value => value.HasType params code (.int 1)
  | .extractValue _ aggregate index =>
    aggregate.TypeChecks params code ∧
      ∃ t, aggregate.type.field? index = some t ∧ t.isVoid = false
  | .insertValue _ aggregate element index =>
    aggregate.TypeChecks params code ∧ element.TypeChecks params code ∧
      aggregate.type.field? index = some element.type
  | .call _ ret callee args =>
    ret.isVoid = false ∧ callee.TakesTypes params code ret (args.map (·.type)) ∧
      ∀ v ∈ args, v.TypeChecks params code
  | .callVoid callee args =>
    callee.TakesTypes params code .void (args.map (·.type)) ∧ ∀ v ∈ args, v.TypeChecks params code
  | .phi _ type incoming =>
    type.isVoid = false ∧ ∀ e ∈ incoming, e.1.HasType params code type

def Terminator.TypeChecks : Terminator → Prop
  | .branch condition _ _ => condition.HasType params code (.int 1)
  | .ret value => value.TypeChecks params code
  | .jump _ | .retVoid | .unreachable => True

end Typing

structure FunctionDef.TypeChecks (f : FunctionDef) : Prop where
  instrs : ∀ i ∈ f.code, i.TypeChecks f.params f.code
  exits : ∀ b ∈ f.blocks, b.exit.TypeChecks f.params f.code ∧ b.exit.Returns f.ret
  /-- No register is defined twice, so that it has one type. -/
  registers_nodup : (f.code.filterMap (·.dst?)).Nodup
  params_nodup : (f.params.map (·.operand)).Nodup

/-! ### More code -/

section More

variable {params : List Value} {code code' : List Instr} (hsub : ∀ i ∈ code, i ∈ code')
include hsub

theorem Operand.HasType.mono {o : Operand} {t : LType} (h : o.HasType params code t) :
    o.HasType params code' t := by
  cases h with
  | register hi hdst hres => exact .register (hsub _ hi) hdst hres
  | param h => exact .param h
  | none => exact .none
  | global g => exact .global g
  | null => exact .null
  | undef t => exact .undef t
  | zero t => exact .zero t
  | int value bits => exact .int value bits
  | bool value => exact .bool value
  | real bits => exact .real bits

theorem Value.TypeChecks.mono {v : Value} (h : v.TypeChecks params code) :
    v.TypeChecks params code' :=
  ⟨h.1, h.2.mono hsub⟩

theorem Operand.TakesTypes.mono {callee : Operand} {ret : LType} {args : List LType}
    (h : callee.TakesTypes params code ret args) : callee.TakesTypes params code' ret args := by
  unfold TakesTypes at h ⊢
  split at h
  · exact h
  · exact h.mono hsub

theorem Instr.TypeChecks.mono {i : Instr} (h : i.TypeChecks params code) :
    i.TypeChecks params code' := by
  cases i with
  | address | load => exact ⟨h.1, h.2.mono hsub⟩
  | pointerToInt | negate => exact Operand.HasType.mono hsub h
  | store => exact ⟨h.1.mono hsub, h.2.mono hsub⟩
  | alloca => exact h
  | compare => exact ⟨h.1, h.2.1.mono hsub, h.2.2.mono hsub⟩
  | extractValue => exact ⟨h.1.mono hsub, h.2⟩
  | insertValue => exact ⟨h.1.mono hsub, h.2.1.mono hsub, h.2.2⟩
  | call => exact ⟨h.1, h.2.1.mono hsub, fun v hv => (h.2.2 v hv).mono hsub⟩
  | callVoid => exact ⟨h.1.mono hsub, fun v hv => (h.2 v hv).mono hsub⟩
  | phi => exact ⟨h.1, fun e he => (h.2 e he).mono hsub⟩

theorem Terminator.TypeChecks.mono {exit : Terminator} (h : exit.TypeChecks params code) :
    exit.TypeChecks params code' := by
  cases exit with
  | branch => exact Operand.HasType.mono hsub h
  | ret => exact Value.TypeChecks.mono hsub h
  | jump | retVoid | unreachable => trivial

end More

/-! ### Calls of callables -/

/-- A call of something other than a named function: its result, its callee and its arguments. -/
def Instr.indirectCall? : Instr → Option (LType × Operand × List Value)
  | .call _ _ (.global _) _ | .callVoid (.global _) _ => none
  | .call _ ret callee args => some (ret, callee, args)
  | .callVoid callee args => some (.void, callee, args)
  | _ => none

/-- The register holds the word of the box at `box`, as a pointer. -/
def LoadsWord (code : List Instr) (box : Operand) (word register : Nat) : Prop :=
  ∃ field, .address field .box box [0, 1, word] ∈ code ∧
    .load register .ptr (.register field) ∈ code

theorem LoadsWord.mono {code code' : List Instr} {box : Operand} {word register : Nat}
    (h : LoadsWord code box word register) (hsub : ∀ i ∈ code, i ∈ code') :
    LoadsWord code' box word register := by
  obtain ⟨field, haddress, hload⟩ := h
  exact ⟨field, hsub _ haddress, hsub _ hload⟩

/--
A function that is called as a callable of parameters `params'` and result `ret'`.  Its
context is the box of a callable of parameters `params` and result `ret`.  This is what
it calls, once and with the context of that, and it calls nothing else but the run-time
library.
-/
structure FunctionDef.Adapts (d : Declarations) (params params' : List Ty) (ret ret' : Ty)
    (f : FunctionDef) : Prop where
  typeChecks : f.TypeChecks
  ret_eq : f.ret = d.llvmType ret'
  params_eq : ∃ declared, f.params = .pointer .context :: declared ∧
    declared.map (·.type) = params'.map d.llvmType
  call : ∃ function context args,
    f.code.filterMap Instr.indirectCall? =
        [(d.llvmType ret, .register function, .pointer (.register context) :: args)] ∧
      args.map (·.type) = params.map d.llvmType ∧
      LoadsWord f.code .context 0 function ∧ LoadsWord f.code .context 1 context

end Llvm

namespace Emit

def IsAdapter (d : Declarations) (types : Ty × Ty) (made : Synthesized) : Prop :=
  ∃ f params params' ret ret', made = .function f ∧ types.1.unboxed = .callable params ret ∧
    types.2.unboxed = .callable params' ret' ∧ f.Adapts d params params' ret ret'

/-! ### Steps that keep what type checks -/

structure FunctionState.TypeChecks (params : List Value) (s : FunctionState) : Prop where
  instrs : ∀ i ∈ s.code, i.TypeChecks params s.code
  exits : ∀ exit ∈ s.exits, exit.TypeChecks params s.code ∧ ¬ exit.IsReturn
  registers : s.code.filterMap (·.dst?) = List.range s.nextRegister

def World.Has (params : List Value) (w : World) (o : Operand) (t : LType) : Prop :=
  o.HasType params w.function.code t

def World.Holds (params : List Value) (w : World) (v : Value) (t : LType) : Prop :=
  v.type = t ∧ w.Has params v.operand t

/-- From `w` to `w'` an adapter was made for each of the given pairs of types, and nothing else. -/
def Makes (d : Declarations) (l : List (Ty × Ty)) (w w' : World) : Prop :=
  ∃ new, w'.refs.synthesized = w.refs.synthesized ++ new ∧ List.Forall₂ (IsAdapter d) l new

/--
The step from `w` to `w'` added code that type checks, with no calls but of the run-time
library, and made adapters for the given pairs of types.
-/
structure Advances (d : Declarations) (params : List Value) (l : List (Ty × Ty)) (w w' : World) :
    Prop where
  typeChecks : w'.function.TypeChecks params
  code : Appends (fun i => i.indirectCall? = none) w.function.code w'.function.code
  makes : Makes d l w w'

section Advances

variable {d : Declarations} {params : List Value} {l l' : List (Ty × Ty)} {w w' w'' : World}

theorem Makes.of_synthesized_eq (h : w'.refs.synthesized = w.refs.synthesized) :
    Makes d [] w w' :=
  ⟨[], by simpa using h, .nil⟩

theorem Makes.trans (h : Makes d l w w') (h' : Makes d l' w' w'') : Makes d (l ++ l') w w'' := by
  obtain ⟨new, hnew, hall⟩ := h
  obtain ⟨new', hnew', hall'⟩ := h'
  exact ⟨new ++ new', by rw [hnew', hnew, List.append_assoc], List.rel_append hall hall'⟩

theorem Advances.of_code_eq (h : w.function.TypeChecks params)
    (hcode : w'.function.code = w.function.code) (hexits : w'.function.exits = w.function.exits)
    (hregister : w'.function.nextRegister = w.function.nextRegister) (hmakes : Makes d l w w') :
    Advances d params l w w' :=
  ⟨⟨hcode ▸ h.instrs, hcode ▸ hexits ▸ h.exits, hcode ▸ hregister ▸ h.registers⟩,
    hcode ▸ .refl _ _, hmakes⟩

theorem Advances.refl (h : w.function.TypeChecks params) : Advances d params [] w w :=
  .of_code_eq h rfl rfl rfl (.of_synthesized_eq rfl)

theorem Advances.trans (h : Advances d params l w w') (h' : Advances d params l' w' w'') :
    Advances d params (l ++ l') w w'' :=
  ⟨h'.typeChecks, h.code.trans h'.code, h.makes.trans h'.makes⟩

theorem Advances.indirectCalls_eq (h : Advances d params l w w') :
    w'.function.code.filterMap Instr.indirectCall? =
      w.function.code.filterMap Instr.indirectCall? := by
  obtain ⟨new, hnew, hall⟩ := h.code
  rw [hnew, List.filterMap_append, List.filterMap_eq_nil_iff.mpr hall, List.append_nil]

theorem World.Has.mono {o : Operand} {t : LType} (h : w.Has params o t)
    (hadv : Advances d params l w w') : w'.Has params o t :=
  Operand.HasType.mono (fun _ => hadv.code.subset) h

theorem World.Holds.mono {v : Value} {t : LType} (h : w.Holds params v t)
    (hadv : Advances d params l w w') : w'.Holds params v t :=
  ⟨h.1, h.2.mono hadv⟩

theorem World.Holds.typeChecks {v : Value} {t : LType} (h : w.Holds params v t)
    (hvoid : t.isVoid = false) : v.TypeChecks params w.function.code := by
  obtain ⟨rfl, hhas⟩ := h
  exact ⟨hvoid, hhas⟩

end Advances

/-- A sequence goes on where its first step has succeeded. -/
theorem runIn_bind_of_ok {α β : Type} {env : FunctionEnv} {w v : World} {step : Emit α} {a : α}
    (h : step.runIn env w = (.ok a, v)) (next : α → Emit β) :
    (step >>= next).runIn env w = (next a).runIn env v := by
  rw [runIn_bind, h]

/--
In a function that type checks so far, the step succeeds and adds code that type checks.
It makes adapters between the given types, and `Q` holds of what it gives and of the
world it leaves.
-/
def Produces {α : Type} (env : FunctionEnv) (params : List Value) (w : World) (step : Emit α)
    (l : List (Ty × Ty)) (Q : α → World → Prop) : Prop :=
  w.function.TypeChecks params →
    Succeeds env w step fun a w' => Advances env.package.declarations params l w w' ∧ Q a w'

variable {α β : Type} {env : FunctionEnv} {params : List Value} {w : World}

namespace Produces

variable {step : Emit α} {next : α → Emit β} {l l' : List (Ty × Ty)} {Q Q' : α → World → Prop}
  {R : β → World → Prop}

theorem of_runIn {a : α} {v : World} (h : step.runIn env w = (.ok a, v))
    (hadv : w.function.TypeChecks params → Advances env.package.declarations params l w v)
    (hQ : Q a v) : Produces env params w step l Q :=
  fun hw => .of_runIn h ⟨hadv hw, hQ⟩

theorem pure {a : α} (h : Q a w) : Produces env params w (Pure.pure a) [] Q :=
  .of_runIn (runIn_pure a) .refl h

theorem mono (h : Produces env params w step l Q)
    (hQ : ∀ a w', Advances env.package.declarations params l w w' → Q a w' → Q' a w') :
    Produces env params w step l Q' :=
  fun hw => (h hw).mono fun a w' ⟨hadv, ha⟩ => ⟨hadv, hQ a w' hadv ha⟩

theorem bind (h : Produces env params w step l Q)
    (hnext : ∀ a w', Advances env.package.declarations params l w w' → Q a w' →
      Produces env params w' (next a) l' R) :
    Produces env params w (step >>= next) (l ++ l') R :=
  fun hw => (h hw).bind_true fun a w' ⟨hadv, ha⟩ =>
    (hnext a w' hadv ha hadv.typeChecks).mono fun _ _ ⟨hadv', hb⟩ => ⟨hadv.trans hadv', hb⟩

/-- A step that makes no adapter comes first. -/
theorem and_then (h : Produces env params w step [] Q)
    (hnext : ∀ a w', Advances env.package.declarations params [] w w' → Q a w' →
      Produces env params w' (next a) l R) : Produces env params w (step >>= next) l R :=
  h.bind hnext

theorem map {f : α → β} (h : Produces env params w step l fun a w' => R (f a) w') :
    Produces env params w (do return f (← step)) l R := by
  rw [← List.append_nil l]
  exact h.bind fun _ _ _ ha => .pure ha

end Produces

/-! ### The building blocks -/

theorem produces_get :
    Produces env params w get [] fun s w' => s = w.function ∧ w' = w :=
  .of_runIn runIn_get .refl ⟨rfl, rfl⟩

theorem produces_llvmType (t : Ty) :
    Produces env params w (llvmType t) [] fun type w' =>
      type = env.package.declarations.llvmType t ∧ w' = w :=
  .of_runIn (a := env.package.declarations.llvmType t) rfl .refl ⟨rfl, rfl⟩

theorem produces_storedInline (t : Ty) :
    Produces env params w (storedInline t) [] Anything :=
  .of_runIn (a := env.package.declarations.storedInline t) rfl .refl trivial

theorem produces_liftM (step : ModuleM α) (h : ∀ m, (step.run m).2.synthesized = m.synthesized) :
    Produces env params w (liftM step) [] Anything :=
  .of_runIn (runIn_liftM step)
    (fun hw => .of_code_eq hw rfl rfl rfl (.of_synthesized_eq (h w.refs))) trivial

theorem produces_freshLabel (role : BlockRole) :
    Produces env params w (freshLabel role) [] Anything :=
  .of_runIn (runIn_modifyGet _) (fun hw => .of_code_eq hw rfl rfl rfl (.of_synthesized_eq rfl)) trivial

theorem produces_startBlock (label : Label) :
    Produces env params w (startBlock label) [] Anything :=
  .of_runIn (runIn_modify _) (fun hw => .of_code_eq hw rfl rfl rfl (.of_synthesized_eq rfl)) trivial

theorem produces_finishBlock {exit : Terminator} (h : exit.TypeChecks params w.function.code)
    (hreturn : ¬ exit.IsReturn) : Produces env params w (finishBlock exit) [] Anything := by
  refine .of_runIn (runIn_modify _) (fun hw => ?_) trivial
  let s : FunctionState :=
    { w.function with
      blocks := w.function.blocks ++ [⟨w.function.label, w.function.body, exit⟩]
      body := [] }
  have hcode : s.code = w.function.code := by simp [s, FunctionState.code]
  have hexits : s.exits = w.function.exits ++ [exit] := by simp [s, FunctionState.exits]
  refine ⟨⟨hcode ▸ hw.instrs, fun e he => ?_, hcode ▸ hw.registers⟩, hcode ▸ .refl _ _,
    .of_synthesized_eq rfl⟩
  rw [hexits, List.mem_append, List.mem_singleton] at he
  rw [hcode]
  rcases he with he | rfl
  · exact hw.exits e he
  · exact ⟨h, hreturn⟩

/-- The state with one more instruction, where registers up to `next` have been given out. -/
def FunctionState.add (s : FunctionState) (i : Instr) (next : Nat) : FunctionState :=
  { s with body := s.body ++ [i], nextRegister := next }

theorem FunctionState.code_add (s : FunctionState) (i : Instr) (next : Nat) :
    (s.add i next).code = s.code ++ [i] := by
  simp [add, code]

theorem FunctionState.TypeChecks.add {s : FunctionState} {i : Instr} {next : Nat}
    (h : s.TypeChecks params) (hi : i.TypeChecks params s.code)
    (hnext : List.range s.nextRegister ++ i.dst?.toList = List.range next) :
    (s.add i next).TypeChecks params := by
  have hsub (j : Instr) (hj : j ∈ s.code) : j ∈ s.code ++ [i] := List.mem_append_left _ hj
  constructor
  case instrs =>
    rw [code_add]
    intro j hj
    rcases List.mem_append.mp hj with hj | hj
    · exact (h.instrs j hj).mono hsub
    · exact List.mem_singleton.mp hj ▸ hi.mono hsub
  case exits =>
    rw [code_add]
    exact fun exit hexit => ⟨(h.exits exit hexit).1.mono hsub, (h.exits exit hexit).2⟩
  case registers =>
    rw [code_add, List.filterMap_append, h.registers]
    show _ = List.range next
    rw [← hnext]
    cases hdst : i.dst? <;> simp [hdst]

/-- An instruction that calls nothing but the run-time library is added. -/
theorem Advances.add {d : Declarations} {i : Instr} {next : Nat} (hw : w.function.TypeChecks params)
    (hi : i.TypeChecks params w.function.code)
    (hnext : List.range w.function.nextRegister ++ i.dst?.toList = List.range next)
    (hcall : i.indirectCall? = none) :
    Advances d params [] w ⟨w.function.add i next, w.refs⟩ := by
  refine ⟨hw.add hi hnext, ?_, .of_synthesized_eq rfl⟩
  show Appends _ _ (w.function.add i next).code
  rw [FunctionState.code_add]
  exact ⟨[i], rfl, by simpa using hcall⟩

theorem produces_emit {i : Instr} (h : i.TypeChecks params w.function.code) (hdst : i.dst? = none)
    (hcall : i.indirectCall? = none) : Produces env params w (emit i) [] Anything :=
  .of_runIn (runIn_modify _) (fun hw => .add hw h (by simp [hdst]) hcall) trivial

section Define

variable {instr : Nat → Instr} {t : LType} (h : ∀ n, (instr n).TypeChecks params w.function.code)
  (hdst : ∀ n, (instr n).dst? = some n) (hres : ∀ n, (instr n).resultType? = some t)
  (hcall : ∀ n, (instr n).indirectCall? = none)
include h hdst hcall

theorem produces_define_mem : Produces env params w (define instr) [] fun o w' =>
    ∃ n, o = .register n ∧ instr n ∈ w'.function.code := by
  let n := w.function.nextRegister
  let s := w.function.add (instr n) (n + 1)
  refine .of_runIn (a := .register n) (v := ⟨s, w.refs⟩) rfl (fun hw => ?_) ⟨n, rfl, ?_⟩
  · exact .add hw (h n) (by simp [hdst, n, List.range_succ]) (hcall n)
  · show instr n ∈ s.code
    rw [FunctionState.code_add]
    exact List.mem_append_right _ List.mem_cons_self

include hres in
theorem produces_define : Produces env params w (define instr) [] fun o w' => w'.Has params o t :=
  (produces_define_mem h hdst hcall).mono fun o w' _ ho => by
    obtain ⟨n, rfl, hmem⟩ := ho
    exact .register hmem (hdst n) (hres n)

end Define

end Emit

end Boxlang
