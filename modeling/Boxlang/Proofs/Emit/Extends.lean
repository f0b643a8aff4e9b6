import Boxlang.Proofs.Elaboration.Judgement
import Boxlang.Proofs.Emit.Run

/-!
# Code that only adds

Generating an expression adds code and nothing else (`Emit.Extends`): it binds no
variable, does not return, and makes no room on the stack.  All its stores go to
registers that it defined itself, so they do not touch the stack slots of variables.
The functions that it makes along the way are well-typed (`Emit.Made`).
-/

namespace Boxlang

open Llvm

namespace Llvm

def Terminator.IsReturn : Terminator → Prop
  | .ret _ | .retVoid => True
  | .jump _ | .branch _ _ _ | .unreachable => False

/-- A terminator that, where it leaves the function, does so with a result of type `ret`. -/
def Terminator.Returns (ret : LType) : Terminator → Prop
  | .ret v => v.type = ret
  | .retVoid => ret = .void
  | .jump _ | .branch _ _ _ | .unreachable => True

theorem Terminator.returns_of_not_isReturn {exit : Terminator} (h : ¬ exit.IsReturn)
    (ret : LType) : exit.Returns ret := by
  cases exit <;> first | trivial | exact absurd trivial h

/-- An instruction that neither stores nor makes room on the stack. -/
def Instr.IsPlain : Instr → Prop
  | .alloca _ _ | .store _ _ => False
  | _ => True

/--
An instruction that makes no room on the stack and stores only to registers from
`first` on and below `next`.
-/
def Instr.StoresWithin (first next : Nat) : Instr → Prop
  | .alloca _ _ => False
  | .store _ (.register r) => first ≤ r ∧ r < next
  | _ => True

theorem Instr.IsPlain.storesWithin {i : Instr} (h : i.IsPlain) (first next : Nat) :
    i.StoresWithin first next := by
  cases i <;> trivial

theorem Instr.StoresWithin.mono {i : Instr} {first next next' : Nat}
    (h : i.StoresWithin first next) (hle : next ≤ next') : i.StoresWithin first next' := by
  unfold StoresWithin at h ⊢
  split at h
  next => exact h
  next => exact ⟨h.1, Nat.lt_of_lt_of_le h.2 hle⟩
  next => trivial

def FunctionDef.code (f : FunctionDef) : List Instr :=
  f.blocks.flatMap (·.body)

/--
A function that returns values of its declared type and stores in each of its stack
slots values of the type of the slot.
-/
structure FunctionDef.WellTyped (f : FunctionDef) : Prop where
  exit : ∀ b ∈ f.blocks, b.exit.Returns f.ret
  store : ∀ v r t, .store v (.register r) ∈ f.code → .alloca r t ∈ f.code → v.type = t

end Llvm

namespace Emit

def FunctionState.code (s : FunctionState) : List Instr :=
  s.blocks.flatMap (·.body) ++ s.body

def FunctionState.exits (s : FunctionState) : List Terminator :=
  s.blocks.map (·.exit)

/-- A function for callables of the given type: it takes a context and the parameters. -/
structure Implements (d : Declarations) (params : List Ty) (ret : Ty) (f : FunctionDef) : Prop where
  ret_eq : f.ret = d.llvmType ret
  params_eq : f.params.map (·.type) = .ptr :: (params.map d.llvmType).filter (!·.isVoid)
  wellTyped : f.WellTyped

/--
A function made for a closure of the arena, or for an adapted callable.  Their names
tell them apart.
-/
inductive Made (p : Package) (a : Arena) (f : FunctionDef) : Prop where
  | closure {slot : Slot} {literal : Closure} {params : List Ty} {ret : Ty} {enclosing : String}
      {n : Nat} : f.name = s!"{enclosing}.closure.{n}" → (a.get slot).kind = .closure literal →
      a.typeAt slot = .callable params ret → Implements p.declarations params ret f → Made p a f
  | adapter {params : List Ty} {ret : Ty} {n : Nat} : f.name = s!"ember.adapter.{n}" →
      Implements p.declarations params ret f → Made p a f

/-! ### Lists that grow -/

/-- The list `l'` is `l` and then only elements for which `P` holds. -/
def Appends {α : Type} (P : α → Prop) (l l' : List α) : Prop :=
  ∃ new, l' = l ++ new ∧ ∀ x ∈ new, P x

namespace Appends

variable {α : Type} {P P' : α → Prop} {l l' l'' : List α}

theorem refl (P : α → Prop) (l : List α) : Appends P l l :=
  ⟨[], (List.append_nil l).symm, by simp⟩

theorem snoc {x : α} (h : P x) (l : List α) : Appends P l (l ++ [x]) :=
  ⟨[x], rfl, by simpa using h⟩

theorem trans (h : Appends P l l') (h' : Appends P l' l'') : Appends P l l'' := by
  obtain ⟨new, rfl, hnew⟩ := h
  obtain ⟨more, rfl, hmore⟩ := h'
  refine ⟨new ++ more, List.append_assoc .., fun x hx => ?_⟩
  rcases List.mem_append.mp hx with hx | hx
  · exact hnew x hx
  · exact hmore x hx

theorem mono (h : Appends P l l') (hP : ∀ x, P x → P' x) : Appends P' l l' := by
  obtain ⟨new, rfl, hnew⟩ := h
  exact ⟨new, rfl, fun x hx => hP x (hnew x hx)⟩

theorem mem (h : Appends P l l') {x : α} (hx : x ∈ l') : x ∈ l ∨ P x := by
  obtain ⟨new, rfl, hnew⟩ := h
  rcases List.mem_append.mp hx with hx | hx
  · exact .inl hx
  · exact .inr (hnew x hx)

theorem subset (h : Appends P l l') {x : α} (hx : x ∈ l) : x ∈ l' := by
  obtain ⟨new, rfl, -⟩ := h
  exact List.mem_append_left _ hx

end Appends

def Synthesized.IsMade (p : Package) (a : Arena) (made : Synthesized) : Prop :=
  ∃ f, made = .function f ∧ Made p a f

/-- The step from `w` to `w'` added code, with stores to registers from `first` on. -/
structure Grows (p : Package) (a : Arena) (first : Nat) (w w' : World) : Prop where
  returned_eq : w'.function.returned = w.function.returned
  nextRegister_le : w.function.nextRegister ≤ w'.function.nextRegister
  code : Appends (Instr.StoresWithin first w'.function.nextRegister) w.function.code w'.function.code
  exits : Appends (fun exit => ¬ exit.IsReturn) w.function.exits w'.function.exits
  synthesized : Appends (Synthesized.IsMade p a) w.refs.synthesized w'.refs.synthesized

/-- The step from `w` to `w'` added code and bound no variable. -/
structure Extends (p : Package) (a : Arena) (first : Nat) (w w' : World) : Prop
    extends Grows p a first w w' where
  bindings_eq : w'.function.bindings = w.function.bindings

section Growth

variable {p : Package} {a : Arena} {first : Nat} {w w' w'' : World}

theorem Grows.refl (w : World) : Grows p a first w w :=
  ⟨rfl, Nat.le_refl _, .refl _ _, .refl _ _, .refl _ _⟩

theorem Grows.trans (h : Grows p a first w w') (h' : Grows p a first w' w'') :
    Grows p a first w w'' :=
  ⟨h'.returned_eq.trans h.returned_eq, Nat.le_trans h.nextRegister_le h'.nextRegister_le,
    (h.code.mono fun _ hi => hi.mono h'.nextRegister_le).trans h'.code, h.exits.trans h'.exits,
    h.synthesized.trans h'.synthesized⟩

theorem Grows.of_bindings (w : World) (bindings : Slots LocalVariable) :
    Grows p a first w ⟨{ w.function with bindings }, w.refs⟩ :=
  ⟨rfl, Nat.le_refl _, .refl _ _, .refl _ _, .refl _ _⟩

theorem Extends.refl (w : World) : Extends p a first w w :=
  ⟨.refl w, rfl⟩

theorem Extends.trans (h : Extends p a first w w') (h' : Extends p a first w' w'') :
    Extends p a first w w'' :=
  ⟨h.toGrows.trans h'.toGrows, h'.bindings_eq.trans h.bindings_eq⟩

theorem Extends.of_refs {refs : ModuleState}
    (h : Appends (Synthesized.IsMade p a) w.refs.synthesized refs.synthesized) :
    Extends p a first w ⟨w.function, refs⟩ :=
  ⟨⟨rfl, Nat.le_refl _, .refl _ _, .refl _ _, h⟩, rfl⟩

end Growth

/-- A register that was defined since `first`. -/
def World.Defines (w : World) (first : Nat) (o : Operand) : Prop :=
  ∃ r, o = .register r ∧ first ≤ r ∧ r < w.function.nextRegister

theorem World.Defines.mono {p : Package} {a : Arena} {first first' : Nat} {w w' : World} {o : Operand}
    (h : w.Defines first o) (hext : Extends p a first' w w') : w'.Defines first o := by
  obtain ⟨r, rfl, hle, hlt⟩ := h
  exact ⟨r, rfl, hle, Nat.lt_of_lt_of_le hlt hext.nextRegister_le⟩

/-! ### Steps that only add -/

/--
The step succeeds exactly if `ok` holds, only adds code, with stores to registers
from `first` on, and `Q` holds of what it gives and of the world it leaves.
-/
def Emits {α : Type} (env : FunctionEnv) (first : Nat) (w : World) (step : Emit α) (ok : Prop)
    (Q : α → World → Prop) : Prop :=
  first ≤ w.function.nextRegister →
    Meets env w step ok fun a w' => Extends env.package env.arena first w w' ∧ Q a w'

abbrev Anything {α : Type} (_ : α) (_ : World) : Prop :=
  True

variable {α β : Type} {env : FunctionEnv} {first : Nat} {w : World}

namespace Emits

variable {step : Emit α} {next : α → Emit β} {ok ok' : Prop} {Q Q' : α → World → Prop}
  {R : β → World → Prop}

theorem pure {a : α} (h : Q a w) : Emits env first w (Pure.pure a) True Q :=
  fun _ => .pure ⟨.refl w, h⟩

theorem throw (id : VariableId) :
    Emits env first w (MonadExcept.throw (EmitError.unboundVariable id) : Emit α) False Q :=
  fun _ => .throw id

theorem mono (h : Emits env first w step ok Q) (hQ : ∀ a w', Q a w' → Q' a w') :
    Emits env first w step ok Q' :=
  fun hle => (h hle).mono fun a w' ha => ⟨ha.1, hQ a w' ha.2⟩

theorem anything (h : Emits env first w step ok Q) : Emits env first w step ok Anything :=
  h.mono fun _ _ _ => trivial

theorem congr (h : Emits env first w step ok Q) (hok : ok ↔ ok') : Emits env first w step ok' Q :=
  fun hle => (h hle).congr hok

theorem bind (h : Emits env first w step ok Q)
    (hnext : ∀ a w', Extends env.package env.arena first w w' → Q a w' →
      Emits env first w' (next a) ok' R) :
    Emits env first w (step >>= next) (ok ∧ ok') R := fun hle =>
  (h hle).bind fun a w' ⟨hext, ha⟩ =>
    (hnext a w' hext ha (Nat.le_trans hle hext.nextRegister_le)).mono fun _ _ ⟨hext', hb⟩ =>
      ⟨hext.trans hext', hb⟩

theorem and_then (h : Emits env first w step True Q)
    (hnext : ∀ a w', Extends env.package env.arena first w w' → Q a w' →
      Emits env first w' (next a) ok' R) : Emits env first w (step >>= next) ok' R :=
  (h.bind hnext).congr (iff_of_eq (true_and _))

/-- A sequence all of whose later steps always succeed. -/
theorem followed_by (h : Emits env first w step ok Q)
    (hnext : ∀ a w', Extends env.package env.arena first w w' → Q a w' →
      Emits env first w' (next a) True R) : Emits env first w (step >>= next) ok R :=
  (h.bind hnext).congr (iff_of_eq (and_true _))

/-- A step followed by one that gives something made of its result. -/
theorem map {f : α → β} (h : Emits env first w step ok fun a w' => R (f a) w') :
    Emits env first w (do return f (← step)) ok R :=
  h.followed_by fun _ _ _ ha => .pure ha

theorem of_runIn {a : α} {v : World} (h : step.runIn env w = (.ok a, v))
    (hext : Extends env.package env.arena first w v) (hQ : Q a v) :
    Emits env first w step True Q :=
  fun _ => .of_runIn h ⟨hext, hQ⟩

end Emits

/-! ### The building blocks -/

theorem emits_read : Emits env first w read True fun env' w' => env' = env ∧ w' = w :=
  .of_runIn runIn_read (.refl w) ⟨rfl, rfl⟩

theorem emits_get : Emits env first w get True fun s w' => s = w.function ∧ w' = w :=
  .of_runIn runIn_get (.refl w) ⟨rfl, rfl⟩

theorem emits_llvmType (t : Ty) :
    Emits env first w (llvmType t) True fun type _ => type = env.package.declarations.llvmType t :=
  .of_runIn (a := env.package.declarations.llvmType t) rfl (.refl w) rfl

theorem emits_mapM {step : α → Emit β} {f : α → β}
    (h : ∀ a w, Emits env first w (step a) True fun b _ => b = f a) (l : List α) :
    Emits env first w (l.mapM step) True fun bs _ => bs = l.map f := by
  induction l generalizing w with
  | nil => exact .pure rfl
  | cons a l ih =>
      rw [List.mapM_cons]
      refine (h a w).and_then fun b _ _ hb => ?_
      refine .map ?_
      exact ih.mono fun bs _ hbs => congrArg₂ List.cons hb hbs

theorem emits_storedInline (t : Ty) : Emits env first w (storedInline t) True Anything :=
  .of_runIn (a := env.package.declarations.storedInline t) rfl (.refl w) trivial

theorem emits_liftM (step : ModuleM α)
    (h : ∀ m, (step.run m).2.synthesized = m.synthesized) :
    Emits env first w (liftM step) True fun a _ => ∃ m, a = (step.run m).1 :=
  .of_runIn (runIn_liftM step) (.of_refs (h w.refs ▸ .refl _ _)) ⟨w.refs, rfl⟩

theorem emits_freshLabel (role : BlockRole) : Emits env first w (freshLabel role) True Anything :=
  .of_runIn (runIn_modifyGet _) ⟨⟨rfl, Nat.le_refl _, .refl _ _, .refl _ _, .refl _ _⟩, rfl⟩ trivial

theorem emits_startBlock (label : Label) : Emits env first w (startBlock label) True Anything :=
  .of_runIn (runIn_modify _) ⟨⟨rfl, Nat.le_refl _, .refl _ _, .refl _ _, .refl _ _⟩, rfl⟩ trivial

theorem emits_finishBlock (exit : Terminator) (h : ¬ exit.IsReturn) :
    Emits env first w (finishBlock exit) True Anything := by
  refine .of_runIn (runIn_modify _) ⟨⟨rfl, Nat.le_refl _, ?_, ?_, .refl _ _⟩, rfl⟩ trivial
  · simp only [FunctionState.code, List.flatMap_append, List.append_nil]
    exact ⟨[], by simp, by simp⟩
  · simp only [FunctionState.exits, List.map_append]
    refine .snoc ?_ _
    exact h

theorem emits_emit {i : Instr} (h : i.StoresWithin first w.function.nextRegister) :
    Emits env first w (emit i) True Anything := by
  refine .of_runIn (runIn_modify _) ⟨⟨rfl, Nat.le_refl _, ?_, .refl _ _, .refl _ _⟩, rfl⟩ trivial
  simp only [FunctionState.code, ← List.append_assoc]
  exact .snoc h _

theorem emits_plain (i : Instr) (h : i.IsPlain) :
    Emits env first w (emit i) True Anything :=
  emits_emit (h.storesWithin _ _)

theorem emits_store {o : Operand} (h : w.Defines first o) (v : Value) :
    Emits env first w (emit (.store v o)) True Anything := by
  obtain ⟨r, rfl, hle, hlt⟩ := h
  exact emits_emit ⟨hle, hlt⟩

theorem emits_define (instr : Nat → Instr) (h : ∀ n, (instr n).IsPlain) :
    Emits env first w (define instr) True fun o w' => w'.Defines first o := by
  intro hle
  refine .of_runIn (a := .register w.function.nextRegister) (v :=
    ⟨{ w.function with
        nextRegister := w.function.nextRegister + 1
        body := w.function.body ++ [instr w.function.nextRegister] }, w.refs⟩) rfl ⟨?_, ?_⟩
  · refine ⟨⟨rfl, Nat.le_succ _, ?_, .refl _ _, .refl _ _⟩, rfl⟩
    simp only [FunctionState.code, ← List.append_assoc]
    exact .snoc ((h _).storesWithin _ _) _
  · exact ⟨_, rfl, hle, Nat.lt_succ_self _⟩

end Emit

end Boxlang
