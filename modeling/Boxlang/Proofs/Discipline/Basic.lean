import Boxlang.Emit.Conversion
import Boxlang.Proofs.Emit.Run
import Boxlang.Proofs.Held.Code
import Boxlang.Proofs.Symbols.Module
import Boxlang.Proofs.Types.Pervasive

/-!
# Disciplines of generation

What a generated function keeps to is shown step by step, and all properties of generated
code are shown along the same steps.  So the steps are gone through once, for a property
that is left open: a discipline (`Emit.Discipline`) says what is sound while a function is
under construction, which operands are at hand, and that the instructions and blocks which
code is made of keep what is sound.  From that it follows for the code of boxes,
conversions, expressions and bodies.

The operands that are at hand need not be determined by the state of generation.  Whatever
else has to be kept in mind for them, and is not part of that state, makes up the `ghost`
of a point.
-/

namespace Boxlang

open Llvm

namespace Llvm

/-- Whether an instruction depends on where control came from. -/
def Instr.IsPhi : Instr → Prop
  | .phi _ _ _ => True
  | _ => False

/-- An operand that is the same wherever it stands. -/
def Operand.IsConstant : Operand → Prop
  | .none | .null | .undef | .zero | .int _ | .bool _ | .real _ => True
  | .register _ | .param _ | .receiver | .context | .global _ => False

end Llvm

namespace Emit

/-! ### What functions receive -/

def ArgumentStyle.firstOperands : ArgumentStyle → List Operand
  | .free => []
  | .method _ => [.receiver]
  | .closure _ => [.context]

/-- The operands of the declared parameters, numbered from `start`; those of type void have none. -/
def paramOperands (start : Nat) (types : List LType) : List Operand :=
  ((types.zipIdx start).filter fun q => !q.1.isVoid).map fun q => .param q.2

def ArgumentStyle.operands (style : ArgumentStyle) (types : List LType) : List Operand :=
  style.firstOperands ++ paramOperands 0 types

theorem paramOperands_cons (start : Nat) (type : LType) (types : List LType) :
    paramOperands start (type :: types) =
      (if type.isVoid then [] else [.param start]) ++ paramOperands (start + 1) types := by
  unfold paramOperands
  rw [List.zipIdx_cons, List.filter_cons]
  cases type.isVoid <;> rfl

theorem param_mem_paramOperands {start i : Nat} {type : LType} {types : List LType}
    (h : (type, i) ∈ types.zipIdx start) (hvoid : type.isVoid = false) :
    .param i ∈ paramOperands start types :=
  List.mem_map.mpr ⟨(type, i), List.mem_filter.mpr ⟨h, by simpa using hvoid⟩, rfl⟩

/-- The type of the receiver of a method. -/
def ArgumentStyle.this? : ArgumentStyle → Option Ty
  | .method this => some this
  | .free | .closure _ => none

/-! ### Points -/

/-- What generation has made so far, and what is kept in mind of it besides. -/
structure Point (Ghost : Type) where
  world : World
  ghost : Ghost

/-- The world after the block being filled was ended. -/
def World.finish (w : World) (exit : Terminator) (returned : Bool) : World :=
  ⟨{ w.function with
      blocks := w.function.blocks ++ [{ label := w.function.label, body := w.function.body, exit }]
      body := []
      returned }, w.refs⟩

namespace Point

variable {Ghost : Type}

abbrev function (pt : Point Ghost) : FunctionState :=
  pt.world.function

/-- Adds an instruction; registers up to `next` have been given out. -/
def add (pt : Point Ghost) (i : Instr) (next : Nat) : Point Ghost :=
  ⟨⟨{ pt.function with body := pt.function.body ++ [i], nextRegister := next }, pt.world.refs⟩,
    pt.ghost⟩

def refer (pt : Point Ghost) (refs : ModuleState) : Point Ghost :=
  ⟨⟨pt.function, refs⟩, pt.ghost⟩

def rebind (pt : Point Ghost) (bindings : Slots LocalVariable) : Point Ghost :=
  ⟨⟨{ pt.function with bindings }, pt.world.refs⟩, pt.ghost⟩

def finish (pt : Point Ghost) (exit : Terminator) (returned : Bool) : Point Ghost :=
  ⟨pt.world.finish exit returned, pt.ghost⟩

@[simp]
theorem code_add (pt : Point Ghost) (i : Instr) (next : Nat) :
    (pt.add i next).function.code = pt.function.code ++ [i] := by
  simp [add, FunctionState.code]

@[simp]
theorem code_finish (pt : Point Ghost) (exit : Terminator) (returned : Bool) :
    (pt.finish exit returned).function.code = pt.function.code := by
  simp [finish, World.finish, FunctionState.code]

@[simp]
theorem exits_finish (pt : Point Ghost) (exit : Terminator) (returned : Bool) :
    (pt.finish exit returned).function.exits = pt.function.exits ++ [exit] := by
  simp [finish, World.finish, FunctionState.exits]

end Point

/-! ### Runs -/

/-- Where the step succeeds, some point there has the property. -/
def Reaches {α Ghost : Type} (env : FunctionEnv) (pt : Point Ghost) (step : Emit α)
    (Q : α → Point Ghost → Prop) : Prop :=
  Leaves env pt.world step fun a w => ∃ ghost, Q a ⟨w, ghost⟩

/-- The step changes nothing, and `S` holds of what it gives. -/
def Reads {α : Type} (env : FunctionEnv) (step : Emit α) (S : α → Prop) : Prop :=
  ∀ w, Leaves env w step fun a w' => w' = w ∧ S a

variable {α β Ghost : Type} {env : FunctionEnv}

namespace Reaches

variable {pt : Point Ghost} {step : Emit α} {next : α → Emit β} {Q Q' : α → Point Ghost → Prop}
  {R : β → Point Ghost → Prop}

theorem of_runIn {a : α} {q : Point Ghost} (h : step.runIn env pt.world = (.ok a, q.world))
    (hQ : Q a q) : Reaches env pt step Q :=
  Leaves.of_runIn h ⟨q.ghost, hQ⟩

theorem mono (h : Reaches env pt step Q) (hQ : ∀ a pt', Q a pt' → Q' a pt') :
    Reaches env pt step Q' :=
  Leaves.mono h fun a w hw => hw.imp fun ghost => hQ a ⟨w, ghost⟩

theorem bind (h : Reaches env pt step Q)
    (hnext : ∀ a pt', Q a pt' → Reaches env pt' (next a) R) :
    Reaches env pt (step >>= next) R := by
  refine Leaves.bind h fun a w hw => ?_
  obtain ⟨ghost, ha⟩ := hw
  exact hnext a ⟨w, ghost⟩ ha

theorem throw (e : EmitError) : Reaches env pt (MonadExcept.throw e : Emit α) Q :=
  Leaves.of_error (runIn_throw e)

/-- A step comes first that changes nothing. -/
theorem read {S : α → Prop} (h : Reads env step S)
    (hnext : ∀ a, S a → Reaches env pt (next a) R) : Reaches env pt (step >>= next) R := by
  refine Leaves.bind (h pt.world) fun a w hw => ?_
  obtain ⟨rfl, ha⟩ := hw
  exact hnext a ha

/-- The state of the function comes first. -/
theorem get {next : FunctionState → Emit β} (h : Reaches env pt (next pt.function) R) :
    Reaches env pt (MonadState.get >>= next) R := by
  intro b w hrun
  rw [runIn_bind, runIn_get] at hrun
  exact h b w hrun

end Reaches

/-! ### Steps that read -/

theorem Reads.of_runIn {step : Emit α} {a : α} (h : ∀ w, step.runIn env w = (.ok a, w)) :
    Reads env step (· = a) :=
  fun w => .of_runIn (h w) ⟨rfl, rfl⟩

theorem reads_read : Reads env read (· = env) :=
  .of_runIn fun _ => rfl

theorem reads_llvmType (t : Ty) :
    Reads env (llvmType t) (· = env.package.declarations.llvmType t) :=
  .of_runIn fun _ => rfl

theorem reads_storedInline (t : Ty) :
    Reads env (storedInline t) (· = env.package.declarations.storedInline t) :=
  .of_runIn fun _ => rfl

theorem reads_declarations : Reads env declarations (· = env.package.declarations) :=
  .of_runIn fun _ => rfl

/-- Steps that read, one after the other. -/
theorem Reads.mapM {step : α → Emit β} {f : α → β} (h : ∀ a, Reads env (step a) (· = f a))
    (l : List α) : Reads env (l.mapM step) (· = l.map f) := by
  induction l with
  | nil => exact .of_runIn fun _ => rfl
  | cons a l ih =>
    intro w
    rw [List.mapM_cons]
    refine (h a w).bind fun b w₁ hb => ?_
    obtain ⟨rfl, rfl⟩ := hb
    refine (ih w₁).bind fun rest w₂ hrest => ?_
    obtain ⟨rfl, rfl⟩ := hrest
    exact .of_runIn (runIn_pure _) ⟨rfl, rfl⟩

/-- What a nested function leaves behind is what its own run leaves. -/
theorem exists_of_runIn_nested {name : String} {count : Nat} {style : ArgumentStyle} {step : Emit α}
    {a : α} {w w' : World} (h : (nested name count style step).runIn env w = (.ok a, w')) :
    ∃ inner, step.runIn { env with name, variableCount := count, style } ⟨.start count, w.refs⟩ =
      (.ok a, inner) ∧ w' = ⟨w.function, inner.refs⟩ := by
  rw [runIn_nested] at h
  obtain ⟨ha, rfl⟩ := Prod.mk.inj h
  exact ⟨_, Prod.ext ha rfl, rfl⟩

/-! ### Frames -/

/--
What is to be said of the points of generation in a discipline.  It minds the LLVM types
in code if `Typed` holds, and asks of names, of types and of the parameters of adapters
that `IsName`, `IsType` and `Passes` hold.
-/
structure Frame where
  Ghost : Type
  Typed : Prop
  IsName : String → Prop
  IsType : Ty → Prop
  Passes : LType → Prop
  /-- All is well while a block is filled and the blocks with the given labels are to come. -/
  Sound : List Label → Point Ghost → Prop
  /-- All is well once the last block has ended. -/
  Closed : Point Ghost → Prop
  /-- The operand may be used next. -/
  Has : Point Ghost → Operand → Prop
  /-- The function has the given operands from its beginning. -/
  Receives : Point Ghost → List Operand → Prop
  /-- Control comes to the block being filled from the one filled at a point before and from
  another. -/
  Joins : Point Ghost → Label → Point Ghost → Prop
  /-- What was at hand at the one point still is at the other. -/
  Continues : Point Ghost → Point Ghost → Prop
  refl : ∀ pt, Continues pt pt
  trans : ∀ {pt pt' pt''}, Continues pt pt' → Continues pt' pt'' → Continues pt pt''
  has_mono : ∀ {pt pt' o}, Has pt o → Continues pt pt' → Has pt' o
  receives_mono : ∀ {pt pt' params}, Receives pt params → Continues pt pt' → Receives pt' params

namespace Frame

/-- From the one point to the other no variable was bound, and the function did not return. -/
structure Extends (F : Frame) (pt pt' : Point F.Ghost) : Prop where
  continues : F.Continues pt pt'
  bindings_eq : pt'.function.bindings = pt.function.bindings
  returned_eq : pt'.function.returned = pt.function.returned

/-- A value that may be used next: void, or of a type that is held, where types are minded. -/
structure Gives (F : Frame) (pt : Point F.Ghost) (v : Value) : Prop where
  has : F.Has pt v.operand
  isGiven : F.Typed → v.type.IsGiven

/-- The instruction may come next. -/
structure Allows (F : Frame) (pt : Point F.Ghost) (i : Instr) : Prop where
  uses : ∀ o ∈ i.uses, F.Has pt o
  hasHeldTypes : F.Typed → i.HasHeldTypes

def Bound (F : Frame) (pt : Point F.Ghost) : Prop :=
  ∀ id v, pt.function.bindings.get? id = some v → F.Gives pt v.value

/--
Where all is well and the step succeeds, all is well after it, the point there extends
the one before, and `Q` holds of what the step gives.
-/
def Keeps (F : Frame) (env : FunctionEnv) (owed : List Label) (pt : Point F.Ghost)
    (step : Emit α) (Q : α → Point F.Ghost → Prop) : Prop :=
  F.Sound owed pt → Reaches env pt step fun a pt' =>
    F.Sound owed pt' ∧ F.Extends pt pt' ∧ Q a pt'

/-- What a step says that gives nothing of interest. -/
abbrev Whatever {α Ghost : Type} (_ : α) (_ : Point Ghost) : Prop :=
  True

variable {F : Frame} {owed : List Label} {pt pt' pt'' : Point F.Ghost} {o : Operand} {v : Value}

theorem Extends.refl (pt : Point F.Ghost) : F.Extends pt pt :=
  ⟨F.refl pt, rfl, rfl⟩

theorem Extends.trans (h : F.Extends pt pt') (h' : F.Extends pt' pt'') : F.Extends pt pt'' :=
  ⟨F.trans h.continues h'.continues, h'.bindings_eq.trans h.bindings_eq,
    h'.returned_eq.trans h.returned_eq⟩

theorem Extends.has (h : F.Extends pt pt') (ho : F.Has pt o) : F.Has pt' o :=
  F.has_mono ho h.continues

theorem Extends.gives (h : F.Extends pt pt') (hv : F.Gives pt v) : F.Gives pt' v :=
  ⟨h.has hv.has, hv.isGiven⟩

theorem Extends.forall_gives (h : F.Extends pt pt') {vs : List Value}
    (hvs : ∀ v ∈ vs, F.Gives pt v) : ∀ v ∈ vs, F.Gives pt' v :=
  fun v hv => h.gives (hvs v hv)

theorem Extends.bound (h : F.Extends pt pt') (hbound : F.Bound pt) : F.Bound pt' :=
  fun id v hv => h.gives (hbound id v (h.bindings_eq ▸ hv))

/-- A pointer is held. -/
theorem Gives.pointer (h : F.Has pt o) : F.Gives pt (.pointer o) :=
  ⟨h, fun _ => LType.isHeld_ptr.isGiven⟩

theorem Gives.of_type (h : F.Has pt v.operand) {d : Declarations} {t : Ty}
    (htype : v.type = d.llvmType t) : F.Gives pt v :=
  ⟨h, fun _ => htype ▸ d.isGiven_llvmType t⟩

theorem Gives.isHeld (h : F.Gives pt v) (hvoid : ¬ v.isVoid) (htyped : F.Typed) : v.type.IsHeld :=
  (h.isGiven htyped).isHeld hvoid

/-! ### Sequences -/

namespace Keeps

variable {step : Emit α} {next : α → Emit β} {Q Q' : α → Point F.Ghost → Prop}
  {R : β → Point F.Ghost → Prop}

theorem mono (h : F.Keeps env owed pt step Q) (hQ : ∀ a pt', Q a pt' → Q' a pt') :
    F.Keeps env owed pt step Q' := fun hpt =>
  (h hpt).mono fun a pt' ⟨hpt', hext, ha⟩ => ⟨hpt', hext, hQ a pt' ha⟩

theorem whatever (h : F.Keeps env owed pt step Q) : F.Keeps env owed pt step Whatever :=
  h.mono fun _ _ _ => trivial

/-- What follows may end what was under construction. -/
theorem reaches_bind (h : F.Keeps env owed pt step Q) (hpt : F.Sound owed pt)
    {S : β → Point F.Ghost → Prop}
    (hnext : ∀ a pt', F.Sound owed pt' → F.Extends pt pt' → Q a pt' →
      Reaches env pt' (next a) S) :
    Reaches env pt (step >>= next) S := by
  refine (h hpt).bind fun a pt' hpt' => ?_
  obtain ⟨hsound, hext, ha⟩ := hpt'
  exact hnext a pt' hsound hext ha

theorem bind (h : F.Keeps env owed pt step Q)
    (hnext : ∀ a pt', F.Extends pt pt' → Q a pt' → F.Keeps env owed pt' (next a) R) :
    F.Keeps env owed pt (step >>= next) R := fun hpt =>
  h.reaches_bind hpt fun a pt' hpt' hext ha =>
    (hnext a pt' hext ha hpt').mono fun _ _ ⟨hpt'', hext', hb⟩ => ⟨hpt'', hext.trans hext', hb⟩

theorem pure {a : α} (h : Q a pt) : F.Keeps env owed pt (Pure.pure a) Q := fun hpt =>
  .of_runIn (runIn_pure a) ⟨hpt, .refl pt, h⟩

theorem throw (e : EmitError) : F.Keeps env owed pt (MonadExcept.throw e : Emit α) Q :=
  fun _ => .throw e

/-- A step followed by one that gives something made of its result. -/
theorem map {f : α → β} (h : F.Keeps env owed pt step fun a pt' => R (f a) pt') :
    F.Keeps env owed pt (do return f (← step)) R :=
  h.bind fun _ _ _ ha => .pure ha

theorem read {S : α → Prop} (h : Reads env step S)
    (hnext : ∀ a, S a → F.Keeps env owed pt (next a) R) :
    F.Keeps env owed pt (step >>= next) R := fun hpt =>
  .read h fun a ha => hnext a ha hpt

theorem get {next : FunctionState → Emit β} (h : F.Keeps env owed pt (next pt.function) R) :
    F.Keeps env owed pt (MonadState.get >>= next) R := fun hpt =>
  .get (h hpt)

/-- Steps one after the other, each of which gives something that stays as it is. -/
theorem mapM {step : α → Emit β} {l : List α}
    (hR : ∀ {b pt pt'}, R b pt → F.Extends pt pt' → R b pt')
    (h : ∀ a ∈ l, ∀ pt', F.Extends pt pt' → F.Keeps env owed pt' (step a) R) :
    F.Keeps env owed pt (l.mapM step) fun bs pt' => ∀ b ∈ bs, R b pt' := by
  induction l generalizing pt with
  | nil => exact .pure (by simp)
  | cons a l ih =>
    rw [List.mapM_cons]
    refine (h a List.mem_cons_self pt (.refl pt)).bind fun b pt₁ h₁ hb => ?_
    refine (ih fun c hc pt' h' => h c (List.mem_cons_of_mem a hc) pt' (h₁.trans h')).bind
      fun bs pt₂ h₂ hbs => .pure ?_
    exact List.forall_mem_cons.mpr ⟨hR hb h₂, hbs⟩

theorem forM {step : α → Emit Unit} {l : List α}
    (h : ∀ a ∈ l, ∀ pt', F.Extends pt pt' → F.Keeps env owed pt' (step a) Whatever) :
    F.Keeps env owed pt (l.forM step) Whatever := by
  induction l generalizing pt with
  | nil => exact .pure trivial
  | cons a l ih =>
    refine (h a List.mem_cons_self pt (.refl pt)).bind fun _ pt₁ h₁ _ => ?_
    exact ih fun c hc pt' h' => h c (List.mem_cons_of_mem a hc) pt' (h₁.trans h')

end Keeps

/-! ### Whole functions -/

/-- The function has not returned, and its variables are bound to what is at hand. -/
structure Running (F : Frame) (params : List Operand) (pt : Point F.Ghost) : Prop where
  sound : F.Sound [] pt
  receives : F.Receives pt params
  bound : F.Bound pt
  returned_eq : pt.function.returned = false

/-- A function with these parameters gets the given operands. -/
structure Declares (F : Frame) (style : ArgumentStyle) (params : List Operand)
    (declared : List Value) : Prop where
  operands_eq : declared.map (·.operand) = params
  isReceived : F.Typed → ∀ v ∈ declared, v.IsReceived style.this?

/-- A function that was generated from `pt` to `pt'`. -/
structure Completes (F : Frame) (env : FunctionEnv) (params : List Operand) (pt : Point F.Ghost)
    (f : FunctionDef) (pt' : Point F.Ghost) : Prop where
  closed : F.Closed pt'
  continues : F.Continues pt pt'
  receives : F.Receives pt' params
  name_eq : f.name = env.name
  blocks_eq : f.blocks = pt'.function.blocks
  declares : F.Declares env.style params f.params
  isGiven_ret : F.Typed → f.ret.IsGiven

/-- The step completes a function that it generates from the beginning. -/
def Makes (F : Frame) (env : FunctionEnv) (step : Emit FunctionDef) : Prop :=
  ∃ types, ∀ pt, F.Running (env.style.operands types) pt →
    Reaches env pt step (F.Completes env (env.style.operands types) pt)

end Frame

/-! ### Disciplines -/

/-- Steps that hand out a symbol that does not depend on how it is used. -/
inductive Notes (isName : String → Prop) (isType : Ty → Prop) (has : Operand → Prop) :
    ModuleM Global → Prop where
  | callable : Notes isName isType has callableMeta
  | type {t : Ty} : isType t → Notes isName isType has (metaSymbol t)
  | protocol {name : String} : isName name → Notes isName isType has (protocolSymbol name)
  | conformance {t : Ty} {name : String} : isType t → isName name →
      Notes isName isType has (conformanceSymbol t name)
  | string (value : String) : Notes isName isType has (internString value)
  | box {tag : Operand} (image : BoxImage) :
      has tag → Notes isName isType has (constantBox tag image)

/-- Steps that name a function made along the way. -/
inductive Numbers : ModuleM String → Prop where
  | closure (enclosing : String) : Numbers (nextClosureName enclosing)
  | adapter : Numbers nextAdapterName

theorem Numbers.synthesized_eq {mk : ModuleM String} (h : Numbers mk) (m : ModuleState) :
    (mk.run m).2.synthesized = m.synthesized := by
  cases h <;> rfl

/-- Goes one of two ways, depending on a condition, and on from where both meet. -/
def branching {α β : Type} (roles : BlockRole × BlockRole × BlockRole) (condition : Operand)
    (ifFalse : Emit α) (ifTrue : Emit Unit) (next : Label → α → Emit β) : Emit β := do
  let falseLabel ← freshLabel roles.1
  let trueLabel ← freshLabel roles.2.1
  let joinLabel ← freshLabel roles.2.2
  finishBlock (.branch condition trueLabel falseLabel)
  startBlock falseLabel
  let a ← ifFalse
  finishBlock (.jump joinLabel)
  startBlock trueLabel
  ifTrue
  finishBlock (.jump joinLabel)
  startBlock joinLabel
  next trueLabel a

/-- Numbers a function, generates it, and adds it to the module. -/
def making (mk : ModuleM String) (count : Nat) (captures : List (VariableId × LType))
    (step : Emit FunctionDef) : Emit String := do
  let name ← mk
  let f ← nested name count (.closure captures) step
  pushFunction (.function f)
  return name

/-- What the steps of generation keep to in a package. -/
structure Discipline (p : Package) extends Frame where
  pervasive : Ty.Pervasive IsName IsType
  has_constant : ∀ {pt o}, o.IsConstant → Has pt o
  has_runtime : ∀ {pt name}, name ∈ runtimeNames → Has pt (runtime name)
  has_received : ∀ {pt params o}, Receives pt params → o ∈ params → Has pt o
  has_param : ∀ {pt i} {style : ArgumentStyle} {type : LType} {types : List LType},
    Receives pt (style.operands types) →
    (type, i) ∈ types.zipIdx → Passes type → Has pt (.param i)
  rebind : ∀ {pt owed}, Sound owed pt → ∀ bindings,
    Sound owed (pt.rebind bindings) ∧ Continues pt (pt.rebind bindings)
  emit : ∀ {env owed pt i}, toFrame.Allows pt i → i.dst? = none → ¬ i.IsPhi →
    toFrame.Keeps env owed pt (Emit.emit i) fun _ pt' => pt'.function.label = pt.function.label
  define : ∀ {env owed pt instr}, (∀ n, toFrame.Allows pt (instr n)) →
    (∀ n, (instr n).dst? = some n) → (∀ n, ¬ (instr n).IsPhi) →
    toFrame.Keeps env owed pt (Emit.define instr) fun o pt' => Has pt' o
  note : ∀ {env owed pt step}, Notes IsName IsType (Has pt) step →
    toFrame.Keeps env owed pt (liftM step) fun x pt' => Has pt' (.global x)
  /-- A function of the package is called as soon as its symbol is handed out. -/
  callFunction : ∀ {env owed pt} (d id ret args), env.package = p →
    (∀ x pt', toFrame.Extends pt pt' → Has pt' (.global x) →
      toFrame.Keeps env owed pt' (emitCall ret (.global x) args) fun v pt'' =>
        Has pt'' v.operand ∧ v.type = ret) →
    toFrame.Keeps env owed pt (do
      let x ← functionSymbol d (p.signature id)
      emitCall ret (.global x) args) fun v pt' => Has pt' v.operand ∧ v.type = ret
  emitCheck : ∀ {env owed pt failed}, Has pt failed → ∀ message,
    toFrame.Keeps env owed pt (Emit.emitCheck failed message) Frame.Whatever
  branching : ∀ {α β : Type} {env owed pt condition} {ifFalse : Emit α} {ifTrue : Emit Unit}
    {next : Label → α → Emit β} {Q : α → Point Ghost → Prop} {R : β → Point Ghost → Prop} (roles),
    Has pt condition →
    (∀ owed pt', toFrame.Extends pt pt' → toFrame.Keeps env owed pt' ifFalse Q) →
    (∀ owed pt', toFrame.Extends pt pt' → toFrame.Keeps env owed pt' ifTrue fun _ pt'' =>
      pt''.function.label = pt'.function.label) →
    (∀ a pt₁ other pt', Q a pt₁ → toFrame.Extends pt pt' → Joins pt₁ other pt' →
      toFrame.Keeps env owed pt' (next other a) R) →
    toFrame.Keeps env owed pt (Emit.branching roles condition ifFalse ifTrue next) R
  /-- Where two ways have met, the one operand or the other constant. -/
  phi : ∀ {env owed pt pt₁ other o o' type}, Joins pt₁ other pt → Has pt₁ o → o'.IsConstant →
    (Typed → type.IsHeld) →
    toFrame.Keeps env owed pt
      (Emit.define (.phi · type [(o, pt₁.function.label), (o', other)])) fun o pt' => Has pt' o
  finish : ∀ {pt exit}, Sound [] pt → (∀ o ∈ exit.uses, Has pt o) → exit.targets = [] →
    (Typed → exit.HasHeldTypes) → ∀ returned,
    Closed (pt.finish exit returned) ∧ Continues pt (pt.finish exit returned)
  make : ∀ {env owed pt mk count captures step}, Numbers mk →
    (∀ name, toFrame.Makes { env with name, variableCount := count, style := .closure captures }
      step) →
    toFrame.Keeps env owed pt (making mk count captures step) fun name pt' =>
      Has pt' (.global ⟨name⟩)

end Emit

end Boxlang
