import Boxlang.Proofs.Flow.Branch

/-!
# The discipline of valid code

The code that is generated keeps drafts of functions, and what was defined once stays
defined.  Nothing is asked of an expression but that its conversions make no callables that
take parameters of type void (`Arena.ConvertsValues`): the function of an adapted callable
uses each of its parameters, and those of type void are not declared.
-/

namespace Boxlang

open Llvm

/-- If a value of the type is a callable, it takes no parameter of type void. -/
def Declarations.TakesValues (d : Declarations) (t : Ty) : Prop :=
  ∀ params ret, t.unboxed = .callable params ret → ∀ u ∈ params, (d.llvmType u).isVoid = false

/-- The callables that a conversion makes take no parameters of type void. -/
def Conversion.TakesValues (d : Declarations) : Conversion → Ty → Ty → Prop :=
  Everywhere (fun _ _ target => d.TakesValues target) fun _ _ => True

def Arena.ConvertsValues (d : Declarations) (a : Arena) (slot : Slot) : Prop :=
  ∀ x inner op, a.Reaches slot x → (a.get x).kind = .conversion inner op →
    op.TakesValues d (a.typeAt inner) (a.typeAt x)

namespace Emit

variable {p : Package} {env : FunctionEnv} {owed : List Label} {pt : Point Assumed}

/-! ### Functions from their beginning to their end -/

/-- At the beginning of a function nothing is defined, and nothing is assumed of other blocks. -/
def Assumed.initial (style : ArgumentStyle) (types : List LType) : Assumed :=
  ⟨style.operands types, fun _ _ => False⟩

theorem Point.sound_initial (style : ArgumentStyle) (types : List LType) (count : Nat)
    {m : ModuleState} (hm : ∀ made ∈ m.synthesized, made.IsValid) :
    Point.Sound [] ⟨⟨.start count, m⟩, .initial style types⟩ where
  draft := .initial _
  defs_lt := by simp [FunctionState.defs_drafted, FunctionState.start, definedBy]
  labels_lt := by simp [FunctionState.map_label_drafted, FunctionState.start, Label.IsBelow]
  made := hm

theorem receives_initial (style : ArgumentStyle) (types : List LType) (w : World) :
    validFrame.Receives ⟨w, .initial style types⟩ (style.operands types) := by
  refine ⟨rfl, fun o ho => ?_⟩
  have hmem := ho
  rcases List.mem_append.mp ho with ho | ho
  · cases style with
    | free => cases ho
    | method _ | closure _ =>
      obtain rfl := List.mem_singleton.mp ho
      exact hmem
  · obtain ⟨q, -, rfl⟩ := List.mem_map.mp ho
    exact hmem

theorem Frame.Completes.isValid {params : List Operand} {pt' : Point Assumed} {f : FunctionDef}
    (h : validFrame.Completes env params pt f pt') : f.IsValid := by
  have hdraft : Draft pt'.params pt'.start [] pt'.function.blocks := h.closed.draft
  rw [← h.blocks_eq, h.receives.1, ← h.declares.operands_eq] at hdraft
  exact hdraft.isValid

theorem keeps_making_valid {mk : ModuleM String} {count : Nat}
    {captures : List (VariableId × LType)} {step : Emit FunctionDef} (hmk : Numbers mk)
    (hstep : ∀ name, validFrame.Makes
      { env with name, variableCount := count, style := .closure captures } step) :
    validFrame.Keeps env owed pt (making mk count captures step) Frame.Whatever := by
  intro hpt
  have hmade : ∀ made ∈ (mk.run pt.world.refs).2.synthesized, made.IsValid :=
    hmk.synthesized_eq pt.world.refs ▸ hpt.made
  refine Frame.reaches_making (F := validFrame) hstep (.initial (.closure captures))
    (fun types => Point.sound_initial _ types count hmade) (fun types => receives_initial _ types _)
    fun types f q hq => ⟨Point.Sound.refer hpt fun made hm => ?_,
      ⟨pt.continues_refer _, rfl, rfl⟩, trivial⟩
  rcases List.mem_append.mp hm with hm | hm
  · exact hq.closed.made made hm
  · exact ⟨f, List.mem_singleton.mp hm, hq.isValid⟩

/-! ### The discipline -/

def validDiscipline (p : Package) : Discipline p where
  toFrame := validFrame
  pervasive := Ty.pervasive_true
  has_constant h := h.isAvailable
  has_runtime _ := trivial
  has_received h ho := h.2 _ ho
  has_param h hmem hpasses :=
    h.2 _ (List.mem_append_right _ (param_mem_paramOperands hmem hpasses))
  rebind h bindings := ⟨h.rebind, Point.continues_rebind _ bindings⟩
  emit := keeps_emit_valid
  define hi hdst hphi := keeps_define_valid (fun n => (hi n).uses) hdst hphi
  note hnote := by
    cases hnote <;> exact (keeps_noting_valid (by simp)).mono fun _ _ _ => trivial
  callFunction _ _ _ _ _ hcall :=
    (keeps_noting_valid (by simp)).bind fun x pt' h _ => hcall x pt' h trivial
  emitCheck := keeps_emitCheck_valid
  branching := keeps_branching_valid
  phi hjoins ho ho' _ := keeps_phi_valid hjoins ho ho' _
  finish h huses htargets _ returned :=
    ⟨h.finish huses htargets, Point.continues_finish _ htargets returned⟩
  make hmk hstep := (keeps_making_valid hmk hstep).mono fun _ _ _ => trivial

theorem generates_genExpr_valid {a : Arena} {slot : Slot}
    (h : a.ConvertsValues p.declarations slot) :
    (validDiscipline p).Generates p a genExpr slot := by
  refine Discipline.generates_genExpr (D := validDiscipline p) (fun _ _ _ => trivial) id
    fun x hx => ?_
  refine ⟨fun _ _ => trivial, fun inner op hk => ?_⟩
  exact Frame.fits_of_everywhere (F := validFrame) (h x inner op hx hk) Conversion.mentions_true
    False.elim fun _ _ _ htakes => htakes

end Emit

end Boxlang
