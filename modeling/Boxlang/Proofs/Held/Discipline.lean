import Boxlang.Proofs.Discipline.Body
import Boxlang.Proofs.Discipline.Labels
import Boxlang.Proofs.Emit.Checked

/-!
# The discipline of held types

Code is about what is held if this is true of each instruction, of the end of each block and
of the functions that are made along the way.  Which operands are used, and in which block,
makes no difference.
-/

namespace Boxlang

namespace Emit

open Llvm Conversion

structure World.HasHeldTypes (w : World) : Prop where
  instrs : ∀ i ∈ w.function.code, i.HasHeldTypes
  exits : ∀ exit ∈ w.function.exits, exit.HasHeldTypes
  made : ∀ made ∈ w.refs.synthesized, made.HasHeldTypes

theorem World.HasHeldTypes.start {m : ModuleState} (hm : ∀ made ∈ m.synthesized, made.HasHeldTypes)
    (count : Nat) : World.HasHeldTypes ⟨.start count, m⟩ where
  instrs := by simp [FunctionState.code, FunctionState.start]
  exits := by simp [FunctionState.exits, FunctionState.start]
  made := hm

def heldFrame : Frame where
  Ghost := Unit
  Typed := True
  IsName _ := True
  IsType _ := True
  Passes _ := True
  Sound _ pt := pt.world.HasHeldTypes
  Closed pt := pt.world.HasHeldTypes
  Has _ _ := True
  Receives _ _ := True
  Joins _ _ _ := True
  Continues _ _ := True
  refl _ := trivial
  trans _ _ := trivial
  has_mono _ _ := trivial
  receives_mono _ _ := trivial

theorem ignoresLabels_heldFrame : heldFrame.IgnoresLabels where
  has_register _ _ := trivial
  joins_iff := .rfl
  add {_ pt i} h _ hi next := by
    refine ⟨⟨fun j hj => ?_, h.exits, h.made⟩, trivial⟩
    rcases List.mem_append.mp (pt.code_add i next ▸ hj) with hj | hj
    · exact h.instrs j hj
    · exact List.mem_singleton.mp hj ▸ hi trivial
  relabel h _ _ := ⟨⟨h.instrs, h.exits, h.made⟩, trivial⟩
  finish {_ pt exit} h _ hexit returned := by
    refine ⟨⟨fun i hi => h.instrs i (pt.code_finish exit returned ▸ hi), fun e he => ?_, h.made⟩,
      trivial⟩
    rcases List.mem_append.mp (pt.exits_finish exit returned ▸ he) with he | he
    · exact h.exits e he
    · exact List.mem_singleton.mp he ▸ hexit trivial

/-- A step that makes no function along the way changes nothing about the types in code. -/
theorem keeps_noting {α : Type} {env : FunctionEnv} {owed : List Label}
    {pt : Point heldFrame.Ghost} {step : ModuleM α}
    (h : ∀ m, (step.run m).2.synthesized = m.synthesized) :
    heldFrame.Keeps env owed pt (liftM step) Frame.Whatever := fun hpt =>
  .of_runIn (q := pt.refer _) (runIn_liftM step)
    ⟨⟨hpt.instrs, hpt.exits, h pt.world.refs ▸ hpt.made⟩, ⟨trivial, rfl, rfl⟩, trivial⟩

theorem Frame.Completes.hasHeldTypes {env : FunctionEnv} {params : List Operand}
    {pt pt' : Point heldFrame.Ghost} {f : FunctionDef}
    (h : heldFrame.Completes env params pt f pt') : f.HasHeldTypes env.style.this? where
  instrs i hi := by
    refine h.closed.instrs i (List.mem_append_left _ ?_)
    rwa [FunctionDef.code, h.blocks_eq] at hi
  exits b hb := h.closed.exits _ (List.mem_map_of_mem (h.blocks_eq ▸ hb))
  params := h.declares.isReceived trivial
  ret := h.isGiven_ret trivial

def heldDiscipline (p : Package) : Discipline p where
  toFrame := heldFrame
  pervasive := Ty.pervasive_true
  has_constant _ := trivial
  has_runtime _ := trivial
  has_received _ _ := trivial
  has_param _ _ _ := trivial
  rebind h _ := ⟨⟨h.instrs, h.exits, h.made⟩, trivial⟩
  emit hi _ hphi := ignoresLabels_heldFrame.emit hi hphi
  define hi _ hphi := ignoresLabels_heldFrame.define hi hphi
  note hnote := by
    cases hnote <;> exact (keeps_noting (by simp)).mono fun _ _ _ => trivial
  callFunction _ _ _ _ _ hcall := (keeps_noting (by simp)).bind fun x pt' h _ => hcall x pt' h trivial
  emitCheck hfailed message := ignoresLabels_heldFrame.emitCheck hfailed (fun _ => trivial)
    (fun _ _ => (keeps_noting (by simp)).mono fun _ _ _ => trivial) message
  branching roles hcondition hfalse htrue hnext :=
    ignoresLabels_heldFrame.branching roles hcondition (hfalse _) (htrue _) hnext
  phi hjoins ho _ htype := ignoresLabels_heldFrame.phi hjoins ho trivial htype
  finish h huses _ hexit returned := ignoresLabels_heldFrame.finish h huses hexit returned
  make {env owed pt mk count captures step} hmk hstep hpt := by
    have hmade : ∀ made ∈ (mk.run pt.world.refs).2.synthesized, made.HasHeldTypes :=
      hmk.synthesized_eq pt.world.refs ▸ hpt.made
    refine Frame.reaches_making hstep (fun _ => ()) (fun _ => .start hmade count) (fun _ => trivial)
      fun types f q hq =>
        ⟨⟨hpt.instrs, hpt.exits, fun made hm => ?_⟩, ⟨trivial, rfl, rfl⟩, trivial⟩
    rcases List.mem_append.mp hm with hm | hm
    · exact hq.closed.made made hm
    · exact ⟨f, List.mem_singleton.mp hm, hq.hasHeldTypes⟩

/-! ### Checked values -/

section Checked

variable {p : Package} {a : Arena} {D : Discipline p} {slot : Slot}

theorem keeps_checked {env : FunctionEnv} {owed : List Label} {pt : Point D.Ghost}
    {generate : Generate}
    (h : D.Keeps env owed pt (generate slot) fun v pt' => D.Has pt' v.operand) :
    D.Keeps env owed pt (checked generate slot) fun v pt' => D.Has pt' v.operand ∧
      v.type = env.package.declarations.llvmType (env.arena.typeAt slot) := by
  refine h.bind fun v pt₁ _ hv hpt₁ u w hrun => ?_
  rw [runIn_check] at hrun
  split at hrun
  next htype =>
    cases hrun
    exact ⟨pt₁.ghost, hpt₁, .refl pt₁, hv, htype⟩
  next => cases hrun

theorem Discipline.generates_genCheckedWithin
    (howner : ∀ id, ∀ t ∈ (p.signature id).owner?, D.IsType t) (n : Nat)
    (hsuits : ∀ x, a.Reaches slot x → D.Suits p a x) : D.Generates p a (genCheckedWithin n) slot := by
  induction n generalizing slot with
  | zero => exact ⟨fun _ _ _ => .throw _⟩
  | succ n ih =>
    refine ⟨?_⟩
    rintro env owed pt rfl rfl hbound
    refine (keeps_checked ((keeps_genNode howner rfl hbound (hsuits slot (.refl _ _))
      fun c hc => ih fun x hx => hsuits x (.head hc hx)).mono fun _ _ hv => hv.has)).mono
        fun _ _ hv => hv.imp_right fun htype _ => htype

end Checked

/-- On elaborated expressions the generator that checks values keeps types held. -/
theorem generates_genChecked_held {p : Package} {a : Arena} {Γ : Context} {slot : Slot}
    (h : Elaborated p a Γ slot) : (heldDiscipline p).Generates p a genChecked slot := by
  refine ⟨?_⟩
  rintro env owed pt rfl rfl hbound
  unfold genChecked
  refine .read reads_read fun env' henv => ?_
  subst henv
  refine (Discipline.generates_genCheckedWithin (fun _ _ _ => trivial) _ fun x hx => ?_).keeps
    rfl rfl hbound
  obtain ⟨Δ, hx⟩ := h.nodeOk_of_reaches hx
  refine ⟨fun _ _ => trivial, fun inner op hk => ?_⟩
  have hform := hx.nodeOk.form
  rw [hk] at hform
  cases hform with
  | conversion _ hsound =>
    exact Frame.fits_of_everywhere hsound mentions_true (fun _ _ _ _ => id) fun _ _ _ _ _ _ _ _ _ => trivial

end Emit

end Boxlang
