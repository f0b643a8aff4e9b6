import Boxlang.Proofs.Discipline.Body
import Boxlang.Proofs.Flow.Draft

/-!
# Valid functions under construction

While a function is generated, its blocks so far are a `Draft`.  What is assumed
about the starts of blocks is not part of the state of generation, so it is the ghost
of a point (`Emit.Assumed`).  A step that finds a draft leaves one, with the same blocks
owed, and what was defined before it is defined after it (`Emit.validFrame`).
-/

namespace Boxlang

open Llvm

/-- Whether a label was given out before the number of labels was `n`. -/
def Llvm.Label.IsBelow (n : Nat) : Label → Prop
  | .entry => True
  | .numbered _ k => k < n

theorem Llvm.Label.IsBelow.mono {n m : Nat} {l : Label} (h : l.IsBelow n) (hle : n ≤ m) :
    l.IsBelow m := by
  cases l with
  | entry => trivial
  | numbered role k => exact Nat.lt_of_lt_of_le h hle

theorem Llvm.Operand.IsConstant.isAvailable {o : Operand} (h : o.IsConstant)
    {params : List Operand} {defined : Nat → Prop} : o.IsAvailable params defined := by
  cases o <;> trivial

namespace Emit

def Synthesized.IsValid (made : Synthesized) : Prop :=
  ∃ f, made = .function f ∧ f.IsValid

def FunctionState.drafted (s : FunctionState) : List Block :=
  s.blocks ++ [openBlock s.label s.body]

theorem FunctionState.map_label_drafted (s : FunctionState) :
    s.drafted.map (·.label) = s.blocks.map (·.label) ++ [s.label] :=
  List.map_append

theorem FunctionState.label_mem_drafted (s : FunctionState) :
    s.label ∈ s.drafted.map (·.label) := by
  simp [map_label_drafted]

theorem FunctionState.defs_drafted (s : FunctionState) :
    s.drafted.flatMap Block.defs = s.blocks.flatMap Block.defs ++ definedBy s.body := by
  simp [drafted, Block.defs, openBlock]

/-- What is assumed of a function: the operands that it was given, and registers where its
blocks start. -/
structure Assumed where
  params : List Operand
  start : Label → Nat → Prop

namespace Point

abbrev params (pt : Point Assumed) : List Operand :=
  pt.ghost.params

abbrev start (pt : Point Assumed) : Label → Nat → Prop :=
  pt.ghost.start

def Here (pt : Point Assumed) : Nat → Prop :=
  AtEnd pt.start pt.function.drafted pt.function.label

def Has (pt : Point Assumed) (o : Operand) : Prop :=
  o.IsAvailable pt.params pt.Here

/--
The given blocks are a draft, the numbers of registers and labels that are still to
come are new, and the functions made along the way are valid.
-/
structure Holds (owed : List Label) (blocks : List Block) (pt : Point Assumed) : Prop where
  draft : Draft pt.params pt.start owed blocks
  defs_lt : ∀ n ∈ blocks.flatMap Block.defs, n < pt.function.nextRegister
  labels_lt : ∀ l ∈ blocks.map (·.label) ++ owed, l.IsBelow pt.function.nextBlock
  made : ∀ made ∈ pt.world.refs.synthesized, made.IsValid

abbrev Sound (owed : List Label) (pt : Point Assumed) : Prop :=
  pt.Holds owed pt.function.drafted

/-! ### One point after another -/

/--
Between two points nothing has changed for the blocks with labels below `n`, except
that more is known at their ends.
-/
structure Follows (n : Nat) (pt pt' : Point Assumed) : Prop where
  params_eq : pt'.params = pt.params
  nextBlock_le : pt.function.nextBlock ≤ pt'.function.nextBlock
  start_eq : ∀ l, l.IsBelow n → pt'.start l = pt.start l
  leads_iff : ∀ l l', l'.IsBelow n →
    (Leads pt'.function.drafted l l' ↔ Leads pt.function.drafted l l')
  atEnd : ∀ l k, l.IsBelow n → AtEnd pt.start pt.function.drafted l k →
    AtEnd pt'.start pt'.function.drafted l k

structure Continues (pt pt' : Point Assumed) : Prop
    extends Follows pt.function.nextBlock pt pt' where
  here : ∀ k, pt.Here k → pt'.Here k

variable {owed : List Label} {n m : Nat} {pt pt' pt'' : Point Assumed}

theorem Follows.refl (n : Nat) (pt : Point Assumed) : Follows n pt pt :=
  ⟨rfl, Nat.le_refl _, fun _ _ => rfl, fun _ _ _ => Iff.rfl, fun _ _ _ => id⟩

theorem Follows.mono (h : Follows m pt pt') (hle : n ≤ m) : Follows n pt pt' :=
  ⟨h.params_eq, h.nextBlock_le, fun l hl => h.start_eq l (hl.mono hle),
    fun l l' hl => h.leads_iff l l' (hl.mono hle), fun l k hl => h.atEnd l k (hl.mono hle)⟩

theorem Follows.trans (h : Follows n pt pt') (h' : Follows n pt' pt'') : Follows n pt pt'' :=
  ⟨h'.params_eq.trans h.params_eq, Nat.le_trans h.nextBlock_le h'.nextBlock_le,
    fun l hl => (h'.start_eq l hl).trans (h.start_eq l hl),
    fun l l' hl => (h'.leads_iff l l' hl).trans (h.leads_iff l l' hl),
    fun l k hl hk => h'.atEnd l k hl (h.atEnd l k hl hk)⟩

theorem Continues.refl (pt : Point Assumed) : Continues pt pt :=
  ⟨.refl _ pt, fun _ => id⟩

theorem Continues.trans (h : Continues pt pt') (h' : Continues pt' pt'') : Continues pt pt'' :=
  ⟨h.toFollows.trans (h'.toFollows.mono h.nextBlock_le), fun k hk => h'.here k (h.here k hk)⟩

theorem Has.mono {o : Operand} (h : pt.Has o) (hcont : Continues pt pt') : pt'.Has o := by
  rw [Has, hcont.params_eq]
  exact Operand.IsAvailable.mono h hcont.here

namespace Sound

variable (h : pt.Sound owed)
include h

theorem isBelow_label : pt.function.label.IsBelow pt.function.nextBlock :=
  h.labels_lt _ (List.mem_append_left _ pt.function.label_mem_drafted)

theorem owed_nodup : owed.Nodup :=
  (List.nodup_append.mp h.draft.labels_nodup).2.1

/-- The block being filled is not one that is still to come. -/
theorem label_ne {l : Label} (hl : l ∈ owed) : pt.function.label ≠ l :=
  (List.nodup_append.mp h.draft.labels_nodup).2.2 _ pt.function.label_mem_drafted l hl

end Sound

/-! ### Changes of a point -/

def turn (pt : Point Assumed) (exit : Terminator) (label : Label) : Point Assumed :=
  ⟨⟨{ pt.function with
      blocks := pt.function.blocks ++ [⟨pt.function.label, pt.function.body, exit⟩]
      body := []
      label }, pt.world.refs⟩, pt.ghost⟩

def nextLabel (pt : Point Assumed) (role : BlockRole) : Label :=
  .numbered role pt.function.nextBlock

/-- Sets a label aside for a block at whose start all will be known that is known now. -/
def owe (pt : Point Assumed) (role : BlockRole) : Point Assumed :=
  ⟨⟨{ pt.function with nextBlock := pt.function.nextBlock + 1 }, pt.world.refs⟩,
    { pt.ghost with start := Function.update pt.start (pt.nextLabel role) pt.Here }⟩

section Add

variable {i : Instr} {next : Nat}

theorem defs_add (pt : Point Assumed) (i : Instr) (next : Nat) :
    (pt.add i next).function.drafted.flatMap Block.defs =
      pt.function.drafted.flatMap Block.defs ++ i.dst?.toList := by
  have hdefs : definedBy (pt.function.body ++ [i]) =
      definedBy pt.function.body ++ i.dst?.toList := by
    cases hi : i.dst? <;> simp [definedBy, hi]
  rw [FunctionState.defs_drafted, FunctionState.defs_drafted, List.append_assoc, ← hdefs]
  rfl

theorem Sound.add (h : pt.Sound owed) (hle : pt.function.nextRegister ≤ next)
    (huses : ∀ o ∈ i.uses, pt.Has o)
    (hdst : ∀ n ∈ i.dst?, pt.function.nextRegister ≤ n ∧ n < next)
    (hphi : i.PhiOk pt.params pt.start (pt.add i next).function.drafted pt.function.label) :
    (pt.add i next).Sound owed where
  draft := h.draft.emit huses (fun n hn hmem =>
    Nat.not_lt_of_le (hdst n hn).1 (h.defs_lt n hmem)) hphi
  defs_lt n hn := by
    rw [defs_add] at hn
    rcases List.mem_append.mp hn with hn | hn
    · exact Nat.lt_of_lt_of_le (h.defs_lt n hn) hle
    · exact (hdst n (by simpa using hn)).2
  labels_lt l hl := by
    rw [FunctionState.map_label_drafted] at hl
    exact h.labels_lt l (by rwa [FunctionState.map_label_drafted])
  made := h.made

theorem atEnd_add (pt : Point Assumed) (i : Instr) (next : Nat) {l : Label} {k : Nat}
    (hk : AtEnd pt.start pt.function.drafted l k) :
    AtEnd pt.start (pt.add i next).function.drafted l k := by
  refine atEnd_append.mpr ((atEnd_append.mp hk).imp_right fun ⟨hlabel, hdef⟩ => ⟨hlabel, ?_⟩)
  show k ∈ definedBy (pt.function.body ++ [i])
  rw [definedBy_append]
  exact List.mem_append_left _ hdef

theorem leads_add (pt : Point Assumed) (i : Instr) (next : Nat) {l l' : Label} :
    Leads (pt.add i next).function.drafted l l' ↔ Leads pt.function.drafted l l' :=
  leads_append_openBlock.trans leads_append_openBlock.symm

theorem continues_add (pt : Point Assumed) (i : Instr) (next : Nat) :
    Continues pt (pt.add i next) where
  params_eq := rfl
  nextBlock_le := Nat.le_refl _
  start_eq _ _ := rfl
  leads_iff _ _ _ := leads_add pt i next
  atEnd _ _ _ := atEnd_add pt i next
  here _ := atEnd_add pt i next

/-- A register that the added instruction defines has a value after it. -/
theorem here_add {n : Nat} (hdst : i.dst? = some n) : (pt.add i next).Here n := by
  refine atEnd_append.mpr (.inr ⟨rfl, ?_⟩)
  show n ∈ definedBy (pt.function.body ++ [i])
  simp [definedBy, hdst]

end Add

section Turn

variable {exit : Terminator} {label : Label}

theorem leads_turn (pt : Point Assumed) (exit : Terminator) (label : Label) {l l' : Label} :
    Leads (pt.turn exit label).function.drafted l l' ↔
      Leads pt.function.drafted l l' ∨ pt.function.label = l ∧ l' ∈ exit.targets := by
  refine leads_append_openBlock.trans (leads_append.trans (or_congr_left ?_))
  exact leads_append_openBlock.symm

theorem atEnd_turn (pt : Point Assumed) (exit : Terminator) (label : Label) {l : Label} {k : Nat}
    (hk : AtEnd pt.start pt.function.drafted l k) :
    AtEnd pt.start (pt.turn exit label).function.drafted l k := by
  have hk := atEnd_append.mp hk
  exact atEnd_append.mpr (.inl (atEnd_append.mpr hk))

theorem here_turn {k : Nat} (h : pt.start label k) : (pt.turn exit label).Here k :=
  .inl h

/-- Control goes on, to blocks that were owed and that assume nothing but what is known. -/
theorem Sound.turn {owed' : List Label} (h : pt.Sound owed)
    (hperm : owed.Perm (label :: owed')) (huses : ∀ o ∈ exit.uses, pt.Has o)
    (htargets : ∀ t ∈ exit.targets, t ∈ owed ∧ ∀ k, pt.start t k → pt.Here k) :
    (pt.turn exit label).Sound owed' where
  draft := ((h.draft.finish huses htargets).perm hperm).begin
  defs_lt n hn := by
    refine h.defs_lt n ?_
    rw [FunctionState.defs_drafted] at hn ⊢
    simpa [Point.turn, Block.defs, definedBy] using hn
  labels_lt l hl := by
    refine h.labels_lt l ?_
    rw [FunctionState.map_label_drafted] at hl ⊢
    refine (hperm.append_left _).mem_iff.mpr ?_
    simpa [Point.turn] using hl
  made := h.made

theorem follows_turn (label : Label) (h : ∀ t ∈ exit.targets, ¬ t.IsBelow n) :
    Follows n pt (pt.turn exit label) where
  params_eq := rfl
  nextBlock_le := Nat.le_refl _
  start_eq _ _ := rfl
  leads_iff _ l' hl' := (leads_turn pt exit label).trans (or_iff_left fun hl => h l' hl.2 hl')
  atEnd _ _ _ := atEnd_turn pt exit label

end Turn

section Owe

variable (role : BlockRole)

theorem nextLabel_not_isBelow : ¬ (pt.nextLabel role).IsBelow pt.function.nextBlock :=
  Nat.lt_irrefl _

theorem start_owe {l : Label} (hl : l.IsBelow pt.function.nextBlock) :
    (pt.owe role).start l = pt.start l :=
  Function.update_of_ne (fun heq => nextLabel_not_isBelow role (heq ▸ hl)) _ _

theorem start_owe_nextLabel : (pt.owe role).start (pt.nextLabel role) = pt.Here :=
  Function.update_self _ _ _

theorem Sound.owe (h : pt.Sound owed) :
    (pt.owe role).Sound (pt.nextLabel role :: owed) where
  draft := h.draft.owe (fun hmem => nextLabel_not_isBelow role (h.labels_lt _ hmem))
    fun _ => h.draft.mem_defs_of_atEnd
  defs_lt := h.defs_lt
  labels_lt l hl := by
    rcases List.mem_append.mp hl with hl | hl
    · exact (h.labels_lt l (List.mem_append_left _ hl)).mono (Nat.le_succ _)
    · rcases List.mem_cons.mp hl with rfl | hl
      · exact Nat.lt_succ_self _
      · exact (h.labels_lt l (List.mem_append_right _ hl)).mono (Nat.le_succ _)
  made := h.made

theorem atEnd_owe {l : Label} {k : Nat} (hl : l.IsBelow pt.function.nextBlock)
    (hk : AtEnd pt.start pt.function.drafted l k) :
    AtEnd (pt.owe role).start (pt.owe role).function.drafted l k :=
  hk.imp_left fun hstart => start_owe role hl ▸ hstart

theorem continues_owe (h : pt.Sound owed) : Continues pt (pt.owe role) where
  params_eq := rfl
  nextBlock_le := Nat.le_succ _
  start_eq _ := start_owe role
  leads_iff _ _ _ := Iff.rfl
  atEnd _ _ hl := atEnd_owe role hl
  here _ := atEnd_owe role h.isBelow_label

end Owe

section Refer

variable {refs : ModuleState}

theorem Sound.refer (h : pt.Sound owed) (hmade : ∀ made ∈ refs.synthesized, made.IsValid) :
    (pt.refer refs).Sound owed :=
  ⟨h.draft, h.defs_lt, h.labels_lt, hmade⟩

theorem continues_refer (pt : Point Assumed) (refs : ModuleState) : Continues pt (pt.refer refs) :=
  ⟨⟨rfl, Nat.le_refl _, fun _ _ => rfl, fun _ _ _ => Iff.rfl, fun _ _ _ => id⟩, fun _ => id⟩

end Refer

section Rebind

variable {bindings : Slots LocalVariable}

theorem Sound.rebind (h : pt.Sound owed) : (pt.rebind bindings).Sound owed :=
  ⟨h.draft, h.defs_lt, h.labels_lt, h.made⟩

theorem continues_rebind (pt : Point Assumed) (bindings : Slots LocalVariable) :
    Continues pt (pt.rebind bindings) :=
  ⟨⟨rfl, Nat.le_refl _, fun _ _ => rfl, fun _ _ _ => Iff.rfl, fun _ _ _ => id⟩, fun _ => id⟩

end Rebind

section Finish

variable {exit : Terminator} {returned : Bool}

/-- What has been made when a function is complete: the blocks are a draft without owed ones. -/
abbrev Closed (pt : Point Assumed) : Prop :=
  pt.Holds [] pt.function.blocks

theorem Sound.finish (h : pt.Sound []) (huses : ∀ o ∈ exit.uses, pt.Has o)
    (htargets : exit.targets = []) : (pt.finish exit returned).Closed where
  draft := h.draft.finish huses (by simp [htargets])
  defs_lt n hn := by
    refine h.defs_lt n ?_
    rw [FunctionState.defs_drafted]
    simpa [Point.finish, World.finish, Block.defs] using hn
  labels_lt l hl := by
    refine h.labels_lt l ?_
    rw [FunctionState.map_label_drafted]
    simpa [Point.finish, World.finish] using hl
  made := h.made

theorem continues_finish (pt : Point Assumed) (htargets : exit.targets = []) (returned : Bool) :
    Continues pt (pt.finish exit returned) where
  params_eq := rfl
  nextBlock_le := Nat.le_refl _
  start_eq _ _ := rfl
  leads_iff _ _ _ := (pt.leads_turn exit pt.function.label).trans (or_iff_left (by simp [htargets]))
  atEnd _ _ _ := pt.atEnd_turn exit pt.function.label
  here _ := pt.atEnd_turn exit pt.function.label

end Finish

/-- Control comes to the block being filled from the one being filled at `pt₁` and from `other`. -/
structure Joins (pt₁ : Point Assumed) (other : Label) (pt : Point Assumed) : Prop where
  params_eq : pt.params = pt₁.params
  ne : pt₁.function.label ≠ other
  leads_iff : ∀ l, Leads pt.function.drafted l pt.function.label ↔
    l = pt₁.function.label ∨ l = other
  atEnd : ∀ k, pt₁.Here k → AtEnd pt.start pt.function.drafted pt₁.function.label k

end Point

/-! ### The frame -/

abbrev validFrame : Frame where
  Ghost := Assumed
  Typed := False
  IsName _ := True
  IsType _ := True
  Passes type := type.isVoid = false
  Sound owed pt := pt.Sound owed
  Closed pt := pt.Closed
  Has pt o := pt.Has o
  Receives pt params := pt.params = params ∧ ∀ o ∈ params, pt.Has o
  Joins := Point.Joins
  Continues := Point.Continues
  refl := .refl
  trans := .trans
  has_mono := .mono
  receives_mono h hcont := ⟨hcont.params_eq.trans h.1, fun o ho => (h.2 o ho).mono hcont⟩

section Steps

variable {env : FunctionEnv} {owed : List Label} {pt : Point Assumed}

theorem keeps_noting_valid {α : Type} {step : ModuleM α}
    (h : ∀ m, (step.run m).2.synthesized = m.synthesized) :
    validFrame.Keeps env owed pt (liftM step) Frame.Whatever := fun hpt =>
  .of_runIn (q := pt.refer (step.run pt.world.refs).2) (runIn_liftM step)
    ⟨Point.Sound.refer hpt (h pt.world.refs ▸ hpt.made), ⟨pt.continues_refer _, rfl, rfl⟩, trivial⟩

theorem keeps_emit_valid {i : Instr} (hi : validFrame.Allows pt i) (hdst : i.dst? = none)
    (hphi : ¬ i.IsPhi) :
    validFrame.Keeps env owed pt (emit i) fun _ pt' =>
      pt'.function.label = pt.function.label := by
  intro hpt
  have hadd := Point.Sound.add hpt (Nat.le_refl _) hi.uses (by simp [hdst])
    fun dst type incoming heq => absurd (heq ▸ trivial) hphi
  exact .of_runIn (q := pt.add i pt.function.nextRegister) (runIn_modify _)
    ⟨hadd, ⟨pt.continues_add i _, rfl, rfl⟩, rfl⟩

section Define

variable {instr : Nat → Instr} (huses : ∀ n, ∀ o ∈ (instr n).uses, pt.Has o)
  (hdst : ∀ n, (instr n).dst? = some n)
include huses hdst

theorem keeps_define_of_phiOk
    (hphi : ∀ n next, (instr n).PhiOk pt.params pt.start (pt.add (instr n) next).function.drafted
      pt.function.label) :
    validFrame.Keeps env owed pt (define instr) fun o pt' => pt'.Has o := by
  intro hpt
  let n := pt.function.nextRegister
  have hadd := Point.Sound.add hpt (Nat.le_succ n) (huses n) (by simp [hdst n, n]) (hphi n _)
  exact .of_runIn (a := .register n) (q := pt.add (instr n) (n + 1)) rfl
    ⟨hadd, ⟨pt.continues_add _ _, rfl, rfl⟩, Point.here_add (hdst n)⟩

theorem keeps_define_valid (hphi : ∀ n, ¬ (instr n).IsPhi) :
    validFrame.Keeps env owed pt (define instr) fun o pt' => pt'.Has o := by
  refine keeps_define_of_phiOk huses hdst fun n next dst type incoming heq => ?_
  exact absurd (heq ▸ trivial) (hphi n)

end Define

/-- Where two ways have met there is one operand for each of them. -/
theorem keeps_phi_valid {pt₁ : Point Assumed} {other : Label} {o o' : Operand}
    (hjoins : Point.Joins pt₁ other pt) (ho : pt₁.Has o) (ho' : o'.IsConstant) (type : LType) :
    validFrame.Keeps env owed pt
      (define (.phi · type [(o, pt₁.function.label), (o', other)])) fun o pt' => pt'.Has o := by
  refine keeps_define_of_phiOk (by simp [Instr.uses]) (fun _ => rfl)
    fun n next dst type' incoming heq => ?_
  cases heq
  refine ⟨by simpa using hjoins.ne, fun l => ?_, fun e he => ?_⟩
  · rw [pt.leads_add, hjoins.leads_iff]
    simp
  · simp only [List.mem_cons, List.not_mem_nil, or_false] at he
    rcases he with rfl | rfl
    · rw [hjoins.params_eq]
      exact Operand.IsAvailable.mono ho fun k hk => pt.atEnd_add _ _ (hjoins.atEnd k hk)
    · exact ho'.isAvailable

end Steps

end Emit

end Boxlang
