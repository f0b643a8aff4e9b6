import Boxlang.Proofs.Flow.Points

/-!
# Code that branches keeps functions valid

A check and the conversions of optionals end the block being filled and go on in
others.  The labels of these are set aside before, and at their starts no more is
assumed than was known then (`Emit.Point.Since`).  So what was known then is known
again in each of the blocks.
-/

namespace Boxlang

namespace Emit

open Llvm

variable {env : FunctionEnv} {owed : List Label} {base pt pt' : Point Assumed}
  {labels : List Label}

namespace Point

/--
Since `base` the given labels were set aside, and where their blocks start all is
assumed that was known at `base`.
-/
structure Since (base : Point Assumed) (labels : List Label) (pt : Point Assumed) : Prop
    extends Follows base.function.nextBlock base pt where
  bindings_eq : pt.function.bindings = base.function.bindings
  returned_eq : pt.function.returned = base.function.returned
  fresh : ∀ l ∈ labels, ¬ l.IsBelow base.function.nextBlock
  isBelow : ∀ l ∈ labels, l.IsBelow pt.function.nextBlock
  start : ∀ l ∈ labels, pt.start l = base.Here

namespace Since

variable {exit : Terminator} {label : Label}

theorem subset (h : Since base labels pt) {labels' : List Label} (hsub : labels' ⊆ labels) :
    Since base labels' pt :=
  ⟨h.toFollows, h.bindings_eq, h.returned_eq, fun l hl => h.fresh l (hsub hl),
    fun l hl => h.isBelow l (hsub hl), fun l hl => h.start l (hsub hl)⟩

theorem step (h : Since base labels pt) (hext : validFrame.Extends pt pt') :
    Since base labels pt' where
  toFollows := h.toFollows.trans (hext.continues.toFollows.mono h.nextBlock_le)
  bindings_eq := hext.bindings_eq.trans h.bindings_eq
  returned_eq := hext.returned_eq.trans h.returned_eq
  fresh := h.fresh
  isBelow l hl := (h.isBelow l hl).mono hext.continues.nextBlock_le
  start l hl := (hext.continues.start_eq l (h.isBelow l hl)).trans (h.start l hl)

variable (h : Since base labels pt) (htargets : ∀ t ∈ exit.targets, t ∈ labels)
include h htargets

theorem turn (label : Label) : Since base labels (pt.turn exit label) where
  toFollows := h.toFollows.trans (follows_turn label fun t ht => h.fresh t (htargets t ht))
  bindings_eq := h.bindings_eq
  returned_eq := h.returned_eq
  fresh := h.fresh
  isBelow := h.isBelow
  start := h.start

/-- In a block that was set aside, all is known that was known before. -/
theorem extends_turn (label : Label) (hlabel : label ∈ labels) :
    validFrame.Extends base (pt.turn exit label) where
  continues :=
    { toFollows := (h.turn htargets label).toFollows
      here := fun _ hk => here_turn (h.start label hlabel ▸ hk) }
  bindings_eq := h.bindings_eq
  returned_eq := h.returned_eq

/-- Control may go to blocks that were set aside from wherever no less is known. -/
theorem sound_turn (hpt : pt.Sound (labels ++ owed)) (hhere : ∀ k, base.Here k → pt.Here k)
    {labels' : List Label} (hperm : labels.Perm (label :: labels'))
    (huses : ∀ o ∈ exit.uses, pt.Has o) :
    (pt.turn exit label).Sound (labels' ++ owed) :=
  hpt.turn (hperm.append_right owed) huses fun t ht =>
    ⟨List.mem_append_left _ (htargets t ht), fun k hk =>
      hhere k (h.start t (htargets t ht) ▸ hk)⟩

end Since

/-- Labels were set aside since `base`, and nothing else has happened. -/
structure Forks (owed : List Label) (base : Point Assumed) (labels : List Label)
    (pt : Point Assumed) : Prop extends Since base labels pt where
  sound : pt.Sound (labels ++ owed)
  here_eq : pt.Here = base.Here
  not_leads : ∀ l ∈ labels, ∀ l', ¬ Leads pt.function.drafted l' l

namespace Forks

theorem refl (h : pt.Sound owed) : Forks owed pt [] pt :=
  ⟨⟨.refl _ pt, rfl, rfl, by simp, by simp, by simp⟩, h, rfl, by simp⟩

theorem has (h : Forks owed base labels pt) {o : Operand} (ho : base.Has o) :
    pt.Has o := by
  rw [Has, h.params_eq, h.here_eq]
  exact ho

theorem owe (h : Forks owed base labels pt) (role : BlockRole) :
    Forks owed base (pt.nextLabel role :: labels) (pt.owe role) where
  toFollows := h.toFollows.trans ((continues_owe role h.sound).toFollows.mono h.nextBlock_le)
  bindings_eq := h.bindings_eq
  returned_eq := h.returned_eq
  fresh l hl := by
    rcases List.mem_cons.mp hl with rfl | hl
    · exact Nat.not_lt_of_le h.nextBlock_le
    · exact h.fresh l hl
  isBelow l hl := by
    rcases List.mem_cons.mp hl with rfl | hl
    · exact Nat.lt_succ_self _
    · exact (h.isBelow l hl).mono (Nat.le_succ _)
  start l hl := by
    rcases List.mem_cons.mp hl with rfl | hl
    · exact (start_owe_nextLabel role).trans h.here_eq
    · exact (start_owe role (h.isBelow l hl)).trans (h.start l hl)
  sound := h.sound.owe role
  here_eq := by
    have hstart : (pt.owe role).start pt.function.label = pt.start pt.function.label :=
      start_owe role h.sound.isBelow_label
    rw [← h.here_eq]
    funext k
    show (_ ∨ _) = (_ ∨ _)
    rw [← hstart]
    rfl
  not_leads l hl l' hlead := by
    rcases List.mem_cons.mp hl with rfl | hl
    · obtain ⟨b, hb, -, htarget⟩ := hlead
      have hmem := h.sound.draft.targets_mem b hb _ htarget
      exact nextLabel_not_isBelow role (h.sound.labels_lt _ hmem)
    · exact h.not_leads l hl l' hlead

end Forks

end Point

theorem Reaches.fork (h : Point.Forks owed base labels pt) (role : BlockRole) :
    Reaches env pt (Emit.freshLabel role) fun l pt' =>
      Point.Forks owed base (l :: labels) pt' :=
  .of_runIn (q := pt.owe role) (runIn_modifyGet _) (h.owe role)

theorem Reaches.turn {α : Type} {exit : Terminator} {label : Label} {step : Emit α}
    {Q : α → Point Assumed → Prop} (h : Reaches env (pt.turn exit label) step Q) :
    Reaches env pt (do
      finishBlock exit
      startBlock label
      step) Q :=
  fun a w hrun => h a w hrun

/-! ### Checks -/

theorem keeps_emitCheck_valid {failed : Operand} (hfailed : pt.Has failed) (message : String) :
    validFrame.Keeps env owed pt (emitCheck failed message) Frame.Whatever := by
  intro hpt
  unfold emitCheck
  refine (Reaches.fork (.refl hpt) .checkFail).bind fun fail pt₁ h₁ => ?_
  refine (Reaches.fork h₁ .checkOk).bind fun ok pt₂ h₂ => ?_
  have htargets : ∀ t ∈ (Terminator.branch failed fail ok).targets, t ∈ [ok, fail] := by
    simp [Terminator.targets]
  have h₂₃ := h₂.extends_turn htargets fail (by simp)
  refine .turn ?_
  have hsound₃ := h₂.sound_turn htargets h₂.sound (fun k hk => h₂.here_eq ▸ hk)
    (.swap fail ok []) (by simpa [Terminator.uses] using h₂.has hfailed)
  have hnote : validFrame.Keeps env ([ok] ++ owed) (pt₂.turn (.branch failed fail ok) fail)
      (liftM (internString message)) Frame.Whatever := keeps_noting_valid (by simp)
  refine hnote.reaches_bind hsound₃ fun text pt₄ hsound₄ h₃₄ _ => ?_
  have huses :
      ∀ o ∈ (Instr.callVoid (runtime "ember_panic") [.pointer (.global text)]).uses, pt₄.Has o := by
    simp [Instr.uses, runtime, Value.pointer, Point.Has, Operand.IsAvailable]
  refine (keeps_emit_valid ⟨huses, False.elim⟩ rfl not_false).reaches_bind hsound₄
    fun _ pt₅ hsound₅ h₄₅ _ => ?_
  have h₃₅ := h₃₄.trans h₄₅
  have h₅ : pt.Since [ok] pt₅ := ((h₂.turn htargets fail).step h₃₅).subset (by simp)
  have htargets' : ∀ t ∈ Terminator.unreachable.targets, t ∈ [ok] := by simp [Terminator.targets]
  have hsound₆ := h₅.sound_turn htargets' hsound₅ (h₂₃.trans h₃₅).continues.here (.refl _)
    (by simp [Terminator.uses])
  exact .of_runIn (q := pt₅.turn .unreachable ok) rfl
    ⟨hsound₆, h₅.extends_turn htargets' ok List.mem_cons_self, trivial⟩

/-! ### Two ways that meet again -/

section Branching

variable {α β : Type} {condition : Operand} {ifFalse : Emit α} {ifTrue : Emit Unit}
  {next : Label → α → Emit β} {Q : α → Point Assumed → Prop} {R : β → Point Assumed → Prop}

theorem keeps_branching_valid (roles : BlockRole × BlockRole × BlockRole)
    (hcondition : pt.Has condition)
    (hfalse : ∀ owed pt', validFrame.Extends pt pt' → validFrame.Keeps env owed pt' ifFalse Q)
    (htrue : ∀ owed pt', validFrame.Extends pt pt' →
      validFrame.Keeps env owed pt' ifTrue fun _ pt'' => pt''.function.label = pt'.function.label)
    (hnext : ∀ a pt₁ other pt', Q a pt₁ → validFrame.Extends pt pt' → Point.Joins pt₁ other pt' →
      validFrame.Keeps env owed pt' (next other a) R) :
    validFrame.Keeps env owed pt (branching roles condition ifFalse ifTrue next) R := by
  intro hpt
  unfold branching
  refine (Reaches.fork (.refl hpt) roles.1).bind fun falseLabel pt₁ h₁ => ?_
  refine (Reaches.fork h₁ roles.2.1).bind fun trueLabel pt₂ h₂ => ?_
  refine (Reaches.fork h₂ roles.2.2).bind fun joinLabel pt₃ h₃ => ?_
  have hbranch : ∀ t ∈ (Terminator.branch condition trueLabel falseLabel).targets,
      t ∈ [joinLabel, trueLabel, falseLabel] := by
    simp [Terminator.targets]
  have hjump {labels : List Label} (hjoin : joinLabel ∈ labels) :
      ∀ t ∈ (Terminator.jump joinLabel).targets, t ∈ labels := by
    simpa [Terminator.targets] using hjoin
  -- The block for a condition that is false, with all that was known before.
  refine .turn ?_
  have h₄ := h₃.extends_turn hbranch falseLabel (by simp)
  have hsound₄ := h₃.sound_turn hbranch h₃.sound
    (fun k hk => h₃.here_eq ▸ hk)
    (List.perm_append_singleton falseLabel [joinLabel, trueLabel])
    (by simpa [Terminator.uses] using h₃.has hcondition)
  refine (hfalse _ _ h₄).reaches_bind hsound₄ fun a pt₅ hsound₅ h₄₅ ha => ?_
  have h₅ : pt.Since [joinLabel, trueLabel] pt₅ :=
    ((h₃.turn hbranch falseLabel).step h₄₅).subset (by simp)
  -- The block for a condition that is true knows nothing of the other one.
  refine .turn ?_
  have h₆ := h₅.extends_turn (hjump List.mem_cons_self) trueLabel (by simp)
  have hsound₆ := h₅.sound_turn (hjump List.mem_cons_self) hsound₅ (h₄.trans h₄₅).continues.here
    (.swap trueLabel joinLabel []) (List.forall_mem_nil _)
  refine (htrue _ _ h₆).reaches_bind hsound₆ fun _ pt₇ hsound₇ h₆₇ hlabel => ?_
  have h₇ : pt.Since [joinLabel] pt₇ :=
    ((h₅.turn (hjump List.mem_cons_self) trueLabel).step h₆₇).subset (by simp)
  -- Where both meet, nothing of either is known.
  refine .turn ?_
  have h₈ := h₇.extends_turn (hjump List.mem_cons_self) joinLabel (by simp)
  have hsound₈ := h₇.sound_turn (hjump List.mem_cons_self) hsound₇
    (h₆.trans h₆₇).continues.here (.refl _) (List.forall_mem_nil _)
  have hjoins : Point.Joins pt₅ trueLabel (pt₇.turn (.jump joinLabel) joinLabel) := by
    refine ⟨h₆₇.continues.params_eq, Point.Sound.label_ne hsound₅ (by simp), fun l => ?_,
      fun k hk => ?_⟩
    · have hnodup := h₃.sound.owed_nodup
      simp only [List.cons_append, List.nodup_cons, List.mem_cons, not_or] at hnodup
      have hneTrue : trueLabel ≠ joinLabel := Ne.symm hnodup.1.1
      have hneFalse : falseLabel ≠ joinLabel := Ne.symm hnodup.1.2.1
      show Leads _ l joinLabel ↔ _
      rw [Point.leads_turn, h₆₇.continues.leads_iff l joinLabel (h₅.isBelow _ List.mem_cons_self),
        Point.leads_turn, h₄₅.continues.leads_iff l joinLabel (h₃.isBelow _ List.mem_cons_self),
        Point.leads_turn, hlabel]
      simp [h₃.not_leads joinLabel List.mem_cons_self l, hneTrue, hneFalse, Terminator.targets,
        Point.turn, eq_comm]
    · exact Point.atEnd_turn pt₇ _ _ (h₆₇.continues.atEnd _ k hsound₅.isBelow_label
        (Point.atEnd_turn pt₅ _ _ hk))
  refine (hnext a pt₅ trueLabel _ ha h₈ hjoins hsound₈).mono fun b pt' hpt' => ?_
  exact ⟨hpt'.1, h₈.trans hpt'.2.1, hpt'.2.2⟩

end Branching

end Emit

end Boxlang
