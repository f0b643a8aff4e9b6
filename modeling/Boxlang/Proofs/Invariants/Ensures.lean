import Boxlang.Proofs.Analysis.Statement

/-!
# What steps of analysis ensure

`Ensures` says of a step what holds of its result and of the state after it, from
every state in which an invariant holds.  A step that fails may leave a state of
which less is known.
-/

namespace Boxlang

namespace Analysis

variable {α β : Type} {env : Environment} {J F : AnalysisState → Prop} {Q : α → Prop}
  {R : β → Prop}

/--
From a state of `J`, the step succeeds in a state of `J` with a result of `Q`, or it
fails in a state of `F`.
-/
structure Ensures (env : Environment) (J F : AnalysisState → Prop) (step : Analysis α)
    (Q : α → Prop) : Prop where
  ok : ∀ {s a s'}, J s → step.runIn env s = (.ok a, s') → J s' ∧ Q a
  error : ∀ {s e s'}, J s → step.runIn env s = (.error e, s') → F s'

namespace Ensures

theorem pure {a : α} (h : Q a) : Ensures env J F (pure a) Q where
  ok hs hrun := by
    cases hrun
    exact ⟨hs, h⟩
  error _ hrun := nomatch (Prod.mk.inj hrun).1

theorem throw (hF : ∀ s, J s → F s) (e : SemanticError) :
    Ensures env J F (throw e : Analysis α) Q where
  ok _ hrun := nomatch (Prod.mk.inj hrun).1
  error hs hrun := (Prod.mk.inj hrun).2 ▸ hF _ hs

theorem of_runIn {step : Analysis α}
    (h : ∀ s, J s → ∃ a s', step.runIn env s = (.ok a, s') ∧ J s' ∧ Q a) :
    Ensures env J F step Q where
  ok hs hrun := by
    obtain ⟨a, s', heq, hs', ha⟩ := h _ hs
    cases heq.symm.trans hrun
    exact ⟨hs', ha⟩
  error hs hrun := by
    obtain ⟨a, s', heq, -⟩ := h _ hs
    exact nomatch (Prod.mk.inj (heq.symm.trans hrun)).1

theorem of_keeps {step : Analysis α} (h : ∀ s, J s → ∃ a, step.runIn env s = (.ok a, s) ∧ Q a) :
    Ensures env J F step Q :=
  of_runIn fun s hs =>
    have ⟨a, hrun, ha⟩ := h s hs
    ⟨a, s, hrun, hs, ha⟩

theorem read : Ensures env J F read (· = env) :=
  of_keeps fun _ _ => ⟨env, rfl, rfl⟩

theorem modify {f : AnalysisState → AnalysisState} (h : ∀ s, J s → J (f s)) :
    Ensures env J F (modify f : Analysis Unit) fun _ => True :=
  of_runIn fun s hs => ⟨(), f s, rfl, h s hs, trivial⟩

theorem modifyGet {f : AnalysisState → α × AnalysisState} (h : ∀ s, J s → J (f s).2 ∧ Q (f s).1) :
    Ensures env J F (modifyGet f : Analysis α) Q :=
  of_runIn fun s hs => ⟨(f s).1, (f s).2, rfl, h s hs⟩

theorem bind {step : Analysis α} {next : α → Analysis β} (h : Ensures env J F step Q)
    (hnext : ∀ a, Q a → Ensures env J F (next a) R) : Ensures env J F (step >>= next) R where
  ok hs hrun := by
    obtain ⟨a, s₁, hstep, hrest⟩ := runIn_bind_ok.mp hrun
    obtain ⟨hs₁, ha⟩ := h.ok hs hstep
    exact (hnext a ha).ok hs₁ hrest
  error {s e s'} hs hrun := by
    rw [runIn_bind] at hrun
    cases hstep : step.runIn env s with
    | mk result s₁ =>
      rw [hstep] at hrun
      cases result with
      | error e' => exact (Prod.mk.inj hrun).2 ▸ h.error hs hstep
      | ok a =>
        obtain ⟨hs₁, ha⟩ := h.ok hs hstep
        exact (hnext a ha).error hs₁ hrun

/-- A step that keeps an invariant, whether it succeeds or fails. -/
theorem of_state {step : Analysis α} (h : ∀ s, J s → J (step.runIn env s).2) :
    Ensures env J J step fun _ => True where
  ok {s a s'} hs hrun := by
    have hs' := h s hs
    rw [hrun] at hs'
    exact ⟨hs', trivial⟩
  error {s e s'} hs hrun := by
    have hs' := h s hs
    rwa [hrun] at hs'

theorem state {step : Analysis α} (h : Ensures env J J step Q) {s : AnalysisState} (hs : J s) :
    J (step.runIn env s).2 := by
  rcases hrun : step.runIn env s with ⟨e | a, s'⟩
  · exact h.error hs hrun
  · exact (h.ok hs hrun).1

theorem discard {step : Analysis α} (h : Ensures env J F step Q) :
    Ensures env J F (discard step) fun _ => True := by
  show Ensures env J F ((fun _ => ()) <$> step) _
  rw [← bind_pure_comp]
  exact h.bind fun _ _ => pure trivial

theorem attempt {step : Analysis α} (h : Ensures env J J step Q) :
    Ensures env J F (attempt step) fun result => ∀ a, result = .ok a → Q a := by
  refine of_runIn fun s hs => ⟨_, _, runIn_attempt step, ?_⟩
  rcases hrun : step.runIn env s with ⟨e | a, s'⟩
  · exact ⟨h.error hs hrun, by simp⟩
  · obtain ⟨hs', ha⟩ := h.ok hs hrun
    exact ⟨hs', by simpa using ha⟩

theorem reportFailure {step : Analysis Unit} (h : Ensures env J J step fun _ => True)
    (hreports : ∀ {s} reports, J s → J { s with reports }) :
    Ensures env J F (reportFailure step) fun _ => True := by
  refine of_runIn fun s hs => ⟨_, _, runIn_reportFailure step, ?_, trivial⟩
  rcases hrun : step.runIn env s with ⟨e | a, s'⟩
  · exact hreports _ (h.error hs hrun)
  · exact (h.ok hs hrun).1

theorem forM {step : α → Analysis Unit} {l : List α}
    (h : ∀ a ∈ l, Ensures env J F (step a) fun _ => True) :
    Ensures env J F (l.forM step) fun _ => True := by
  induction l with
  | nil => exact pure trivial
  | cons a l ih =>
    exact (h a List.mem_cons_self).bind fun _ _ => ih fun b hb => h b (List.mem_cons_of_mem a hb)

theorem mapM {step : α → Analysis β} {l : List α} (h : ∀ a ∈ l, Ensures env J F (step a) R) :
    Ensures env J F (l.mapM step) fun bs => ∀ b ∈ bs, R b := by
  induction l with
  | nil => exact pure (by simp)
  | cons a l ih =>
    rw [List.mapM_cons]
    refine (h a List.mem_cons_self).bind fun b hb => ?_
    refine (ih fun c hc => h c (List.mem_cons_of_mem a hc)).bind fun bs hbs => ?_
    exact pure (List.forall_mem_cons.mpr ⟨hb, hbs⟩)

theorem foldlM {step : β → α → Analysis β} {l : List α}
    (h : ∀ a ∈ l, ∀ b, R b → Ensures env J F (step b a) R) {b : β} (hb : R b) :
    Ensures env J F (l.foldlM step b) R := by
  induction l generalizing b with
  | nil => exact pure hb
  | cons a l ih =>
    exact (h a List.mem_cons_self b hb).bind fun _ hb' =>
      ih (fun c hc => h c (List.mem_cons_of_mem a hc)) hb'

end Ensures

end Analysis

end Boxlang
