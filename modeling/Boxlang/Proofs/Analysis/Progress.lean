import Boxlang.Proofs.Analysis.Run
import Boxlang.Proofs.Analysis.Scope
import Boxlang.Proofs.Arena.Edits

/-!
# The frame of a step of analysis

Analysing expressions edits their nodes, lets open closures capture more and adds
warnings; everything else of the state stays (`AnalysisState.Progress`).  The edits
stay within every region of the original arena that holds the expression.

`WalksFrom` says so of one run of a step, the runs that fail included.
-/

namespace Boxlang

/-- What analysing expressions in the slots of `W` may change. -/
structure AnalysisState.Progress (W : Slot → Prop) (s s' : AnalysisState) : Prop where
  arena : Arena.Edits W s.body.arena s'.body.arena
  stmts_eq : s'.body.stmts = s.body.stmts
  variableCount_eq : s'.body.variableCount = s.body.variableCount
  scope : s.scope.Extends s'.scope
  path_eq : s'.path = s.path
  deferred_eq : s'.deferred = s.deferred
  reports : ∃ new, s'.reports = s.reports ++ new ∧ ∀ r ∈ new, r.error.isWarning = true

namespace AnalysisState.Progress

variable {W V : Slot → Prop} {s s' s'' : AnalysisState} {a₀ : Arena}

theorem refl (s : AnalysisState) : s.Progress W s :=
  ⟨.refl, rfl, rfl, .refl _, rfl, rfl, [], by simp, by simp⟩

theorem trans (h : s.Progress W s') (h' : s'.Progress W s'') : s.Progress W s'' := by
  obtain ⟨new, hnew, hwarn⟩ := h.reports
  obtain ⟨new', hnew', hwarn'⟩ := h'.reports
  refine ⟨h.arena.trans h'.arena, h'.stmts_eq.trans h.stmts_eq,
    h'.variableCount_eq.trans h.variableCount_eq, h.scope.trans h'.scope,
    h'.path_eq.trans h.path_eq, h'.deferred_eq.trans h.deferred_eq, new ++ new', ?_, ?_⟩
  · rw [hnew', hnew, List.append_assoc]
  · intro r hr
    rcases List.mem_append.mp hr with hr | hr
    · exact hwarn r hr
    · exact hwarn' r hr

theorem mono (h : s.Progress W s') (hWV : ∀ slot, W slot → V slot) : s.Progress V s' :=
  { h with arena := h.arena.mono hWV }

theorem of_edits {a : Arena} (h : Arena.Edits W s.body.arena a) :
    s.Progress W { s with body := { s.body with arena := a } } :=
  ⟨h, rfl, rfl, .refl _, rfl, rfl, [], by simp, by simp⟩

theorem of_scope {scope : Scope} (h : s.scope.Extends scope) :
    s.Progress W { s with scope } :=
  ⟨.refl, rfl, rfl, h, rfl, rfl, [], by simp, by simp⟩

theorem of_warning {r : Report} (h : r.error.isWarning = true) :
    s.Progress W { s with reports := s.reports ++ [r] } :=
  ⟨.refl, rfl, rfl, .refl _, rfl, rfl, [r], rfl, by simpa using h⟩

/-- A closure that is entered and left again around a step. -/
theorem closure {params : List (String × Ty)}
    (h : Progress W { s with scope := s.scope.enterClosure.declareAll params } s') :
    s.Progress W { s' with scope := s'.scope.exitClosure.2 } :=
  { h with scope := ((Scope.EntersFrom.declareAll s.scope params).extends' h.scope).exitClosure }

theorem reports_prefix (h : s.Progress W s') : s.reports <+: s'.reports := by
  obtain ⟨new, hnew, -⟩ := h.reports
  exact ⟨new, hnew.symm⟩

theorem holdsNodes (h : s.Progress W s') (hW : ∀ slot, W slot → slot < a₀.size)
    (hs : s.body.arena.HoldsNodesOf a₀) : s'.body.arena.HoldsNodesOf a₀ :=
  hs.edits h.arena hW

theorem isInitialized_eq (h : s.Progress W s') (id : VariableId) :
    s'.isInitialized id = s.isInitialized id := by
  simp [isInitialized, isDeferred, h.path_eq, h.deferred_eq]

end AnalysisState.Progress

namespace Analysis

variable {α β : Type} {W V : Slot → Prop} {env : Environment} {s s' : AnalysisState}
  {a₀ : Arena}

/-- A run that edits only slots of `W`, and fails with errors, not with warnings. -/
structure WalksFrom (W : Slot → Prop) (env : Environment) (s : AnalysisState)
    (step : Analysis α) : Prop where
  progress : s.Progress W (step.runIn env s).2
  isError : ∀ e, (step.runIn env s).1 = .error e → e.isWarning = false

namespace WalksFrom

theorem pure (a : α) : WalksFrom W env s (pure a : Analysis α) :=
  ⟨.refl s, fun _ h => by cases h⟩

theorem throw {e : SemanticError} (h : e.isWarning = false) :
    WalksFrom W env s (throw e : Analysis α) :=
  ⟨.refl s, fun _ he => by cases he; exact h⟩

theorem bind {step : Analysis α} {next : α → Analysis β} (h : WalksFrom W env s step)
    (hnext : ∀ a s', step.runIn env s = (.ok a, s') → s.Progress W s' →
      WalksFrom W env s' (next a)) :
    WalksFrom W env s (step >>= next) := by
  rcases hrun : step.runIn env s with ⟨e | a, s₁⟩
  · have hp := h.progress
    have he := h.isError
    rw [hrun] at hp he
    refine ⟨?_, fun e' h' => he e' ?_⟩
    · rw [runIn_bind, hrun]
      exact hp
    · rw [runIn_bind, hrun] at h'
      simpa using h'
  · have hp := h.progress
    rw [hrun] at hp
    have hn := hnext a s₁ hrun hp
    refine ⟨?_, fun e' h' => hn.isError e' ?_⟩
    · rw [runIn_bind, hrun]
      exact hp.trans hn.progress
    · rwa [runIn_bind, hrun] at h'

/-- A run that goes on as another one does, from a state within the frame. -/
theorem of_runIn_eq {step : Analysis α} {rest : Analysis α}
    (hrun : step.runIn env s = rest.runIn env s') (hp : s.Progress W s')
    (h : WalksFrom W env s' rest) : WalksFrom W env s step := by
  refine ⟨?_, fun e he => h.isError e ?_⟩
  · rw [hrun]
    exact hp.trans h.progress
  · rwa [← hrun]

theorem throw_bind {e : SemanticError} (h : e.isWarning = false) {next : α → Analysis β} :
    WalksFrom W env s ((MonadExcept.throw e : Analysis α) >>= next) :=
  (throw h).bind fun _ _ h _ => by simp at h

theorem map {step : Analysis α} {f : α → β} (h : WalksFrom W env s step) :
    WalksFrom W env s (f <$> step) := by
  rw [← bind_pure_comp]
  exact h.bind fun a _ _ _ => .pure (f a)

theorem discard {step : Analysis α} (h : WalksFrom W env s step) :
    WalksFrom W env s (discard step) :=
  h.map

theorem get : WalksFrom W env s (get : Analysis AnalysisState) :=
  ⟨.refl s, fun _ h => by cases h⟩

theorem read : WalksFrom W env s (read : Analysis Environment) :=
  ⟨.refl s, fun _ h => by cases h⟩

theorem node (slot : Slot) : WalksFrom W env s (node slot) :=
  ⟨.refl s, fun _ h => by cases h⟩

theorem spanOf (slot : Slot) : WalksFrom W env s (spanOf slot) :=
  ⟨.refl s, fun _ h => by cases h⟩

theorem modifyArena {f : Arena → Arena} (h : Arena.Edits W s.body.arena (f s.body.arena)) :
    WalksFrom W env s (modifyArena f) :=
  ⟨.of_edits h, fun _ h => by cases h⟩

/-- Changing a node only by what analysis finds out about it. -/
theorem modifyKind {slot : Slot} {f : ExprKind → ExprKind} (hs : W slot)
    (h : (f (s.body.arena.get slot).kind).bare = (s.body.arena.get slot).kind.bare) :
    WalksFrom W env s (modifyKind slot f) :=
  modifyArena (.annotate .refl hs (.withKind h))

theorem insertConversion {slot : Slot} (hs : W slot) (op : Conversion) (t : Ty) :
    WalksFrom W env s (insertConversion slot op t) :=
  (modifyArena (.convert .refl hs)).bind fun _ _ _ _ => .pure t

theorem resolveName (name : String) : WalksFrom W env s (resolveName name) :=
  ⟨.of_scope (Scope.extends_resolve _ _), fun _ h => by cases h⟩

end WalksFrom

/-! ### Written types -/

mutual

theorem isError_of_resolve (f : Signature) (d : Declarations) :
    ∀ (t : WrittenType) (e : SemanticError), f.resolve d t = .error e → e.isWarning = false
  | .optional span inner, e, h => by
      simp only [Signature.resolve] at h
      cases hi : f.resolve d inner with
      | ok t => simp [hi, bind, Except.bind, pure, Except.pure] at h
      | error e' =>
          have : e' = e := by simpa [hi, bind, Except.bind] using h
          exact this ▸ isError_of_resolve f d inner e' hi
  | .callable span params ret, e, h => by
      simp only [Signature.resolve] at h
      cases hp : f.resolveAll d params with
      | error e' =>
          have : e' = e := by simpa [hp, bind, Except.bind] using h
          exact this ▸ isError_of_resolveAll f d params e' hp
      | ok ps =>
          cases hr : f.resolve d ret with
          | ok r => simp [hp, hr, bind, Except.bind, pure, Except.pure] at h
          | error e' =>
              have : e' = e := by simpa [hp, hr, bind, Except.bind] using h
              exact this ▸ isError_of_resolve f d ret e' hr
  | .named span name args, e, h => by
      simp only [Signature.resolve] at h
      cases ha : f.resolveAll d args with
      | error e' =>
          have : e' = e := by simpa [ha, bind, Except.bind] using h
          exact this ▸ isError_of_resolveAll f d args e' ha
      | ok ts =>
          cases hn : f.named? d name ts with
          | some t => simp [ha, hn, bind, Except.bind, pure, Except.pure] at h
          | none =>
              have : SemanticError.unresolved .type name span = e := by
                simpa [ha, hn, bind, Except.bind, throw, throwThe, MonadExceptOf.throw] using h
              exact this ▸ rfl

theorem isError_of_resolveAll (f : Signature) (d : Declarations) :
    ∀ (ts : List WrittenType) (e : SemanticError), f.resolveAll d ts = .error e →
      e.isWarning = false
  | [], e, h => by simp [Signature.resolveAll, pure, Except.pure] at h
  | t :: ts, e, h => by
      simp only [Signature.resolveAll] at h
      cases ht : f.resolve d t with
      | error e' =>
          have : e' = e := by simpa [ht, bind, Except.bind] using h
          exact this ▸ isError_of_resolve f d t e' ht
      | ok u =>
          cases hts : f.resolveAll d ts with
          | ok us => simp [ht, hts, bind, Except.bind, pure, Except.pure] at h
          | error e' =>
              have : e' = e := by simpa [ht, hts, bind, Except.bind] using h
              exact this ▸ isError_of_resolveAll f d ts e' hts

end

theorem WalksFrom.resolveType (t : WrittenType) : WalksFrom W env s (resolveType t) := by
  refine ⟨?_, fun e he => ?_⟩
  · rw [runIn_resolveType]
    exact .refl s
  · rw [runIn_resolveType] at he
    exact isError_of_resolve _ _ t e he

/-! ### Loops -/

/-- A step that edits only slots of `W`, from every state that came from `a₀` by such edits. -/
def Walks (a₀ : Arena) (W : Slot → Prop) (env : Environment) (step : Analysis α) : Prop :=
  ∀ s : AnalysisState, s.body.arena.HoldsNodesOf a₀ → WalksFrom W env s step

variable (hW : ∀ slot, W slot → slot < a₀.size)
include hW

theorem WalksFrom.bind_walks {step : Analysis α} {next : α → Analysis β}
    (hs : s.body.arena.HoldsNodesOf a₀) (h : WalksFrom W env s step)
    (hnext : ∀ a, Walks a₀ W env (next a)) : WalksFrom W env s (step >>= next) :=
  h.bind fun a _ _ hp => hnext a _ (hp.holdsNodes hW hs)

theorem Walks.bind {step : Analysis α} {next : α → Analysis β} (h : Walks a₀ W env step)
    (hnext : ∀ a, Walks a₀ W env (next a)) : Walks a₀ W env (step >>= next) :=
  fun s hs => (h s hs).bind_walks hW hs hnext

theorem Walks.forM {l : List α} {step : α → Analysis PUnit}
    (h : ∀ a ∈ l, Walks a₀ W env (step a)) : Walks a₀ W env (l.forM step) := by
  induction l with
  | nil => exact fun s _ => .pure PUnit.unit
  | cons a l ih =>
      show Walks a₀ W env (step a >>= fun _ => l.forM step)
      exact (h a List.mem_cons_self).bind hW fun _ => ih fun b hb => h b (List.mem_cons_of_mem a hb)

theorem Walks.mapM {l : List α} {step : α → Analysis β}
    (h : ∀ a ∈ l, Walks a₀ W env (step a)) : Walks a₀ W env (l.mapM step) := by
  induction l with
  | nil => exact fun s _ => by simpa using WalksFrom.pure (W := W) []
  | cons a l ih =>
      rw [List.mapM_cons]
      refine (h a List.mem_cons_self).bind hW fun b => ?_
      refine (ih fun c hc => h c (List.mem_cons_of_mem a hc)).bind hW fun bs => ?_
      exact fun s _ => .pure (b :: bs)

theorem Walks.foldlM {l : List α} {init : β} {step : β → α → Analysis β}
    (h : ∀ b, ∀ a ∈ l, Walks a₀ W env (step b a)) : Walks a₀ W env (l.foldlM step init) := by
  induction l generalizing init with
  | nil => exact fun s _ => .pure init
  | cons a l ih =>
      rw [List.foldlM_cons]
      exact (h init a List.mem_cons_self).bind hW fun b =>
        ih fun c d hd => h c d (List.mem_cons_of_mem a hd)

end Analysis

end Boxlang
