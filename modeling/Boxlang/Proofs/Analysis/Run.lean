import Boxlang.Analysis.Body
import Boxlang.Proofs.Analysis.Scope

/-!
# Running steps of analysis

What a run of each building block of `Analysis` gives and leaves behind, and what
can be said of a run that succeeds.
-/

namespace Boxlang

namespace Analysis

variable {α β : Type} {env : Environment} {s s' : AnalysisState}

/-! ### Running the building blocks -/

@[simp]
theorem runIn_pure (a : α) : (pure a : Analysis α).runIn env s = (.ok a, s) := rfl

@[simp]
theorem runIn_throw (e : SemanticError) : (throw e : Analysis α).runIn env s = (.error e, s) := rfl

@[simp]
theorem runIn_get : (get : Analysis AnalysisState).runIn env s = (.ok s, s) := rfl

@[simp]
theorem runIn_read : (read : Analysis Environment).runIn env s = (.ok env, s) := rfl

@[simp]
theorem runIn_modify (f : AnalysisState → AnalysisState) :
    (modify f : Analysis Unit).runIn env s = (.ok (), f s) := rfl

@[simp]
theorem runIn_modifyGet (f : AnalysisState → α × AnalysisState) :
    (modifyGet f : Analysis α).runIn env s = (.ok (f s).1, (f s).2) := rfl

@[simp]
theorem runIn_attempt (step : Analysis α) :
    (attempt step).runIn env s = (.ok (step.runIn env s).1, (step.runIn env s).2) := rfl

theorem runIn_bind (step : Analysis α) (next : α → Analysis β) :
    (step >>= next).runIn env s =
      match step.runIn env s with
      | (.ok a, s') => (next a).runIn env s'
      | (.error e, s') => (.error e, s') := by
  simp only [runIn, bind, ReaderT.bind, ExceptT.bind, ExceptT.run, ExceptT.mk, StateT.bind]
  rcases step env s with ⟨_ | _, _⟩ <;> rfl

theorem runIn_node (slot : Slot) :
    (node slot).runIn env s = (.ok (s.body.arena.get slot), s) := rfl

theorem runIn_spanOf (slot : Slot) :
    (spanOf slot).runIn env s = (.ok (s.body.arena.get slot).span, s) := rfl

theorem runIn_resolveName (name : String) :
    (resolveName name).runIn env s =
      (.ok (s.scope.resolve name).1, { s with scope := (s.scope.resolve name).2 }) := rfl

theorem runIn_declare (name : String) (t : Ty) (isMutable : Bool) :
    (declare name t isMutable).runIn env s =
      (.ok s.scope.count, { s with scope := (s.scope.declare name t isMutable).2 }) := rfl

theorem runIn_resolveType (t : WrittenType) :
    (resolveType t).runIn env s = (env.function.resolve env.declarations t, s) := by
  show (resolveType.liftExcept (env.function.resolve env.declarations t)).runIn env s = _
  cases env.function.resolve env.declarations t <;> rfl

theorem runIn_declareParams (params : List (ClosureParam × Ty)) :
    (params.mapM fun (p, t) => declare p.name.name t false : Analysis _).runIn env s =
      (.ok (List.range' s.scope.count params.length),
        { s with scope := s.scope.declareAll (params.map fun p => (p.1.name.name, p.2)) }) := by
  induction params generalizing s with
  | nil => simp [Scope.declareAll]
  | cons p params ih =>
      rw [List.mapM_cons, runIn_bind, runIn_declare]
      dsimp only
      rw [runIn_bind, ih]
      simp [Scope.declareAll, Scope.declare, List.range'_succ]

/-! ### Runs that succeed -/

theorem runIn_bind_ok {step : Analysis α} {next : α → Analysis β} {b : β} :
    (step >>= next).runIn env s = (.ok b, s') ↔
      ∃ a s₁, step.runIn env s = (.ok a, s₁) ∧ (next a).runIn env s₁ = (.ok b, s') := by
  rw [runIn_bind]
  rcases h : step.runIn env s with ⟨_ | a, s₁⟩ <;> simp [and_assoc]

theorem runIn_map_ok {step : Analysis α} {f : α → β} {b : β} :
    (f <$> step).runIn env s = (.ok b, s') ↔ ∃ a, step.runIn env s = (.ok a, s') ∧ f a = b := by
  rw [← bind_pure_comp, runIn_bind_ok]
  simp [and_comm, and_assoc]

theorem runIn_discard_ok {step : Analysis α} :
    (discard step).runIn env s = (.ok (), s') ↔ ∃ a, step.runIn env s = (.ok a, s') := by
  show ((fun _ => ()) <$> step).runIn env s = _ ↔ _
  rw [runIn_map_ok]
  simp

theorem length_of_runIn_mapM_ok {l : List α} {step : α → Analysis β} {bs : List β}
    (h : (l.mapM step).runIn env s = (.ok bs, s')) : bs.length = l.length := by
  induction l generalizing s s' bs with
  | nil =>
      obtain ⟨rfl, -⟩ : [] = bs ∧ s = s' := by simpa using h
      rfl
  | cons a l ih =>
      rw [List.mapM_cons] at h
      obtain ⟨b, s₁, -, h⟩ := runIn_bind_ok.mp h
      obtain ⟨bs', s₂, hrest, h⟩ := runIn_bind_ok.mp h
      obtain ⟨rfl, -⟩ : b :: bs' = bs ∧ s₂ = s' := by simpa using h
      simp [ih hrest]

/-- What holds of each element and what its step gives, holds of the elements and what the loop gives. -/
theorem forall₂_of_runIn_mapM_ok {P : α → β → Prop} {l : List α} {step : α → Analysis β} {bs : List β}
    (hstep : ∀ a ∈ l, ∀ s b s', (step a).runIn env s = (.ok b, s') → P a b)
    (h : (l.mapM step).runIn env s = (.ok bs, s')) : List.Forall₂ P l bs := by
  induction l generalizing s s' bs with
  | nil =>
      obtain ⟨rfl, -⟩ : [] = bs ∧ s = s' := by simpa using h
      exact .nil
  | cons a l ih =>
      rw [List.mapM_cons] at h
      obtain ⟨b, s₁, ha, h⟩ := runIn_bind_ok.mp h
      obtain ⟨bs', s₂, hrest, h⟩ := runIn_bind_ok.mp h
      obtain ⟨rfl, -⟩ : b :: bs' = bs ∧ s₂ = s' := by simpa using h
      exact .cons (hstep a List.mem_cons_self _ _ _ ha)
        (ih (fun a' ha' => hstep a' (List.mem_cons_of_mem a ha')) hrest)

end Analysis

end Boxlang
