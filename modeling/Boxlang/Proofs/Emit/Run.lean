import Boxlang.Emit.Body

/-!
# Running steps of generation

What a run of each building block of `Emit` gives and leaves behind.  All that is said
of generated code is said of what a step leaves if it succeeds (`Emit.Leaves`), step by
step.  Exactly when a step succeeds is said beside that (`Emit.Meets`).  Steps that fail
do so for a reason that can be told beforehand, so the condition is a proposition that
does not depend on the run.
-/

namespace Boxlang

namespace Emit

/-- All that a step of generation changes. -/
structure World where
  function : FunctionState
  refs : ModuleState

def runIn {α : Type} (step : Emit α) (env : FunctionEnv) (w : World) :
    Except EmitError α × World :=
  let r := (((step env).run).run w.function).run w.refs
  (r.1.1, ⟨r.1.2, r.2⟩)

variable {α β : Type} {env : FunctionEnv} {w : World}

/-! ### Running the building blocks -/

@[simp]
theorem runIn_pure (a : α) : (pure a : Emit α).runIn env w = (.ok a, w) := rfl

@[simp]
theorem runIn_throw (e : EmitError) : (throw e : Emit α).runIn env w = (.error e, w) := rfl

@[simp]
theorem runIn_get : (get : Emit FunctionState).runIn env w = (.ok w.function, w) := rfl

@[simp]
theorem runIn_read : (read : Emit FunctionEnv).runIn env w = (.ok env, w) := rfl

@[simp]
theorem runIn_modify (f : FunctionState → FunctionState) :
    (modify f : Emit Unit).runIn env w = (.ok (), ⟨f w.function, w.refs⟩) := rfl

@[simp]
theorem runIn_modifyGet (f : FunctionState → α × FunctionState) :
    (modifyGet f : Emit α).runIn env w = (.ok (f w.function).1, ⟨(f w.function).2, w.refs⟩) := rfl

@[simp]
theorem runIn_liftM (step : ModuleM α) :
    (liftM step : Emit α).runIn env w =
      (.ok (step.run w.refs).1, ⟨w.function, (step.run w.refs).2⟩) := rfl

theorem runIn_bind (step : Emit α) (next : α → Emit β) :
    (step >>= next).runIn env w =
      match step.runIn env w with
      | (.ok a, w') => (next a).runIn env w'
      | (.error e, w') => (.error e, w') := by
  simp only [runIn, bind, ReaderT.bind, ExceptT.bind, ExceptT.run, ExceptT.mk, StateT.bind,
    StateT.run]
  rcases step env w.function w.refs with ⟨⟨_ | _, _⟩, _⟩ <;> rfl

theorem runIn_nested (env : FunctionEnv) (w : World) (name : String) (variableCount : Nat) (style : ArgumentStyle)
    (step : Emit α) :
    (nested name variableCount style step).runIn env w =
      let r := step.runIn { env with name, variableCount, style } ⟨.start variableCount, w.refs⟩
      (r.1, ⟨w.function, r.2.refs⟩) := by
  simp only [runIn, nested, ExceptT.run, StateT.run]
  rcases h : step { env with name, variableCount, style } (.start variableCount) w.refs with
    ⟨⟨e | a, s⟩, refs⟩
  all_goals
    simp only [bind, ExceptT.bind, ExceptT.mk, StateT.bind, liftM, monadLift, MonadLift.monadLift,
      ExceptT.lift, StateT.lift, Functor.map, StateT.map, h]
    rfl

/-! ### Adapters -/

/-- What a function is passed as parameters of the types, numbered from `start`. -/
def paramValues (start : Nat) (types : List Llvm.LType) : List Llvm.Value :=
  (types.zipIdx start).map fun q => ⟨q.1, .param q.2⟩

theorem paramValues_cons (start : Nat) (type : Llvm.LType) (types : List Llvm.LType) :
    paramValues start (type :: types) = ⟨type, .param start⟩ :: paramValues (start + 1) types := rfl

theorem map_type_paramValues (start : Nat) (types : List Llvm.LType) :
    (paramValues start types).map (·.type) = types := by
  rw [paramValues, List.map_map]
  exact List.zipIdx_map_fst start types

theorem mem_paramValues {start : Nat} {types : List Llvm.LType} {v : Llvm.Value} :
    v ∈ paramValues start types ↔ ∃ t i, (t, i) ∈ types.zipIdx start ∧ v = ⟨t, .param i⟩ := by
  simp only [paramValues, List.mem_map, Prod.exists, eq_comm]

/--
The function through which a callable from `params` to `r` is called as one from `params'` to `r'`:
it converts what it is passed, calls what its context holds, and converts the result.
-/
def adapterFunction (params params' : List Ty) (r r' : Ty) (args : List (Option Conversion))
    (ret : Option Conversion) : Emit Llvm.FunctionDef := do
  let types ← params'.mapM llvmType
  let declared ← declareArguments (types.map fun t => (none, t))
  let wrapped ← loadWord .context 0
  let wrappedContext ← loadWord .context 1
  let converted ← realizeAll args ((paramValues 0 types).zip (params'.zip params))
  let result ← emitCall (← llvmType r) wrapped (.pointer wrappedContext :: converted)
  let result ← realizeEntry ret result r r'
  emitReturn result
  finished (← llvmType r') declared

theorem realize_adaptCallable {inner outer : Ty} {params params' : List Ty} {r r' : Ty}
    (hinner : inner.unboxed = .callable params r) (houter : outer.unboxed = .callable params' r')
    (args : List (Option Conversion)) (ret : Option Conversion) (value : Llvm.Value)
    (source target : Ty) :
    realize (.adaptCallable inner outer args ret) value source target = (do
      let name ← nextAdapterName
      let adapter ← nested name 0 (.closure []) (adapterFunction params params' r r' args ret)
      pushFunction (.function adapter)
      makeCallable (.global ⟨name⟩) value.operand) := by
  rw [realize, hinner, houter]
  rfl

/-! ### What steps leave -/

/-- Where the step succeeds, `Q` holds of what it gives and of the world it leaves. -/
def Leaves (env : FunctionEnv) (w : World) (step : Emit α) (Q : α → World → Prop) : Prop :=
  ∀ a w', step.runIn env w = (.ok a, w') → Q a w'

/-- A sequence that succeeds, step by step. -/
theorem exists_of_runIn_bind {step : Emit α} {next : α → Emit β} {w' : World} {b : β}
    (h : (step >>= next).runIn env w = (.ok b, w')) :
    ∃ a w₁, step.runIn env w = (.ok a, w₁) ∧ (next a).runIn env w₁ = (.ok b, w') := by
  rw [runIn_bind] at h
  split at h
  next a w₁ hstep => exact ⟨a, w₁, hstep, h⟩
  next => cases h

namespace Leaves

variable {step : Emit α} {next : α → Emit β} {Q Q' : α → World → Prop} {R : β → World → Prop}

theorem of_runIn {a : α} {v : World} (h : step.runIn env w = (.ok a, v)) (hQ : Q a v) :
    Leaves env w step Q := by
  intro b w' hrun
  cases h.symm.trans hrun
  exact hQ

theorem of_error {e : EmitError} {v : World} (h : step.runIn env w = (.error e, v)) :
    Leaves env w step Q := by
  intro b w' hrun
  cases h.symm.trans hrun

theorem mono (h : Leaves env w step Q) (hQ : ∀ a w', Q a w' → Q' a w') : Leaves env w step Q' :=
  fun a w' hrun => hQ a w' (h a w' hrun)

theorem bind (h : Leaves env w step Q) (hnext : ∀ a w', Q a w' → Leaves env w' (next a) R) :
    Leaves env w (step >>= next) R := by
  intro b w' hrun
  obtain ⟨a, w₁, hstep, hrest⟩ := exists_of_runIn_bind hrun
  exact hnext a w₁ (h a w₁ hstep) b w' hrest

end Leaves

/-! ### When steps succeed -/

/--
The step succeeds exactly if `ok` holds, and then `Q` holds of what it gives and of
the world it leaves.  If it fails, then because some variable was not bound.
-/
structure Meets (env : FunctionEnv) (w : World) (step : Emit α) (ok : Prop)
    (Q : α → World → Prop) : Prop where
  isOk_iff : (step.runIn env w).1.isOk = true ↔ ok
  post : Leaves env w step Q
  error : ∀ e w', step.runIn env w = (.error e, w') → ∃ id, e = .unboundVariable id

namespace Meets

variable {step : Emit α} {next : α → Emit β} {ok ok' : Prop} {Q Q' : α → World → Prop}
  {R : β → World → Prop} {a : α} {w' : World}

theorem of_runIn {v : World} (h : step.runIn env w = (.ok a, v)) (hQ : Q a v) :
    Meets env w step True Q := by
  refine ⟨by simp [h, Except.isOk, Except.toBool], .of_runIn h hQ, fun e w'' h' => ?_⟩
  cases h.symm.trans h'

theorem of_throw {id : VariableId} (h : step.runIn env w = (.error (.unboundVariable id), w')) :
    Meets env w step False Q := by
  refine ⟨by simp [h, Except.isOk, Except.toBool], .of_error h, fun e w'' h' => ?_⟩
  cases h.symm.trans h'
  exact ⟨id, rfl⟩

theorem pure (h : Q a w) : Meets env w (Pure.pure a) True Q :=
  of_runIn (runIn_pure a) h

theorem throw (id : VariableId) :
    Meets env w (MonadExcept.throw (EmitError.unboundVariable id) : Emit α) False Q :=
  of_throw (runIn_throw _)

theorem exists_ok (h : Meets env w step ok Q) (hok : ok) :
    ∃ a w', step.runIn env w = (.ok a, w') ∧ Q a w' := by
  have hisOk := h.isOk_iff.mpr hok
  rcases hrun : step.runIn env w with ⟨e | a, w'⟩
  · rw [hrun] at hisOk
    cases hisOk
  · exact ⟨a, w', rfl, h.post a w' hrun⟩

theorem exists_error (h : Meets env w step ok Q) (hok : ¬ ok) :
    ∃ id w', step.runIn env w = (.error (.unboundVariable id), w') := by
  rcases hrun : step.runIn env w with ⟨e | a, w'⟩
  · obtain ⟨id, rfl⟩ := h.error e w' hrun
    exact ⟨id, w', rfl⟩
  · exact absurd (h.isOk_iff.mp (by rw [hrun]; rfl)) hok

theorem mono (h : Meets env w step ok Q) (hQ : ∀ a w', Q a w' → Q' a w') :
    Meets env w step ok Q' :=
  ⟨h.isOk_iff, h.post.mono hQ, h.error⟩

theorem congr (h : Meets env w step ok Q) (hok : ok ↔ ok') : Meets env w step ok' Q :=
  ⟨h.isOk_iff.trans hok, h.post, h.error⟩

theorem bind (h : Meets env w step ok Q)
    (hnext : ∀ a w', Q a w' → Meets env w' (next a) ok' R) :
    Meets env w (step >>= next) (ok ∧ ok') R := by
  by_cases hok : ok
  · obtain ⟨a, w', hrun, hQ⟩ := h.exists_ok hok
    have hbind : (step >>= next).runIn env w = (next a).runIn env w' := by rw [runIn_bind, hrun]
    refine ⟨?_, h.post.bind fun a w' hQ => (hnext a w' hQ).post,
      fun e w'' he => (hnext a w' hQ).error e w'' (by rw [← hbind, he])⟩
    rw [hbind, (hnext a w' hQ).isOk_iff]
    exact (and_iff_right hok).symm
  · obtain ⟨id, w', hrun⟩ := h.exists_error hok
    have hbind : (step >>= next).runIn env w = (.error (.unboundVariable id), w') := by
      rw [runIn_bind, hrun]
    exact (of_throw hbind).congr ⟨False.elim, fun h => hok h.1⟩

/-- A sequence all of whose later steps always succeed. -/
theorem followed_by (h : Meets env w step ok Q)
    (hnext : ∀ a w', Q a w' → Meets env w' (next a) True R) : Meets env w (step >>= next) ok R :=
  (h.bind hnext).congr (iff_of_eq (and_true _))

/-- A sequence whose first step always succeeds. -/
theorem bind_true (h : Meets env w step True Q)
    (hnext : ∀ a w', Q a w' → Meets env w' (next a) ok' R) : Meets env w (step >>= next) ok' R :=
  (h.bind hnext).congr (iff_of_eq (true_and _))

theorem bind_of_runIn {v : World} (h : step.runIn env w = (.ok a, v))
    (hnext : Meets env v (next a) ok R) : Meets env w (step >>= next) ok R := by
  refine (of_runIn (Q := fun b w' => b = a ∧ w' = v) h ⟨rfl, rfl⟩).bind_true fun b w' hb => ?_
  obtain ⟨rfl, rfl⟩ := hb
  exact hnext

end Meets

/-- The step succeeds, and `Q` holds of what it gives and of the world it leaves. -/
abbrev Succeeds (env : FunctionEnv) (w : World) (step : Emit α) (Q : α → World → Prop) : Prop :=
  Meets env w step True Q

end Emit

end Boxlang
