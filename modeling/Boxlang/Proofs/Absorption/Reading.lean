import Boxlang.Proofs.Elaboration.Settled

/-!
# What names are read as

Of a scope, analysis reads the type of each name and whether its variable has a value
(`AnalysisState.reading`).  Reading expressions leaves the readings alone; the parameters
of a closure hide those of their names; and `AnalysisState.forget` gives one variable the
type of a declaration that failed.
-/

namespace Boxlang

open Analysis

/-! ### Forgetting the type of a variable -/

def Binding.forget (id : VariableId) (b : Binding) : Binding :=
  if b.id = id then { b with type := .error } else b

namespace Scope

variable {s : Scope} {name : String} {id : VariableId}

def forgetIn (id : VariableId) (f : Frame) : Frame :=
  f.map fun entry => (entry.1, entry.2.forget id)

def forget (s : Scope) (id : VariableId) : Scope :=
  { s with innermost := forgetIn id s.innermost, outer := s.outer.map (forgetIn id) }

def Means (s : Scope) (name : String) (id : VariableId) : Prop :=
  ∃ b, s.lookup? name = some b ∧ b.id = id

theorem lookup_forgetIn (f : Frame) :
    (forgetIn id f).lookup name = (f.lookup name).map (Binding.forget id) := by
  induction f with
  | nil => rfl
  | cons entry f ih =>
      obtain ⟨key, b⟩ := entry
      simp only [forgetIn, List.map_cons, List.lookup_cons] at ih ⊢
      cases name == key with
      | true => rfl
      | false => exact ih

theorem find?_forgetIn (frames : List Frame) :
    find? name (frames.map (forgetIn id)) = (find? name frames).map fun q => (q.1, q.2.forget id) := by
  induction frames with
  | nil => rfl
  | cons f frames ih =>
      rw [List.map_cons, find?, find?, lookup_forgetIn]
      cases f.lookup name with
      | none => exact ih
      | some b => simp

theorem lookup?_forget : (s.forget id).lookup? name = (s.lookup? name).map (Binding.forget id) := by
  show (find? name (s.frames.map (forgetIn id))).map _ = _
  rw [find?_forgetIn, lookup?]
  cases find? name s.frames <;> rfl

theorem fst_resolve (s : Scope) (name : String) : (s.resolve name).1 = s.lookup? name := by
  unfold resolve lookup?
  cases find? name s.frames <;> rfl

end Scope

namespace AnalysisState

variable {W : Slot → Prop} {s s' : AnalysisState} {name : String} {id : VariableId}

def forget (s : AnalysisState) (id : VariableId) : AnalysisState :=
  { s with scope := s.scope.forget id }

/-! ### Readings -/

/-- The type that a name has where it is read, and whether its variable certainly has a value. -/
def reading (s : AnalysisState) (name : String) : Option (Ty × Bool) :=
  (s.scope.lookup? name).map fun b => (b.type, s.isInitialized b.id)

theorem reading_forget_of_means (h : s.scope.Means name id) :
    (s.forget id).reading name = (s.reading name).map fun r => (.error, r.2) := by
  obtain ⟨b, hb, rfl⟩ := h
  simp only [reading, forget, Scope.lookup?_forget, hb, Option.map_some, Binding.forget, if_true]
  rfl

theorem reading_forget_of_not_means (h : ¬ s.scope.Means name id) :
    (s.forget id).reading name = s.reading name := by
  simp only [reading, forget, Scope.lookup?_forget]
  cases hb : s.scope.lookup? name with
  | none => rfl
  | some b =>
      have hne : b.id ≠ id := fun heq => h ⟨b, hb, heq⟩
      simp only [Option.map_some, Binding.forget, if_neg hne]
      rfl

theorem Progress.reading_eq (h : s.Progress W s') (name : String) : s'.reading name = s.reading name := by
  simp only [reading, Scope.lookup?, h.scope.frames_eq, h.isInitialized_eq]

/-! ### Parameters -/

def DefersDeclared (s : AnalysisState) : Prop :=
  ∀ b ∈ s.deferred, b.id < s.scope.count

theorem DefersDeclared.progress (hd : s.DefersDeclared) (h : s.Progress W s') : s'.DefersDeclared := by
  intro b hb
  rw [h.deferred_eq] at hb
  exact Nat.lt_of_lt_of_le (hd b hb) h.scope.count_le

theorem DefersDeclared.enter (hd : s.DefersDeclared) (params : List (String × Ty)) :
    (s.enter params).DefersDeclared := by
  intro b hb
  rw [count_enter]
  exact Nat.lt_of_lt_of_le (hd b hb) (Nat.le_add_right _ _)

def readingUnder (params : List (String × Ty)) (name : String) (r : Option (Ty × Bool)) :
    Option (Ty × Bool) :=
  params.foldl (fun r p => if name = p.1 then some (p.2, true) else r) r

theorem reading_declareAll (hd : s.DefersDeclared) (params : List (String × Ty)) (name : String) :
    reading { s with scope := s.scope.declareAll params } name =
      readingUnder params name (s.reading name) := by
  induction params generalizing s with
  | nil => rfl
  | cons p params ih =>
      let next : AnalysisState := { s with scope := (s.scope.declare p.1 p.2 false).2 }
      have hnext : next.DefersDeclared := fun b hb => Nat.lt_succ_of_lt (hd b hb)
      have hread : next.reading name = if name = p.1 then some (p.2, true) else s.reading name := by
        -- The new variable is numbered beyond all that wait for a value.
        have hnew : s.isDeferred s.scope.count = false := by
          simp only [isDeferred, List.any_eq_false, beq_iff_eq]
          exact fun b hb => Nat.ne_of_lt (hd b hb)
        split
        next heq =>
          subst heq
          simp only [reading, next, Scope.lookup?_declare_self, Option.map_some]
          simp only [isInitialized, isDeferred] at hnew ⊢
          simp [hnew]
        next hne =>
          simp only [reading, next, Scope.lookup?_declare_of_ne _ hne]
          rfl
      rw [readingUnder, List.foldl_cons, ← hread]
      exact ih hnext

theorem reading_enter (hd : s.DefersDeclared) (params : List (String × Ty)) (name : String) :
    (s.enter params).reading name = readingUnder params name (s.reading name) :=
  reading_declareAll (s := { s with scope := s.scope.enterClosure }) hd params name

theorem readingUnder_of_mem {params : List (String × Ty)} (h : name ∈ params.map (·.1))
    (r r' : Option (Ty × Bool)) : readingUnder params name r = readingUnder params name r' := by
  induction params generalizing r r' with
  | nil => cases h
  | cons p params ih =>
      rw [readingUnder, readingUnder, List.foldl_cons, List.foldl_cons]
      by_cases hp : name = p.1
      · simp only [if_pos hp]
      · refine ih ?_ _ _
        exact (List.mem_cons.mp h).resolve_left hp

theorem readingUnder_of_not_mem {params : List (String × Ty)} (h : name ∉ params.map (·.1))
    (r : Option (Ty × Bool)) : readingUnder params name r = r := by
  induction params generalizing r with
  | nil => rfl
  | cons p params ih =>
      obtain ⟨hp, hparams⟩ := not_or.mp (mt List.mem_cons.mpr h)
      rw [readingUnder, List.foldl_cons, if_neg hp]
      exact ih hparams r

end AnalysisState

namespace Analysis

variable {env : Environment} {s s' : AnalysisState} {slot : Slot} {name : Ident} {t : Ty}

/-- A name can be read exactly if its variable has a value; its node is annotated with the variable. -/
theorem runIn_analyseLocal_ok : (analyseLocal slot name).runIn env s = (.ok t, s') ↔
    ∃ b, s.scope.lookup? name.name = some b ∧ s.isInitialized b.id = true ∧ b.type = t ∧
      AnalysisState.withArena { s with scope := (s.scope.resolve name.name).2 }
        (s.body.arena.modifyKind slot (·.withVariable b.id)) = s' := by
  unfold analyseLocal
  rw [runIn_bind, runIn_resolveName, Scope.fst_resolve]
  cases hb : s.scope.lookup? name.name with
  | none => simp
  | some b =>
      dsimp only
      rw [runIn_bind, runIn_modifyKind]
      dsimp only
      rw [runIn_bind, runIn_get]
      dsimp only
      simp only [Option.some.injEq, exists_eq_left']
      have hinit : (AnalysisState.withArena { s with scope := (s.scope.resolve name.name).2 }
          (s.body.arena.modifyKind slot (·.withVariable b.id))).isInitialized b.id =
            s.isInitialized b.id := rfl
      rw [hinit]
      cases s.isInitialized b.id with
      | true => simp
      | false =>
          rw [if_neg (by simp), runIn_bind]
          simp

end Analysis

end Boxlang
