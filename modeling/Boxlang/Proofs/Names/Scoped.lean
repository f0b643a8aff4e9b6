import Boxlang.Proofs.Elaboration.Settled

/-!
# Names and the variables they stand for

The names in scope at a place of an expression are those at its root and the
parameters of the closures on the way (`Arena.Sees`), the innermost first, so that a
lookup finds the innermost declaration.  In a scoped expression every typed node that
is a name is resolved to what the name stands for there (`Arena.Scoped`).
-/

namespace Boxlang

/-- The names in scope at some place and the variables they stand for, innermost first. -/
abbrev Names := List (String × VariableId)

namespace Names

def ids (names : Names) : List VariableId :=
  names.map (·.2)

@[simp]
theorem ids_append (inner names : Names) : (inner ++ names).ids = inner.ids ++ names.ids :=
  List.map_append

end Names

def Closure.binders (literal : Closure) : Names :=
  (literal.params.filterMap fun p => p.id?.map (p.name.name, ·)).reverse

def Stmt.binders : Stmt → Names
  | .letStmt stmt => (stmt.id?.map (stmt.name.name, ·)).toList
  | _ => []

namespace ExprKind

def binders : ExprKind → Names
  | .closure literal => literal.binders
  | _ => []

theorem binders_eq_nil {kind : ExprKind} (h : ∀ literal, kind ≠ .closure literal) :
    kind.binders = [] := by
  cases kind with
  | closure literal => exact absurd rfl (h literal)
  | _ => rfl

/-- Whether the node, if it is a name, is resolved to what the name stands for. -/
def NamedIn (names : Names) (kind : ExprKind) : Prop :=
  ∀ name id?, kind = .localRef name id? → ∃ id, id? = some id ∧ names.lookup name.name = some id

end ExprKind

namespace Closure

theorem mem_ids_binders {literal : Closure} {id : VariableId} :
    id ∈ literal.binders.ids ↔ id ∈ literal.params.filterMap (·.id?) := by
  simp [binders, Names.ids, List.mem_filterMap]

/-- The parameters that were given numbers are in scope under these numbers. -/
theorem binders_withIds (literal : Closure) (ids captures : List VariableId) :
    (ExprKind.withClosureVariables (.closure literal) ids captures).binders =
      ((literal.params.map (·.name.name)).zip ids).reverse := by
  simp only [ExprKind.withClosureVariables, ExprKind.binders, binders, List.reverse_inj]
  generalize literal.params = params
  induction params generalizing ids with
  | nil => simp
  | cons q params ih =>
      cases ids with
      | nil => simp
      | cons id ids => simp [ih]

end Closure

/-- The parameters that a closure is given numbers for have one of these numbers. -/
theorem ExprKind.mem_of_mem_binders_withClosureVariables {k : ExprKind} {ids captures : List VariableId}
    {id : VariableId} (h : id ∈ (k.withClosureVariables ids captures).binders.ids) : id ∈ ids := by
  cases k with
  | closure literal =>
      rw [Closure.binders_withIds, Names.ids, List.map_reverse, List.mem_reverse] at h
      obtain ⟨q, hq, rfl⟩ := List.mem_map.mp h
      exact (List.of_mem_zip hq).2
  | _ => simp [withClosureVariables, binders, Names.ids] at h

namespace Arena

variable {a b : Arena} {names inner outer : Names} {root slot x : Slot}

/-- The names in scope at a node of the expression in `root`, at which `names` are. -/
inductive Sees (a : Arena) (names : Names) (root : Slot) : Names → Slot → Prop where
  | root : Sees a names root names root
  | operand {seen : Names} {slot c : Slot} : Sees a names root seen slot →
      c ∈ (a.get slot).kind.operands →
      Sees a names root ((a.get slot).kind.binders ++ seen) c

theorem exists_sees_of_reaches (names : Names) (h : a.Reaches root slot) :
    ∃ seen, a.Sees names root seen slot := by
  induction h with
  | refl => exact ⟨names, .root⟩
  | tail _ hc ih =>
      obtain ⟨seen, hseen⟩ := ih
      exact ⟨_, hseen.operand hc⟩

/--
An expression whose typed nodes are resolved to what their names stand for, where
distinct declarations declare distinct variables.
-/
inductive Scoped (a : Arena) : Names → Slot → Prop where
  | intro {names : Names} {slot : Slot} :
      ((a.get slot).type?.isSome → names.ids.Nodup ∧ (a.get slot).kind.NamedIn names) →
      (∀ c ∈ (a.get slot).kind.operands, Scoped a ((a.get slot).kind.binders ++ names) c) →
      Scoped a names slot

namespace Scoped

theorem node (h : a.Scoped names slot) (ht : (a.get slot).type?.isSome) :
    names.ids.Nodup ∧ (a.get slot).kind.NamedIn names := by
  cases h with
  | intro hnode _ => exact hnode ht

theorem operands (h : a.Scoped names slot) : ∀ c ∈ (a.get slot).kind.operands,
    a.Scoped ((a.get slot).kind.binders ++ names) c := by
  cases h with
  | intro _ hops => exact hops

theorem of_sees {seen : Names} (h : a.Scoped names root) (hx : a.Sees names root seen slot) :
    a.Scoped seen slot := by
  induction hx with
  | root => exact h
  | operand _ hc ih => exact ih.operands _ hc

/-- An expression is scoped in every arena that agrees on its nodes. -/
theorem congr (h : a.Scoped names slot) (hab : ∀ x, a.Reaches slot x → b.get x = a.get x) :
    b.Scoped names slot := by
  induction h with
  | @intro names slot hnode _ ih =>
      have hself := hab slot (.refl a slot)
      refine .intro (hself ▸ hnode) fun c hc => ?_
      rw [hself] at hc ⊢
      exact ih c hc fun x hx => hab x (.head hc hx)

theorem not_reaches_of_mem (h : a.Scoped names slot) :
    ∀ c ∈ (a.get slot).kind.operands, ¬ a.Reaches c slot := by
  induction h with
  | @intro names slot _ _ ih =>
      intro c hc hreach
      rcases reaches_iff.mp hreach with rfl | ⟨c', hc', hreach'⟩
      · exact ih slot hc slot hc (.refl a slot)
      · exact ih c hc c' hc' (Relation.ReflTransGen.tail hreach' hc)

end Scoped

/-- In an expression of a forest that is not typed yet, there is nothing to resolve. -/
theorem IsForest.scoped_of_untyped {roots : List Slot} (hf : a.IsForest roots)
    (hun : ∀ slot < a.size, (a.get slot).type? = none) {n k : Nat} (hk : a.Level roots k slot)
    (hn : a.size ≤ n + k) (names : Names) : a.Scoped names slot := by
  induction n generalizing k slot names with
  | zero =>
      have := hf.level_lt_size hk
      omega
  | succ n ih =>
      refine .intro (fun ht => ?_) fun c hc => ih (.child hk hc) (by omega) _
      simp [hun slot (hf.lt_size_of_level hk)] at ht

end Arena

/-! ### Scopes -/

namespace Scope

def names (s : Scope) : Names :=
  s.frames.flatten.map fun entry => (entry.1, entry.2.id)

theorem ids_names (s : Scope) : s.names.ids = idsOf s.frames := by
  simp only [names, Names.ids, idsOf, List.map_map]
  rfl

theorem lookup_map_id (f : Frame) (name : String) :
    (f.map fun entry => (entry.1, entry.2.id)).lookup name = (f.lookup name).map (·.id) := by
  induction f with
  | nil => rfl
  | cons entry f ih =>
      obtain ⟨other, b⟩ := entry
      simp only [List.map_cons, List.lookup_cons]
      cases name == other
      · exact ih
      · rfl

theorem lookup_names_of_find? {frames : List Frame} {name : String} {depth : Nat} {b : Binding}
    (h : find? name frames = some (depth, b)) :
    (frames.flatten.map fun entry => (entry.1, entry.2.id)).lookup name = some b.id := by
  induction frames with
  | nil => cases h
  | cons f frames ih =>
      rw [find?] at h
      rw [List.flatten_cons, List.map_append, List.lookup_append, lookup_map_id]
      cases hl : f.lookup name with
      | some b' =>
          obtain ⟨-, rfl⟩ : _ ∧ b' = b := by simpa [hl] using h
          rfl
      | none => simpa [hl] using ih (by simpa [hl] using h)

theorem lookup_names_of_resolve {s : Scope} {name : String} {b : Binding}
    (h : (s.resolve name).1 = some b) : s.names.lookup name = some b.id := by
  unfold resolve at h
  split at h
  next => cases h
  next hfound =>
    cases h
    exact lookup_names_of_find? hfound

theorem Extends.names_eq {s s' : Scope} (h : s.Extends s') : s'.names = s.names := by
  simp only [names, h.frames_eq]

theorem names_declare (s : Scope) (name : String) (t : Ty) (isMutable : Bool) :
    (s.declare name t isMutable).2.names = (name, s.count) :: s.names := by
  simp [declare, names, frames]

theorem map_paramFrame (n : Nat) (params : List (String × Ty)) :
    (paramFrame n params).map (fun entry => (entry.1, entry.2.id)) =
      (params.map (·.1)).zip (List.range' n params.length) := by
  induction params generalizing n with
  | nil => rfl
  | cons q params ih => simp [paramFrame_cons, ih, List.range'_succ]

end Scope

theorem AnalysisState.names_enter (s : AnalysisState) {literal : Closure} {params : List Ty}
    (hlen : params.length = literal.params.length) (captures : List VariableId) :
    (s.enter (literal.named params)).scope.names =
      (ExprKind.withClosureVariables (.closure literal)
        (List.range' s.scope.count (literal.params.zip params).length) captures).binders ++
        s.scope.names := by
  rw [Closure.binders_withIds, Scope.names, frames_enter, List.flatten_cons, List.map_append,
    List.map_reverse, Scope.map_paramFrame, Closure.map_fst_named hlen]
  simp [Closure.named, Scope.names]

end Boxlang
