import Boxlang.Proofs.Invariants.Statement
import Boxlang.Proofs.Names.Node
import Boxlang.Proofs.Scopes.Stored

/-!
# Scopes stay balanced

Whatever goes wrong in an expression, at whatever depth, the scopes are those that it was
analysed in: a closure that was entered has been left.  All that is left behind are
variables, numbered in the order in which they were declared, and what was stored of them
(`AnalysisState.Declares`).  Each of these numbers stands for one declaration, so a name that
is resolved to it is the name that was declared.
-/

namespace Boxlang

/-! ### Numbered scopes -/

namespace Scope

/--
`declared` are the names of the variables of the function so far, by number.  No other
variables are in scope or captured.
-/
structure DeclaredAs (declared : List String) (s : Scope) : Prop where
  length_eq : declared.length = s.count
  binding : ∀ f ∈ s.frames, ∀ entry ∈ f, declared[entry.2.id]? = some entry.1
  capture_lt : ∀ c ∈ s.closures, ∀ id ∈ c.captures, id < s.count

namespace DeclaredAs

variable {declared : List String} {s : Scope} {name : String}

theorem new : ({} : Scope).DeclaredAs [] :=
  ⟨rfl, by simp [frames], by simp⟩

theorem declare (h : s.DeclaredAs declared) (name : String) (t : Ty) (isMutable : Bool) :
    (s.declare name t isMutable).2.DeclaredAs (declared ++ [name]) where
  length_eq := by simp [Scope.declare, h.length_eq]
  binding := by
    have hold : ∀ f ∈ s.frames, ∀ entry ∈ f, (declared ++ [name])[entry.2.id]? = some entry.1 :=
      fun f hf entry he => getElem?_declared_append (h.binding f hf entry he) _
    intro f hf entry he
    rcases List.mem_cons.mp hf with rfl | hf
    · rcases List.mem_cons.mp he with rfl | he
      · simp [← h.length_eq]
      · exact hold _ List.mem_cons_self entry he
    · exact hold f (List.mem_cons_of_mem _ hf) entry he
  capture_lt c hc id hid := Nat.lt_succ_of_lt (h.capture_lt c hc id hid)

theorem declareAll (h : s.DeclaredAs declared) (params : List (String × Ty)) :
    (s.declareAll params).DeclaredAs (declared ++ params.map (·.1)) := by
  induction params generalizing s declared with
  | nil => simpa [Scope.declareAll] using h
  | cons param params ih => simpa [Scope.declareAll] using ih (h.declare param.1 param.2 false)

theorem resolve_fst (h : s.DeclaredAs declared) {b : Binding} (hb : (s.resolve name).1 = some b) :
    declared[b.id]? = some name := by
  unfold Scope.resolve at hb
  split at hb
  next => cases hb
  next hfound =>
    cases hb
    obtain ⟨inner, f, outer, hframes, -, hmem⟩ := exists_of_find? hfound
    exact h.binding f (by simp [hframes]) (name, _) hmem

theorem lt_count (h : s.DeclaredAs declared) {id : VariableId} (hid : declared[id]? = some name) :
    id < s.count := by
  obtain ⟨hlt, -⟩ := List.getElem?_eq_some_iff.mp hid
  exact h.length_eq ▸ hlt

theorem resolve_snd (h : s.DeclaredAs declared) (name : String) : (s.resolve name).2.DeclaredAs declared := by
  cases hfind : find? name s.frames with
  | none => simpa [Scope.resolve, hfind] using h
  | some p =>
      obtain ⟨depth, b⟩ := p
      have hresolve : s.resolve name =
          (some b, { s with closures := s.closures.map (OpenClosure.noteRead · depth b.id) }) := by
        simp [Scope.resolve, hfind]
      have hb : b.id < s.count := h.lt_count (h.resolve_fst (congrArg Prod.fst hresolve))
      rw [hresolve]
      refine ⟨h.length_eq, h.binding, fun c' hc' id hid => ?_⟩
      obtain ⟨c, hc, rfl⟩ := List.mem_map.mp hc'
      unfold OpenClosure.noteRead at hid
      split at hid
      · rcases List.mem_append.mp hid with hid | hid
        · exact h.capture_lt c hc id hid
        · exact List.mem_singleton.mp hid ▸ hb
      · exact h.capture_lt c hc id hid

theorem enterClosure (h : s.DeclaredAs declared) : s.enterClosure.DeclaredAs declared where
  length_eq := h.length_eq
  binding := List.forall_mem_cons.mpr ⟨by simp [Scope.enterClosure, push], h.binding⟩
  capture_lt := List.forall_mem_cons.mpr ⟨by simp, h.capture_lt⟩

theorem exitClosure (h : s.DeclaredAs declared) : s.exitClosure.2.DeclaredAs declared where
  length_eq := h.length_eq.trans s.count_exitClosure.symm
  binding f hf := h.binding f (s.frames_exitClosure_subset hf)
  capture_lt c hc := by
    rw [s.count_exitClosure]
    refine h.capture_lt c ?_
    have hpop : s.pop.closures = s.closures := by
      unfold pop
      split <;> rfl
    unfold Scope.exitClosure at hc
    split at hc
    next => exact hpop ▸ hc
    next c' cs hcs => exact hcs ▸ List.mem_cons_of_mem c' hc

/-- A closure that is left has captured variables of the function. -/
theorem exitClosure_fst_lt (h : s.DeclaredAs declared) : ∀ id ∈ s.exitClosure.1, id < s.count := by
  unfold Scope.exitClosure
  split
  next => simp
  next c cs hcs => exact h.capture_lt c (by simp [hcs])

theorem ofSignature (f : Signature) : (Scope.ofSignature f).DeclaredAs (f.params.map (·.name)) := by
  have h := new.declareAll (f.params.map fun p => (p.name, p.type))
  rw [ofSignature_eq]
  simpa [Function.comp_def] using h

end DeclaredAs

end Scope

/-! ### What is left behind -/

/-- What a node is stands in it without annotations, too. -/
theorem Expr.IsConversion.of_bare_eq {e e' : Expr} (h : e.IsConversion) (hbare : e'.kind.bare = e.kind.bare) :
    e'.IsConversion := by
  obtain ⟨inner, op, hk⟩ := h
  rw [hk] at hbare
  cases hk' : e'.kind with
  | conversion inner' op' => exact ⟨inner', op', hk'⟩
  | _ =>
      rw [hk'] at hbare
      cases hbare

/-- Annotations of a closure leave the names of its parameters alone. -/
theorem Closure.map_name_of_bare {literal literal' : Closure}
    (h : (ExprKind.closure literal').bare = (ExprKind.closure literal).bare) :
    literal'.params.map (·.name.name) = literal.params.map (·.name.name) := by
  have hnames := congrArg (fun literal : Closure => literal.params.map (·.name.name)) (ExprKind.closure.inj h)
  simpa [ClosureParam.bare, Function.comp_def] using hnames

/--
`s'` is left behind by an expression in `s`, when the variables named `declared` were there:
the scopes are the same, the variables `new` were declared, and what nodes store has grown by
these.
-/
structure AnalysisState.Declares (s : AnalysisState) (declared new : List String) (s' : AnalysisState) :
    Prop where
  scope : s.scope.Extends s'.scope
  declaredAs : s'.scope.DeclaredAs (declared ++ new)
  size_le : s.body.arena.size ≤ s'.body.arena.size
  kind : ∀ x < s.body.arena.size, (s'.body.arena.get x).kind.bare = (s.body.arena.get x).kind.bare ∨
    (s'.body.arena.get x).IsConversion
  stores : s.body.arena.stores.Grows declared new s'.body.arena.stores

namespace AnalysisState.Declares

variable {s s' s'' : AnalysisState} {declared new new' : List String} {slot : Slot}

theorem refl (h : s.scope.DeclaredAs declared) : s.Declares declared [] s where
  scope := .refl _
  declaredAs := by simpa using h
  size_le := Nat.le_refl _
  kind _ _ := .inl rfl
  stores := .refl _ _

theorem trans (h : s.Declares declared new s') (h' : s'.Declares (declared ++ new) new' s'') :
    s.Declares declared (new ++ new') s'' where
  scope := h.scope.trans h'.scope
  declaredAs := by simpa using h'.declaredAs
  size_le := Nat.le_trans h.size_le h'.size_le
  kind x hx := by
    rcases h'.kind x (Nat.lt_of_lt_of_le hx h.size_le) with heq | hconv
    · exact (h.kind x hx).imp heq.trans (·.of_bare_eq heq)
    · exact .inr hconv
  stores := h.stores.trans h'.stores

theorem congr {t : AnalysisState} (h : s.Declares declared new s') (hscope : t.scope = s'.scope)
    (harena : t.body.arena = s'.body.arena) : s.Declares declared new t where
  scope := hscope ▸ h.scope
  declaredAs := hscope ▸ h.declaredAs
  size_le := harena ▸ h.size_le
  kind := harena ▸ h.kind
  stores := harena ▸ h.stores

theorem of_scope {scope : Scope} (hscope : s.scope.Extends scope) (h : scope.DeclaredAs declared) :
    s.Declares declared [] { s with scope } :=
  { refl (s := { s with scope }) h with scope := hscope }

theorem modify (h : s.scope.DeclaredAs declared) {g : Expr → Expr}
    (hbare : (g (s.body.arena.get slot)).kind.bare = (s.body.arena.get slot).kind.bare)
    (hstores : (s.body.arena.get slot).kind.stores.Grows declared [] (g (s.body.arena.get slot)).kind.stores) :
    s.Declares declared [] (s.withArena (s.body.arena.modify slot g)) where
  scope := .refl _
  declaredAs := by simpa using h
  size_le := by simp
  kind x _ := by
    refine .inl ?_
    rw [arena_withArena, Arena.get_modify]
    split
    next hx => rw [hbare, hx.1]
    next => rfl
  stores := hstores.modify

theorem convert (h : s.scope.DeclaredAs declared) (slot : Slot) (op : Conversion) (t : Ty) :
    s.Declares declared [] (s.withArena (s.body.arena.convert slot op t).2) where
  scope := .refl _
  declaredAs := by simpa using h
  size_le := by simp
  kind x hx := by
    by_cases hxs : x = slot
    · subst hxs
      exact .inr ⟨_, _, by rw [arena_withArena, Arena.get_convert _ hx hx, if_pos rfl]; rfl⟩
    · exact .inl (by rw [arena_withArena, Arena.convert, Arena.get_wrap_of_ne _ hx hxs])
  stores := by
    rw [arena_withArena, Arena.stores_convert]
    exact .refl _ _

theorem resolve (h : s.scope.DeclaredAs declared) {name : String} {b : Binding}
    (hb : (s.scope.resolve name).1 = some b)
    (hname : ∀ other id?, (s.body.arena.get slot).kind = .localRef other id? → other.name = name) :
    s.Declares declared [] (({ s with scope := (s.scope.resolve name).2 } : AnalysisState).withArena
      (s.body.arena.modifyKind slot (·.withVariable b.id))) :=
  (of_scope (Scope.extends_resolve _ _) (h.resolve_snd name)).trans <| .modify (by simpa using h.resolve_snd name)
    (ExprKind.bare_withVariable _ _) (ExprKind.grows_withVariable hname (by simpa using h.resolve_fst hb))

/-- A closure was entered, its body left `s'` behind, and the closure is left and annotated. -/
theorem closure {params : List (String × Ty)} {names : List String}
    (h : (s.enter params).Declares (declared ++ names) new s') (hlen : declared.length = s.scope.count)
    (hnames : ∀ literal, (s'.body.arena.get slot).kind = .closure literal →
      literal.params.map (·.name.name) = names) :
    s.Declares declared (names ++ new) (s'.leave.withArena (s'.body.arena.modifyKind slot
      (·.withClosureVariables (List.range' s.scope.count names.length) s'.scope.exitClosure.1))) where
  scope := ((Scope.EntersFrom.declareAll s.scope params).extends' h.scope).exitClosure
  declaredAs := by
    rw [← List.append_assoc]
    exact h.declaredAs.exitClosure
  size_le := by
    rw [arena_withArena, Arena.modifyKind, Arena.size_modify]
    exact h.size_le
  kind x hx := by
    rw [arena_withArena, Arena.modifyKind, Arena.get_modify]
    split
    next heq =>
      obtain ⟨rfl, -⟩ := heq
      have hbare := ExprKind.bare_withClosureVariables (s'.body.arena.get x).kind
        (List.range' s.scope.count names.length) s'.scope.exitClosure.1 fun literal hliteral => by
          rw [← hnames literal hliteral, List.length_range', List.length_map]
      exact (h.kind x hx).imp hbare.trans (·.of_bare_eq hbare)
    next => exact h.kind x hx
  stores := by
    refine h.stores.enclosing ?_ ?_ (?_ : _ ≤ _ + ↑s'.scope.exitClosure.1) ?_
    · rw [← hlen]
      exact Arena.collect_modify_le _ (ExprKind.binders_withClosureVariables_le _ _ hnames)
    · exact le_trans (Arena.collect_modify_le _ (ExprKind.readings_withClosureVariables_le _ _ _))
        (le_of_eq (add_zero _))
    · exact Arena.collect_modify_le _ (ExprKind.captures_withClosureVariables_le _ _ _)
    · rw [h.declaredAs.length_eq]
      exact h.declaredAs.exitClosure_fst_lt

end AnalysisState.Declares

namespace Analysis

open AnalysisState

variable {env : Environment} {visit : Visit} {s s₀ s' : AnalysisState} {declared declared₀ : List String}
  {slot : Slot}

/-- `s` was left behind by expressions in `s₀`. -/
def After (s₀ : AnalysisState) (declared : List String) (s : AnalysisState) : Prop :=
  ∃ new, s₀.Declares declared new s

theorem After.trans (h : After s₀ declared s)
    (h' : ∀ declared, s.scope.DeclaredAs declared → After s declared s') : After s₀ declared s' := by
  obtain ⟨new, hnew⟩ := h
  obtain ⟨new', hnew'⟩ := h' _ hnew.declaredAs
  exact ⟨new ++ new', hnew.trans hnew'⟩

theorem ensures_after {α : Type} {step : Analysis α}
    (h : ∀ s declared, After s₀ declared₀ s → s.scope.DeclaredAs declared →
      After s declared (step.runIn env s).2) :
    Ensures env (After s₀ declared₀) (After s₀ declared₀) step fun _ => True where
  ok {s a s'} hs hrun := by
    refine ⟨hs.trans fun declared hd => ?_, trivial⟩
    have := h s declared hs hd
    rwa [hrun] at this
  error {s e s'} hs hrun := hs.trans fun declared hd => by
    have := h s declared hs hd
    rwa [hrun] at this

theorem after_of_ensures {α : Type} {step : Analysis α} {Q : α → Prop} (h : s.scope.DeclaredAs declared)
    (hensures : Ensures env (After s declared) (After s declared) step Q) :
    After s declared (step.runIn env s).2 := by
  have hrefl : After s declared s := ⟨[], .refl h⟩
  rcases hrun : step.runIn env s with ⟨e | a, s'⟩
  · exact hensures.error hrefl hrun
  · exact (hensures.ok hrefl hrun).1

/-- Typing an expression leaves scopes balanced, whether it fails or not. -/
def VisitDeclares (env : Environment) (visit : Visit) : Prop :=
  ∀ slot e? s declared, s.scope.DeclaredAs declared → After s declared ((visit slot e?).runIn env s).2

section Visit

variable (hv : VisitDeclares env visit)
include hv

theorem visits_after (c : Slot) : Visits env (After s₀ declared) (After s₀ declared) (fun _ => True)
    (fun _ _ => True) visit c where
  ok {s e? t s'} hs _ hrun := by
    have hs' : After s₀ declared s' := hs.trans fun declared' h => by
      have := hv c e? s declared' h
      rwa [hrun] at this
    exact ⟨hs', trivial, fun op u _ _ _ => hs'.trans fun declared' h => ⟨[], .convert h c op u⟩⟩
  error {s e? err s'} hs _ hrun := hs.trans fun declared' h => by
    have := hv c e? s declared' h
    rwa [hrun] at this

/-- The node in a slot has the operands that it had, unless it has become a conversion. -/
theorem stable_after (hslot : slot < s₀.body.arena.size) : Stable env (After s₀ declared) (After s₀ declared)
    (fun _ => True) (fun _ => True) (fun _ _ => True) visit slot (s₀.body.arena.get slot).kind.operands where
  fails hs := hs
  reports _ hs := by
    obtain ⟨new, hnew⟩ := hs
    exact ⟨new, hnew.congr rfl rfl⟩
  visits c _ := visits_after hv c
  arguments {s arguments} hs harguments := by
    obtain ⟨new, hnew⟩ := hs
    refine ⟨?_, fun _ _ _ _ => trivial⟩
    rcases hnew.kind slot hslot with hbare | ⟨inner, op, hconv⟩
    · rw [← ExprKind.operands_bare, ← hbare, ExprKind.operands_bare]
      exact ExprKind.args_subset_operands harguments
    · rw [hconv] at harguments
      cases harguments
  withTarget id hs := hs.trans fun _ h => ⟨[], .modify h (by simp) (by simp [Stored.Grows.refl])⟩
  withGenericArguments types _ hs :=
    hs.trans fun _ h => ⟨[], .modify h (by simp) (by simp [Stored.Grows.refl])⟩

omit hv in
theorem ensures_analyseLocal_after (hslot : slot < s₀.body.arena.size) {name : Ident} {id? : Option VariableId}
    (hkind : (s₀.body.arena.get slot).kind = .localRef name id?) :
    Ensures env (After s₀ declared) (After s₀ declared) (analyseLocal slot name) fun _ => True := by
  refine ensures_after fun s declared hs h => ?_
  unfold analyseLocal
  rw [runIn_bind, runIn_resolveName]
  dsimp only
  cases hb : (s.scope.resolve name.name).1 with
  | none => exact ⟨[], .of_scope (Scope.extends_resolve _ _) (h.resolve_snd _)⟩
  | some b =>
      dsimp only
      rw [runIn_bind, runIn_modifyKind]
      dsimp only
      have hname (other : Ident) (id? : Option VariableId)
          (hother : (s.body.arena.get slot).kind = .localRef other id?) : other.name = name.name := by
        obtain ⟨new, hnew⟩ := hs
        rcases hnew.kind slot hslot with hbare | ⟨inner, op, hconv⟩
        · rw [hother, hkind] at hbare
          cases hbare
          rfl
        · cases hother.symm.trans hconv
      rw [runIn_bind, runIn_get]
      dsimp only
      split
      · exact ⟨[], .resolve h hb hname⟩
      · exact ⟨[], .resolve h hb hname⟩

theorem ensures_analyseClosure_after (hslot : slot < s₀.body.arena.size) {literal : Closure}
    (hkind : (s₀.body.arena.get slot).kind = .closure literal) :
    Ensures env (After s₀ declared) (After s₀ declared) (analyseClosure visit slot literal) fun _ => True := by
  refine ensures_analyseClosure_of_closureAs (V := fun _ => True) (P := fun _ => True) id
    (fun _ _ _ _ => trivial) (fun _ _ => trivial) fun params ret hlen _ _ => ?_
  refine ensures_after fun s declared' hs h => ?_
  obtain ⟨new₀, hnew₀⟩ := hs
  have hentered : (s.enter (literal.named params)).scope.DeclaredAs
      (declared' ++ literal.params.map (·.name.name)) :=
    Closure.map_fst_named hlen ▸ h.enterClosure.declareAll _
  have hexpect (s₁ : AnalysisState) (names : List String) :
      Ensures env (After s₁ names) (After s₁ names) (expectType visit ret literal.body) fun _ => True :=
    ensures_expect (.trivial env) (.trivial env _) id (visits_after hv literal.body) trivial
  have hbody := after_of_ensures hentered (hexpect _ _)
  rw [runIn_closureAs]
  generalize (expectType visit ret literal.body).runIn env (s.enter (literal.named params)) = run at hbody
  obtain ⟨new, hbody⟩ := hbody
  -- The node is still a closure with these parameters, unless it has become a conversion.
  have hnode : (run.2.body.arena.get slot).kind.bare = (ExprKind.closure literal).bare ∨
      (run.2.body.arena.get slot).IsConversion := by
    rcases hbody.kind slot (Nat.lt_of_lt_of_le hslot hnew₀.size_le) with hbare | hconv
    · refine (hnew₀.kind slot hslot).imp (fun heq => ?_) (·.of_bare_eq hbare)
      rw [← hkind]
      exact hbare.trans heq
    · exact .inr hconv
  have hclosure := @Declares.closure _ _ _ _ slot _ _ hbody h.length_eq fun now hnow => ?_
  · have hids : (literal.params.zip params).length = (literal.params.map (·.name.name)).length := by simp [hlen]
    dsimp only
    rw [hids]
    exact ⟨_, hclosure⟩
  · rcases hnode with hbare | ⟨inner, op, hconv⟩
    · exact Closure.map_name_of_bare (hnow ▸ hbare)
    · cases hnow.symm.trans hconv

theorem visitDeclares_analyseNode : VisitDeclares env (analyseNode visit) := by
  intro slot e? s declared h
  have hrefl : After s declared s := ⟨[], .refl h⟩
  cases htype : (s.body.arena.get slot).type? with
  | some t => rwa [runIn_analyseNode_of_typed htype]
  | none =>
      unfold analyseNode
      rw [runIn_bind, runIn_node]
      dsimp only
      rw [htype]
      dsimp only
      have hnode : Ensures env (After s declared) (After s declared)
          (nodeType visit slot (s.body.arena.get slot) e?) fun _ => True := by
        by_cases hslot : slot < s.body.arena.size
        · refine ensures_nodeType (.trivial env) (.trivial env _) (stable_after hv hslot) (by simp)
            (List.Subset.refl _) (fun _ _ _ _ => trivial) (fun name id? => ensures_analyseLocal_after hslot)
            (fun literal => ensures_analyseClosure_after hv hslot) (by simp)
        · -- A slot that does not exist is taken for one without a value.
          rw [Arena.get_of_size_le _ (Nat.le_of_not_lt hslot)]
          refine ensures_after fun s declared _ h => ?_
          show After s declared ((noValueType e? _).runIn env s).2
          unfold noValueType
          split
          · exact ⟨[], .refl h⟩
          · split <;> exact ⟨[], .refl h⟩
      refine after_of_ensures h (hnode.bind fun t _ => Ensures.bind (.modify fun s' hs' => ?_) fun _ _ => .pure trivial)
      exact hs'.trans fun declared' h' => ⟨[], .modify h' rfl (.refl _ _)⟩

end Visit

theorem visitDeclares_analyseExprWithin (env : Environment) (n : Nat) : VisitDeclares env (analyseExprWithin n) := by
  induction n with
  | zero => exact fun slot e? s declared h => ⟨[], .refl h⟩
  | succ n ih => exact visitDeclares_analyseNode ih

theorem visitDeclares_analyseExpr (env : Environment) : VisitDeclares env analyseExpr := by
  intro slot e? s declared h
  exact visitDeclares_analyseExprWithin env s.body.arena.size slot e? s declared h

/-! ### Statements -/

theorem After.congr {t : AnalysisState} (h : After s₀ declared s) (hscope : t.scope = s.scope)
    (harena : t.body.arena = s.body.arena) : After s₀ declared t := by
  obtain ⟨new, hnew⟩ := h
  exact ⟨new, hnew.congr hscope harena⟩

variable (env) in
theorem stmtStable_after (stmt : Stmt) :
    StmtStable env (After s₀ declared) (fun _ => True) (fun _ _ => True) stmt where
  visits c _ := visits_after (visitDeclares_analyseExpr env) c
  written _ _ _ _ := trivial
  congr hs harena hscope := hs.congr hscope harena

theorem after_reporting {α : Type} {step : Analysis α} {Q : α → Prop} (h : s.scope.DeclaredAs declared)
    (hensures : Ensures env (After s declared) (After s declared) step Q) :
    After s declared (.reporting env (step.runIn env s)) := by
  have hafter := after_of_ensures h hensures
  rcases hrun : step.runIn env s with ⟨e | a, s'⟩
  · exact After.congr (s := s') (by rwa [hrun] at hafter) rfl rfl
  · rwa [hrun] at hafter

end Analysis

def Stmt.binding? : Stmt → Option (String × Binding)
  | .letStmt { name, isMutable, id? := some id, resolved? := some type, .. } =>
    some (name.name, { id, type, isMutable })
  | _ => none

/--
`s'` is left behind by the statements `stmts` in `s`, which have become `stmts'`: the scopes are
the same, but for the bindings that the statements declare, and what is stored anew are
declarations of `new` and what names mean.
-/
structure AnalysisState.Leaves (s : AnalysisState) (declared new : List String) (stmts stmts' : List Stmt)
    (s' : AnalysisState) : Prop where
  innermost_eq : s'.scope.innermost = (stmts'.filterMap Stmt.binding?).reverse ++ s.scope.innermost
  outer_eq : s'.scope.outer = s.scope.outer
  closures : List.Forall₂ OpenClosure.Extends s.scope.closures s'.scope.closures
  declaredAs : s'.scope.DeclaredAs (declared ++ new)
  stores : (s.body.arena.stores + Stmt.storesOf stmts).Grows declared new
    (s'.body.arena.stores + Stmt.storesOf stmts')

namespace AnalysisState.Leaves

variable {s s' s'' : AnalysisState} {declared new new' : List String} {stmts stmts' more more' : List Stmt}

theorem refl (h : s.scope.DeclaredAs declared) : s.Leaves declared [] [] [] s where
  innermost_eq := rfl
  outer_eq := rfl
  closures := Scope.forall₂_extends_refl _
  declaredAs := by simpa using h
  stores := .refl _ _

theorem trans (h : s.Leaves declared new stmts stmts' s') (h' : s'.Leaves (declared ++ new) new' more more' s'') :
    s.Leaves declared (new ++ new') (stmts ++ more) (stmts' ++ more') s'' where
  innermost_eq := by
    rw [h'.innermost_eq, h.innermost_eq, List.filterMap_append, List.reverse_append, List.append_assoc]
  outer_eq := h'.outer_eq.trans h.outer_eq
  closures := Scope.forall₂_extends_trans h.closures h'.closures
  declaredAs := by simpa using h'.declaredAs
  stores := by
    have hfirst := h.stores.add (Stmt.storesOf more)
    have hsecond := h'.stores.add (Stmt.storesOf stmts')
    rw [add_right_comm s'.body.arena.stores] at hsecond
    rw [Stmt.storesOf_append, Stmt.storesOf_append, ← add_assoc, ← add_assoc,
      add_right_comm s''.body.arena.stores]
    exact hfirst.trans hsecond

theorem of_declares {stmt stmt' : Stmt} (h : s.Declares declared new s') (hbinding : stmt'.binding? = none)
    (hstores : (Stmt.storesOf [stmt]).Grows (declared ++ new) [] (Stmt.storesOf [stmt'])) :
    s.Leaves declared new [stmt] [stmt'] s' where
  innermost_eq := by simp [hbinding, h.scope.innermost_eq]
  outer_eq := h.scope.outer_eq
  closures := h.scope.closures
  declaredAs := h.declaredAs
  stores := by
    have hstmt := hstores.add s'.body.arena.stores
    rw [add_comm (Stmt.storesOf [stmt]), add_comm (Stmt.storesOf [stmt'])] at hstmt
    exact List.append_nil new ▸ (h.stores.add _).trans hstmt

/-- A declaration, after its initial value has left `s'` behind. -/
theorem of_declaring (h : s.Declares declared new s') (stmt : LetStmt) (t : Ty) (isDeferred : Bool) :
    s.Leaves declared (new ++ [stmt.name.name]) [.letStmt stmt]
      [.letStmt { stmt with id? := some s'.scope.count, resolved? := some t }] (s'.declaring stmt t isDeferred) where
  innermost_eq := by
    rw [scope_declaring]
    simp [Scope.declare, Stmt.binding?, h.scope.innermost_eq]
  outer_eq := by
    rw [scope_declaring]
    exact h.scope.outer_eq
  closures := by
    rw [scope_declaring]
    exact h.scope.closures
  declaredAs := by
    rw [scope_declaring, ← List.append_assoc]
    exact h.declaredAs.declare _ _ _
  stores := by
    have hstmt : (Stmt.storesOf [.letStmt stmt]).Grows (declared ++ new) [stmt.name.name]
        (Stmt.storesOf [.letStmt { stmt with id? := some s'.scope.count, resolved? := some t }]) := by
      refine ⟨?_, ⟨0, Multiset.le_add_right _ _, by simp⟩, ⟨0, Multiset.le_add_right _ _, by simp⟩⟩
      rw [h.declaredAs.length_eq]
      exact Multiset.le_add_left _ _
    have hstmt := hstmt.add s'.body.arena.stores
    rw [add_comm (Stmt.storesOf _), add_comm (Stmt.storesOf _)] at hstmt
    rw [body_declaring]
    exact (h.stores.add _).trans hstmt

end AnalysisState.Leaves

namespace Analysis

open AnalysisState

variable {env : Environment} {s s' : AnalysisState} {declared : List String}

theorem leaves_of_runIn_analyseStmt {stmt stmt' : Stmt} (h : s.scope.DeclaredAs declared)
    (hrun : (analyseStmt stmt).runIn env s = (.ok stmt', s')) :
    ∃ new, s.Leaves declared new [stmt] [stmt'] s' := by
  cases stmt with
  | letStmt stmt =>
      rw [runIn_analyseStmt_let] at hrun
      obtain ⟨rfl, rfl⟩ := Prod.mk.inj hrun |>.imp Except.ok.inj id
      obtain ⟨new, hnew⟩ := after_reporting h (ensures_letType (.trivial env) (.trivial env _) (stmtStable_after env _))
      exact ⟨_, .of_declaring hnew stmt _ _⟩
  | assign stmt =>
      have hresolved := Declares.of_scope (Scope.extends_resolve s.scope stmt.target.name)
        (h.resolve_snd stmt.target.name)
      rw [runIn_analyseStmt_assign] at hrun
      dsimp only at hrun
      split at hrun
      next =>
        obtain ⟨rfl, rfl⟩ := Prod.mk.inj hrun |>.imp Except.ok.inj id
        exact ⟨[], .of_declares (hresolved.congr rfl rfl) rfl (.refl _ _)⟩
      next b hb =>
        obtain ⟨rfl, rfl⟩ := Prod.mk.inj hrun |>.imp Except.ok.inj id
        obtain ⟨new, hnew⟩ := after_reporting (s := { s with scope := (s.scope.resolve stmt.target.name).2 })
          (h.resolve_snd stmt.target.name) (ensures_assignTo (.trivial env) (.trivial env _) (stmtStable_after env _) trivial)
        have hall := hresolved.trans (by simpa using hnew)
        refine ⟨_, .of_declares hall rfl ?_⟩
        refine { Stored.Grows.refl _ _ with
          readings := ⟨{(stmt.target.name, b.id)}, Multiset.le_add_left _ _, ?_⟩ }
        simpa using getElem?_declared_append (h.resolve_fst hb) new
  | expr slot =>
      rw [runIn_analyseStmt_expr] at hrun
      obtain ⟨rfl, rfl⟩ := Prod.mk.inj hrun |>.imp Except.ok.inj id
      obtain ⟨new, hnew⟩ := after_reporting h
        ((visits_after (visitDeclares_analyseExpr env) slot).ensures (by simp)).discard
      exact ⟨new, .of_declares hnew rfl (.refl _ _)⟩
  | ret stmt =>
      rw [runIn_analyseStmt_ret] at hrun
      obtain ⟨rfl, rfl⟩ := Prod.mk.inj hrun |>.imp Except.ok.inj id
      obtain ⟨new, hnew⟩ := after_reporting h (ensures_analyseReturn (.trivial env) (.trivial env _) (stmtStable_after env _))
      exact ⟨new, .of_declares hnew rfl (.refl _ _)⟩

/-- The first statements of a body become the first ones of what it becomes. -/
theorem prefix_of_runIn_mapM_append {earlier later earlier' stmts : List Stmt} {s₁ : AnalysisState}
    (hearlier : (earlier.mapM analyseStmt).runIn env s = (.ok earlier', s'))
    (hall : ((earlier ++ later).mapM analyseStmt).runIn env s = (.ok stmts, s₁)) : earlier' <+: stmts := by
  rw [List.mapM_append] at hall
  obtain ⟨first, s₂, hfirst, hall⟩ := runIn_bind_ok.mp hall
  obtain ⟨rest, s₃, -, hall⟩ := runIn_bind_ok.mp hall
  obtain ⟨rfl, -⟩ : earlier' = first ∧ s' = s₂ := by simpa using hearlier.symm.trans hfirst
  obtain ⟨rfl, -⟩ : earlier' ++ rest = stmts ∧ s₃ = s₁ := by simpa using hall
  exact List.prefix_append _ _

theorem leaves_of_runIn_mapM {stmts stmts' : List Stmt} (h : s.scope.DeclaredAs declared)
    (hrun : (stmts.mapM analyseStmt).runIn env s = (.ok stmts', s')) :
    ∃ new, s.Leaves declared new stmts stmts' s' := by
  induction stmts generalizing s declared stmts' with
  | nil =>
      obtain ⟨rfl, rfl⟩ : [] = stmts' ∧ s = s' := by simpa using hrun
      exact ⟨[], .refl h⟩
  | cons stmt stmts ih =>
      rw [List.mapM_cons] at hrun
      obtain ⟨stmt', s₁, hstmt, hrun⟩ := runIn_bind_ok.mp hrun
      obtain ⟨rest, s₂, hrest, hrun⟩ := runIn_bind_ok.mp hrun
      obtain ⟨rfl, rfl⟩ : stmt' :: rest = stmts' ∧ s₂ = s' := by simpa using hrun
      obtain ⟨new, hnew⟩ := leaves_of_runIn_analyseStmt h hstmt
      obtain ⟨new', hnew'⟩ := ih hnew.declaredAs hrest
      exact ⟨new ++ new', hnew.trans hnew'⟩

end Analysis

/-! ### Bodies -/

open Analysis in
/--
Whatever fails in the statements of a body, after each of them the function's own scope is the
only one and no closure is open: its names are the parameters and the bindings of the
statements so far, the latest first.  At the end all variables that were declared are counted,
and what was stored of variables are the numbers of these: each as one declaration at most, for
names the variable that was declared by that name, and in captures.
-/
theorem Package.analyseDefinition_balanced (p : Package) (warnDeprecated : Bool) (reports : List Report)
    (definition : Definition) :
    let env : Environment := { package := p, function := p.signature definition.function, warnDeprecated }
    let before := definition.body
    let after := (p.analyseDefinition warnDeprecated reports definition).1.body
    let params := env.function.params.map (·.name)
    (∀ earlier later, before.stmts = earlier ++ later → ∃ earlier' s,
      (earlier.mapM analyseStmt).runIn env (.start env.function before reports) = (.ok earlier', s) ∧
        earlier' <+: after.stmts ∧ s.scope.closures = [] ∧ s.scope.frames =
          [(earlier'.filterMap Stmt.binding?).reverse ++ (Scope.ofSignature env.function).innermost]) ∧
    ∃ new, (params ++ new).length = after.variableCount ∧ before.stores.Grows params new after.stores := by
  intro env before after params
  let start : AnalysisState := .start env.function before reports
  have hstart : start.scope.DeclaredAs params := .ofSignature env.function
  have hscope : (Scope.ofSignature env.function).outer = [] ∧ (Scope.ofSignature env.function).closures = [] := by
    rw [Scope.ofSignature_eq, Scope.declareAll_eq]
    exact ⟨rfl, rfl⟩
  obtain ⟨stmts, s₁, new, hrun, hbody, -⟩ := exists_runIn_analyseBody env start
  have hafter : after = { s₁.body with stmts, variableCount := s₁.scope.count } := by
    show (analyseBody.runIn env start).2.body = _
    rw [hbody]
  constructor
  · intro earlier later hsplit
    obtain ⟨earlier', s, hearlier⟩ := exists_runIn_mapM_analyseStmt env start earlier
    obtain ⟨declared, hleaves⟩ := leaves_of_runIn_mapM hstart hearlier
    refine ⟨earlier', s, hearlier, ?_, ?_, ?_⟩
    · have hall : ((earlier ++ later).mapM analyseStmt).runIn env start = (.ok stmts, s₁) := hsplit ▸ hrun
      rw [hafter]
      exact prefix_of_runIn_mapM_append hearlier hall
    · have hclosures := hleaves.closures
      rw [show start.scope.closures = [] from hscope.2] at hclosures
      exact List.forall₂_nil_left_iff.mp hclosures
    · rw [Scope.frames, hleaves.innermost_eq, hleaves.outer_eq]
      exact congrArg _ hscope.1
  · obtain ⟨declared, hleaves⟩ := leaves_of_runIn_mapM hstart hrun
    refine ⟨declared, ?_, ?_⟩
    · rw [hafter, hleaves.declaredAs.length_eq]
    · rw [hafter]
      exact hleaves.stores

end Boxlang
