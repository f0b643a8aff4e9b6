import Boxlang.Proofs.Analysis.Clean
import Boxlang.Proofs.Elaboration.Expr
import Boxlang.Proofs.Invariants.Expr
import Boxlang.Proofs.Names.Scoped

/-!
# Invariants of analysed bodies

Where all that is written in a fresh body denotes types with the property of an
invariant, every node of the body has a type with the property once it is analysed
without errors.  Along with types go properties of the nodes themselves
(`NodeInvariant`), such as what conversions are put in front of them.
-/

namespace Boxlang

/-! ### What is written -/

namespace ExprKind

def writtenTypes : ExprKind → List WrittenType
  | .call _ arguments _ | .methodCall _ _ arguments _ => arguments.written
  | .closure literal => literal.params.map (·.type)
  | .typeExpr (.explicit written) => [written]
  | _ => []

def writtenResults : ExprKind → List WrittenType
  | .closure literal => [literal.ret]
  | _ => []

@[simp]
theorem writtenTypes_bare (k : ExprKind) : k.bare.writtenTypes = k.writtenTypes := by
  cases k with
  | closure literal => simp [bare, writtenTypes, ClosureParam.bare]
  | _ => rfl

@[simp]
theorem writtenResults_bare (k : ExprKind) : k.bare.writtenResults = k.writtenResults := by
  cases k <;> rfl

theorem exists_closure_of_bare {k : ExprKind} {literal : Closure}
    (h : k.bare = (ExprKind.closure literal).bare) : ∃ literal, k = .closure literal := by
  cases k with
  | closure literal => exact ⟨literal, rfl⟩
  | _ => cases h

theorem eq_unwrap_of_bare {k : ExprKind} {inner : Slot} (h : k.bare = (ExprKind.unwrap inner).bare) :
    k = .unwrap inner := by
  cases k <;> cases h
  rfl

theorem written_of_arguments? {k : ExprKind} {arguments : Arguments}
    (h : k.arguments? = some arguments) : arguments.written = k.writtenTypes := by
  cases k <;> cases h <;> rfl

end ExprKind

def Stmt.writtenTypes : Stmt → List WrittenType
  | .letStmt stmt => stmt.type?.toList
  | _ => []

/-- What is written in a body denotes types with a property: `V`, or `P` for results. -/
structure Body.Denotes (env : Environment) (V P : Ty → Prop) (body : Body) : Prop where
  types : ∀ slot < body.arena.size, ∀ w ∈ (body.arena.get slot).kind.writtenTypes, w.Denotes env V
  results : ∀ slot < body.arena.size, ∀ w ∈ (body.arena.get slot).kind.writtenResults,
    w.Denotes env P
  stmts : ∀ stmt ∈ body.stmts, ∀ w ∈ stmt.writtenTypes, w.Denotes env V

/-! ### States -/

namespace Scope

def Respects (P : Ty → Prop) (s : Scope) : Prop :=
  ∀ frame ∈ s.frames, ∀ q ∈ frame, P q.2.type

namespace Respects

variable {P : Ty → Prop} {s : Scope}

theorem declare (h : s.Respects P) (name : String) {t : Ty} (ht : P t) (isMutable : Bool) :
    (s.declare name t isMutable).2.Respects P := by
  intro frame hmem q hq
  rcases List.mem_cons.mp hmem with rfl | hmem
  · rcases List.mem_cons.mp hq with rfl | hq
    · exact ht
    · exact h _ List.mem_cons_self q hq
  · exact h frame (List.mem_cons_of_mem _ hmem) q hq

theorem declareAll (h : s.Respects P) {params : List (String × Ty)}
    (hparams : ∀ q ∈ params, P q.2) : (s.declareAll params).Respects P := by
  induction params generalizing s with
  | nil => exact h
  | cons param params ih =>
    obtain ⟨hparam, hrest⟩ := List.forall_mem_cons.mp hparams
    exact ih (h.declare param.1 hparam false) hrest

theorem enterClosure (h : s.Respects P) : s.enterClosure.Respects P :=
  List.forall_mem_cons.mpr ⟨fun _ hq => absurd hq List.not_mem_nil, h⟩

theorem ofSignature {f : Signature} (h : ∀ param ∈ f.params, P param.type) :
    (Scope.ofSignature f).Respects P := by
  rw [ofSignature_eq]
  refine declareAll (List.forall_mem_cons.mpr ⟨by simp, by simp⟩) fun q hq => ?_
  obtain ⟨param, hparam, rfl⟩ := List.mem_map.mp hq
  exact h param hparam

end Respects

theorem frames_exitClosure_subset (s : Scope) : s.exitClosure.2.frames ⊆ s.frames := by
  have hpop : s.pop.frames ⊆ s.frames := by
    unfold pop
    split
    next => exact fun _ h => h
    next f fs houter =>
      rw [frames, frames, houter]
      exact List.subset_cons_self _ _
  unfold exitClosure
  split
  next => exact hpop
  next => exact hpop

theorem count_exitClosure (s : Scope) : s.exitClosure.2.count = s.count := by
  have hpop : s.pop.count = s.count := by
    unfold pop
    split <;> rfl
  unfold exitClosure
  split <;> exact hpop

end Scope

/-- The parameters of a closure have numbers from `m` on and below `n`. -/
def Closure.NumberedIn (m n : Nat) (literal : Closure) : Prop :=
  ∀ id ∈ literal.binders.ids, m ≤ id ∧ id < n

/--
A property of nodes, by the number of variables so far and by slot, that is kept by all
that is done to nodes while expressions are analysed: conversions are put in their place,
and they are annotated.  Variables are numbered from `m` on.
-/
structure NodeInvariant (V P : Ty → Prop) (G : Slot → Conversion → Prop) (a₀ : Arena) (m : Nat)
    (N : Nat → Slot → Expr → Prop) : Prop where
  mono : ∀ {n n' x e}, N n x e → n ≤ n' → N n' x e
  moved : ∀ {n x y e}, N n x e → a₀.size ≤ y → N n y e
  conversion : ∀ {n x span inner op t}, x < a₀.size → G x op → P t →
    N n x { span, kind := .conversion inner op, type? := some t }
  withVariable : ∀ {n x e} id, N n x e → N n x { e with kind := e.kind.withVariable id }
  withTarget : ∀ {n x e} id, N n x e → N n x { e with kind := e.kind.withTarget id }
  withGenericArguments : ∀ {n x e types}, (∀ t ∈ types, V t) → N n x e →
    N n x { e with kind := e.kind.withGenericArguments types }
  withClosureVariables : ∀ {n x e ids} captures, (∀ id ∈ ids, m ≤ id ∧ id < n) → N n x e →
    N n x { e with kind := e.kind.withClosureVariables ids captures }
  withType : ∀ {n x e t}, (∀ literal, e.kind = .closure literal → literal.NumberedIn m n) → P t →
    N n x e → N n x { e with type? := some t }

/-- A property that is kept by variables numbered from a number on is kept by those from later ones on. -/
theorem NodeInvariant.weaken {V P : Ty → Prop} {G : Slot → Conversion → Prop} {a₀ : Arena} {m m' : Nat}
    {N : Nat → Slot → Expr → Prop} (h : NodeInvariant V P G a₀ m N) (hm : m ≤ m') :
    NodeInvariant V P G a₀ m' N :=
  { h with
    withClosureVariables := fun captures hids =>
      h.withClosureVariables captures fun id hid => ⟨Nat.le_trans hm (hids id hid).1, (hids id hid).2⟩
    withType := fun hclosure => h.withType fun literal hliteral id hid =>
      ⟨Nat.le_trans hm (hclosure literal hliteral id hid).1, (hclosure literal hliteral id hid).2⟩ }

theorem NodeInvariant.and {V P : Ty → Prop} {G : Slot → Conversion → Prop} {a₀ : Arena} {m : Nat}
    {N N' : Nat → Slot → Expr → Prop} (h : NodeInvariant V P G a₀ m N) (h' : NodeInvariant V P G a₀ m N') :
    NodeInvariant V P G a₀ m fun n x e => N n x e ∧ N' n x e where
  mono hk hn := ⟨h.mono hk.1 hn, h'.mono hk.2 hn⟩
  moved hk hy := ⟨h.moved hk.1 hy, h'.moved hk.2 hy⟩
  conversion hx hop ht := ⟨h.conversion hx hop ht, h'.conversion hx hop ht⟩
  withVariable id hk := ⟨h.withVariable id hk.1, h'.withVariable id hk.2⟩
  withTarget id hk := ⟨h.withTarget id hk.1, h'.withTarget id hk.2⟩
  withGenericArguments htypes hk := ⟨h.withGenericArguments htypes hk.1, h'.withGenericArguments htypes hk.2⟩
  withClosureVariables captures hids hk :=
    ⟨h.withClosureVariables captures hids hk.1, h'.withClosureVariables captures hids hk.2⟩
  withType hclosure ht hk := ⟨h.withType hclosure ht hk.1, h'.withType hclosure ht hk.2⟩

theorem NodeInvariant.trivial (V P : Ty → Prop) (G : Slot → Conversion → Prop) (a₀ : Arena) (m : Nat) :
    NodeInvariant V P G a₀ m fun _ _ _ => True := by
  constructor <;> intros <;> trivial

theorem nodeInvariant_conversions (V P : Ty → Prop) {G : Slot → Conversion → Prop} {K : Slot → Prop}
    (a₀ : Arena) (m : Nat)
    (hmoved : ∀ {x y}, a₀.size ≤ y → K y → K x ∧ ∀ op, G x op → G y op) :
    NodeInvariant V P G a₀ m fun _ x e => K x → ∀ inner op, e.kind = .conversion inner op → G x op := by
  constructor
  case mono => exact fun h _ => h
  case moved =>
    intro n x y e h hge hy inner op hk
    obtain ⟨hx, hG⟩ := hmoved (x := x) hge hy
    exact hG op (h hx inner op hk)
  case conversion =>
    rintro n x span inner op t - hop - - inner' op' ⟨⟩
    exact hop
  case withVariable =>
    intro n x e id h hx inner op hk
    cases hkind : e.kind <;> rw [hkind] at hk <;> cases hk
    exact h hx inner op hkind
  case withTarget =>
    intro n x e id h hx inner op hk
    cases hkind : e.kind <;> rw [hkind] at hk <;> cases hk
    exact h hx inner op hkind
  case withGenericArguments =>
    intro n x e types _ h hx inner op hk
    cases hkind : e.kind <;> rw [hkind] at hk <;> cases hk
    exact h hx inner op hkind
  case withClosureVariables =>
    intro n x e ids captures _ h hx inner op hk
    cases hkind : e.kind <;> rw [hkind] at hk <;> cases hk
    exact h hx inner op hkind
  case withType => exact fun _ _ h => h

/-- Generic arguments of calls are types that were checked or inferred to stand for variables. -/
theorem nodeInvariant_resolved (V P : Ty → Prop) (G : Slot → Conversion → Prop) (a₀ : Arena) (m : Nat) :
    NodeInvariant V P G a₀ m fun _ _ e => ∀ arguments ∈ e.kind.arguments?, ∀ t ∈ arguments.resolved, V t := by
  constructor
  case mono => exact fun h _ => h
  case moved => exact fun h _ => h
  case conversion =>
    rintro n x span inner op t - - - arguments ⟨⟩
  case withVariable =>
    intro n x e id h arguments harguments
    cases hkind : e.kind <;> rw [hkind] at harguments <;> exact h arguments (hkind ▸ harguments)
  case withTarget =>
    intro n x e id h arguments harguments
    cases hkind : e.kind <;> rw [hkind] at harguments <;> exact h arguments (hkind ▸ harguments)
  case withGenericArguments =>
    intro n x e types htypes h arguments harguments
    cases hkind : e.kind <;> rw [hkind] at harguments <;> cases harguments <;> exact htypes
  case withClosureVariables =>
    intro n x e ids captures _ h arguments harguments
    cases hkind : e.kind <;> rw [hkind] at harguments <;> exact h arguments (hkind ▸ harguments)
  case withType => exact fun _ _ h => h

/--
The types of all nodes and of all variables in scope have the property `P`, and the nodes
have the property `N`.
-/
structure AnalysisState.Respects (P : Ty → Prop) (N : Nat → Slot → Expr → Prop) (m : Nat) (a₀ : Arena)
    (s : AnalysisState) : Prop where
  nodes : s.body.arena.HoldsNodesOf a₀
  types : ∀ slot t, (s.body.arena.get slot).type? = some t → P t
  kept : ∀ slot, N s.scope.count slot (s.body.arena.get slot)
  bindings : s.scope.Respects P
  least : m ≤ s.scope.count

/--
A statement keeps the properties.  They hold before it declares a variable, too, which
gets the next number.
-/
structure AnalysisState.RespectsAfter (P : Ty → Prop) (N : Nat → Slot → Expr → Prop) (m : Nat)
    (a₀ : Arena) (stmt : Stmt) (s : AnalysisState) : Prop where
  respects : s.Respects P N m a₀
  exists_before : ∃ s₁ : AnalysisState, s₁.Respects P N m a₀ ∧ s.body.arena = s₁.body.arena ∧
    ∀ d, stmt = .letStmt d → d.id? = some s₁.scope.count

namespace AnalysisState.Respects

variable {V P : Ty → Prop} {G : Slot → Conversion → Prop} {N : Nat → Slot → Expr → Prop} {m : Nat}
  {a₀ : Arena} {s : AnalysisState} {slot : Slot} {t : Ty}

theorem annotate (h : s.Respects P N m a₀) {f : Expr → Expr}
    (hf : (s.body.arena.get slot).Annotated (f (s.body.arena.get slot)))
    (htype : ∀ u, (f (s.body.arena.get slot)).type? = some u → P u)
    (hkept : N s.scope.count slot (f (s.body.arena.get slot))) :
    (s.withArena (s.body.arena.modify slot f)).Respects P N m a₀ where
  nodes := h.nodes.annotate hf
  types x u hu := by
    rw [arena_withArena, Arena.get_modify] at hu
    split at hu
    · exact htype u hu
    · exact h.types x u hu
  kept x := by
    rw [arena_withArena, Arena.get_modify]
    split
    next hx => exact hx.1 ▸ hkept
    next => exact h.kept x
  bindings := h.bindings
  least := h.least

theorem modifyKind (h : s.Respects P N m a₀) {f : ExprKind → ExprKind}
    (hf : (f (s.body.arena.get slot).kind).bare = (s.body.arena.get slot).kind.bare)
    (hkept : N s.scope.count slot { s.body.arena.get slot with
      kind := f (s.body.arena.get slot).kind }) :
    (s.withArena (s.body.arena.modifyKind slot f)).Respects P N m a₀ :=
  h.annotate (.withKind hf) (h.types slot) hkept

section Nodes

variable (hN : NodeInvariant V P G a₀ m N)
include hN

theorem convert (h : s.Respects P N m a₀) (hslot : slot < a₀.size) {op : Conversion} (hop : G slot op)
    (ht : P t) : (s.withArena (s.body.arena.convert slot op t).2).Respects P N m a₀ := by
  have hs : slot < s.body.arena.size := Nat.lt_of_lt_of_le hslot h.nodes.size_le
  have hget := s.body.arena.get_convert_cases hs op t
  refine ⟨h.nodes.convert hslot op t, fun x u hu => ?_, fun x => ?_, h.bindings, h.least⟩
  · rw [arena_withArena] at hu
    rcases hget x with ⟨-, heq⟩ | ⟨-, heq⟩ | ⟨-, heq⟩
    · rw [heq] at hu
      exact Option.some.inj hu ▸ ht
    · exact h.types slot u (heq ▸ hu)
    · exact h.types x u (heq ▸ hu)
  · rw [arena_withArena]
    rcases hget x with ⟨rfl, heq⟩ | ⟨rfl, heq⟩ | ⟨-, heq⟩
    · exact heq ▸ hN.conversion hslot hop ht
    · exact heq ▸ hN.moved (h.kept slot) h.nodes.size_le
    · exact heq ▸ h.kept x

theorem setType (h : s.Respects P N m a₀)
    (hclosure : ∀ literal, (s.body.arena.get slot).kind = .closure literal →
      literal.NumberedIn m s.scope.count) (ht : P t) :
    (s.withArena (s.body.arena.setType slot t)).Respects P N m a₀ :=
  h.annotate (.withType _ t) (fun u hu => by cases hu; exact ht)
    (hN.withType hclosure ht (h.kept slot))

/-- Something else than the arena was changed, and maybe variables were declared. -/
theorem congr {s' : AnalysisState} (h : s.Respects P N m a₀) (harena : s'.body.arena = s.body.arena)
    (hcount : s.scope.count ≤ s'.scope.count) (hbindings : s'.scope.Respects P) :
    s'.Respects P N m a₀ where
  nodes := harena ▸ h.nodes
  types := harena ▸ h.types
  kept slot := by
    rw [harena]
    exact hN.mono (h.kept slot) hcount
  bindings := hbindings
  least := Nat.le_trans h.least hcount

theorem resolve (h : s.Respects P N m a₀) (name : String) :
    ({ s with scope := (s.scope.resolve name).2 } : AnalysisState).Respects P N m a₀ :=
  have hextends := Scope.extends_resolve s.scope name
  h.congr hN rfl hextends.count_le fun frame hmem => h.bindings frame (hextends.frames_eq ▸ hmem)

omit hN in
theorem binding (h : s.Respects P N m a₀) {name : String} {b : Binding}
    (hb : (s.scope.resolve name).1 = some b) : P b.type := by
  obtain ⟨frame, hmem, entry, hentry, -, htype⟩ := Scope.binds_of_resolve hb
  exact htype ▸ h.bindings frame hmem entry hentry

/-- The body of a closure is entered; its variables are numbered from the next number on. -/
theorem enter (h : s.Respects P N m a₀) {params : List (String × Ty)} (hparams : ∀ q ∈ params, P q.2) :
    (s.enter params).Respects P N (s.scope.count + params.length) a₀ :=
  have hcount : (s.enter params).scope.count = s.scope.count + params.length := count_enter
  have hentered : (s.enter params).Respects P N m a₀ :=
    h.congr hN rfl (by omega) (h.bindings.enterClosure.declareAll hparams)
  { hentered with least := hcount.ge }

theorem leave {m' : Nat} (h : s.Respects P N m' a₀) (hm : m ≤ m') : s.leave.Respects P N m a₀ where
  nodes := h.nodes
  types := h.types
  kept slot := hN.mono (h.kept slot) (Scope.count_exitClosure s.scope).ge
  bindings frame hmem := h.bindings frame (Scope.frames_exitClosure_subset s.scope hmem)
  least := Nat.le_trans hm (h.least.trans (Scope.count_exitClosure s.scope).ge)

theorem declaring (h : s.Respects P N m a₀) (stmt : LetStmt) (ht : P t) (isDeferred : Bool) :
    (s.declaring stmt t isDeferred).Respects P N m a₀ := by
  refine h.congr hN ?_ ?_ ?_
  · rw [body_declaring]
  · rw [scope_declaring]
    exact Nat.le_succ _
  · rw [scope_declaring]
    exact h.bindings.declare _ ht _

end Nodes

theorem start {f : Signature} {body : Body}
    (htypes : ∀ slot t, (body.arena.get slot).type? = some t → P t)
    (hparams : ∀ param ∈ f.params, P param.type)
    (hkept : ∀ slot, N (Scope.ofSignature f).count slot (body.arena.get slot)) (reports : List Report) :
    (AnalysisState.start f body reports).Respects P N (Scope.ofSignature f).count body.arena where
  nodes := .refl _
  types := htypes
  kept := hkept
  bindings := .ofSignature hparams
  least := Nat.le_refl _

end AnalysisState.Respects

/-! ### Nodes -/

namespace Analysis

open AnalysisState

variable {env : Environment} {V P : Ty → Prop} {G : Slot → Conversion → Prop}
  {N : Nat → Slot → Expr → Prop} {m : Nat} {body : Body} {visit : Visit} {slot : Slot}

abbrev VisitRespects (env : Environment) (P : Ty → Prop) (G : Slot → Conversion → Prop)
    (N : Nat → Slot → Expr → Prop) (m : Nat) (a₀ : Arena) (visit : Visit) (slot : Slot) : Prop :=
  Visits env (Respects P N m a₀) (Respects P N m a₀) P G visit slot

section Node

variable (hT : TypeInvariant env V P) (hG : ConversionInvariant env P G)
  (hN : NodeInvariant V P G body.arena m N) (hbody : body.Denotes env V P)
  (hslot : slot < body.arena.size)
  (hv : ∀ c ∈ (body.arena.get slot).kind.operands, ∀ m', m ≤ m' →
    VisitRespects env P G N m' body.arena visit c)
include hT hG hN hbody hslot hv

omit hT hG in
theorem stable_respects : Stable env (Respects P N m body.arena) (Respects P N m body.arena) V P G
    visit slot (body.arena.get slot).kind.operands where
  fails hs := hs
  reports _ hs := hs.congr hN rfl (Nat.le_refl _) hs.bindings
  visits c hc := hv c hc m (Nat.le_refl m)
  arguments {s arguments} hs harguments := by
    rcases hs.nodes.holds slot hslot with hb | ⟨-, inner, op, hconv⟩
    · refine ⟨?_, fun w hw => hbody.types slot hslot w ?_⟩
      · rw [← Expr.operands_eq_of_bare_eq hb]
        exact ExprKind.args_subset_operands harguments
      · have hbare : (s.body.arena.get slot).kind.bare = (body.arena.get slot).kind.bare :=
          congrArg Expr.kind hb
        rwa [← ExprKind.writtenTypes_bare, ← hbare, ExprKind.writtenTypes_bare,
          ← ExprKind.written_of_arguments? harguments]
    · simp [hconv, ExprKind.arguments?] at harguments
  withTarget id hs := hs.modifyKind (ExprKind.bare_withTarget _ id) (hN.withTarget id (hs.kept slot))
  withGenericArguments types htypes hs :=
    hs.modifyKind (ExprKind.bare_withGenericArguments _ types)
      (hN.withGenericArguments htypes (hs.kept slot))

omit hT hG hbody hslot hv in
theorem ensures_analyseLocal (name : Ident) :
    Ensures env (Respects P N m body.arena) (Respects P N m body.arena) (analyseLocal slot name) P := by
  have hresolved {s : AnalysisState} (hs : s.Respects P N m body.arena) (id : VariableId) :=
    (hs.resolve hN name.name).modifyKind (f := (·.withVariable id)) (ExprKind.bare_withVariable _ id)
      (hN.withVariable id ((hs.resolve hN name.name).kept slot))
  constructor
  · intro s t s' hs hrun
    unfold analyseLocal at hrun
    rw [runIn_bind, runIn_resolveName] at hrun
    dsimp only at hrun
    split at hrun
    next => simp at hrun
    next b hb =>
      rw [runIn_bind, runIn_modifyKind] at hrun
      dsimp only at hrun
      rw [runIn_bind, runIn_get] at hrun
      dsimp only at hrun
      split at hrun
      · obtain ⟨rfl, rfl⟩ : b.type = t ∧ _ = s' := by simpa using hrun
        exact ⟨hresolved hs b.id, hs.binding hb⟩
      · rw [runIn_bind] at hrun
        simp at hrun
  · intro s e s' hs hrun
    unfold analyseLocal at hrun
    rw [runIn_bind, runIn_resolveName] at hrun
    dsimp only at hrun
    split at hrun
    next => exact (Prod.mk.inj hrun).2 ▸ hs.resolve hN name.name
    next b hb =>
      rw [runIn_bind, runIn_modifyKind] at hrun
      dsimp only at hrun
      rw [runIn_bind, runIn_get] at hrun
      dsimp only at hrun
      split at hrun
      · simp at hrun
      · rw [runIn_bind] at hrun
        exact (Prod.mk.inj hrun).2 ▸ hresolved hs b.id

omit hT hG hN hv in
/-- What the node of a closure says of the types that are written in it. -/
theorem denotes_of_closure {literal : Closure}
    (hkind : (body.arena.get slot).kind.bare = (ExprKind.closure literal).bare) :
    (body.arena.get slot).kind.operands = [literal.body] ∧
      (∀ p ∈ literal.params, p.type.Denotes env V) ∧ literal.ret.Denotes env P := by
  refine ⟨?_, fun p hp => hbody.types slot hslot _ ?_, hbody.results slot hslot _ ?_⟩
  · rw [← ExprKind.operands_bare, hkind]
    rfl
  · rw [← ExprKind.writtenTypes_bare, hkind, ExprKind.writtenTypes_bare]
    exact List.mem_map_of_mem hp
  · rw [← ExprKind.writtenResults_bare, hkind]
    exact List.mem_singleton_self _

/--
Whether the body of a closure is fine or not, what is known inside is known once the
closure is left, and its parameters have their numbers.
-/
theorem respects_leave {literal : Closure}
    (hkind : (body.arena.get slot).kind.bare = (ExprKind.closure literal).bare)
    {params : List Ty} {ret : Ty} (hlen : params.length = literal.params.length)
    (hV : ∀ t ∈ params, V t) (hret : P ret) {s s₃ : AnalysisState} {result : Except SemanticError Ty}
    (hs : s.Respects P N m body.arena)
    (hrun : (expectType visit ret literal.body).runIn env (s.enter (literal.named params)) =
      (result, s₃)) (captures : List VariableId) :
    let s' := s₃.leave.withArena (s₃.body.arena.modifyKind slot (·.withClosureVariables
      (List.range' s.scope.count (literal.params.zip params).length) captures))
    s'.Respects P N m body.arena ∧ ∀ now, (s'.body.arena.get slot).kind = .closure now →
      now.NumberedIn m s'.scope.count := by
  intro s'
  let m' := s.scope.count + (literal.named params).length
  have hm : m ≤ m' := Nat.le_add_right_of_le hs.least
  have hentered : (s.enter (literal.named params)).Respects P N m' body.arena := by
    refine hs.enter hN fun q hq => ?_
    obtain ⟨⟨p, t⟩, hmem, rfl⟩ := List.mem_map.mp hq
    exact hT.weaken (hV t (List.of_mem_zip hmem).2)
  have hexpect := ensures_expect hT hG (fun h => h)
    (hv literal.body (by simp [(denotes_of_closure hbody hslot hkind).1]) m' hm)
    (e := { type := ret }) hret
  have hs₃ : s₃.Respects P N m' body.arena := by
    cases result with
    | ok t => exact (hexpect.ok hentered hrun).1
    | error e => exact hexpect.error hentered hrun
  have hnumbers (id : VariableId)
      (hid : id ∈ List.range' s.scope.count (literal.params.zip params).length) :
      m ≤ id ∧ id < s₃.leave.scope.count := by
    obtain ⟨hge, hlt⟩ := List.mem_range'_1.mp hid
    refine ⟨Nat.le_trans hs.least hge, ?_⟩
    have hleast : m' ≤ s₃.scope.count := hs₃.least
    have hnamed : (literal.named params).length = (literal.params.zip params).length :=
      List.length_map _
    show id < s₃.scope.exitClosure.2.count
    rw [Scope.count_exitClosure]
    rw [← hnamed] at hlt
    exact Nat.lt_of_lt_of_le hlt hleast
  have hleft := hs₃.leave hN hm
  refine ⟨hleft.modifyKind
    (bare_withClosureVariables_of_holds hs₃.nodes hslot hkind (by simp [hlen]))
    (hN.withClosureVariables captures hnumbers (hleft.kept slot)), fun now hnow id hid => ?_⟩
  have hsize : slot < s₃.body.arena.size := Nat.lt_of_lt_of_le hslot hs₃.nodes.size_le
  have hself : (s'.body.arena.get slot).kind = (s₃.body.arena.get slot).kind.withClosureVariables
      (List.range' s.scope.count (literal.params.zip params).length) captures := by
    simp only [s', arena_withArena, Arena.modifyKind, Arena.get_modify_self _ hsize]
  have hmem : id ∈ ((s'.body.arena.get slot).kind).binders.ids := hnow ▸ hid
  rw [hself] at hmem
  exact hnumbers id (ExprKind.mem_of_mem_binders_withClosureVariables hmem)

theorem ensures_analyseClosure {literal : Closure}
    (hkind : (body.arena.get slot).kind.bare = (ExprKind.closure literal).bare) :
    Ensures env (Respects P N m body.arena) (Respects P N m body.arena)
      (analyseClosure visit slot literal) P := by
  obtain ⟨-, hwritten, hresult⟩ := denotes_of_closure hbody hslot hkind
  refine ensures_analyseClosure_of_closureAs id hwritten hresult fun params ret hlen hV hret => ⟨?_, ?_⟩
  · intro s t s' hs hrun
    obtain ⟨u, s₃, hvisit, rfl, rfl⟩ := runIn_closureAs_ok.mp hrun
    exact ⟨(respects_leave hT hG hN hbody hslot hv hkind hlen hV hret hs hvisit _).1,
      hT.closure hV hret⟩
  · intro s e s' hs hrun
    rw [runIn_closureAs] at hrun
    rw [← (Prod.mk.inj hrun).2]
    exact (respects_leave hT hG hN hbody hslot hv hkind hlen hV hret hs rfl _).1

theorem numberedIn_of_runIn_analyseClosure {literal : Closure}
    (hkind : (body.arena.get slot).kind.bare = (ExprKind.closure literal).bare) {s s' : AnalysisState}
    {t : Ty} (hs : s.Respects P N m body.arena)
    (hrun : (analyseClosure visit slot literal).runIn env s = (.ok t, s')) :
    ∀ now, (s'.body.arena.get slot).kind = .closure now → now.NumberedIn m s'.scope.count := by
  obtain ⟨-, hwritten, hresult⟩ := denotes_of_closure hbody hslot hkind
  rw [analyseClosure_eq] at hrun
  obtain ⟨params, s₁, hparams, hrest⟩ := runIn_bind_ok.mp hrun
  obtain ⟨ret, s₂, hret, hclosure⟩ := runIn_bind_ok.mp hrest
  obtain ⟨hs₁, hV⟩ := (Ensures.mapM (F := Respects P N m body.arena) fun p hp =>
    ensures_resolveType (fun h => h) (hwritten p hp)).ok hs hparams
  obtain ⟨hs₂, hP⟩ := (ensures_resolveType (F := Respects P N m body.arena) (fun h => h) hresult).ok
    hs₁ hret
  obtain ⟨u, s₃, hvisit, rfl, rfl⟩ := runIn_closureAs_ok.mp hclosure
  exact (respects_leave hT hG hN hbody hslot hv hkind (length_of_runIn_mapM_ok hparams) hV hP hs₂
    hvisit _).2

/-- Where visits of its operands keep types and nodes with the properties, so does the visit of a node. -/
theorem visitRespects_analyseNode
    (hunwrap : ∀ inner, (body.arena.get slot).kind = .unwrap inner →
      G inner .unwrapOptional ∧ G inner .unwrapBoxOptional) :
    VisitRespects env P G N m body.arena (analyseNode visit) slot := by
  have hbareOf {s : AnalysisState} (hs : s.Respects P N m body.arena)
      (htype : (s.body.arena.get slot).type? = none) :
      (s.body.arena.get slot).kind.bare = (body.arena.get slot).kind.bare :=
    congrArg Expr.kind (hs.nodes.bare_eq hslot htype)
  have hensures {s : AnalysisState} {e? : Option Expectation} (hs : s.Respects P N m body.arena)
      (he : ∀ e ∈ e?, P e.type) (htype : (s.body.arena.get slot).type? = none) :
      Ensures env (Respects P N m body.arena) (Respects P N m body.arena)
        (nodeType visit slot (s.body.arena.get slot) e?) P := by
    have hkind := hbareOf hs htype
    refine ensures_nodeType hT hG (stable_respects hN hbody hslot hv) he
      (Expr.operands_eq_of_bare_eq (hs.nodes.bare_eq hslot htype) ▸ List.Subset.refl _)
      (fun w hw => ?_) (fun name _ _ => ensures_analyseLocal hN name)
      (fun literal hliteral => ensures_analyseClosure hT hG hN hbody hslot hv (hliteral ▸ hkind.symm))
      fun inner hinner => hunwrap inner ?_
    · intro t ht
      refine hT.weaken (hbody.types slot hslot w ?_ t ht)
      rw [← ExprKind.writtenTypes_bare, ← hkind, hw]
      exact List.mem_cons_self
    · exact ExprKind.eq_unwrap_of_bare (hinner ▸ hkind.symm)
  constructor
  · intro s e? t s' hs he hrun
    obtain ⟨hs', ht⟩ : s'.Respects P N m body.arena ∧ P t := by
      rcases runIn_analyseNode_ok hrun with ⟨htype, rfl⟩ | ⟨htype, s₁, hnode, rfl⟩
      · exact ⟨hs, hs.types slot _ htype⟩
      · obtain ⟨hs₁, ht⟩ := (hensures hs he htype).ok hs hnode
        refine ⟨hs₁.setType hN (fun now hnow => ?_) ht, ht⟩
        have hkind := hbareOf hs htype
        -- Only a closure can have become one, and then it was analysed as one.
        obtain ⟨literal, hliteral⟩ : ∃ literal, (s.body.arena.get slot).kind = .closure literal := by
          rcases hs₁.nodes.holds slot hslot with hbare | ⟨-, inner, op, hconv⟩
          · have hsame := hkind.trans (congrArg Expr.kind hbare).symm
            rw [Expr.kind_bare, hnow] at hsame
            exact ExprKind.exists_closure_of_bare hsame
          · cases hconv.symm.trans hnow
        unfold nodeType at hnode
        rw [hliteral] at hnode hkind
        exact numberedIn_of_runIn_analyseClosure hT hG hN hbody hslot hv hkind.symm hs hnode now hnow
    exact ⟨hs', ht, fun op u hop _ hu => hs'.convert hN hslot hop hu⟩
  · intro s e? err s' hs he hrun
    obtain ⟨htype, hnode⟩ := runIn_analyseNode_error hrun
    exact (hensures hs he htype).error hs hnode

end Node

/-! ### Expressions -/

section Expression

variable (hT : TypeInvariant env V P) (hG : ConversionInvariant env P G)
  (hN : NodeInvariant V P G body.arena m N) (hbody : body.Denotes env V P) (hb : body.IsFresh)
  (hunwrap : ∀ slot < body.arena.size, ∀ inner, (body.arena.get slot).kind = .unwrap inner →
    G inner .unwrapOptional ∧ G inner .unwrapBoxOptional)
include hT hG hN hbody hb hunwrap

/-- Expressions keep the properties, within a bound that covers what is below them. -/
theorem visitRespects_analyseExprWithin {k n : Nat} {slot : Slot}
    (hk : body.arena.Level (body.stmts.flatMap Stmt.slots) k slot) (hn : body.arena.size ≤ n + k) :
    VisitRespects env P G N m body.arena (analyseExprWithin n) slot := by
  have hf := hb.isForest
  induction n generalizing k slot m with
  | zero =>
      have := hf.level_lt_size hk
      omega
  | succ n ih =>
      have hlt := hf.lt_size_of_level hk
      exact visitRespects_analyseNode hT hG hN hbody hlt
        (fun c hc m' hm => ih (hN.weaken hm) (.child hk hc) (by omega)) (hunwrap slot hlt)

theorem visitRespects_analyseExpr (hslot : slot ∈ body.stmts.flatMap Stmt.slots) :
    VisitRespects env P G N m body.arena analyseExpr slot :=
  visits_analyseExpr fun hs =>
    visitRespects_analyseExprWithin hT hG hN hbody hb hunwrap (.root hslot) hs.nodes.size_le

/-! ### Statements -/

variable {s s' : AnalysisState}

theorem respects_of_stmtRun {stmt stmt' : Stmt} (hstmt : stmt ∈ body.stmts)
    (hs : s.Respects P N m body.arena) (hrun : StmtRun env s stmt stmt' s') :
    s'.RespectsAfter P N m body.arena stmt' := by
  have hslots (c : Slot) (hc : c ∈ stmt.slots) : c ∈ body.stmts.flatMap Stmt.slots :=
    List.mem_flatMap.mpr ⟨stmt, hstmt, hc⟩
  have hwritten (w : WrittenType) (hw : w ∈ stmt.writtenTypes) : w.Denotes env P :=
    fun t ht => hT.weaken (hbody.stmts stmt hstmt w hw t ht)
  have hvisits {c : Slot} (hc : c ∈ stmt.slots) : VisitRespects env P G N m body.arena analyseExpr c :=
    visitRespects_analyseExpr hT hG hN hbody hb hunwrap (hslots c hc)
  have hexpect {s s' : AnalysisState} {c : Slot} {t u : Ty}
      (hrun : (expectType analyseExpr t c).runIn env s = (.ok u, s')) (hc : c ∈ stmt.slots)
      (hs : s.Respects P N m body.arena) (ht : P t) : s'.Respects P N m body.arena :=
    ((ensures_expect hT hG (fun h => h) (hvisits hc) (e := { type := t }) ht).ok hs hrun).1
  have hdeclare {s₁ : AnalysisState} (hs₁ : s₁.Respects P N m body.arena) (stmt : LetStmt) {t : Ty}
      (ht : P t) (isDeferred : Bool) : (s₁.declaring stmt t isDeferred).RespectsAfter P N m body.arena
        (.letStmt { stmt with id? := some s₁.scope.count, resolved? := some t }) := by
    refine ⟨hs₁.declaring hN stmt ht isDeferred, s₁, hs₁, by rw [body_declaring], ?_⟩
    rintro d ⟨⟩
    rfl
  have hsame {s' : AnalysisState} {stmt' : Stmt} (hlet : ∀ d, stmt' ≠ .letStmt d)
      (hs' : s'.Respects P N m body.arena) : s'.RespectsAfter P N m body.arena stmt' :=
    ⟨hs', s', hs', rfl, fun d hd => absurd hd (hlet d)⟩
  cases hrun with
  | @letDeferred stmt written t htype hinit hres =>
    exact hdeclare hs stmt (hwritten written (by simp [Stmt.writtenTypes, htype]) t hres) true
  | @letTyped s₁ stmt written init t u htype hinit hres hvisit =>
    have ht := hwritten written (by simp [Stmt.writtenTypes, htype]) t hres
    exact hdeclare (hexpect hvisit (by simp [Stmt.slots, hinit]) hs ht) stmt ht false
  | @letInferred s₁ s₂ stmt init t u htype hinit hvisit hcomply =>
    have harrives := (hvisits (by simp [Stmt.slots, hinit])).ok hs (by simp) hvisit
    obtain ⟨hs₂, hu⟩ := harrives.comply hT hG (hT.erased harrives.type)
      (Declarations.widens_of_erased_eq (Ty.erased_erased t).symm) hcomply
    exact hdeclare hs₂ stmt hu false
  | @assign s₁ stmt b t hfound hfirst hvisit =>
    have hs₁ := hexpect hvisit List.mem_cons_self (hs.resolve hN _) (hs.binding hfound)
    refine hsame (by simp) ?_
    exact hs₁.congr hN rfl (Nat.le_refl _) hs₁.bindings
  | @expr _ slot t hvisit =>
    exact hsame (by simp) ((hvisits List.mem_cons_self).ok hs (by simp) hvisit).holds
  | @retValue _ stmt value t hvalue hvisit =>
    refine hsame (by simp) (hexpect hvisit (by simp [Stmt.slots, hvalue]) ?_ hT.ret)
    exact hs.congr hN rfl (Nat.le_refl _) hs.bindings
  | retNothing =>
    refine hsame (by simp) ?_
    exact hs.congr hN rfl (Nat.le_refl _) hs.bindings

theorem respects_of_stmtsRun {stmts stmts' : List Stmt} (hstmts : ∀ stmt ∈ stmts, stmt ∈ body.stmts)
    (hs : s.Respects P N m body.arena) (hrun : StmtsRun env body.arena s stmts stmts' s') :
    s'.Respects P N m body.arena := by
  induction hrun with
  | nil => exact hs
  | cons run _ _ _ _ _ ih =>
    obtain ⟨hstmt, hrest⟩ := List.forall_mem_cons.mp hstmts
    exact ih hrest (respects_of_stmtRun hT hG hN hbody hb hunwrap hstmt hs run).respects

end Expression

end Analysis

/-! ### Bodies -/

/--
The nodes of a fresh body that is analysed without errors have types with the property,
and properties of nodes that are kept.
-/
theorem Package.AnalysesCleanly.respects {p : Package} {warnDeprecated : Bool}
    {reports : List Report} {definition : Definition} {V P : Ty → Prop}
    {G : Slot → Conversion → Prop} {N : Nat → Slot → Expr → Prop} (hb : definition.body.IsFresh)
    (hclean : p.AnalysesCleanly warnDeprecated reports definition) :
    let env : Environment :=
      { package := p, function := p.signature definition.function, warnDeprecated }
    let arena := definition.body.arena
    let after := (p.analyseDefinition warnDeprecated reports definition).1.body
    TypeInvariant env V P → ConversionInvariant env P G →
      NodeInvariant V P G arena (Scope.ofSignature env.function).count N →
      definition.body.Denotes env V P →
      (∀ slot < arena.size, ∀ inner, (arena.get slot).kind = .unwrap inner →
        G inner .unwrapOptional ∧ G inner .unwrapBoxOptional) →
      (∀ slot, N (Scope.ofSignature env.function).count slot (arena.get slot)) →
      after.arena.HoldsNodesOf arena ∧ (∀ slot t, (after.arena.get slot).type? = some t → P t) ∧
        ∃ n, ∀ slot, N n slot (after.arena.get slot) := by
  intro env arena after hT hG hN hbody hunwrap hkept
  obtain ⟨s', hrun, harena⟩ := hclean.exists_stmtsRun hb
  have hs' := Analysis.respects_of_stmtsRun hT hG hN hbody hb hunwrap (fun _ h => h)
    (.start (by simp [hb.type?_eq_none]) hT.param hkept reports) hrun
  rw [show after.arena = s'.body.arena from harena.symm]
  exact ⟨hs'.nodes, hs'.types, _, hs'.kept⟩

theorem Package.AnalysesCleanly.type_of_node {p : Package} {warnDeprecated : Bool}
    {reports : List Report} {definition : Definition} {V P : Ty → Prop}
    (hb : definition.body.IsFresh) (hclean : p.AnalysesCleanly warnDeprecated reports definition) :
    let env : Environment :=
      { package := p, function := p.signature definition.function, warnDeprecated }
    let after := (p.analyseDefinition warnDeprecated reports definition).1.body
    TypeInvariant env V P → definition.body.Denotes env V P →
      ∀ slot t, (after.arena.get slot).type? = some t → P t := by
  intro env after hT hbody
  exact (hclean.respects hb hT (.trivial env P) (.trivial V P _ _ _) hbody
    (fun _ _ _ _ => ⟨trivial, trivial⟩) fun _ => trivial).2.1

end Boxlang
