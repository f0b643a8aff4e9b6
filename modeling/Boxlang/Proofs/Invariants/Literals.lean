import Boxlang.Proofs.Invariants.Statement

/-!
# Literals are boxed as what they are

The type of a literal is known from the literal alone.  Whatever is wrong elsewhere in a body,
analysis gives a literal no other type, and a conversion that it puts above a literal boxes it
as a value of that type (`Package.boxesLiterals_analyseDefinition`).  A node that is converted is
moved behind all nodes that the body had, which tells these conversions from those that it had.
-/

namespace Boxlang

def ExprKind.literalType? : ExprKind → Option Ty
  | .int _ => some .int
  | .real _ => some .real
  | .bool _ => some .bool
  | .string _ => some .string
  | .symbol _ => some .symbol
  | _ => none

theorem ExprKind.literalType?_bare (k : ExprKind) : k.bare.literalType? = k.literalType? := by
  cases k <;> rfl

theorem ExprKind.eq_of_bare_eq_conversion {k : ExprKind} {inner : Slot} {op : Conversion}
    (h : k.bare = .conversion inner op) : k = .conversion inner op := by
  cases k <;> cases h
  rfl

/-! ### Arenas -/

namespace Arena

def TypesLiterals (a : Arena) : Prop :=
  ∀ x t, (a.get x).kind.literalType? = some t → ∀ u ∈ (a.get x).type?, u = t

/--
A literal has its own type, where it has one, and if it comes after the first `n` nodes, it is
put in a box as a value of that type only.
-/
structure BoxesLiterals (n : Nat) (a : Arena) : Prop where
  typed : a.TypesLiterals
  boxed : ∀ x inner u p, (a.get x).kind = .conversion inner (.box u p) → n ≤ inner → inner < a.size ∧
    ∀ t, (a.get inner).kind.literalType? = some t → (a.get inner).type? = some t ∧ u = t

namespace BoxesLiterals

variable {n : Nat} {a : Arena} {slot : Slot}

/-- Annotations give literals no types but their own ones. -/
theorem annotate (h : a.BoxesLiterals n) {f : Expr → Expr}
    (hf : (a.get slot).Annotated (f (a.get slot)))
    (htype : ∀ t, (a.get slot).kind.literalType? = some t → ∀ u ∈ (f (a.get slot)).type?, u = t) :
    (a.modify slot f).BoxesLiterals n := by
  have hkind : (f (a.get slot)).kind.bare = (a.get slot).kind.bare := congrArg Expr.kind hf.bare_eq
  have hliteral (x : Slot) :
      ((a.modify slot f).get x).kind.literalType? = (a.get x).kind.literalType? := by
    rw [get_modify]
    split
    next hx => rw [hx.1, ← ExprKind.literalType?_bare, hkind, ExprKind.literalType?_bare]
    next => rfl
  have htyped (x : Slot) (t : Ty) (ht : (a.get x).kind.literalType? = some t) :
      ∀ u ∈ ((a.modify slot f).get x).type?, u = t := by
    rw [get_modify]
    split
    next hx => exact htype t (hx.1 ▸ ht)
    next => exact h.typed x t ht
  refine ⟨fun x t ht => htyped x t (hliteral x ▸ ht), fun x inner u p hx hle => ?_⟩
  have hconversion : (a.get x).kind = .conversion inner (.box u p) := by
    rw [get_modify] at hx
    split at hx
    next heq =>
      rw [hx] at hkind
      exact heq.1 ▸ ExprKind.eq_of_bare_eq_conversion hkind.symm
    next => exact hx
  obtain ⟨hinner, hboxed⟩ := h.boxed x inner u p hconversion hle
  refine ⟨by simpa using hinner, fun t ht => ?_⟩
  rw [hliteral] at ht
  obtain ⟨hsome, rfl⟩ := hboxed t ht
  have hnew : ((a.modify slot f).get inner).type?.isSome := by
    rw [get_modify]
    split
    next hx => exact hf.isSome (hx.1 ▸ hsome ▸ rfl)
    next => exact hsome ▸ rfl
  obtain ⟨v, hv⟩ := Option.isSome_iff_exists.mp hnew
  exact ⟨htyped inner u ht v hv ▸ hv, rfl⟩

theorem convert (h : a.BoxesLiterals n) (hslot : slot < a.size) {op : Conversion} {t : Ty}
    (hop : op.BoxesAs t)
    (ht : ∀ u, (a.get slot).kind.literalType? = some u → t = .error ∨ (a.get slot).type? = some u ∧ t = u)
    (v : Ty) : (a.convert slot op v).2.BoxesLiterals n := by
  have hget := a.get_convert_cases hslot op v
  have hold (x inner : Slot) (u : Ty) (p : Option String)
      (hx : (a.get x).kind = .conversion inner (.box u p)) (hle : n ≤ inner) :
      inner < (a.convert slot op v).2.size ∧
        ∀ t, ((a.convert slot op v).2.get inner).kind.literalType? = some t →
          ((a.convert slot op v).2.get inner).type? = some t ∧ u = t := by
    obtain ⟨hinner, hboxed⟩ := h.boxed x inner u p hx hle
    refine ⟨by simpa using Nat.lt_succ_of_lt hinner, fun t ht => ?_⟩
    rw [get_convert _ hslot hinner] at ht ⊢
    split at ht
    next => cases ht
    next hne =>
      rw [if_neg hne]
      exact hboxed t ht
  constructor
  · intro x t hx
    rcases hget x with ⟨-, heq⟩ | ⟨-, heq⟩ | ⟨-, heq⟩
    · rw [heq] at hx
      cases hx
    · rw [heq] at hx ⊢
      exact h.typed slot t hx
    · rw [heq] at hx ⊢
      exact h.typed x t hx
  · intro x inner u p hx hle
    rcases hget x with ⟨-, heq⟩ | ⟨-, heq⟩ | ⟨-, heq⟩
    · rw [heq] at hx
      obtain ⟨rfl, rfl⟩ := ExprKind.conversion.inj hx
      refine ⟨by simp, fun t' ht' => ?_⟩
      rw [get_convert_fresh] at ht' ⊢
      obtain ⟨rfl, hne⟩ := hop
      obtain ⟨hsome, rfl⟩ := (ht t' ht').resolve_left hne
      exact ⟨hsome, rfl⟩
    · exact hold slot inner u p (heq ▸ hx) hle
    · exact hold x inner u p (heq ▸ hx) hle

end BoxesLiterals

end Arena

/-! ### States -/

/-- The nodes of `a₀` are where they were or under conversions, which box literals as what they are. -/
structure AnalysisState.HoldsLiterals (a₀ : Arena) (s : AnalysisState) : Prop where
  nodes : s.body.arena.HoldsNodesOf a₀
  literals : s.body.arena.BoxesLiterals a₀.size

namespace AnalysisState.HoldsLiterals

variable {a₀ : Arena} {s : AnalysisState} {slot : Slot}

theorem congr {s' : AnalysisState} (h : s.HoldsLiterals a₀) (harena : s'.body.arena = s.body.arena) :
    s'.HoldsLiterals a₀ :=
  ⟨harena ▸ h.nodes, harena ▸ h.literals⟩

theorem leave (h : s.HoldsLiterals a₀) : s.leave.HoldsLiterals a₀ :=
  h.congr rfl

theorem modifyKind (h : s.HoldsLiterals a₀) {f : ExprKind → ExprKind}
    (hf : (f (s.body.arena.get slot).kind).bare = (s.body.arena.get slot).kind.bare) :
    (s.withArena (s.body.arena.modifyKind slot f)).HoldsLiterals a₀ where
  nodes := h.nodes.annotate (.withKind hf)
  literals := h.literals.annotate (.withKind hf) (h.literals.typed slot)

theorem convert (h : s.HoldsLiterals a₀) (hslot : slot < a₀.size) {op : Conversion} {t : Ty}
    (hop : op.BoxesAs t) (ht : ∀ u, (s.body.arena.get slot).kind.literalType? = some u →
      t = .error ∨ (s.body.arena.get slot).type? = some u ∧ t = u) (v : Ty) :
    (s.withArena (s.body.arena.convert slot op v).2).HoldsLiterals a₀ where
  nodes := h.nodes.convert hslot op v
  literals := h.literals.convert (Nat.lt_of_lt_of_le hslot h.nodes.size_le) hop ht v

end AnalysisState.HoldsLiterals

/-! ### Nodes -/

namespace Analysis

open AnalysisState

variable {env : Environment} {visit : Visit} {a₀ : Arena} {slot : Slot} {s s' : AnalysisState}

theorem nodeType_of_literal {e : Expr} {t : Ty} (h : e.kind.literalType? = some t)
    (e? : Option Expectation) : nodeType visit slot e e? = pure t := by
  unfold nodeType
  cases hk : e.kind <;> rw [hk] at h <;> cases h <;> rfl

abbrev VisitsLiterals (env : Environment) (a₀ : Arena) (visit : Visit) (slot : Slot) : Prop :=
  Visits env (HoldsLiterals a₀) (HoldsLiterals a₀) (fun _ => True) (fun _ _ => True) visit slot

theorem ensures_analyseLocal_literals (name : Ident) :
    Ensures env (HoldsLiterals a₀) (HoldsLiterals a₀) (analyseLocal slot name) fun _ => True := by
  unfold analyseLocal
  refine Ensures.bind (Q := fun _ => True) (.modifyGet fun s hs => ⟨hs.congr rfl, trivial⟩) fun b? _ => ?_
  cases b? with
  | none => exact .throw (fun _ hs => hs) _
  | some b =>
    refine (Ensures.modify fun s hs => hs.modifyKind (ExprKind.bare_withVariable _ b.id)).bind fun _ _ => ?_
    refine Ensures.bind (Q := fun _ => True) (.of_keeps fun s _ => ⟨s, rfl, trivial⟩) fun s _ => ?_
    split
    · exact .pure trivial
    · exact (Ensures.throw (fun _ hs => hs) _).bind fun _ (_ : True) => .pure trivial

section Node

variable (hslot : slot < a₀.size)
  (hv : ∀ c ∈ (a₀.get slot).kind.operands, VisitsLiterals env a₀ visit c)
include hslot hv

theorem stable_literals : Stable env (HoldsLiterals a₀) (HoldsLiterals a₀) (fun _ => True)
    (fun _ => True) (fun _ _ => True) visit slot (a₀.get slot).kind.operands where
  fails hs := hs
  reports _ hs := hs.congr rfl
  visits := hv
  arguments {s arguments} hs harguments := by
    refine ⟨?_, fun _ _ _ _ => trivial⟩
    rcases hs.nodes.holds slot hslot with hb | ⟨-, inner, op, hconv⟩
    · rw [← Expr.operands_eq_of_bare_eq hb]
      exact ExprKind.args_subset_operands harguments
    · simp [hconv, ExprKind.arguments?] at harguments
  withTarget id hs := hs.modifyKind (ExprKind.bare_withTarget _ id)
  withGenericArguments types _ hs := hs.modifyKind (ExprKind.bare_withGenericArguments _ types)

theorem ensures_analyseClosure_literals {literal : Closure}
    (hkind : (a₀.get slot).kind.bare = (ExprKind.closure literal).bare) :
    Ensures env (HoldsLiterals a₀) (HoldsLiterals a₀) (analyseClosure visit slot literal) fun _ => True := by
  have hbody : literal.body ∈ (a₀.get slot).kind.operands := by
    rw [← ExprKind.operands_bare, hkind]
    exact List.mem_singleton_self _
  refine ensures_analyseClosure_of_closureAs (V := fun _ => True) (P := fun _ => True) id
    (fun _ _ _ _ => trivial) (fun _ _ => trivial) fun params ret hlen _ _ => .of_state fun s hs => ?_
  have hexpect := ensures_expect (.trivial env) (.trivial env _) id (hv _ hbody) (e := { type := ret }) trivial
  have hentered : (s.enter (literal.named params)).HoldsLiterals a₀ := hs.congr rfl
  have hs₃ := hexpect.state hentered
  rw [runIn_closureAs]
  exact hs₃.leave.modifyKind (bare_withClosureVariables_of_holds hs₃.nodes hslot hkind (by simp [hlen]))

theorem ensures_nodeType_literals (hs : s.HoldsLiterals a₀)
    (htype : (s.body.arena.get slot).type? = none) (e? : Option Expectation) :
    Ensures env (HoldsLiterals a₀) (HoldsLiterals a₀) (nodeType visit slot (s.body.arena.get slot) e?)
      fun _ => True := by
  have hbare := hs.nodes.bare_eq hslot htype
  have hkind : (s.body.arena.get slot).kind.bare = (a₀.get slot).kind.bare := congrArg Expr.kind hbare
  exact ensures_nodeType (.trivial env) (.trivial env _) (stable_literals hslot hv) (by simp)
    (Expr.operands_eq_of_bare_eq hbare ▸ List.Subset.refl _) (fun _ _ _ _ => trivial)
    (fun name _ _ => ensures_analyseLocal_literals name)
    (fun literal hliteral => ensures_analyseClosure_literals hslot hv (hliteral ▸ hkind.symm)) (by simp)

theorem holdsLiterals_of_runIn_analyseNode (hs : s.HoldsLiterals a₀) {e? : Option Expectation} {t : Ty}
    (hrun : (analyseNode visit slot e?).runIn env s = (.ok t, s')) : s'.HoldsLiterals a₀ ∧
      ∀ u, (s'.body.arena.get slot).kind.literalType? = some u →
        (s'.body.arena.get slot).type? = some u ∧ t = u := by
  rcases runIn_analyseNode_ok hrun with ⟨htype, rfl⟩ | ⟨htype, s₁, hnode, rfl⟩
  · refine ⟨hs, fun u hu => ?_⟩
    obtain rfl := hs.literals.typed slot u hu t htype
    exact ⟨htype, rfl⟩
  · obtain ⟨hs₁, -⟩ := (ensures_nodeType_literals hslot hv hs htype e?).ok hs hnode
    -- What is a literal now was one all along, and was typed as that.
    have hliteral (u : Ty) (hu : (s₁.body.arena.get slot).kind.literalType? = some u) : t = u := by
      rcases hs₁.nodes.holds slot hslot with hb | ⟨-, inner, op, hconv⟩
      · have hkind : (s₁.body.arena.get slot).kind.bare = (s.body.arena.get slot).kind.bare :=
          congrArg Expr.kind (hb.trans (hs.nodes.bare_eq hslot htype).symm)
        rw [← ExprKind.literalType?_bare, hkind, ExprKind.literalType?_bare] at hu
        rw [nodeType_of_literal hu] at hnode
        cases hnode
        rfl
      · rw [hconv] at hu
        cases hu
    refine ⟨⟨hs₁.nodes.annotate (.withType _ t), hs₁.literals.annotate (.withType _ t) ?_⟩, fun u hu => ?_⟩
    · rintro u hu v ⟨⟩
      exact hliteral u hu
    · have hsize : slot < s₁.body.arena.size := Nat.lt_of_lt_of_le hslot hs₁.nodes.size_le
      rw [arena_withArena, Arena.setType, Arena.get_modify_self _ hsize] at hu ⊢
      exact ⟨congrArg some (hliteral u hu), hliteral u hu⟩

theorem visitsLiterals_analyseNode : VisitsLiterals env a₀ (analyseNode visit) slot := by
  constructor
  · intro s e? t s' hs _ hrun
    obtain ⟨hs', hliteral⟩ := holdsLiterals_of_runIn_analyseNode hslot hv hs hrun
    exact ⟨hs', trivial, fun op u _ hop _ => hs'.convert hslot hop (fun v hv => .inr (hliteral v hv)) u⟩
  · intro s e? err s' hs _ hrun
    obtain ⟨htype, hnode⟩ := runIn_analyseNode_error hrun
    exact (ensures_nodeType_literals hslot hv hs htype e?).error hs hnode

end Node

/-! ### Expressions and statements -/

section Expression

variable (hin : a₀.InRange)
include hin

theorem visitsLiterals_analyseExprWithin (n : Nat) {slot : Slot} (hslot : slot < a₀.size) :
    VisitsLiterals env a₀ (analyseExprWithin n) slot := by
  induction n generalizing slot with
  | zero =>
    refine ⟨fun {s e? t s'} hs _ hrun => ?_, fun {s e? err s'} hs _ hrun => nomatch (Prod.mk.inj hrun).1⟩
    cases hrun
    exact ⟨hs, trivial, fun op u _ hop _ => hs.convert hslot hop (fun _ _ => .inl rfl) u⟩
  | succ n ih => exact visitsLiterals_analyseNode hslot fun c hc => ih (hin slot hslot c hc)

theorem visitsLiterals_analyseExpr (hslot : slot < a₀.size) : VisitsLiterals env a₀ analyseExpr slot :=
  visits_analyseExpr fun _ => visitsLiterals_analyseExprWithin hin _ hslot

end Expression

theorem scopeStable_literals : ScopeStable (HoldsLiterals a₀) fun _ => True where
  resolve _ hs := ⟨hs.congr rfl, fun _ _ => trivial⟩
  declare _ _ _ hs _ := hs.congr rfl

theorem stmtStable_literals {body : Body} (hin : body.InRange) {stmt : Stmt} (hstmt : stmt ∈ body.stmts) :
    StmtStable env (HoldsLiterals body.arena) (fun _ => True) (fun _ _ => True) stmt where
  visits c hc := visitsLiterals_analyseExpr hin.arena (hin.stmts stmt hstmt c hc)
  written _ _ _ _ := trivial
  congr hs harena _ := hs.congr harena

end Analysis

/-! ### Bodies -/

theorem Body.IsFresh.typesLiterals {body : Body} (hb : body.IsFresh) : body.arena.TypesLiterals := by
  intro x t _ u hu
  rw [hb.type?_eq_none] at hu
  cases hu

/-- The nodes of a body are under no conversion that analysis puts there, before it does. -/
theorem Body.InRange.boxesLiterals {body : Body} (hin : body.InRange) (hb : body.arena.TypesLiterals) :
    body.arena.BoxesLiterals body.arena.size where
  typed := hb
  boxed x inner u p hx hle := by
    have hoperand : inner ∈ (body.arena.get x).kind.operands := hx ▸ List.mem_singleton_self _
    exact absurd (hin.arena x (Arena.lt_size_of_mem_operands hoperand) inner hoperand) (Nat.not_lt.mpr hle)

theorem Package.boxesLiterals_analyseDefinition (p : Package) (warnDeprecated : Bool)
    (reports : List Report) {definition : Definition} (hin : definition.body.InRange)
    (hb : definition.body.arena.TypesLiterals) :
    (p.analyseDefinition warnDeprecated reports definition).1.body.arena.BoxesLiterals
      definition.body.arena.size := by
  let env : Environment := { package := p, function := p.signature definition.function, warnDeprecated }
  let s := AnalysisState.start env.function definition.body reports
  obtain ⟨stmts, s', new, hrun, hanalysed, -⟩ := Analysis.exists_runIn_analyseBody env s
  have hstmts := Analysis.Ensures.mapM fun stmt hstmt =>
    Analysis.ensures_analyseStmt (.trivial env) (.trivial env _) Analysis.scopeStable_literals trivial
      (Analysis.stmtStable_literals hin hstmt)
  have hstart : s.HoldsLiterals definition.body.arena := ⟨.refl _, hin.boxesLiterals hb⟩
  obtain ⟨hs', -⟩ := hstmts.ok hstart hrun
  show (Analysis.analyseBody.runIn env s).2.body.arena.BoxesLiterals _
  rw [hanalysed]
  exact hs'.literals

end Boxlang
