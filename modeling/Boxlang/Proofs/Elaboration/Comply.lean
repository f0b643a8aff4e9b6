import Boxlang.Proofs.Analysis.Reports
import Boxlang.Proofs.Elaboration.Expr
import Boxlang.Proofs.Elaboration.Final

/-!
# Meeting an expectation

A value below the expected type is made to meet the expectation by at most one
conversion of its node, and fails only where its type is a generic variable or an
optional of one (`runIn_comply`).  An expression that has met an expectation meets it
from then on: nothing more is done for it (`runIn_expect_twice`).
-/

namespace Boxlang

/-- The step from one arena to another that wraps the node in `slot` in a conversion. -/
structure Arena.Converts (a b : Arena) (slot : Slot) (op : Conversion) (t : Ty) : Prop where
  size_eq : b.size = a.size + 1
  wrapper_eq : b.get slot = { span := (a.get slot).span, kind := .conversion a.size op, type? := some t }
  moved_eq : b.get a.size = a.get slot
  get_eq : ∀ x, x ≠ slot → x ≠ a.size → b.get x = a.get x

theorem Arena.converts_convert {a : Arena} {slot : Slot} (h : slot < a.size) (op : Conversion)
    (t : Ty) : a.Converts (a.convert slot op t).2 slot op t where
  size_eq := size_convert a slot op t
  wrapper_eq := by
    rw [get_convert a h h, if_pos rfl]
    rfl
  moved_eq := get_convert_fresh a slot op t
  get_eq x hslot hfresh := by
    by_cases hx : x < a.size
    · rw [get_convert a h hx, if_neg hslot]
    · have hle := Nat.le_of_not_lt hx
      rw [get_of_size_le a hle, get_of_size_le]
      rw [size_convert]
      exact Nat.lt_of_le_of_ne hle (Ne.symm hfresh)

namespace Analysis

variable {env : Environment} {s s' : AnalysisState} {slot : Slot} {a t : Ty} {e : Expectation}

/-! ### Compliance -/

theorem runIn_comply_asIs (h : e.compliance a = .asIs t) :
    (comply a e slot).runIn env s = (.ok t, s) := by
  rw [comply, h]
  rfl

theorem runIn_comply_convert {op : Conversion} (h : e.compliance a = .convert op t) :
    (comply a e slot).runIn env s = (.ok t, s.withArena (s.body.arena.convert slot op t).2) := by
  rw [comply, h]
  rfl

theorem runIn_comply_refused (h : e.compliance a = .refused) :
    (comply a e slot).runIn env s =
      (.error (.mismatch e.type a (s.body.arena.get slot).span), s) := by
  rw [comply, h]
  rfl

/--
A value whose type passed the subtype check fails to meet the expectation only if its
type, without storage marks, is a generic variable or an optional of one, and then
nothing has changed.  Otherwise it ends up in the storage that is asked for, with a type
below the expected one, and at most one conversion was inserted: at its slot, from the
storage it had to the one it has.
-/
theorem runIn_comply (hslot : slot < s.body.arena.size) (ha : a.mentionsError = false)
    (hmarked : a.IsMarkedOnce) (he : e.type.mentionsError = false)
    (hsub : env.declarations.isSubtype env.context a e.type = true) :
    (∃ t s', (comply a e slot).runIn env s = (.ok t, s') ∧
      t.storage = e.target a ∧
      env.declarations.isSubtype env.context t e.type = true ∧
      (t = a ∧ s' = s ∨ ∃ op arena, s' = s.withArena arena ∧
        s.body.arena.Converts arena slot op t ∧
        op.consumes = a.storage ∧ op.produces = t.storage)) ∨
    (∃ error, (comply a e slot).runIn env s = (.error error, s) ∧
      (a.erased.IsVariable ∨ ∃ v, a.erased = .optional v ∧ v.IsVariable)) := by
  have hw := Declarations.widens_of_isSubtype hsub
  have hsound := isSound_compliance hw ha he
  have herror : (a.isError || e.type.isError) = false := by
    rw [Ty.isError_eq_false ha, Ty.isError_eq_false he, Bool.or_self]
  cases hc : e.compliance a with
  | asIs t =>
    rw [hc] at hsound
    have hfinal := final_compliance hw herror (by rw [hc]; rfl)
    exact .inl ⟨t, s, runIn_comply_asIs hc, hfinal.storage_eq,
      Declarations.isSubtype_iff.mpr hfinal.widens, .inl ⟨hsound.1, rfl⟩⟩
  | convert op t =>
    rw [hc] at hsound
    have hfinal := final_compliance hw herror (by rw [hc]; rfl)
    have hstep := hsound.1.self
    exact .inl ⟨t, _, runIn_comply_convert hc, hfinal.storage_eq,
      Declarations.isSubtype_iff.mpr hfinal.widens,
      .inr ⟨op, _, rfl, Arena.converts_convert hslot op t, hstep.consumes_eq, hstep.produces_eq⟩⟩
  | refused =>
    exact .inr ⟨_, runIn_comply_refused hc, isVariable_of_compliance_eq_refused hw he hmarked hc⟩

def literalState (type? : Option Ty) : AnalysisState :=
  .start { name := "main" } { arena := { nodes := #[{ span := ⟨0, 1⟩, kind := .int 7, type? }] } } []

/-- A number of which a value of the top type is expected is put into a box. -/
theorem runIn_comply_literal :
    let s := literalState (some .int)
    let e : Expectation := { type := .something }
    0 < s.body.arena.size ∧ Ty.int.mentionsError = false ∧ Ty.int.IsMarkedOnce ∧
      e.type.mentionsError = false ∧
      emptyEnvironment.declarations.isSubtype emptyEnvironment.context .int e.type = true ∧
      ∃ t s', (comply .int e 0).runIn emptyEnvironment s = (.ok t, s') ∧ t.storage = .box ∧
        ∃ op, (s'.body.arena.get 0).kind = .conversion 1 op ∧ op.consumes = .simple ∧ op.produces = .box := by
  intro s e
  have hslot : 0 < s.body.arena.size := by decide
  have hsub : emptyEnvironment.declarations.isSubtype emptyEnvironment.context .int e.type = true := by
    decide +kernel
  refine ⟨hslot, rfl, trivial, rfl, hsub, ?_⟩
  have h := runIn_comply (s := s) (a := .int) (e := e) hslot rfl trivial rfl hsub
  rcases h with ⟨t, s', hrun, hstorage, -, ⟨rfl, -⟩ | ⟨op, arena, rfl, harena, hconsumes, hproduces⟩⟩ |
    ⟨error, hrun, -⟩
  · cases hstorage
  · refine ⟨t, _, hrun, hstorage, op, ?_, hconsumes, hproduces.trans hstorage⟩
    exact congrArg Expr.kind harena.wrapper_eq
  · rw [runIn_comply_convert (a := .int) (e := e) rfl] at hrun
    cases (Prod.mk.inj hrun).1

/-! ### Expressions that have met an expectation -/

theorem type?_of_runIn_analyseNode {visit : Visit} {e? : Option Expectation}
    (hvisit : Reporting env visit) (hslot : slot < s.body.arena.size)
    (h : (analyseNode visit slot e?).runIn env s = (.ok t, s')) :
    (s'.body.arena.get slot).type? = some t := by
  unfold analyseNode at h
  rw [runIn_bind, runIn_node] at h
  dsimp only at h
  split at h
  next u hu =>
    obtain ⟨rfl, rfl⟩ : u = t ∧ s = s' := by simpa using h
    exact hu
  next =>
    obtain ⟨u, s₁, htype, hset⟩ := runIn_bind_ok.mp h
    have hlt : slot < s₁.body.arena.size := by
      have hle := (adds_nodeType hvisit slot (s.body.arena.get slot) e?).size_le s
      rw [htype] at hle
      exact Nat.lt_of_lt_of_le hslot hle
    obtain ⟨rfl, rfl⟩ : u = t ∧ s₁.withArena (s₁.body.arena.setType slot u) = s' :=
      ⟨Except.ok.inj (Prod.mk.inj hset).1, (Prod.mk.inj hset).2⟩
    rw [AnalysisState.arena_withArena, Arena.setType, Arena.get_modify_self _ hlt]

theorem type?_of_runIn_analyseExpr {e? : Option Expectation} (hslot : slot < s.body.arena.size)
    (h : (analyseExpr slot e?).runIn env s = (.ok t, s')) :
    (s'.body.arena.get slot).type? = some t := by
  obtain ⟨n, hn⟩ := Nat.exists_eq_add_of_lt hslot
  unfold analyseExpr at h
  rw [runIn_bind, runIn_get] at h
  dsimp only at h
  rw [hn] at h
  exact type?_of_runIn_analyseNode (reporting_analyseExprWithin env _) hslot h

theorem type?_of_runIn_comply (hslot : slot < s.body.arena.size)
    (htype : (s.body.arena.get slot).type? = some a)
    (h : (comply a e slot).runIn env s = (.ok t, s')) :
    (s'.body.arena.get slot).type? = some t := by
  cases hc : e.compliance a with
  | asIs u =>
    rw [runIn_comply_asIs hc] at h
    obtain ⟨rfl, rfl⟩ : u = t ∧ s = s' := by simpa using h
    rw [htype, eq_of_compliance_eq_asIs hc]
  | convert op u =>
    rw [runIn_comply_convert hc] at h
    obtain ⟨rfl, rfl⟩ : u = t ∧ s.withArena (s.body.arena.convert slot op u).2 = s' := by
      simpa using h
    rw [AnalysisState.arena_withArena, (Arena.converts_convert hslot op u).wrapper_eq]
  | refused =>
    rw [runIn_comply_refused hc] at h
    cases (Prod.mk.inj h).1

theorem runIn_requireSubtype_of_isSubtype {actual expected : Ty} {span : Span}
    (h : env.declarations.isSubtype env.context actual expected = true) :
    (requireSubtype actual expected span).runIn env s = (.ok (), s) := by
  unfold requireSubtype
  rw [runIn_bind, runIn_read]
  simp [h]

/--
An expression that has met an expectation meets it from then on: expected again, it has
the same type, and the state stays as it is.
-/
theorem runIn_expect_twice (hslot : slot < s.body.arena.size)
    (h : (expect analyseExpr e slot).runIn env s = (.ok t, s')) :
    (expect analyseExpr e slot).runIn env s' = (.ok t, s') := by
  obtain ⟨actual, s₁, hvisit, hw, hcomply⟩ := runIn_expect_ok h
  have htyped : (s'.body.arena.get slot).type? = some t := by
    have hle := (reporting_analyseExpr env slot (some e)).size_le s
    rw [hvisit] at hle
    exact type?_of_runIn_comply (Nat.lt_of_lt_of_le hslot hle)
      (type?_of_runIn_analyseExpr hslot hvisit) hcomply
  -- The type that was found is below the expected one again, and nothing is to be done for it.
  obtain ⟨hagain, hasIs⟩ := compliance_final hw (type?_compliance_of_runIn_comply hcomply)
  unfold expect
  rw [runIn_bind, runIn_analyseExpr_of_typed htyped]
  dsimp only
  rw [runIn_bind, runIn_spanOf]
  dsimp only
  rw [runIn_bind, runIn_requireSubtype_of_isSubtype (Declarations.isSubtype_iff.mpr hagain)]
  exact runIn_comply_asIs hasIs

/-- A number that was put into a box is not put into another. -/
theorem runIn_expect_twice_literal :
    let s := literalState none
    let boxed : AnalysisState := s.withArena
      (((literalState (some .int)).body.arena.convert 0 (.box .int none) (.boxed .int)).2)
    let visit := expect analyseExpr { type := .something } 0
    0 < s.body.arena.size ∧ visit.runIn emptyEnvironment s = (.ok (.boxed .int), boxed) ∧
      visit.runIn emptyEnvironment boxed = (.ok (.boxed .int), boxed) := by
  intro s boxed visit
  have hslot : 0 < s.body.arena.size := by decide
  have hrun : visit.runIn emptyEnvironment s = (.ok (.boxed .int), boxed) := rfl
  exact ⟨hslot, hrun, runIn_expect_twice hslot hrun⟩

end Analysis

end Boxlang
