import Boxlang.Proofs.Elaboration.Body
import Boxlang.Proofs.Names.Node

/-!
# Names in bodies

The names in scope at a statement are the parameters of the function and what the
statements before it declare.  In a fresh body that is analysed without errors, the
expressions of every statement are scoped by the names in scope there.
-/

namespace Boxlang

open Analysis AnalysisState

/-- The names of a function's parameters, which are its first variables. -/
def Signature.names (f : Signature) : Names :=
  (f.params.zipIdx.map fun (param, i) => (param.name, i)).reverse

def Names.after (names : Names) (stmts : List Stmt) : Names :=
  stmts.foldl (fun names stmt => stmt.binders ++ names) names

def Stmt.IsNumbered (stmt : Stmt) : Prop :=
  ∀ declaration, stmt = .letStmt declaration → declaration.id?.isSome

/-! ### Variables of elaborated statements -/

section Elaborated

variable {p : Package} {ret : Ty} {a : Arena} {L L' : Locals} {names : Names}

/-- Statements give numbers to what they declare, and to nothing else. -/
theorem StmtOk.eq_some_or {stmt : Stmt} (h : StmtOk p ret a L stmt L') {id : VariableId}
    {v : Variable} (hid : L' id = some v) : id ∈ stmt.binders.ids ∨ ∃ u, L id = some u := by
  have hset {id' : VariableId} {u : Variable} (hid : L.set id' u id = some v) :
      id = id' ∨ ∃ u, L id = some u := by
    by_cases heq : id = id'
    · exact .inl heq
    · rw [Locals.set_of_ne _ heq] at hid
      exact .inr ⟨v, hid⟩
  cases h with
  | letInit _ hlet _ _ _ _ _ =>
      exact (hset hid).imp_left fun heq => by simp [Stmt.binders, hlet, Names.ids, heq]
  | letDeferred _ hlet _ _ _ =>
      exact (hset hid).imp_left fun heq => by simp [Stmt.binders, hlet, Names.ids, heq]
  | assign _ hassigned _ _ _ =>
      rcases hset hid with rfl | hold
      · exact .inr ⟨_, hassigned⟩
      · exact .inr hold
  | expr _ => exact .inr ⟨v, hid⟩
  | retValue _ _ _ => exact .inr ⟨v, hid⟩
  | retNothing _ _ => exact .inr ⟨v, hid⟩

theorem StmtOk.isNumbered {stmt : Stmt} (h : StmtOk p ret a L stmt L') : stmt.IsNumbered := by
  rintro declaration rfl
  cases h with
  | letInit _ hlet _ _ _ _ _ => simp [hlet]
  | letDeferred _ hlet _ _ _ => simp [hlet]

/-- The variables that an expression of a statement may read are in scope there. -/
theorem StmtsOk.exists_elaborated {stmts : List Stmt} (h : StmtsOk p ret a L stmts)
    (hnames : ∀ id v, L id = some v → id ∈ names.ids) {before after : List Stmt} {stmt : Stmt}
    (hsplit : stmts = before ++ stmt :: after) {root : Slot} (hroot : root ∈ stmt.slots) :
    ∃ Γ, Elaborated p a Γ root ∧ ∀ id t, Γ id t → id ∈ (names.after before).ids := by
  induction before generalizing L names stmts with
  | nil =>
      subst hsplit
      cases h with
      | cons hstmt _ =>
          exact ⟨_, hstmt.elaborated root hroot, fun id t ⟨v, hv, _⟩ => hnames id v hv⟩
  | cons first before ih =>
      subst hsplit
      cases h with
      | cons hfirst hrest =>
          refine ih hrest (fun id v hid => ?_) rfl
          rw [Names.ids_append, List.mem_append]
          exact (hfirst.eq_some_or hid).imp_right fun ⟨u, hu⟩ => hnames id u hu

theorem StmtsOk.isNumbered {stmts : List Stmt} (h : StmtsOk p ret a L stmts) :
    ∀ stmt ∈ stmts, stmt.IsNumbered := by
  induction h with
  | nil => simp
  | cons hstmt _ ih => exact List.forall_mem_cons.mpr ⟨hstmt.isNumbered, ih⟩

end Elaborated

/-! ### The start of a function -/

theorem names_ofSignature (f : Signature) : (Scope.ofSignature f).names = f.names := by
  have hzip (n : Nat) (params : List Param) :
      (params.map (·.name)).zip (List.range' n params.length) =
        (params.zipIdx n).map fun (param, i) => (param.name, i) := by
    induction params generalizing n with
    | nil => rfl
    | cons param params ih => simp [List.range'_succ, List.zipIdx_cons, ih]
  rw [Scope.ofSignature_eq, Scope.declareAll_eq, Scope.names]
  simp only [Scope.frames, List.append_nil, List.flatten_cons, List.flatten_nil, List.map_reverse,
    Scope.map_paramFrame, List.map_map, List.length_map]
  exact congrArg List.reverse (hzip 0 f.params)

theorem ids_names (f : Signature) : f.names.ids = (List.range' 0 f.params.length).reverse := by
  rw [← names_ofSignature, Scope.ids_names, Scope.idsOf_ofSignature]

namespace AnalysisState.Numbered

variable {a₀ : Arena} {s : AnalysisState}

theorem start (f : Signature) (body : Body) (reports : List Report) :
    (AnalysisState.start f body reports).Numbered body.arena := by
  have hids : (Scope.ofSignature f).names.ids = (List.range' 0 f.params.length).reverse := by
    rw [names_ofSignature, ids_names]
  refine ⟨.refl, ?_, fun id hid => ?_⟩
  · rw [AnalysisState.start, hids]
    exact List.nodup_reverse.mpr List.nodup_range'
  · rw [AnalysisState.start, hids] at hid
    simpa [AnalysisState.start, Scope.ofSignature_eq, Scope.declareAll_eq] using hid

theorem declaring (h : s.Numbered a₀) (stmt : LetStmt) (t : Ty) (isDeferred : Bool) :
    (s.declaring stmt t isDeferred).Numbered a₀ where
  edits := by
    rw [body_declaring]
    exact h.edits
  ids_nodup := by
    rw [scope_declaring, Scope.names_declare]
    exact List.nodup_cons.mpr ⟨fun hmem => Nat.lt_irrefl _ (h.ids_lt _ hmem), h.ids_nodup⟩
  ids_lt id hid := by
    rw [scope_declaring, Scope.names_declare] at hid
    rw [scope_declaring]
    rcases List.mem_cons.mp hid with rfl | hid
    · exact Nat.lt_succ_self _
    · exact Nat.lt_succ_of_lt (h.ids_lt id hid)

end AnalysisState.Numbered

/-! ### Statements -/

namespace Analysis

variable {env : Environment} {body : Body} {s s' : AnalysisState} {slot : Slot} {t u : Ty}
  {e? : Option Expectation} {names : Names}

structure TypedUnder (a₀ : Arena) (names : Names) (slot : Slot) (s : AnalysisState) : Prop where
  numbered : s.Numbered a₀
  names_eq : s.scope.names = names
  placed : a₀.Placed names s.body.arena slot

section Run

variable (hb : body.IsFresh) (hslot : slot ∈ body.stmts.flatMap Stmt.slots)
  (hs : s.Numbered body.arena) (hu : body.arena.Untouched s.body.arena slot)
include hb hslot hs hu

theorem arrives_analyseExpr (hrun : (analyseExpr slot e?).runIn env s = (.ok t, s')) :
    Arrives (TypedUnder body.arena s.scope.names slot) (fun _ => True) (fun _ _ => True) slot t s' := by
  have hlt := (Arena.isRegion_reaches hb.inRange.arena (hb.isForest.roots_lt slot hslot)).lt
  have hwalks : WalksFrom (body.arena.Reaches slot) env s (analyseExpr slot e?) :=
    walksFrom_analyseExpr hb hs.holdsNodes hslot e?
  have hp := hwalks.progress
  rw [hrun] at hp
  obtain ⟨hplaced, htyped⟩ := placed_analyseExpr hb hslot hs hu hrun
  have hnumbered := hs.progress hp hlt
  refine ⟨⟨hnumbered, hp.scope.names_eq, hplaced⟩, trivial, fun op v _ _ _ => ⟨?_, hp.scope.names_eq, ?_⟩⟩
  · refine hnumbered.progress (W := (· = slot)) (.of_edits (.convert .refl rfl)) ?_
    rintro x rfl
    exact hb.isForest.roots_lt x hslot
  · exact hplaced.convert (hb.isForest.roots_lt slot hslot) hlt hnumbered.edits.size_le htyped op v

theorem typedUnder_expectType (hrun : (expectType analyseExpr t slot).runIn env s = (.ok u, s')) :
    TypedUnder body.arena s.scope.names slot s' := by
  obtain ⟨actual, s₁, hvisit, hw, hcomply⟩ := runIn_expect_ok hrun
  exact ((arrives_analyseExpr hb hslot hs hu hvisit).comply (.trivial env) (.trivial env _) trivial hw
    hcomply).1

end Run

theorem placed_of_stmtRun {stmt stmt' : Stmt} (hb : body.IsFresh)
    (hslots : ∀ c ∈ stmt.slots, c ∈ body.stmts.flatMap Stmt.slots) (hs : s.Numbered body.arena)
    (hu : ∀ c ∈ stmt.slots, body.arena.Untouched s.body.arena c)
    (hrun : StmtRun env s stmt stmt' s') :
    s'.Numbered body.arena ∧ s'.scope.names = stmt'.binders ++ s.scope.names ∧
      ∀ c ∈ stmt.slots, body.arena.Placed s.scope.names s'.body.arena c := by
  cases hrun with
  | @letDeferred stmt written t htype hinit hres =>
      refine ⟨hs.declaring stmt t true, ?_, by simp [Stmt.slots, hinit]⟩
      rw [scope_declaring, Scope.names_declare]
      rfl
  | @letTyped s₁ stmt written init t u htype hinit hres hvisit =>
      have hmem : init ∈ (Stmt.letStmt stmt).slots := by simp [Stmt.slots, hinit]
      have h := typedUnder_expectType hb (hslots init hmem) hs (hu init hmem) hvisit
      refine ⟨h.numbered.declaring stmt t false, ?_, ?_⟩
      · rw [scope_declaring, Scope.names_declare, h.names_eq]
        rfl
      · rw [body_declaring]
        simpa [Stmt.slots, hinit] using h.placed
  | @letInferred s₁ s₂ stmt init t u htype hinit hvisit hcomply =>
      have hmem : init ∈ (Stmt.letStmt stmt).slots := by simp [Stmt.slots, hinit]
      obtain ⟨h, -⟩ := (arrives_analyseExpr hb (hslots init hmem) hs (hu init hmem) hvisit).comply
        (.trivial env) (.trivial env _) trivial (Declarations.widens_of_erased_eq (Ty.erased_erased _).symm) hcomply
      refine ⟨h.numbered.declaring stmt u false, ?_, ?_⟩
      · rw [scope_declaring, Scope.names_declare, h.names_eq]
        rfl
      · rw [body_declaring]
        simpa [Stmt.slots, hinit] using h.placed
  | @assign s₁ stmt b t hfound hfirst hvisit =>
      have hmem : stmt.value ∈ (Stmt.assign stmt).slots := List.mem_singleton_self _
      have hextends := Scope.extends_resolve s.scope stmt.target.name
      have hresolved : ({ s with scope := (s.scope.resolve stmt.target.name).2 } :
          AnalysisState).Numbered body.arena :=
        hs.progress (W := fun _ => False) (.of_scope hextends) (by simp)
      have h := typedUnder_expectType hb (hslots _ hmem) hresolved (hu _ hmem) hvisit
      have hnames := hextends.names_eq
      dsimp only at h
      rw [hnames] at h
      exact ⟨⟨h.numbered.edits, h.numbered.ids_nodup, h.numbered.ids_lt⟩, h.names_eq,
        by simpa [Stmt.slots] using h.placed⟩
  | @expr _ slot t hvisit =>
      have hmem : slot ∈ (Stmt.expr slot).slots := List.mem_singleton_self _
      have h := (arrives_analyseExpr hb (hslots _ hmem) hs (hu _ hmem) hvisit).holds
      exact ⟨h.numbered, h.names_eq, by simpa [Stmt.slots] using h.placed⟩
  | @retValue _ stmt value t hvalue hvisit =>
      have hmem : value ∈ (Stmt.ret stmt).slots := by simp [Stmt.slots, hvalue]
      have h := typedUnder_expectType (s := { s with path := s.path.record .returned }) hb
        (hslots value hmem) ⟨hs.edits, hs.ids_nodup, hs.ids_lt⟩ (hu value hmem) hvisit
      exact ⟨h.numbered, h.names_eq, by simpa [Stmt.slots, hvalue] using h.placed⟩
  | @retNothing stmt hvalue hret =>
      exact ⟨⟨hs.edits, hs.ids_nodup, hs.ids_lt⟩, rfl, by simp [Stmt.slots, hvalue]⟩

theorem scoped_of_stmtsRun (hb : body.IsFresh) {stmts stmts' : List Stmt}
    (hslots : ∀ c ∈ stmts.flatMap Stmt.slots, c ∈ body.stmts.flatMap Stmt.slots)
    (hs : s.Numbered body.arena) (hrun : StmtsRun env body.arena s stmts stmts' s')
    {before after : List Stmt} {stmt : Stmt} (hsplit : stmts' = before ++ stmt :: after) :
    ∀ c ∈ stmt.slots, s'.body.arena.Scoped (s.scope.names.after before) c := by
  induction hrun generalizing before with
  | nil => simp at hsplit
  | @cons s s₁ s' first first' stmts stmts' run slots_eq untouched _ apart rest ih =>
      rw [List.flatMap_cons] at hslots
      have hslotsFirst (c : Slot) (hc : c ∈ first.slots) := hslots c (List.mem_append_left _ hc)
      have hslotsRest (c : Slot) (hc : c ∈ stmts.flatMap Stmt.slots) :=
        hslots c (List.mem_append_right _ hc)
      obtain ⟨hs₁, hnames, hplaced⟩ := placed_of_stmtRun hb hslotsFirst hs untouched run
      cases before with
      | nil =>
          obtain ⟨rfl, -⟩ : first' = stmt ∧ stmts' = after := by simpa using hsplit
          intro c hc
          rw [slots_eq] at hc
          have hrest := (Arena.isRegion_reaches_any hb.inRange.arena
            fun c hc => hb.isForest.roots_lt c (hslotsRest c hc)).lt
          exact ((hplaced c hc).edits hb.isForest (.root (hslotsFirst c hc)) rest.edits hrest
            hs₁.edits.size_le (apart c hc)).isScoped
      | cons first'' before =>
          obtain ⟨rfl, hrest⟩ : first' = first'' ∧ stmts' = before ++ stmt :: after := by
            simpa using hsplit
          have hscoped := ih hslotsRest hs₁ hrest
          rwa [hnames] at hscoped

end Analysis

end Boxlang
