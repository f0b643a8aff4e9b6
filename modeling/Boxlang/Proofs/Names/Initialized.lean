import Boxlang.Proofs.Names.Captures

/-!
# Variables have values before they are read

In a fresh body that is analysed without errors a variable is read only where it has a
value, and an immutable one gets its value once: with its declaration, or by the only
assignment to it.

What is known of a variable between two statements is told by the statements so far
(`Locals.After`): where it was declared, and whether it was assigned to.  That an
immutable variable gets a value at all is checked at the end of a body, by what was
recorded on the way (`AnalysisState.Recorded`).
-/

namespace Boxlang

open Analysis AnalysisState

def Stmt.assigns (id : VariableId) : Stmt → Bool
  | .assign stmt => stmt.id? == some id
  | _ => false

namespace Locals

inductive Origin (f : Signature) (before : List Stmt) (id : VariableId) (v : Variable) : Prop where
  | param : id < f.params.length → v.hasValue = true → v.isMutable = false →
      before.countP (Stmt.assigns id) = 0 → Origin f before id v
  | binding {d : LetStmt} (mem : .letStmt d ∈ before) (id_eq : d.id? = some id)
      (not_param : f.params.length ≤ id)
      (unique : ∀ d', .letStmt d' ∈ before → d'.id? = some id → d' = d)
      (isMutable_eq : v.isMutable = d.isMutable)
      (hasValue : v.hasValue = true ↔ d.init?.isSome ∨ 0 < before.countP (Stmt.assigns id))
      (once : d.isMutable = false → before.countP (Stmt.assigns id) ≤ d.init?.isNone.toNat) :
      Origin f before id v

/-- The table of variables after some statements of a function. -/
structure After (f : Signature) (before : List Stmt) (L : Locals) : Prop where
  origin : ∀ id v, L id = some v → Origin f before id v
  unknown : ∀ id, L id = none → f.params.length ≤ id ∧ before.countP (Stmt.assigns id) = 0
  declared : ∀ d, .letStmt d ∈ before →
    ∃ id v, d.id? = some id ∧ f.params.length ≤ id ∧ L id = some v

variable {f : Signature} {before : List Stmt} {L : Locals} {id : VariableId} {v : Variable}

theorem Origin.append (h : Origin f before id v) {stmt : Stmt}
    (hassigns : stmt.assigns id = false) (hlet : ∀ d, stmt = .letStmt d → d.id? ≠ some id) :
    Origin f (before ++ [stmt]) id v := by
  have hcount : (before ++ [stmt]).countP (Stmt.assigns id) = before.countP (Stmt.assigns id) := by
    simp [List.countP_append, hassigns]
  cases h with
  | param hid hvalue himmutable hunassigned => exact .param hid hvalue himmutable (hcount.trans hunassigned)
  | binding mem id_eq not_param unique isMutable_eq hasValue once =>
      refine .binding (List.mem_append_left _ mem) id_eq not_param (fun d' hmem hd' => ?_) isMutable_eq
        (hcount ▸ hasValue) (hcount ▸ once)
      rcases List.mem_append.mp hmem with hmem | hmem
      · exact unique d' hmem hd'
      · exact absurd hd' (hlet d' (List.mem_singleton.mp hmem).symm)

namespace After

/-- At the start the parameters are known, and nothing else. -/
theorem start (f : Signature) : (ofSignature f).After f [] where
  origin id v hv := by
    obtain ⟨param, hparam, rfl⟩ := Option.map_eq_some_iff.mp hv
    exact .param (List.getElem?_eq_some_iff.mp hparam).1 rfl rfl rfl
  unknown id hid := ⟨List.getElem?_eq_none_iff.mp (Option.map_eq_none_iff.mp hid), rfl⟩
  declared _ hd := absurd hd List.not_mem_nil

theorem skip (h : L.After f before) {stmt : Stmt} (hlet : ∀ d, stmt ≠ .letStmt d)
    (hassigns : ∀ id, stmt.assigns id = false) : L.After f (before ++ [stmt]) where
  origin id v hv := (h.origin id v hv).append (hassigns id) fun d hd => absurd hd (hlet d)
  unknown id hid := by simp [List.countP_append, hassigns, h.unknown id hid]
  declared d hd := by
    rcases List.mem_append.mp hd with hd | hd
    · exact h.declared d hd
    · exact absurd (List.mem_singleton.mp hd).symm (hlet d)

theorem declare (h : L.After f before) {d : LetStmt} (hid : d.id? = some id) (hnew : L id = none)
    (t : Ty) {hasValue : Bool} (hvalue : hasValue = d.init?.isSome) :
    (L.set id ⟨t, d.isMutable, hasValue⟩).After f (before ++ [.letStmt d]) where
  origin id' v hv := by
    obtain ⟨hparam, hunassigned⟩ := h.unknown id hnew
    by_cases heq : id' = id
    · subst heq
      rw [set_self] at hv
      obtain rfl := Option.some.inj hv
      have hcount : (before ++ [Stmt.letStmt d]).countP (Stmt.assigns id') = 0 := by
        simp [List.countP_append, hunassigned, Stmt.assigns]
      refine .binding (d := d) (by simp) hid hparam (fun d' hmem hd' => ?_) rfl
        (by simp [hcount, hvalue])
        (by simp [hcount])
      rcases List.mem_append.mp hmem with hmem | hmem
      · obtain ⟨id, v, hid', -, hv⟩ := h.declared d' hmem
        obtain rfl := Option.some.inj (hid'.symm.trans hd')
        cases hnew.symm.trans hv
      · exact Stmt.letStmt.inj (List.mem_singleton.mp hmem)
    · rw [set_of_ne _ heq] at hv
      refine (h.origin id' v hv).append rfl fun d' hd' hid' => heq ?_
      obtain rfl := Stmt.letStmt.inj hd'
      exact Option.some.inj (hid'.symm.trans hid)
  unknown id' hid' := by
    by_cases heq : id' = id
    · simp [heq, set_self] at hid'
    · rw [set_of_ne _ heq] at hid'
      simp [List.countP_append, h.unknown id' hid', Stmt.assigns]
  declared d' hd' := by
    rcases List.mem_append.mp hd' with hd' | hd'
    · obtain ⟨id', v, hid', hparam, hv⟩ := h.declared d' hd'
      refine ⟨id', v, hid', hparam, ?_⟩
      rwa [set_of_ne]
      rintro rfl
      cases hnew.symm.trans hv
    · obtain rfl := Stmt.letStmt.inj (List.mem_singleton.mp hd')
      exact ⟨id, _, hid, (h.unknown id hnew).1, set_self ..⟩

theorem assign (h : L.After f before) {a : AssignStmt} (hid : a.id? = some id) (hv : L id = some v)
    (hfirst : v.isMutable = true ∨ v.hasValue = false) :
    (L.set id { v with hasValue := true }).After f (before ++ [.assign a]) where
  origin id' v' hv' := by
    by_cases heq : id' = id
    · subst heq
      rw [set_self] at hv'
      obtain rfl := Option.some.inj hv'
      have hcount : (before ++ [Stmt.assign a]).countP (Stmt.assigns id') =
          before.countP (Stmt.assigns id') + 1 := by
        simp [List.countP_append, Stmt.assigns, hid]
      cases h.origin id' v hv with
      | param _ hvalue himmutable _ => simp [hvalue, himmutable] at hfirst
      | @binding d mem id_eq not_param unique isMutable_eq hasValue once =>
          refine .binding (List.mem_append_left _ mem) id_eq not_param (fun d' hmem hd' => ?_) isMutable_eq
            (by simp [hcount]) fun himmutable => ?_
          · exact unique d' (by simpa using hmem) hd'
          · -- An immutable variable without a value was neither initialised nor assigned to.
            have hnone : ¬ v.hasValue = true := by simpa [isMutable_eq, himmutable] using hfirst
            rw [hasValue, not_or] at hnone
            rw [hcount, Nat.eq_zero_of_not_pos hnone.2]
            cases hinit : d.init? <;> simp_all
    · rw [set_of_ne _ heq] at hv'
      refine (h.origin id' v' hv').append ?_ nofun
      simpa [Stmt.assigns, hid] using Ne.symm heq
  unknown id' hid' := by
    by_cases heq : id' = id
    · simp [heq, set_self] at hid'
    · rw [set_of_ne _ heq] at hid'
      simp [List.countP_append, h.unknown id' hid', Stmt.assigns, hid, Ne.symm heq]
  declared d hd := by
    obtain ⟨id', v', hid', hparam, hv'⟩ := h.declared d (by simpa using hd)
    by_cases heq : id' = id
    · exact ⟨id, _, heq ▸ hid', heq ▸ hparam, set_self ..⟩
    · exact ⟨id', v', hid', hparam, by rwa [set_of_ne _ heq]⟩

end After

end Locals

/-! ### Statements of an analysed body -/

section Elaborated

variable {p : Package} {ret : Ty} {a : Arena} {f : Signature} {L L' : Locals}
  {before stmts : List Stmt} {stmt : Stmt}

theorem StmtOk.locals_after (h : StmtOk p ret a L stmt L') (hL : L.After f before) :
    L'.After f (before ++ [stmt]) := by
  cases h with
  | letInit hinit hid _ hnew _ _ _ => exact hL.declare hid hnew _ (by simp [hinit])
  | letDeferred hinit hid _ hnew _ => exact hL.declare hid hnew _ (by simp [hinit])
  | assign hid hv hfirst _ _ => exact hL.assign hid hv hfirst
  | expr _ => exact hL.skip nofun fun _ => rfl
  | retValue _ _ _ => exact hL.skip nofun fun _ => rfl
  | retNothing _ _ => exact hL.skip nofun fun _ => rfl

/-- What is known of the variables before each statement, and after the last one. -/
theorem StmtsOk.locals_after (h : StmtsOk p ret a L stmts) (hL : L.After f before) :
    (∀ earlier stmt later, stmts = earlier ++ stmt :: later →
      ∃ L₁ L₂ : Locals, L₁.After f (before ++ earlier) ∧ StmtOk p ret a L₁ stmt L₂) ∧
    ∃ L' : Locals, L'.After f (before ++ stmts) := by
  induction h generalizing before with
  | nil L => exact ⟨by simp, L, by simpa using hL⟩
  | @cons L L₁ stmt stmts hstmt _ ih =>
      obtain ⟨hsplit, L', hend⟩ := ih (hstmt.locals_after hL)
      refine ⟨fun earlier stmt' later heq => ?_, L', by simpa using hend⟩
      cases earlier with
      | nil =>
          obtain ⟨rfl, -⟩ : stmt = stmt' ∧ stmts = later := by simpa using heq
          exact ⟨L, L₁, by simpa using hL, hstmt⟩
      | cons first earlier =>
          obtain ⟨rfl, hrest⟩ : stmt = first ∧ stmts = earlier ++ stmt' :: later := by simpa using heq
          simpa using hsplit earlier stmt' later hrest

end Elaborated

/-! ### What is recorded on the way -/

def Stmt.Initializes (id : VariableId) : Stmt → Prop
  | .letStmt d => d.id? = some id ∧ d.init?.isSome
  | .assign stmt => stmt.id? = some id
  | _ => False

/-- What statements leave on record: the values they give, and the declarations without one. -/
structure AnalysisState.Recorded (s : AnalysisState) (stmts : List Stmt) (s' : AnalysisState) :
    Prop where
  initialized : ∀ id, s'.path.hasCertainly (.initialized id) →
    s.path.hasCertainly (.initialized id) ∨ ∃ stmt ∈ stmts, stmt.Initializes id
  deferred_subset : s.deferred ⊆ s'.deferred
  deferred : ∀ d, .letStmt d ∈ stmts → d.init? = none →
    ∃ b ∈ s'.deferred, d.id? = some b.id ∧ b.isMutable = d.isMutable

namespace AnalysisState.Recorded

variable {s s' s'' : AnalysisState} {stmts stmts' : List Stmt} {W : Slot → Prop}

theorem trans (h : s.Recorded stmts s') (h' : s'.Recorded stmts' s'') :
    s.Recorded (stmts ++ stmts') s'' where
  initialized id hid := by
    rcases h'.initialized id hid with hid | ⟨stmt, hmem, hinit⟩
    · exact (h.initialized id hid).imp_right fun ⟨stmt, hmem, hinit⟩ =>
        ⟨stmt, List.mem_append_left _ hmem, hinit⟩
    · exact .inr ⟨stmt, List.mem_append_right _ hmem, hinit⟩
  deferred_subset := List.Subset.trans h.deferred_subset h'.deferred_subset
  deferred d hd hinit := by
    rcases List.mem_append.mp hd with hd | hd
    · obtain ⟨b, hb, heq⟩ := h.deferred d hd hinit
      exact ⟨b, h'.deferred_subset hb, heq⟩
    · exact h'.deferred d hd hinit

/-- Analysing expressions leaves nothing on record. -/
theorem progress (h : s.Progress W s') : s.Recorded [] s' where
  initialized _ hid := .inl (h.path_eq ▸ hid)
  deferred_subset := h.deferred_eq ▸ List.Subset.refl _
  deferred _ hd := absurd hd List.not_mem_nil

/-- A statement that declares nothing leaves on record at least what it would have to. -/
theorem skip (h : s.Recorded [] s') {stmt : Stmt} (hlet : ∀ d, stmt ≠ .letStmt d) :
    s.Recorded [stmt] s' where
  initialized id hid := .inl ((h.initialized id hid).resolve_right (by simp))
  deferred_subset := h.deferred_subset
  deferred d hd := absurd (List.mem_singleton.mp hd).symm (hlet d)

theorem returned (s : AnalysisState) :
    s.Recorded [] { s with path := s.path.record .returned } where
  initialized _ hid := .inl (((Path.hasCertainly_record _ _ _).mp hid).resolve_left nofun)
  deferred_subset := List.Subset.refl _
  deferred _ hd := absurd hd List.not_mem_nil

theorem assign (s : AnalysisState) {stmt : AssignStmt} {id : VariableId} (hid : stmt.id? = some id) :
    s.Recorded [.assign stmt] { s with path := s.path.record (.initialized id) } where
  initialized id' hid' := by
    rcases (Path.hasCertainly_record _ _ _).mp hid' with heq | hold
    · obtain rfl := Incident.initialized.inj heq
      exact .inr ⟨_, List.mem_singleton_self _, hid⟩
    · exact .inl hold
  deferred_subset := List.Subset.refl _
  deferred d hd := nomatch List.mem_singleton.mp hd

theorem declaring (s : AnalysisState) {stmt : LetStmt} (t : Ty) {isDeferred : Bool}
    (hdeferred : isDeferred = stmt.init?.isNone) :
    s.Recorded [.letStmt { stmt with id? := some s.scope.count, resolved? := some t }]
      (s.declaring stmt t isDeferred) := by
  cases isDeferred with
  | true =>
      refine ⟨fun id hid => .inl hid, List.subset_append_left _ _, fun d hd _ => ?_⟩
      obtain rfl := Stmt.letStmt.inj (List.mem_singleton.mp hd)
      exact ⟨_, List.mem_append_right _ (List.mem_singleton_self _), rfl, rfl⟩
  | false =>
      have hinit : stmt.init?.isSome := by
        rw [← Option.not_isNone, ← hdeferred]
        rfl
      refine ⟨fun id hid => ?_, List.Subset.refl _, fun d hd hnone => ?_⟩
      · rcases (Path.hasCertainly_record _ _ _).mp hid with heq | hold
        · obtain rfl := Incident.initialized.inj heq
          exact .inr ⟨_, List.mem_singleton_self _, rfl, hinit⟩
        · exact .inl hold
      · obtain rfl := Stmt.letStmt.inj (List.mem_singleton.mp hd)
        simp [show stmt.init? = none from hnone] at hinit

end AnalysisState.Recorded

namespace Analysis

variable {env : Environment} {body : Body} {s s' : AnalysisState}

section Run

variable (hb : body.IsFresh)
include hb

theorem recorded_of_stmtRun {stmt stmt' : Stmt}
    (hslots : ∀ c ∈ stmt.slots, c ∈ body.stmts.flatMap Stmt.slots)
    (hs : s.body.arena.HoldsNodesOf body.arena) (hrun : StmtRun env s stmt stmt' s') :
    s.Recorded [stmt'] s' := by
  have hexpect {s s' : AnalysisState} {c : Slot} {t u : Ty} (hc : c ∈ stmt.slots)
      (hs : s.body.arena.HoldsNodesOf body.arena)
      (hrun : (expectType analyseExpr t c).runIn env s = (.ok u, s')) : s.Recorded [] s' := by
    have hwalks : WalksFrom _ env s (expectType analyseExpr t c) :=
      walksFrom_expectType hb hs (hslots c hc) t
    have hp := hwalks.progress
    rw [hrun] at hp
    exact .progress hp
  cases hrun with
  | @letDeferred stmt written t htype hinit hres =>
      exact .declaring s t (by simp [hinit])
  | @letTyped s₁ stmt written init t u htype hinit hres hvisit =>
      exact (hexpect (by simp [Stmt.slots, hinit]) hs hvisit).trans
        (.declaring s₁ t (by simp [hinit]))
  | @letInferred s₁ s₂ stmt init t u htype hinit hvisit hcomply =>
      have hwalks : WalksFrom _ env s (analyseExpr init none >>= fun t =>
          comply t { type := t.erased, policy := .preferSimple } init) :=
        walksFrom_letType_infer hb hs (hslots init (by simp [Stmt.slots, hinit]))
      have hp := hwalks.progress
      rw [runIn_bind_ok.mpr ⟨t, s₁, hvisit, hcomply⟩] at hp
      exact (Recorded.progress hp).trans (.declaring s₂ u (by simp [hinit]))
  | @assign s₁ stmt b t hfound hfirst hvisit =>
      have hresolved : s.Recorded [] { s with scope := (s.scope.resolve stmt.target.name).2 } :=
        .progress (W := fun _ => False) (.of_scope (Scope.extends_resolve _ _))
      exact (hresolved.trans (hexpect (by simp [Stmt.slots]) hs hvisit)).trans (.assign s₁ rfl)
  | @expr _ slot t hvisit =>
      have hwalks : WalksFrom _ env s (analyseExpr slot none) :=
        walksFrom_analyseExpr hb hs (hslots slot (by simp [Stmt.slots])) none
      have hp := hwalks.progress
      rw [hvisit] at hp
      exact (Recorded.progress hp).skip (by simp)
  | @retValue _ stmt value t hvalue hvisit =>
      exact ((Recorded.returned s).trans
        (hexpect (by simp [Stmt.slots, hvalue]) hs hvisit)).skip (by simp)
  | @retNothing stmt hvalue hret => exact (Recorded.returned s).skip (by simp)

theorem recorded_of_stmtsRun {stmts stmts' : List Stmt}
    (hslots : ∀ c ∈ stmts.flatMap Stmt.slots, c ∈ body.stmts.flatMap Stmt.slots)
    (hs : s.body.arena.HoldsNodesOf body.arena) (hrun : StmtsRun env body.arena s stmts stmts' s') :
    s.Recorded stmts' s' := by
  induction hrun with
  | nil s => exact .progress (W := fun _ => False) (.refl s)
  | @cons s s₁ s' stmt stmt' stmts stmts' run slots_eq untouched edits apart rest ih =>
      rw [List.flatMap_cons] at hslots
      have hslotsStmt (c : Slot) (hc : c ∈ stmt.slots) := hslots c (List.mem_append_left _ hc)
      have hroots := Arena.isRegion_reaches_any hb.inRange.arena
        fun c hc => hb.isForest.roots_lt c (hslotsStmt c hc)
      exact (recorded_of_stmtRun hb hslotsStmt hs run).trans
        (ih (fun c hc => hslots c (List.mem_append_right _ hc)) (hs.edits edits hroots.lt))

theorem exists_stmtRun_of_stmtsRun {stmts stmts' : List Stmt}
    (hslots : ∀ c ∈ stmts.flatMap Stmt.slots, c ∈ body.stmts.flatMap Stmt.slots)
    (hs : s.Numbered body.arena) (hrun : StmtsRun env body.arena s stmts stmts' s') :
    s'.Numbered body.arena ∧ s'.scope.names = s.scope.names.after stmts' ∧
    ∀ before stmt after, stmts' = before ++ stmt :: after →
      ∃ s₁ first s₂, s₁.scope.names = s.scope.names.after before ∧ StmtRun env s₁ first stmt s₂ := by
  induction hrun with
  | nil s => exact ⟨hs, rfl, by simp⟩
  | @cons s s₁ s' first first' stmts stmts' run slots_eq untouched _ apart rest ih =>
      rw [List.flatMap_cons] at hslots
      obtain ⟨hs₁, hnames, -⟩ := placed_of_stmtRun hb
        (fun c hc => hslots c (List.mem_append_left _ hc)) hs untouched run
      obtain ⟨hs', hend, hsplit⟩ := ih (fun c hc => hslots c (List.mem_append_right _ hc)) hs₁
      rw [hnames] at hend hsplit
      refine ⟨hs', hend, fun before stmt after heq => ?_⟩
      cases before with
      | nil =>
          obtain ⟨rfl, -⟩ : first' = stmt ∧ stmts' = after := by simpa using heq
          exact ⟨s, first, s₁, rfl, run⟩
      | cons first'' before =>
          obtain ⟨rfl, hrest⟩ : first' = first'' ∧ stmts' = before ++ stmt :: after := by
            simpa using heq
          exact hsplit before stmt after hrest

end Run

end Analysis

end Boxlang
