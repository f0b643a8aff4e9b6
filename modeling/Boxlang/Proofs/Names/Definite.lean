import Boxlang.Proofs.Invariants.Body
import Boxlang.Proofs.Names.Initialized

/-!
# Definite initialisation and single assignment

In a fresh body that is analysed without errors every name that is read stands for a
parameter, for a parameter of a closure around it, or for a variable that the
statements before have given a value.  An immutable variable without an initial value is
assigned to by exactly one statement, and nothing else that is immutable by any.

That the parameters of closures are none of the variables of the body does not follow
from what is in scope at a statement, since variables of later statements are not.  But
the numbers of variables only grow, so that it follows statement by statement
(`AnalysisState.Apart`).
-/

namespace Boxlang

open Analysis AnalysisState

/-! ### Parameters of closures -/

namespace ExprKind

@[simp]
theorem binders_withVariable (k : ExprKind) (id : VariableId) :
    (k.withVariable id).binders = k.binders := by
  cases k <;> rfl

@[simp]
theorem binders_withTarget (k : ExprKind) (id : FunctionId) : (k.withTarget id).binders = k.binders := by
  cases k <;> rfl

@[simp]
theorem binders_withGenericArguments (k : ExprKind) (types : List Ty) :
    (k.withGenericArguments types).binders = k.binders := by
  cases k <;> rfl

end ExprKind

/-- A typed node declares variables with numbers so far, and none of those taken. -/
def Expr.BindsApart (taken : List VariableId) (n : Nat) (_ : Slot) (e : Expr) : Prop :=
  e.type?.isSome → ∀ id ∈ e.kind.binders.ids, id < n ∧ id ∉ taken

/-- Closures that are analysed from now on have parameters with new numbers. -/
theorem nodeInvariant_bindsApart (V P : Ty → Prop) (G : Slot → Conversion → Prop) (a₀ : Arena)
    {taken : List VariableId} {m : Nat} (htaken : ∀ id ∈ taken, id < m) :
    NodeInvariant V P G a₀ m (Expr.BindsApart taken) := by
  have hnew {n : Nat} {id : VariableId} (hid : m ≤ id ∧ id < n) : id < n ∧ id ∉ taken :=
    ⟨hid.2, fun hmem => Nat.not_lt_of_le hid.1 (htaken id hmem)⟩
  constructor
  case mono => exact fun h hn ht id hid => ⟨Nat.lt_of_lt_of_le (h ht id hid).1 hn, (h ht id hid).2⟩
  case moved => exact fun h _ => h
  case conversion => exact fun _ _ _ _ id hid => by simp [ExprKind.binders, Names.ids] at hid
  case withVariable => exact fun id h => by simpa [Expr.BindsApart] using h
  case withTarget => exact fun id h => by simpa [Expr.BindsApart] using h
  case withGenericArguments => exact fun _ h => by simpa [Expr.BindsApart] using h
  case withClosureVariables =>
    exact fun captures hids _ _ id hid =>
      hnew (hids id (ExprKind.mem_of_mem_binders_withClosureVariables hid))
  case withType =>
    intro n x e t hclosure _ _ _ id hid
    cases hkind : e.kind with
    | closure literal =>
        rw [hkind] at hid
        exact hnew (hclosure literal hkind id hid)
    | _ => simp [hkind, ExprKind.binders, Names.ids] at hid

/-- No closure that is analysed has a parameter with the number of a variable in scope. -/
abbrev AnalysisState.Apart (a₀ : Arena) (s : AnalysisState) : Prop :=
  s.Respects (fun _ => True) (Expr.BindsApart s.scope.names.ids) s.scope.count a₀

namespace Analysis

variable {env : Environment} {body : Body} {s s' : AnalysisState}

section Run

variable (hb : body.IsFresh)
include hb

theorem apart_start (f : Signature) (reports : List Report) :
    (AnalysisState.start f body reports).Apart body.arena := by
  refine .start (fun _ _ _ => trivial) (fun _ _ => trivial) (fun slot htyped => ?_) reports
  simp [hb.type?_eq_none] at htyped

/-- A variable is declared with a number that no closure so far has used. -/
theorem apart_of_stmtRun {stmt stmt' : Stmt} (hstmt : stmt ∈ body.stmts) (hs : s.Apart body.arena)
    (hnumbered : s.Numbered body.arena) (hrun : StmtRun env s stmt stmt' s')
    (hnames : s'.scope.names = stmt'.binders ++ s.scope.names) : s'.Apart body.arena := by
  have hbody : body.Denotes env (fun _ => True) fun _ => True :=
    ⟨fun _ _ _ _ _ _ => trivial, fun _ _ _ _ _ _ => trivial, fun _ _ _ _ _ _ => trivial⟩
  obtain ⟨hrespects, s₁, hs₁, harena, hlet⟩ := respects_of_stmtRun (.trivial env) (.trivial env _)
    (nodeInvariant_bindsApart _ _ _ _ hnumbered.ids_lt) hbody hb (fun _ _ _ _ => ⟨trivial, trivial⟩)
    hstmt hs hrun
  refine { hrespects with kept := fun slot htyped id hid => ?_, least := Nat.le_refl _ }
  obtain ⟨hlt, hold⟩ := hrespects.kept slot htyped id hid
  refine ⟨hlt, fun hmem => ?_⟩
  rw [hnames, Names.ids_append] at hmem
  refine (List.mem_append.mp hmem).elim (fun hbinds => ?_) hold
  cases stmt' with
  | letStmt d =>
      obtain rfl : id = s₁.scope.count := by simpa [Stmt.binders, hlet d rfl, Names.ids] using hbinds
      rw [harena] at htyped hid
      exact Nat.lt_irrefl _ (hs₁.kept slot htyped _ hid).1
  | _ => simp [Stmt.binders, Names.ids] at hbinds

theorem apart_of_stmtsRun {stmts stmts' : List Stmt} (hstmts : ∀ stmt ∈ stmts, stmt ∈ body.stmts)
    (hs : s.Apart body.arena) (hnumbered : s.Numbered body.arena)
    (hrun : StmtsRun env body.arena s stmts stmts' s') : s'.Apart body.arena := by
  induction hrun with
  | nil => exact hs
  | @cons s s₁ s' stmt stmt' stmts stmts' run _ untouched _ _ _ ih =>
      obtain ⟨hstmt, hrest⟩ := List.forall_mem_cons.mp hstmts
      have hslots (c : Slot) (hc : c ∈ stmt.slots) : c ∈ body.stmts.flatMap Stmt.slots :=
        List.mem_flatMap.mpr ⟨stmt, hstmt, hc⟩
      obtain ⟨hnumbered₁, hnames, -⟩ := placed_of_stmtRun hb hslots hnumbered untouched run
      exact ih hrest (apart_of_stmtRun hb hstmt hs hnumbered run hnames) hnumbered₁

end Run

end Analysis

/-! ### What is in scope within a statement -/

namespace Arena

variable {a : Arena} {names inner seen : Names} {root slot : Slot}

/-- Names around an expression are in scope everywhere in it. -/
theorem Sees.append (h : a.Sees [] root inner slot) (names : Names) :
    a.Sees names root (inner ++ names) slot := by
  induction h with
  | root => exact .root
  | operand _ hc ih =>
      rw [List.append_assoc]
      exact ih.operand hc

/-- What an expression itself brings into scope are parameters of typed closures in it. -/
theorem exists_of_mem_ids {p : Package} {Γ : Context} {id : VariableId} (h : a.Sees [] root inner slot)
    (he : Elaborated p a Γ root) (hid : id ∈ inner.ids) :
    ∃ x, (a.get x).type?.isSome ∧ id ∈ (a.get x).kind.binders.ids := by
  induction h with
  | root => simp [Names.ids] at hid
  | @operand seen x c hx _ ih =>
      rw [Names.ids_append, List.mem_append] at hid
      refine hid.elim (fun hid => ⟨x, ?_, hid⟩) ih
      obtain ⟨Δ, -, hΔ, -⟩ := he.of_sees hx
      rw [hΔ.nodeOk.typed]
      rfl

end Arena

theorem Names.mem_ids_after {names : Names} {stmts : List Stmt} {d : LetStmt} {id : VariableId}
    (hd : .letStmt d ∈ stmts) (hid : d.id? = some id) : id ∈ (names.after stmts).ids := by
  have hkept (stmts : List Stmt) (names : Names) (h : id ∈ names.ids) :
      id ∈ (names.after stmts).ids := by
    induction stmts generalizing names with
    | nil => exact h
    | cons stmt stmts ih =>
        have hnext : id ∈ (stmt.binders ++ names).ids := by
          rw [Names.ids_append]
          exact List.mem_append_right _ h
        exact ih _ hnext
  obtain ⟨before, after, rfl⟩ := List.append_of_mem hd
  have hdeclared : id ∈ (Stmt.binders (.letStmt d) ++ names.after before).ids := by
    rw [Names.ids_append]
    exact List.mem_append_left _ (by simp [Stmt.binders, hid, Names.ids])
  rw [Names.after, List.foldl_append]
  exact hkept after _ hdeclared

/-! ### Values of variables -/

theorem Stmt.assigns_iff {stmt : Stmt} {id : VariableId} :
    stmt.assigns id = true ↔ ∃ a, stmt = .assign a ∧ a.id? = some id := by
  cases stmt <;> simp [Stmt.assigns]

/--
Whether a variable of a function has a value after some statements: it is a parameter,
it was declared with a value, or it was assigned to.
-/
def Signature.HasValueAfter (f : Signature) (before : List Stmt) (id : VariableId) : Prop :=
  id < f.params.length ∨
    ∃ d, .letStmt d ∈ before ∧ d.id? = some id ∧
      (d.init?.isSome ∨ ∃ a, .assign a ∈ before ∧ a.id? = some id)

namespace Locals

variable {f : Signature} {before : List Stmt} {L : Locals} {id : VariableId}

theorem After.hasValueAfter (h : L.After f before) {t : Ty} (hid : L.context id t) :
    f.HasValueAfter before id := by
  obtain ⟨v, hv, -, hvalue⟩ := hid
  cases h.origin id v hv with
  | param hlt _ _ _ => exact .inl hlt
  | @binding d mem id_eq _ _ _ hasValue _ =>
      refine .inr ⟨d, mem, id_eq, (hasValue.mp hvalue).imp_right fun hcount => ?_⟩
      obtain ⟨stmt, hmem, hassigns⟩ := List.countP_pos_iff.mp hcount
      obtain ⟨a, rfl, ha⟩ := Stmt.assigns_iff.mp hassigns
      exact ⟨a, hmem, ha⟩

theorem After.countP_param (h : L.After f before) (hid : id < f.params.length) :
    before.countP (Stmt.assigns id) = 0 := by
  cases hv : L id with
  | none => exact (h.unknown id hv).2
  | some v =>
      cases h.origin id v hv with
      | param _ _ _ hcount => exact hcount
      | binding _ _ hge _ _ _ _ => exact absurd hid (Nat.not_lt_of_le hge)

/-- Immutable variables are assigned to at most once, and never if they have an initial value. -/
theorem After.countP_le (h : L.After f before) {d : LetStmt} (hd : .letStmt d ∈ before)
    (hid : d.id? = some id) (himmutable : d.isMutable = false) :
    before.countP (Stmt.assigns id) ≤ d.init?.isNone.toNat := by
  obtain ⟨id', v, hid', hge, hv⟩ := h.declared d hd
  obtain rfl := Option.some.inj (hid'.symm.trans hid)
  have horigin := h.origin _ v hv
  cases horigin with
  | param hlt _ _ _ => exact absurd hlt (Nat.not_lt_of_le hge)
  | binding _ _ _ unique _ _ once =>
      obtain rfl := unique d hd hid
      exact once himmutable

/-- Distinct declarations declare distinct variables. -/
theorem After.unique (h : L.After f before) {d d' : LetStmt} (hd : .letStmt d ∈ before)
    (hd' : .letStmt d' ∈ before) (hid : d.id? = some id) (hid' : d'.id? = some id) : d' = d := by
  obtain ⟨id', v, hid₁, hge, hv⟩ := h.declared d hd
  obtain rfl := Option.some.inj (hid₁.symm.trans hid)
  cases h.origin id' v hv with
  | param hlt _ _ _ => exact absurd hlt (Nat.not_lt_of_le hge)
  | binding _ _ _ unique _ _ _ => exact (unique d' hd' hid').trans (unique d hd hid).symm

end Locals

/-- A statement that assigns does so to a variable declared before that takes the value. -/
theorem StmtOk.assignable {p : Package} {ret : Ty} {a : Arena} {f : Signature} {L L' : Locals}
    {before : List Stmt} {stmt : AssignStmt} (h : StmtOk p ret a L (.assign stmt) L')
    (hL : L.After f before) :
    ∃ id d, stmt.id? = some id ∧ .letStmt d ∈ before ∧ d.id? = some id ∧
      (d.isMutable = true ∨ d.init? = none) := by
  cases h with
  | @assign _ id v hid hv hfirst _ _ =>
      cases hL.origin id v hv with
      | param _ hvalue himmutable _ => simp [hvalue, himmutable] at hfirst
      | @binding d mem id_eq _ _ isMutable_eq hasValue _ =>
          refine ⟨id, d, hid, mem, id_eq, hfirst.imp (isMutable_eq ▸ ·) fun hnone => ?_⟩
          rw [← Option.not_isSome_iff_eq_none]
          exact fun hinit => by simp [hasValue.mpr (.inl hinit)] at hnone

/-- A name in a statement stands for its innermost declaration, and that has a value there. -/
theorem StmtOk.reads {p : Package} {ret : Ty} {a : Arena} {f : Signature} {L L' : Locals}
    {before : List Stmt} {stmt : Stmt} (h : StmtOk p ret a L stmt L') (hL : L.After f before)
    {names : Names} {root slot : Slot} (hroot : root ∈ stmt.slots) (hscoped : a.Scoped names root)
    (hreach : a.Reaches root slot) {name : Ident} {id? : Option VariableId}
    (hkind : (a.get slot).kind = .localRef name id?) :
    ∃ inner id, a.Sees [] root inner slot ∧ id? = some id ∧
      (inner ++ names).lookup name.name = some id ∧
      (id ∈ inner.ids ∨ f.HasValueAfter before id) := by
  have he := h.elaborated root hroot
  obtain ⟨inner, hinner⟩ := Arena.exists_sees_of_reaches [] hreach
  have hsees := hinner.append names
  obtain ⟨Δ, inner', hΔ, happend, hsub⟩ := he.of_sees hsees
  obtain rfl : inner = inner' := List.append_cancel_right happend
  have htyped : (a.get slot).type?.isSome := by rw [hΔ.nodeOk.typed]; rfl
  obtain ⟨id, rfl, hlookup⟩ := ((hscoped.of_sees hsees).node htyped).2 name id? hkind
  refine ⟨inner, id, hinner, rfl, hlookup, ?_⟩
  have hlocal := hΔ.nodeOk.form
  rw [hkind] at hlocal
  generalize a.typeAt slot = t at hlocal
  cases hlocal with
  | localRef ht => exact (hsub id t ht).imp_right hL.hasValueAfter

theorem AnalysisState.Recorded.countP_pos {f : Signature} {body : Body} {reports : List Report}
    {s' : AnalysisState} {stmts : List Stmt} {L : Locals}
    (h : (AnalysisState.start f body reports).Recorded stmts s') (hL : L.After f stmts)
    (hmissing : s'.uninitialized = []) {d : LetStmt} (hd : .letStmt d ∈ stmts)
    (himmutable : d.isMutable = false) (hinit : d.init? = none) {id : VariableId}
    (hid : d.id? = some id) : 0 < stmts.countP (Stmt.assigns id) := by
  obtain ⟨b, hb, hbid, hbmutable⟩ := h.deferred d hd hinit
  obtain rfl := Option.some.inj (hid.symm.trans hbid)
  have hcertain : s'.path.hasCertainly (.initialized b.id) = true := by
    have := List.filter_eq_nil_iff.mp hmissing b hb
    simpa [hbmutable, himmutable] using this
  obtain ⟨stmt, hstmt, hgives⟩ := (h.initialized b.id hcertain).resolve_left
    (by simp [AnalysisState.start, Path.hasCertainly])
  refine List.countP_pos_iff.mpr ⟨stmt, hstmt, ?_⟩
  cases stmt with
  | letStmt d' =>
      obtain rfl := hL.unique hd hstmt hid hgives.1
      exact absurd hgives.2 (by simp [hinit])
  | assign a => exact Stmt.assigns_iff.mpr ⟨a, rfl, hgives⟩
  | _ => exact hgives.elim

/-! ### Bodies -/

/-- How the variables of an analysed body of a function get their values and are read. -/
structure Body.DefinitelyInitialized (f : Signature) (body : Body) : Prop where
  /-- Every declaration has a number, and distinct ones have distinct numbers. -/
  numbered : (∀ stmt ∈ body.stmts, stmt.IsNumbered) ∧ (f.names.after body.stmts).ids.Nodup
  /--
  A name that is read stands for its innermost declaration, which is a parameter of a closure
  around it or a variable that has a value before the statement.
  -/
  read : ∀ before stmt after, body.stmts = before ++ stmt :: after → ∀ root ∈ stmt.slots,
    ∀ slot, body.arena.Reaches root slot →
      ∀ name id?, (body.arena.get slot).kind = .localRef name id? →
        ∃ inner id, body.arena.Sees [] root inner slot ∧ id? = some id ∧
          (inner ++ f.names.after before).lookup name.name = some id ∧
          (id ∈ inner.ids ∨ f.HasValueAfter before id)
  /-- An assignment is to the innermost variable of a name, which was declared before. -/
  assigned : ∀ before stmt after, body.stmts = before ++ .assign stmt :: after →
    ∃ id d, stmt.id? = some id ∧ (f.names.after before).lookup stmt.target.name = some id ∧
      .letStmt d ∈ before ∧ d.id? = some id ∧ (d.isMutable = true ∨ d.init? = none)
  /-- An immutable variable that is declared without a value is assigned to exactly once. -/
  deferred : ∀ d, .letStmt d ∈ body.stmts → d.isMutable = false → d.init? = none →
    ∀ id, d.id? = some id → body.stmts.countP (Stmt.assigns id) = 1
  /-- An immutable variable that is declared with a value is not assigned to. -/
  initialized : ∀ d, .letStmt d ∈ body.stmts → d.isMutable = false → d.init?.isSome →
    ∀ id, d.id? = some id → body.stmts.countP (Stmt.assigns id) = 0
  /-- Parameters are not assigned to. -/
  params : ∀ id < f.params.length, body.stmts.countP (Stmt.assigns id) = 0
  /-- Parameters of closures are no variables of the body, and are not assigned to. -/
  closureParams : ∀ stmt ∈ body.stmts, ∀ root ∈ stmt.slots, ∀ inner slot,
    body.arena.Sees [] root inner slot → ∀ id ∈ inner.ids,
      id ∉ (f.names.after body.stmts).ids ∧ body.stmts.countP (Stmt.assigns id) = 0

/--
In a fresh body analysed without errors, variables are read only where they have a value,
and immutable ones get their value once.
-/
theorem definitelyInitialized_of_analysesCleanly (p : Package) (warnDeprecated : Bool)
    (reports : List Report) (definition : Definition) (hp : p.ErrorFree)
    (hf : definition.function < p.functions.length) (hb : definition.body.IsFresh)
    (hclean : p.AnalysesCleanly warnDeprecated reports definition) :
    (p.analyseDefinition warnDeprecated reports definition).1.body.DefinitelyInitialized
      (p.signature definition.function) := by
  let f := p.signature definition.function
  let body := (p.analyseDefinition warnDeprecated reports definition).1.body
  let s := AnalysisState.start f definition.body reports
  have hstmts := (elaboratedFrom_analyseDefinition hp warnDeprecated reports hf hb hclean).stmts
  obtain ⟨hsplit, L, hend⟩ := hstmts.locals_after (.start f)
  obtain ⟨s', hrun, harena, hmissing⟩ := hclean.exists_stmtsRun_initialized hb
  have hstart : s.Numbered definition.body.arena := .start f definition.body reports
  have hnames : s.scope.names = f.names := names_ofSignature f
  obtain ⟨hnumbered, hscope, hruns⟩ := exists_stmtRun_of_stmtsRun hb (fun c hc => hc) hstart hrun
  rw [hnames] at hscope hruns
  have hrecorded := recorded_of_stmtsRun hb (fun c hc => hc) (.refl _) hrun
  have hapart := apart_of_stmtsRun hb (fun _ h => h) (apart_start hb f reports) hstart hrun
  have hassigned (before : List Stmt) (stmt : AssignStmt) (after : List Stmt)
      (heq : body.stmts = before ++ .assign stmt :: after) :
      ∃ id d, stmt.id? = some id ∧ (f.names.after before).lookup stmt.target.name = some id ∧
        .letStmt d ∈ before ∧ d.id? = some id ∧ (d.isMutable = true ∨ d.init? = none) := by
    obtain ⟨L₁, L₂, hL₁, hok⟩ := hsplit before _ after heq
    obtain ⟨id, d, hid, hd, hdid, hfirst⟩ := hok.assignable hL₁
    obtain ⟨s₁, first, s₂, hs₁, hrun₁⟩ := hruns before _ after heq
    refine ⟨id, d, hid, ?_, hd, hdid, hfirst⟩
    cases hrun₁ with
    | assign hfound _ _ =>
        rw [← hid, ← hs₁]
        exact Scope.lookup_names_of_resolve hfound
  constructor
  case numbered => exact ⟨hstmts.isNumbered, hscope ▸ hnumbered.ids_nodup⟩
  case read =>
    intro before stmt after heq root hroot slot hreach name id? hkind
    obtain ⟨L₁, L₂, hL₁, hok⟩ := hsplit before stmt after heq
    have hscoped : body.arena.Scoped (f.names.after before) root := by
      have h := scoped_of_stmtsRun hb (fun c hc => hc) hstart hrun heq root hroot
      rwa [harena, hnames] at h
    exact hok.reads hL₁ hroot hscoped hreach hkind
  case assigned => exact hassigned
  case deferred =>
    intro d hd himmutable hinit id hid
    have hle := hend.countP_le hd hid himmutable
    exact Nat.le_antisymm (by simpa [hinit] using hle)
      (hrecorded.countP_pos hend hmissing hd himmutable hinit hid)
  case initialized =>
    intro d hd himmutable hinit id hid
    have hle := hend.countP_le hd hid himmutable
    have hnone : d.init?.isNone = false := by simpa using hinit
    rw [hnone] at hle
    exact Nat.le_zero.mp hle
  case params => exact fun id hid => hend.countP_param hid
  case closureParams =>
    intro stmt hstmt root hroot inner slot hsees id hid
    obtain ⟨Γ, he⟩ := hstmts.elaborated root (List.mem_flatMap.mpr ⟨stmt, hstmt, hroot⟩)
    obtain ⟨x, htyped, hx⟩ := Arena.exists_of_mem_ids hsees he hid
    rw [← harena] at htyped hx
    have hnot : id ∉ (f.names.after body.stmts).ids := hscope ▸ (hapart.kept x htyped id hx).2
    refine ⟨hnot, List.countP_eq_zero.mpr fun stmt hstmt hassigns => hnot ?_⟩
    obtain ⟨a, rfl, ha⟩ := Stmt.assigns_iff.mp hassigns
    obtain ⟨before, after, heq⟩ := List.append_of_mem hstmt
    obtain ⟨id', d, hid', -, hd, hdid, -⟩ := hassigned before a after heq
    obtain rfl := Option.some.inj (hid'.symm.trans ha)
    exact Names.mem_ids_after (heq ▸ List.mem_append_left _ hd) hdid

/--
The body `let w: Int; w = x; let f = (y: Int) => add(w, y); let w = w; w` of a function
of `x` and `z`, in which the second `w` is another variable than the first.
-/
def shadowedDeferred : Definition where
  function := 1
  body :=
    let int (start : Nat) := WrittenType.named ⟨start, 3⟩ "Int" []
    { arena := { nodes := #[
        { span := ⟨15, 1⟩, kind := .localRef ⟨"x", ⟨15, 1⟩⟩ none },
        { span := ⟨41, 1⟩, kind := .localRef ⟨"w", ⟨41, 1⟩⟩ none },
        { span := ⟨44, 1⟩, kind := .localRef ⟨"y", ⟨44, 1⟩⟩ none },
        { span := ⟨37, 9⟩, kind := .call ⟨"add", ⟨37, 3⟩⟩ { span := ⟨40, 6⟩, args := [1, 2] } none },
        { span := ⟨25, 21⟩, kind := .closure {
            params := [{ name := ⟨"y", ⟨26, 1⟩⟩, type := int 29 }], ret := int 29, body := 3 } },
        { span := ⟨55, 1⟩, kind := .localRef ⟨"w", ⟨55, 1⟩⟩ none },
        { span := ⟨57, 1⟩, kind := .localRef ⟨"w", ⟨57, 1⟩⟩ none }] }
      stmts := [
        .letStmt {
          span := ⟨0, 10⟩, name := ⟨"w", ⟨4, 1⟩⟩, isMutable := false, type? := some (int 7)
          init? := none },
        .assign { span := ⟨11, 5⟩, target := ⟨"w", ⟨11, 1⟩⟩, value := 0 },
        .letStmt {
          span := ⟨17, 29⟩, name := ⟨"f", ⟨21, 1⟩⟩, isMutable := false, type? := none
          init? := some 4 },
        .letStmt {
          span := ⟨47, 9⟩, name := ⟨"w", ⟨51, 1⟩⟩, isMutable := false, type? := none
          init? := some 5 },
        .expr 6] }

theorem isFresh_shadowedDeferred : shadowedDeferred.body.IsFresh := by
  decide

/-- The first `w` has the number 2, and the second one, after `y` and `f`, the number 5. -/
theorem binders_shadowedDeferred :
    let body := (addPackage.analyseDefinition true [] shadowedDeferred).1.body
    body.stmts.flatMap (·.binders) = [("w", 2), ("f", 4), ("w", 5)] ∧
      (body.stmts.any fun
        | .letStmt d => !d.isMutable && d.init?.isNone && d.id? == some 2
        | _ => false) = true := by
  decide +kernel

theorem definitelyInitialized_shadowedDeferred :
    addPackage.ErrorFree ∧ shadowedDeferred.function < addPackage.functions.length ∧
      shadowedDeferred.body.IsFresh ∧ addPackage.AnalysesCleanly true [] shadowedDeferred ∧
      let body := (addPackage.analyseDefinition true [] shadowedDeferred).1.body
      body.DefinitelyInitialized (addPackage.signature 1) ∧
        body.stmts.flatMap (·.binders) = [("w", 2), ("f", 4), ("w", 5)] ∧
        body.stmts.countP (Stmt.assigns 2) = 1 := by
  have hclean : addPackage.AnalysesCleanly true [] shadowedDeferred := by decide +kernel
  refine ⟨errorFree_addPackage, by decide, isFresh_shadowedDeferred, hclean, ?_⟩
  intro body
  have h := definitelyInitialized_of_analysesCleanly addPackage true [] shadowedDeferred
    errorFree_addPackage (by decide) isFresh_shadowedDeferred hclean
  obtain ⟨hbinders, hdeferred⟩ := binders_shadowedDeferred
  refine ⟨h, hbinders, ?_⟩
  obtain ⟨stmt, hmem, hstmt⟩ := List.any_eq_true.mp hdeferred
  cases stmt with
  | letStmt d =>
      obtain ⟨⟨himmutable, hinit⟩, hid⟩ : (d.isMutable = false ∧ d.init? = none) ∧ d.id? = some 2 := by
        simpa using hstmt
      exact h.deferred d hmem himmutable hinit 2 hid
  | _ => cases hstmt

end Boxlang
