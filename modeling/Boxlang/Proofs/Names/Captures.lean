import Boxlang.Proofs.Elaboration.Complete
import Boxlang.Proofs.Names.Body

/-!
# Closures capture their free variables

In a fresh body that is analysed without errors, every name stands for its innermost
declaration, and every closure captures exactly the variables that are in scope where
it stands and are read inside of it.
-/

namespace Boxlang

variable {p : Package} {a : Arena} {Γ : Context} {names seen : Names} {root slot : Slot}

/-! ### What is in scope at a node -/

/-- Parameters of closures are in scope, with numbers that are not in use around them. -/
theorem Context.under_ids {kind : ExprKind} {t : Ty} {id : VariableId} {u : Ty}
    (h : Γ.under kind t id u) : id ∈ kind.binders.ids ∨ Γ id u := by
  unfold Context.under at h
  split at h
  · exact h.imp_left fun hmem => Closure.mem_ids_binders.mpr (List.of_mem_zip hmem).1
  · exact .inr h

/--
Inside an elaborated expression, more is in scope than at its root, and what may be read
is what may be read at the root and what is in scope beyond that.
-/
theorem Elaborated.of_sees (h : Elaborated p a Γ root) (hx : a.Sees names root seen slot) :
    ∃ Δ inner, Elaborated p a Δ slot ∧ seen = inner ++ names ∧
      ∀ id t, Δ id t → id ∈ inner.ids ∨ Γ id t := by
  induction hx with
  | root => exact ⟨Γ, [], h, rfl, fun id t ht => .inr ht⟩
  | @operand seen slot c _ hc ih =>
      obtain ⟨Δ, inner, hΔ, rfl, hsub⟩ := ih
      refine ⟨_, (a.get slot).kind.binders ++ inner, hΔ.operands c hc, by simp, fun id t ht => ?_⟩
      rw [Names.ids_append, List.mem_append]
      rcases Context.under_ids ht with hmem | hold
      · exact .inl (.inl hmem)
      · exact (hsub id t hold).imp_left .inr

/-- Distinct declarations in scope at an elaborated node declare distinct variables. -/
theorem Arena.Scoped.nodup (h : a.Scoped names slot) (he : Elaborated p a Γ slot) :
    names.ids.Nodup :=
  (h.node (by rw [he.nodeOk.typed]; rfl)).1

section Closure

variable {literal : Closure} (he : Elaborated p a Γ slot) (hs : a.Scoped names slot)
  (hkind : (a.get slot).kind = .closure literal)
include he hs hkind

/-- The parameters of a closure have numbers, which nothing around it has. -/
theorem exists_id_of_mem_params :
    ∀ q ∈ literal.params, ∃ id, q.id? = some id ∧ id ∉ names.ids := by
  intro q hq
  have hmem : literal.body ∈ (a.get slot).kind.operands := by simp [hkind, ExprKind.operands]
  have hform := he.nodeOk.form
  rw [hkind] at hform
  obtain ⟨id, hid⟩ : ∃ id, q.id? = some id := by
    generalize a.typeAt slot = t at hform
    cases hform with
    | closure hids =>
        have hq' := List.mem_map_of_mem (f := (·.id?)) hq
        rw [hids] at hq'
        obtain ⟨id, -, heq⟩ := List.mem_map.mp hq'
        exact ⟨id, heq.symm⟩
  refine ⟨id, hid, fun hin => ?_⟩
  have hnodup := (hs.operands _ hmem).nodup (he.operands _ hmem)
  rw [Names.ids_append, List.nodup_append, hkind] at hnodup
  refine hnodup.2.2 id (Closure.mem_ids_binders.mpr ?_) id hin rfl
  exact List.mem_filterMap.mpr ⟨q, hq, hid⟩

/-- A closure captures what is in scope around it and read inside. -/
theorem mem_captures_iff (hΓ : ∀ id t, Γ id t → id ∈ names.ids) :
    literal.captures.Nodup ∧
      ∀ id, id ∈ literal.captures ↔ a.Reads literal.body id ∧ id ∈ names.ids := by
  have hmem : literal.body ∈ (a.get slot).kind.operands := by simp [hkind, ExprKind.operands]
  have hform := he.nodeOk.form
  rw [hkind] at hform
  generalize a.typeAt slot = t at hform
  cases hform with
  | closure _ _ _ _ hnodup hread hcaptured _ =>
      refine ⟨hnodup, fun id => ⟨fun hid => ?_, fun hid => ?_⟩⟩
      · obtain ⟨⟨u, hu⟩, hreads⟩ := hread id hid
        exact ⟨hreads, hΓ id u hu⟩
      · obtain ⟨⟨x, name, hx, hk⟩, hin⟩ := hid
        obtain ⟨seen, hsees⟩ := Arena.exists_sees_of_reaches names
          (Arena.Reaches.head hmem hx)
        obtain ⟨Δ, inner, hΔ, rfl, hsub⟩ := he.of_sees hsees
        have hlocal := hΔ.nodeOk.form
        rw [hk] at hlocal
        generalize a.typeAt x = u at hlocal
        cases hlocal with
        | localRef hu =>
            -- What is declared between the closure and the name has another number.
            rcases hsub id u hu with hinner | hold
            · have hnodup := (hs.of_sees hsees).nodup hΔ
              rw [Names.ids_append, List.nodup_append] at hnodup
              exact absurd rfl (hnodup.2.2 id hinner id hin)
            · exact hcaptured id u hold ⟨x, name, hx, hk⟩

end Closure

/-! ### Bodies -/

/--
In a fresh body analysed without errors, distinct declarations in scope at a node
declare distinct variables, every name stands for its innermost declaration, and a
closure captures, once each, exactly the variables in scope around it that are read
inside; the parameters of the closure and of those in it are none of them.
-/
theorem mem_captures_iff_of_analysesCleanly (p : Package) (warnDeprecated : Bool)
    (reports : List Report) (definition : Definition) (hp : p.ErrorFree)
    (hf : definition.function < p.functions.length) (hb : definition.body.IsFresh)
    (hclean : p.AnalysesCleanly warnDeprecated reports definition) :
    let f := p.signature definition.function
    let body := (p.analyseDefinition warnDeprecated reports definition).1.body
    ∀ before stmt after, body.stmts = before ++ stmt :: after → ∀ root ∈ stmt.slots,
      let names := f.names.after before
      (∀ s ∈ before, s.IsNumbered) ∧
      (∀ slot, body.arena.Reaches root slot → ∃ seen, body.arena.Sees names root seen slot) ∧
      ∀ seen slot, body.arena.Sees names root seen slot →
        seen.ids.Nodup ∧
        (∀ name id?, (body.arena.get slot).kind = .localRef name id? →
          ∃ id, id? = some id ∧ seen.lookup name.name = some id) ∧
        ∀ literal, (body.arena.get slot).kind = .closure literal →
          literal.captures.Nodup ∧
          (∀ id, id ∈ literal.captures ↔ body.arena.Reads literal.body id ∧ id ∈ seen.ids) ∧
          ∀ x inner, body.arena.Reaches slot x → (body.arena.get x).kind = .closure inner →
            ∀ q ∈ inner.params, ∃ id, q.id? = some id ∧ id ∉ seen.ids ∧ id ∉ literal.captures := by
  intro f body before stmt after hsplit root hroot names
  have helaborated := elaboratedFrom_analyseDefinition hp warnDeprecated reports hf hb hclean
  obtain ⟨s', hrun, harena⟩ := hclean.exists_stmtsRun hb
  have hscoped : body.arena.Scoped names root := by
    have h := Analysis.scoped_of_stmtsRun hb (fun c hc => hc) (.start f definition.body reports) hrun
      hsplit root hroot
    rwa [harena, show (AnalysisState.start f definition.body reports).scope.names = f.names from
      names_ofSignature f] at h
  have hparams (id : VariableId) (v : Variable) (hv : Locals.ofSignature f id = some v) :
      id ∈ f.names.ids := by
    obtain ⟨param, hparam, -⟩ := Option.map_eq_some_iff.mp hv
    rw [ids_names, List.mem_reverse]
    exact List.mem_range'_1.mpr ⟨Nat.zero_le id, by
      simpa using (List.getElem?_eq_some_iff.mp hparam).1⟩
  obtain ⟨Γ, he, hΓ⟩ := helaborated.stmts.exists_elaborated hparams hsplit hroot
  refine ⟨fun s hs => helaborated.stmts.isNumbered s (by rw [hsplit]; simp [hs]),
    fun slot => Arena.exists_sees_of_reaches names, fun seen slot hsees => ?_⟩
  obtain ⟨Δ, inner, hΔ, rfl, hsub⟩ := he.of_sees hsees
  have hseen := hscoped.of_sees hsees
  have htyped : (body.arena.get slot).type?.isSome := by rw [hΔ.nodeOk.typed]; rfl
  refine ⟨hseen.nodup hΔ, (hseen.node htyped).2, fun literal hkind => ?_⟩
  have hin (id : VariableId) (t : Ty) (ht : Δ id t) : id ∈ (inner ++ names).ids := by
    rw [Names.ids_append, List.mem_append]
    exact (hsub id t ht).imp_right (hΓ id t)
  obtain ⟨hnodup, hcaptures⟩ := mem_captures_iff hΔ hseen hkind hin
  refine ⟨hnodup, hcaptures, fun x innerLiteral hx hkind' q hq => ?_⟩
  obtain ⟨seen', hsees'⟩ := Arena.exists_sees_of_reaches (inner ++ names) hx
  obtain ⟨Δ', inner', hΔ', rfl, -⟩ := hΔ.of_sees hsees'
  obtain ⟨id, hid, hnot⟩ := exists_id_of_mem_params hΔ' (hseen.of_sees hsees') hkind' q hq
  have hout : id ∉ (inner ++ names).ids := fun h => hnot (by
    rw [Names.ids_append]
    exact List.mem_append_right _ h)
  exact ⟨id, hid, hout, fun h => hout ((hcaptures id).mp h).2⟩

/-- A package of `add` and a function that uses it. -/
def addPackage : Package where
  functions := [
    { name := "add", params := [⟨"a", .int⟩, ⟨"b", .int⟩], ret := .int },
    { name := "main", params := [⟨"x", .int⟩, ⟨"z", .int⟩] }]

/-- The body `let f = (x: Int) => (y: Int) => add(x, z)` of a function of `x` and `z`. -/
def nestedClosures : Definition where
  function := 1
  body :=
    let int := WrittenType.named ⟨0, 3⟩ "Int" []
    { arena := { nodes := #[
        { span := ⟨34, 1⟩, kind := .localRef ⟨"x", ⟨34, 1⟩⟩ none },
        { span := ⟨37, 1⟩, kind := .localRef ⟨"z", ⟨37, 1⟩⟩ none },
        { span := ⟨30, 9⟩, kind := .call ⟨"add", ⟨30, 3⟩⟩ { span := ⟨33, 6⟩, args := [0, 1] } none },
        { span := ⟨20, 19⟩, kind := .closure {
            params := [{ name := ⟨"y", ⟨21, 1⟩⟩, type := int }], ret := int, body := 2 } },
        { span := ⟨8, 31⟩, kind := .closure {
            params := [{ name := ⟨"x", ⟨9, 1⟩⟩, type := int }]
            ret := .callable ⟨20, 19⟩ [int] int, body := 3 } }] }
      stmts := [.letStmt {
        span := ⟨0, 39⟩, name := ⟨"f", ⟨4, 1⟩⟩, isMutable := false, type? := none
        init? := some 4 }] }

theorem isFresh_nestedClosures : nestedClosures.body.IsFresh := by
  decide

theorem errorFree_addPackage : addPackage.ErrorFree := by
  decide

/-- The outer closure declares an `x` of its own and captures only `z`, which has the number 1. -/
theorem captures_nestedClosures :
    (match ((addPackage.analyseDefinition true [] nestedClosures).1.body.arena.get 4).kind with
      | .closure literal => literal.captures == [1]
      | _ => false) = true := by
  decide +kernel

theorem mem_captures_iff_nestedClosures :
    addPackage.ErrorFree ∧ nestedClosures.function < addPackage.functions.length ∧
      nestedClosures.body.IsFresh ∧ addPackage.AnalysesCleanly true [] nestedClosures ∧
      let body := (addPackage.analyseDefinition true [] nestedClosures).1.body
      ∃ literal, (body.arena.get 4).kind = .closure literal ∧ literal.captures = [1] ∧
        ∀ id, id ∈ literal.captures ↔ body.arena.Reads literal.body id ∧ id ∈ [1, 0] := by
  have hclean : addPackage.AnalysesCleanly true [] nestedClosures := by decide +kernel
  refine ⟨errorFree_addPackage, by decide, isFresh_nestedClosures, hclean, ?_⟩
  intro body
  obtain ⟨stmt, hstmt⟩ : ∃ stmt, body.stmts = [stmt] :=
    List.length_eq_one_iff.mp (by decide +kernel)
  have hslots : body.stmts.flatMap Stmt.slots = [4] := by decide +kernel
  have hroot : 4 ∈ stmt.slots := by
    rw [hstmt, List.flatMap_singleton] at hslots
    simp [hslots]
  have hcaptures := captures_nestedClosures
  split at hcaptures
  next literal hkind =>
    obtain ⟨-, -, h⟩ := mem_captures_iff_of_analysesCleanly addPackage true [] nestedClosures
      errorFree_addPackage (by decide) isFresh_nestedClosures hclean [] stmt [] hstmt 4 hroot
    exact ⟨literal, hkind, by simpa using hcaptures, ((h _ 4 .root).2.2 literal hkind).2.1⟩
  next => cases hcaptures

end Boxlang
