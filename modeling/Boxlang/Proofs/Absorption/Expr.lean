import Boxlang.Proofs.Absorption.Node
import Boxlang.Proofs.Elaboration.Expr
import Boxlang.Proofs.Elaboration.Receiver

/-!
# Expressions without a type

Where a variable is replaced by one whose declaration failed, an expression that was fine
stays fine, unless a method is called on a value without type or a generic argument is
inferred from one; and a method call on a value without type never is fine
(`Analysis.analyseExpr_forget`).  The induction is on the bound of the depth.
-/

namespace Boxlang

open AnalysisState

theorem Package.method?_error (p : Package) (name : String) : p.method? .error name = none := by
  cases h : p.method? .error name with
  | none => rfl
  | some id =>
      obtain ⟨owner, howner, -⟩ := Package.ownerName_of_method? (p := p) rfl h
      cases howner

namespace Analysis

variable {env : Environment} {a₀ : Arena} {roots : List Slot} {root slot : Slot} {k n : Nat}
  {X : String → Prop} {lost : Slot → String → Prop} {s s' s₁ s₂ : AnalysisState} {visit : Visit} {t : Ty}
  {e? : Option Expectation}

section Forest

variable (hf : a₀.IsForest roots) (hroot : a₀.Level roots k root) (hlost : lost = a₀.visibleAt root X)

section Node

variable (hslot : a₀.Remains lost root slot)
  (hv : ∀ c ∈ (a₀.get slot).kind.operands, a₀.Remains lost root c →
    VisitFollows env a₀ (a₀.Remains lost root) (a₀.Loses lost) (lost c) visit c)
  (hw : ∀ W, a₀.IsRegion W → VisitWalks a₀ W env visit)
include hf hroot hlost hslot hv

omit hroot in
/-- The operands of a node that is no closure are looked at under the names that it sees. -/
theorem visitFollows_operand (hkind : ∀ literal, (a₀.get slot).kind ≠ .closure literal) {c : Slot}
    (hc : c ∈ (a₀.get slot).kind.operands)
    (honly : ∀ callee args, (a₀.get slot).kind = .invoke callee args → a₀.Loses lost callee → c = callee) :
    a₀.Remains lost root c ∧
      VisitFollows env a₀ (a₀.Remains lost root) (a₀.Loses lost) (lost slot) visit c := by
  have hr : a₀.Remains lost root c := .operand hslot hc honly
  have hsame : lost c = lost slot := by
    rw [hlost]
    exact Arena.visibleAt_operand hf hslot.reaches hc hkind
  exact ⟨hr, hsame ▸ hv c hc hr⟩

include hw

/-- An untyped node has in the second run the type that it has in the first, or none. -/
theorem follows_nodeType (ht : (a₀.get slot).type? = none)
    (htol : a₀.Tolerates env.package (a₀.Loses lost) slot)
    (h : Beside a₀ (a₀.Remains lost root) (a₀.Loses lost) (lost slot) s₁ s₂) :
    Follows env s₁ s₂ (nodeType visit slot (a₀.get slot) e?) (nodeType visit slot (a₀.get slot) e?)
      fun t₁ s₁' t₂ s₂' => Beside a₀ (a₀.Remains lost root) (a₀.Loses lost) (lost slot) s₁' s₂' ∧
        Answers (a₀.Loses lost slot) t₁ t₂ := by
  have hlt : ∀ x, a₀.Remains lost root x → x < a₀.size := fun x hx =>
    (Arena.isRegion_reaches hf.inRange (hf.lt_size_of_level hroot)).lt x hx.reaches
  have hop := fun c => visitFollows_operand (c := c) hf hlost hslot hv
  have hallows := htol ht
  unfold nodeType
  cases hkind : (a₀.get slot).kind with
  | int _ | real _ | bool _ | string _ | symbol _ =>
      exact .kept (Arena.not_loses (by rw [hkind]; rfl) (by simp [hkind])) (IsSteady.follows_beside (.pure _) h)
  | noValue =>
      exact .kept (Arena.not_loses (by rw [hkind]; rfl) (by simp [hkind]))
        (IsSteady.follows_beside (.noValueType _ _) h)
  | localRef name id? =>
      refine (follows_analyseLocal h (hlt slot hslot) name).mono fun _ _ _ _ hpost => ⟨hpost.1, ?_⟩
      exact hpost.2.congr (Arena.loses_localRef_iff ht hkind).symm
  | call function arguments target? =>
      rw [hkind] at hallows
      have hn : ¬ a₀.Loses lost slot := Arena.not_loses (by rw [hkind]; rfl) (by simp [hkind])
      refine .kept hn (follows_analyseCall hlt hslot hn (fun c hc => ?_) (fun id arguments' hid hargs => ?_) h)
      · exact hop c (by simp [hkind]) hc (by simp [hkind])
      · rw [hkind] at hargs
        cases hargs
        exact hallows id hid
  | methodCall receiver method arguments target? =>
      rw [hkind] at hallows
      have hn : ¬ a₀.Loses lost slot := Arena.not_loses (by rw [hkind]; rfl) (by simp [hkind])
      refine .kept hn (follows_analyseMethodCall hlt hslot hn (fun c hc => ?_) ?_
        hallows.1 (fun t id arguments' hid hargs => ?_) h)
      · exact hop c (by simp [hkind]) hc (by simp [hkind])
      · simp [hkind, ExprKind.operands]
      · rw [hkind] at hargs
        cases hargs
        exact hallows.2 t id hid
  | invoke callee args =>
      have hmem (c : Slot) (hc : c ∈ callee :: args) : c ∈ (a₀.get slot).kind.operands := by
        rw [hkind]
        exact hc
      have hcarried : a₀.Loses lost slot ↔ a₀.Loses lost callee :=
        Arena.loses_carrier_iff ht (by rw [hkind]; rfl)
      refine (follows_analyseInvoke hlt (hop callee (by simp [hkind]) (hmem _ (by simp)) ?_).2
        (fun hP arg harg => hop arg (by simp [hkind]) (hmem _ (by simp [harg])) ?_) hf.inRange
        (fun arg harg => ?_) (fun hP x hx arg harg => ?_) hw h).mono fun _ _ _ _ hpost =>
          ⟨hpost.1, hpost.2.congr hcarried.symm⟩
      · simp [hkind]
      · intro callee' args' hk hloses
        rw [hkind] at hk
        cases hk
        exact absurd hloses hP
      · exact (Arena.isRegion_reaches hf.inRange (hf.lt_size_of_level hroot)).lt arg
          (hslot.reaches.tail (hmem arg (by simp [harg])))
      · exact hx.not_reaches hf hroot hslot.reaches hkind hP harg
  | closure literal =>
      have hmem : literal.body ∈ (a₀.get slot).kind.operands := by simp [hkind, ExprKind.operands]
      have hbody : a₀.Remains lost root literal.body := .operand hslot hmem (by simp [hkind])
      have hnames : lost literal.body = fun name => lost slot name ∧ name ∉ literal.params.map (·.name.name) := by
        rw [hlost]
        exact Arena.visibleAt_body hf hslot.reaches hkind
      exact .kept (Arena.not_loses (by rw [hkind]; rfl) (by simp [hkind]))
        (follows_analyseClosure hlt hslot hkind hf.inRange hbody (hnames ▸ hv _ hmem hbody) hw h)
  | typeExpr form =>
      have hsteady (span : Span) : IsSteady env (do
          let t ← formType form e? span
          validateMetability t span
          return Ty.typeValue t) :=
        (IsSteady.formType form e? span).bind fun t =>
          (IsSteady.validateMetability t span).bind fun _ => .pure (Ty.typeValue t)
      exact .kept (Arena.not_loses (by rw [hkind]; rfl) (by simp [hkind])) ((hsteady _).follows_beside h)
  | unwrap inner =>
      have hcarried : a₀.Loses lost slot ↔ a₀.Loses lost inner :=
        Arena.loses_carrier_iff ht (by rw [hkind]; rfl)
      obtain ⟨hi, hvisit⟩ := hop inner (by simp [hkind]) (by simp [hkind, ExprKind.operands]) (by simp [hkind])
      exact (follows_analyseUnwrap hlt hi hvisit h).mono fun _ _ _ _ hpost =>
        ⟨hpost.1, hpost.2.congr hcarried.symm⟩
  | conversion inner op =>
      have hcarried : a₀.Loses lost slot ↔ a₀.Loses lost inner :=
        Arena.loses_carrier_iff ht (by rw [hkind]; rfl)
      obtain ⟨-, hvisit⟩ := hop inner (by simp [hkind]) (by simp [hkind, ExprKind.operands]) (by simp [hkind])
      exact (hvisit e? s₁ s₂ h).mono fun _ _ _ _ hvisited =>
        ⟨hvisited.beside, hvisited.answers.congr hcarried.symm⟩

/-- A node whose operands follow follows, whether it is typed already or not. -/
theorem visitFollows_analyseNode (htol : a₀.Tolerates env.package (a₀.Loses lost) slot) :
    VisitFollows env a₀ (a₀.Remains lost root) (a₀.Loses lost) (lost slot) (analyseNode visit) slot := by
  intro e? s₁ s₂ h
  have hlt : slot < a₀.size :=
    (Arena.isRegion_reaches hf.inRange (hf.lt_size_of_level hroot)).lt slot hslot.reaches
  have htypes := h.types slot hslot
  intro t s₁' hrun
  unfold analyseNode at hrun ⊢
  rw [runIn_bind, runIn_node] at hrun ⊢
  dsimp only at hrun ⊢
  cases ht₁ : (s₁.body.arena.get slot).type? with
  | some t₁ =>
      rw [ht₁] at hrun htypes
      obtain ⟨rfl, rfl⟩ : t₁ = t ∧ s₁ = s₁' := by simpa using hrun
      cases ht₂ : (s₂.body.arena.get slot).type? with
      | none =>
          rw [ht₂] at htypes
          cases htypes
      | some t₂ =>
          rw [ht₂] at htypes
          cases htypes with
          | some ha => exact ⟨t₂, s₂, rfl, h, ha, fun _ => by simp [ht₁]⟩
  | none =>
      have ht₂ : (s₂.body.arena.get slot).type? = none := by
        have := h.isSome_type? hslot
        simpa [ht₁] using this.symm
      have ht := h.edits₁.type?_eq_none (fun _ hx => hx) hlt ht₁
      rw [ht₁, nodeType_eq_of_bare_eq (h.holds₁.bare_eq hlt ht₁)] at hrun
      rw [ht₂, nodeType_eq_of_bare_eq (h.holds₂.bare_eq hlt ht₂)]
      obtain ⟨u, s₁'', hnode, hset⟩ := runIn_bind_ok.mp hrun
      obtain ⟨rfl, rfl⟩ : u = t ∧ s₁''.withArena (s₁''.body.arena.setType slot u) = s₁' := by
        have := Prod.mk.inj hset
        exact ⟨Except.ok.inj this.1, this.2⟩
      obtain ⟨u₂, s₂'', hnode₂, hb, ha⟩ := follows_nodeType hf hroot hlost hslot hv hw ht htol h u s₁'' hnode
      refine ⟨u₂, s₂''.withArena (s₂''.body.arena.setType slot u₂), runIn_bind_ok.mpr ⟨u₂, s₂'', hnode₂, rfl⟩,
        hb.setType hlt ha, ha, fun _ => ?_⟩
      rw [arena_withArena, Arena.setType, Arena.get_modify_self _ (Nat.lt_of_lt_of_le hlt hb.edits₁.size_le)]
      rfl

end Node

include hf hroot hlost

/-- An expression none of whose nodes needs a lost type follows. -/
theorem visitFollows_analyseExprWithin (n : Nat) (hslot : a₀.Remains lost root slot)
    (htol : ∀ x, a₀.Remains lost root x → a₀.Reaches slot x → a₀.Tolerates env.package (a₀.Loses lost) x) :
    VisitFollows env a₀ (a₀.Remains lost root) (a₀.Loses lost) (lost slot) (analyseExprWithin n) slot := by
  induction n generalizing slot with
  | zero => exact fun e? s₁ s₂ h => .pure ⟨h, ⟨fun _ => rfl, fun _ => rfl⟩, fun hne => absurd rfl hne⟩
  | succ n ih =>
      refine visitFollows_analyseNode hf hroot hlost hslot (fun c hc hr => ih hr fun x hx hreach => ?_)
        (fun W hW => walks_analyseExprWithin hW n) (htol slot hslot (.refl a₀ slot))
      exact htol x hx (.head hc hreach)

end Forest

/-- A method call on a value without type fails, where the receiver itself follows. -/
theorem runIn_analyseMethodCall_of_error {receiver : Slot} {method : Ident}
    (hrun : (visit receiver none).runIn env s = (.ok .error, s')) :
    (analyseMethodCall visit slot receiver method).runIn env s =
      (.error (.unresolved .method ("<error>." ++ method.name) method.span), s') := by
  unfold analyseMethodCall
  rw [runIn_bind, hrun]
  dsimp only
  have hcomply (e : Expectation) : (comply .error e receiver).runIn env s' = (.ok .error, s') := by
    simp [comply, carryOut]
  rw [runIn_bind, hcomply]
  dsimp only
  rw [runIn_bind, runIn_read]
  dsimp only
  have hbound (c : GenericContext) : c.upperBound (Ty.erased .error) = .error := rfl
  have htext : Ty.error.text ++ "." = "<error>." := by decide
  rw [hbound, Package.method?_error, htext]
  rfl

/-- The bound of the depth comes from the arena at the start. -/
theorem runIn_analyseExpr (hn : s.body.arena.size = n) :
    (analyseExpr slot e?).runIn env s = (analyseExprWithin n slot e?).runIn env s := by
  unfold analyseExpr
  rw [runIn_bind, runIn_get]
  dsimp only
  rw [hn]

theorem runIn_analyseExprWithin_methodCall {receiver : Slot} {method : Ident} {arguments : Arguments}
    {target? : Option FunctionId} (ht : (s.body.arena.get slot).type? = none)
    (hkind : (s.body.arena.get slot).kind = .methodCall receiver method arguments target?) :
    (analyseExprWithin (n + 1) slot e?).runIn env s = (do
      let t ← analyseMethodCall (analyseExprWithin n) slot receiver method
      modifyArena (·.setType slot t)
      return t : Analysis Ty).runIn env s := by
  show (analyseNode _ slot e?).runIn env s = _
  unfold analyseNode
  rw [runIn_bind, runIn_node]
  dsimp only
  rw [ht]
  simp only [nodeType, hkind]

section Forget

variable (hf : s.body.arena.IsForest roots) (hroot : s.body.arena.Level roots k slot)
  (hd : s.DefersDeclared) {id : VariableId} (hlost : lost = s.body.arena.visibleAt slot (s.scope.Means · id))
include hf hroot hd hlost

/-- Before anything is analysed, the names of the variable are lost where the expression stands. -/
theorem beside_forget : Beside s.body.arena (s.body.arena.Remains lost slot) (s.body.arena.Loses lost)
    (lost slot) s (s.forget id) := by
  rw [show lost slot = (s.scope.Means · id) by rw [hlost]; exact Arena.visibleAt_root hf hroot]
  exact .forget hd (fun x u hu => Arena.not_loses_of_typed hu) id

theorem exists_runIn_analyseExpr_forget
    (htol : ∀ x, s.body.arena.Remains lost slot x →
      s.body.arena.Tolerates env.package (s.body.arena.Loses lost) x)
    (hrun : (analyseExpr slot e?).runIn env s = (.ok t, s')) :
    ∃ t' s'', (analyseExpr slot e?).runIn env (s.forget id) = (.ok t', s'') ∧
      Answers (s.body.arena.Loses lost slot) t t' ∧ s''.reports.Sublist s'.reports := by
  rw [runIn_analyseExpr rfl] at hrun
  obtain ⟨t', s'', hrun₂, hvisited⟩ := visitFollows_analyseExprWithin hf hroot hlost s.body.arena.size .root
    (fun x hx _ => htol x hx) e? s _ (beside_forget hf hroot hd hlost) t s' hrun
  refine ⟨t', s'', ?_, hvisited.answers, hvisited.beside.reports⟩
  rw [runIn_analyseExpr (s := s.forget id) rfl]
  exact hrun₂

theorem runIn_analyseExpr_forget_methodCall {receiver : Slot} {method : Ident} {arguments : Arguments}
    {target? : Option FunctionId}
    (hkind : (s.body.arena.get slot).kind = .methodCall receiver method arguments target?)
    (ht : (s.body.arena.get slot).type? = none) (hloses : s.body.arena.Loses lost receiver)
    (htol : ∀ x, s.body.arena.Remains lost slot x → s.body.arena.Reaches receiver x →
      s.body.arena.Tolerates env.package (s.body.arena.Loses lost) x)
    (hrun : (analyseExpr slot e?).runIn env s = (.ok t, s')) :
    ((analyseExpr slot e?).runIn env (s.forget id)).1 =
      .error (.unresolved .method ("<error>." ++ method.name) method.span) := by
  obtain ⟨n, hn⟩ : ∃ n, s.body.arena.size = n + 1 := Nat.exists_eq_succ_of_ne_zero
    (Nat.ne_of_gt (Nat.lt_of_le_of_lt (Nat.zero_le _) (hf.lt_size_of_level hroot)))
  have hmem : receiver ∈ (s.body.arena.get slot).kind.operands := by simp [hkind, ExprKind.operands]
  have hr : s.body.arena.Remains lost slot receiver := .operand .root hmem (by simp [hkind])
  have hsame : lost receiver = lost slot := by
    rw [hlost]
    exact Arena.visibleAt_operand hf (.refl _ slot) hmem (by simp [hkind])
  rw [runIn_analyseExpr hn, runIn_analyseExprWithin_methodCall ht hkind] at hrun
  rw [runIn_analyseExpr (s := s.forget id) hn, runIn_analyseExprWithin_methodCall (s := s.forget id) ht hkind]
  -- In the first run the receiver is typed, so it is in the second, as an error.
  obtain ⟨u, s₁, hcall, -⟩ := runIn_bind_ok.mp hrun
  unfold analyseMethodCall at hcall
  obtain ⟨actual, s₂, hreceiver, -⟩ := runIn_bind_ok.mp hcall
  obtain ⟨t', s'', hrun₂, hvisited⟩ := visitFollows_analyseExprWithin hf hroot hlost n hr htol none s _
    (hsame ▸ beside_forget hf hroot hd hlost) actual s₂ hreceiver
  obtain rfl := hvisited.answers.eq_error hloses
  rw [runIn_bind, runIn_analyseMethodCall_of_error hrun₂]

end Forget

/--
A variable is replaced by one whose declaration failed.  An expression that could be
analysed before still can, and gives no report that it did not give before, if no method
is called on a value that has lost its type and no generic argument is inferred from one;
its own type is the same, unless it is lost.  A method call on a value that has lost its
type fails instead.
-/
theorem analyseExpr_forget (hf : s.body.arena.IsForest roots) (hroot : s.body.arena.Level roots k slot)
    (hd : s.DefersDeclared) (id : VariableId) (hrun : (analyseExpr slot e?).runIn env s = (.ok t, s')) :
    let a := s.body.arena
    let lost := a.visibleAt slot (s.scope.Means · id)
    ((∀ x, a.Remains lost slot x → a.Tolerates env.package (a.Loses lost) x) →
      ∃ t' s'', (analyseExpr slot e?).runIn env (s.forget id) = (.ok t', s'') ∧
        Answers (a.Loses lost slot) t t' ∧ s''.reports.Sublist s'.reports) ∧
    (∀ receiver method arguments target?,
      (a.get slot).kind = .methodCall receiver method arguments target? → (a.get slot).type? = none →
      a.Loses lost receiver →
      (∀ x, a.Remains lost slot x → a.Reaches receiver x → a.Tolerates env.package (a.Loses lost) x) →
      ((analyseExpr slot e?).runIn env (s.forget id)).1 =
        .error (.unresolved .method ("<error>." ++ method.name) method.span)) := by
  intro a lost
  refine ⟨fun htol => exists_runIn_analyseExpr_forget hf hroot hd rfl htol hrun, ?_⟩
  intro receiver method arguments target? hkind ht hloses htol
  exact runIn_analyseExpr_forget_methodCall hf hroot hd rfl hkind ht hloses htol hrun

end Analysis

def cellPackage : Package where
  declarations := Declarations.prelude.addClass "Cell" { generics := ["E"] }
  functions := [
    { name := "get", owner? := some (.object "Cell" [.generic 0 "E"]), ret := .int },
    { name := "total", generics := [⟨"T", .something⟩], params := [⟨"cell", .object "Cell" [.localGeneric 0 "T"]⟩],
      ret := .int },
    { name := "keep", params := [⟨"cell", .object "Cell" [.int]⟩], ret := .int },
    { name := "use", params := [⟨"x", .object "Cell" [.int]⟩] }]

/-- `x.get()`, `total(x)` and `keep(x)` -/
def useCell : Body where
  arena := { nodes := #[
    { span := ⟨0, 1⟩, kind := .localRef ⟨"x", ⟨0, 1⟩⟩ none },
    { span := ⟨0, 7⟩, kind := .methodCall 0 ⟨"get", ⟨2, 3⟩⟩ { span := ⟨5, 2⟩, args := [] } none },
    { span := ⟨16, 1⟩, kind := .localRef ⟨"x", ⟨16, 1⟩⟩ none },
    { span := ⟨10, 8⟩, kind := .call ⟨"total", ⟨10, 5⟩⟩ { span := ⟨15, 3⟩, args := [2] } none },
    { span := ⟨25, 1⟩, kind := .localRef ⟨"x", ⟨25, 1⟩⟩ none },
    { span := ⟨20, 7⟩, kind := .call ⟨"keep", ⟨20, 4⟩⟩ { span := ⟨24, 3⟩, args := [4] } none }] }
  stmts := [.expr 1, .expr 3, .expr 5]

theorem isFresh_useCell : useCell.IsFresh := by
  decide

open Analysis

/-- An argument of a function that is not generic may lose its type. -/
theorem runIn_keep_forget :
    let env : Environment := { package := cellPackage, function := cellPackage.signature 3 }
    let s : AnalysisState := .start env.function useCell []
    ((analyseExpr 5 none).runIn env s).1.toOption = some .int ∧
      ∃ s'', (analyseExpr 5 none).runIn env (s.forget 0) = (.ok .int, s'') ∧ s''.reports = [] := by
  intro env s
  have htype : ((analyseExpr 5 none).runIn env s).1.toOption = some .int := by decide +kernel
  have hreports : ((analyseExpr 5 none).runIn env s).2.reports = [] := by decide +kernel
  refine ⟨htype, ?_⟩
  rcases hrun : (analyseExpr 5 none).runIn env s with ⟨_ | t, s'⟩
  · rw [hrun] at htype
    cases htype
  · rw [hrun] at htype hreports
    obtain rfl : t = .int := Option.some.inj htype
    have hf : s.body.arena.IsForest (useCell.stmts.flatMap Stmt.slots) := isFresh_useCell.isForest
    obtain ⟨t', s'', hrun₂, ha, hsub⟩ := (analyseExpr_forget hf (.root (by decide)) nofun 0 hrun).1
      fun x hx => by
        rcases Arena.reaches_iff.mp hx.reaches with rfl | ⟨c, hc, hreach⟩
        · intro _ id hid _ hgeneric
          obtain rfl : id = 2 := by
            have hkeep : cellPackage.function? "keep" = some 2 := by decide
            exact Option.some.inj (hid.symm.trans hkeep)
          cases hgeneric
        · obtain rfl : c = 4 := List.mem_singleton.mp (show c ∈ [4] from hc)
          rcases Arena.reaches_iff.mp hreach with rfl | ⟨c', hc', -⟩
          · exact fun _ => trivial
          · cases hc'
    have hkept : t' = .int := ha.eq (Arena.not_loses rfl nofun)
    rw [hkept] at hrun₂
    exact ⟨s'', hrun₂, List.eq_nil_of_sublist_nil (hreports ▸ hsub)⟩

/--
Where the type of `x` is lost, calling a method on it fails, and so does inferring a
generic argument from it, though both are fine where `x` is a cell.
-/
theorem runIn_useCell_forget :
    let env : Environment := { package := cellPackage, function := cellPackage.signature 3 }
    let s : AnalysisState := .start env.function useCell []
    ((analyseExpr 1 none).runIn env s).1.toOption = some .int ∧
      ((analyseExpr 3 none).runIn env s).1.toOption = some .int ∧
      (match ((analyseExpr 1 none).runIn env (s.forget 0)).1 with
        | .ok _ => none
        | .error e => some e) = some (.unresolved .method "<error>.get" ⟨2, 3⟩) ∧
      (match ((analyseExpr 3 none).runIn env (s.forget 0)).1 with
        | .ok _ => none
        | .error e => some e) = some (.inferenceFailure "total" "T" "no argument mentions it" ⟨15, 3⟩) := by
  decide +kernel

end Boxlang
