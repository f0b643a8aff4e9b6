import Boxlang.Proofs.Analysis.Erasure
import Boxlang.Proofs.Elaboration.Body

/-!
# Analysis without errors is complete

In a fresh body that is analysed without errors every node of every statement is
typed and resolved.  No slot holds more than one conversion, and every conversion
starts from the storage of its operand and ends in that of its own type, also inside
adapters.
-/

namespace Boxlang

/-- Whether a name in a node has been resolved; nodes without names are. -/
def ExprKind.isResolved : ExprKind → Bool
  | .localRef _ id? => id?.isSome
  | .call _ _ id? => id?.isSome
  | .methodCall _ _ _ id? => id?.isSome
  | _ => true

/-- A node that is resolved and has a type, which does not mention the error type. -/
structure Expr.IsComplete (e : Expr) : Prop where
  typed : ∃ t, e.type? = some t ∧ t.mentionsError = false
  resolved : e.kind.isResolved = true

variable {p : Package} {f : Signature} {a : Arena} {Γ : Context} {slot inner : Slot}
  {op : Conversion}

theorem FormOk.isResolved {kind : ExprKind} {t : Ty} (h : FormOk p a Γ kind t) :
    kind.isResolved = true := by
  cases h <;> rfl

theorem Elaborated.isComplete (h : Elaborated p a Γ slot) : (a.get slot).IsComplete :=
  ⟨⟨_, h.nodeOk.typed, h.nodeOk.mentionsError_eq⟩, h.nodeOk.form.isResolved⟩

theorem Elaborated.conversion (h : Elaborated p a Γ slot)
    (hk : (a.get slot).kind = .conversion inner op) :
    ¬ (a.get inner).IsConversion ∧ ∃ s t, (a.get inner).type? = some s ∧
      (a.get slot).type? = some t ∧ op.WellFormed s t := by
  have hnode := h.nodeOk
  have hinner := (h.operands inner (by simp [hk, ExprKind.operands])).nodeOk
  have hform := hnode.form
  rw [hk] at hform
  cases hform with
  | conversion hplain hsound =>
      exact ⟨hplain, _, _, hinner.typed, hnode.typed, hsound.wellFormed⟩

/-! ### Depth -/

namespace Arena

theorem conversionDepthWithin_of_not (h : ¬ (a.get slot).IsConversion) (n : Nat) :
    a.conversionDepthWithin n slot = 0 := by
  cases n with
  | zero => rfl
  | succ n =>
      unfold conversionDepthWithin
      split
      next inner op hk => exact absurd ⟨inner, op, hk⟩ h
      next => rfl

theorem conversionDepthWithin_le_one
    (h : ∀ inner op, (a.get slot).kind = .conversion inner op → ¬ (a.get inner).IsConversion)
    (n : Nat) : a.conversionDepthWithin n slot ≤ 1 := by
  cases n with
  | zero => exact Nat.zero_le 1
  | succ n =>
      unfold conversionDepthWithin
      split
      next inner op hk =>
        rw [conversionDepthWithin_of_not (h inner op hk)]
      next => exact Nat.zero_le 1

end Arena

/-! ### Bodies -/

namespace ElaboratedFrom

variable {before after : Body} (h : ElaboratedFrom p f before after)
include h

theorem elaborated_of_reaches {root : Slot} (hroot : root ∈ after.stmts.flatMap Stmt.slots)
    (hx : after.arena.Reaches root slot) : ∃ Δ, Elaborated p after.arena Δ slot := by
  obtain ⟨Γ, hsettled⟩ := h.settled root hroot
  exact hsettled.elaborated.nodeOk_of_reaches hx

/-- A slot of the original body that holds a conversion belongs to a statement. -/
theorem exists_reaches_of_isConversion (hb : before.IsFresh)
    (hk : (after.arena.get slot).IsConversion) :
    ∃ root ∈ after.stmts.flatMap Stmt.slots, after.arena.Reaches root slot := by
  have hlt : slot < before.arena.size := by
    by_contra hge
    exact h.plain slot (Nat.le_of_not_lt hge) hk
  by_contra hnot
  have hW := (Arena.isRegion_reaches_any hb.inRange.arena hb.isForest.roots_lt).lt
  have hsame : after.arena.get slot = before.arena.get slot := by
    refine h.edits.get_of_not hW hlt fun ⟨root, hroot, hreach⟩ => hnot ?_
    rw [← h.slots_eq] at hroot
    obtain ⟨Γ, hsettled⟩ := h.settled root hroot
    exact ⟨root, hroot, hsettled.covers slot hreach⟩
  rw [hsame] at hk
  exact hb.unconverted slot hlt hk

/-- Every conversion of the analysed body is as the types demand. -/
theorem conversion (hb : before.IsFresh) (hk : (after.arena.get slot).kind = .conversion inner op) :
    ¬ (after.arena.get inner).IsConversion ∧ ∃ s t, (after.arena.get inner).type? = some s ∧
      (after.arena.get slot).type? = some t ∧ op.WellFormed s t := by
  obtain ⟨root, hroot, hreach⟩ := h.exists_reaches_of_isConversion hb ⟨inner, op, hk⟩
  obtain ⟨Δ, hΔ⟩ := h.elaborated_of_reaches hroot hreach
  exact hΔ.conversion hk

end ElaboratedFrom

/--
Analysis without errors is complete: the nodes of all statements are typed and
resolved, slots of the original body hold at most one conversion and moved nodes are
none, and every conversion is well-formed between the types of its operand and itself.
-/
theorem isComplete_of_analysesCleanly (p : Package) (warnDeprecated : Bool) (reports : List Report)
    (definition : Definition) (hp : p.ErrorFree) (hf : definition.function < p.functions.length)
    (hb : definition.body.IsFresh) (hclean : p.AnalysesCleanly warnDeprecated reports definition) :
    let before := definition.body
    let after := (p.analyseDefinition warnDeprecated reports definition).1.body
    (∀ root ∈ after.stmts.flatMap Stmt.slots, ∀ slot, after.arena.Reaches root slot →
      (after.arena.get slot).IsComplete) ∧
    (∀ slot < before.arena.size, after.arena.conversionDepth slot ≤ 1) ∧
    (∀ slot, before.arena.size ≤ slot → after.arena.conversionDepth slot = 0) ∧
    ∀ slot inner op, (after.arena.get slot).kind = .conversion inner op →
      ∃ s t, (after.arena.get inner).type? = some s ∧ (after.arena.get slot).type? = some t ∧
        op.WellFormed s t := by
  have h := elaboratedFrom_analyseDefinition hp warnDeprecated reports hf hb hclean
  refine ⟨fun root hroot slot hreach => ?_, fun slot _ => ?_, fun slot hslot => ?_,
    fun slot inner op hk => ?_⟩
  · obtain ⟨Δ, hΔ⟩ := h.elaborated_of_reaches hroot hreach
    exact hΔ.isComplete
  · exact Arena.conversionDepthWithin_le_one (fun inner op hk => (h.conversion hb hk).1) _
  · exact Arena.conversionDepthWithin_of_not (h.plain slot hslot) _
  · exact (h.conversion hb hk).2

theorem errorFree_showPackage : showPackage.ErrorFree := by
  decide

theorem isFresh_shownLiteral : shownLiteral.body.IsFresh := by
  decide

/-- The argument of `show(3)` is put into a box. -/
theorem isComplete_shownLiteral :
    showPackage.ErrorFree ∧ shownLiteral.function < showPackage.functions.length ∧
      shownLiteral.body.IsFresh ∧ showPackage.AnalysesCleanly true [] shownLiteral ∧
      let before := shownLiteral.body
      let after := (showPackage.analyseDefinition true [] shownLiteral).1.body
      (∀ root ∈ after.stmts.flatMap Stmt.slots, ∀ slot, after.arena.Reaches root slot →
        (after.arena.get slot).IsComplete) ∧
      (∀ slot < before.arena.size, after.arena.conversionDepth slot ≤ 1) ∧
      (∀ slot, before.arena.size ≤ slot → after.arena.conversionDepth slot = 0) ∧
      ∀ slot inner op, (after.arena.get slot).kind = .conversion inner op →
        ∃ s t, (after.arena.get inner).type? = some s ∧ (after.arena.get slot).type? = some t ∧
          op.WellFormed s t :=
  ⟨errorFree_showPackage, by decide, isFresh_shownLiteral, by decide,
    isComplete_of_analysesCleanly showPackage true [] shownLiteral errorFree_showPackage
      (by decide) isFresh_shownLiteral (by decide)⟩

end Boxlang
