import Boxlang.Proofs.Emit.Closure

/-!
# Code for elaborated expressions

An elaborated expression has code exactly if it can be generated (`Emit.Ready`), and
then its value has the LLVM type of the type that analysis gave it.  The proof is an
induction on the depth of the expression, with one case for each form of its node.
-/

namespace Boxlang

namespace Emit

open Llvm Conversion

variable {env : FunctionEnv} {first : Nat} {w : World} {Γ : Context} {generate : Generate}
  {slot inner : Slot} {op : Conversion}

/-! ### Conversions -/

theorem ready_of_leaf {a : Arena} {bindings : Slots LocalVariable}
    (hoperands : (a.get slot).kind.operands = [])
    (href : ∀ name id, (a.get slot).kind ≠ .localRef name (some id)) :
    Ready a Γ slot bindings := by
  refine (ready_iff_operands (fun literal hk => ?_) href).mpr ?_
  · rw [hk] at hoperands
    cases hoperands
  · simp [hoperands]

theorem ready_iff_operand {a : Arena} {bindings : Slots LocalVariable}
    (hoperands : (a.get slot).kind.operands = [inner])
    (hclosure : ∀ literal, (a.get slot).kind ≠ .closure literal)
    (href : ∀ name id, (a.get slot).kind ≠ .localRef name (some id)) :
    Ready a Γ slot bindings ↔ Ready a Γ inner bindings := by
  rw [ready_iff_operands hclosure href, hoperands]
  exact List.forall_mem_singleton

theorem ready_localRef_iff {a : Arena} {bindings : Slots LocalVariable} {name : Ident}
    {id : VariableId} (hk : (a.get slot).kind = .localRef name (some id)) (hid : ∃ u, Γ id u) :
    Ready a Γ slot bindings ↔ (bindings.get? id).isSome = true := by
  constructor
  · exact fun h => h.bound id (Arena.reads_iff.mpr (.inl ⟨name, hk⟩)) hid
  · refine fun h => ⟨fun id' hread _ => ?_, fun hcap => ?_⟩
    · rcases Arena.reads_iff.mp hread with ⟨name', hk'⟩ | ⟨c, hc, -⟩
      · rw [hk] at hk'
        cases hk'
        exact h
      · simp [hk, ExprKind.operands] at hc
    · rcases Arena.capturesNothing_iff.mp hcap with ⟨literal, hk', -⟩ | ⟨c, hc, -⟩
      · rw [hk] at hk'
        cases hk'
      · simp [hk, ExprKind.operands] at hc

theorem ready_of_literal {a : Arena} {bindings : Slots LocalVariable} {v : SimpleValue}
    (h : literal? (a.get slot).kind = some v) : Ready a Γ slot bindings := by
  refine ready_of_leaf ?_ fun name id hk => ?_
  · cases hk : (a.get slot).kind <;> simp_all [literal?, ExprKind.operands]
  · rw [hk] at h
    cases h

theorem emits_foldBoxed? (op : Conversion) (kind : ExprKind) :
    Emits env first w (foldBoxed? op kind) True fun folded w' =>
      (folded = none ∧ w' = w) ∨ ∃ v u t, folded = some v ∧ v.type = .ptr ∧ op = .box t none ∧
        literal? kind = some u := by
  unfold foldBoxed?
  split
  next t u hliteral =>
    refine (emits_liftM _ (by simp)).and_then fun tag _ _ _ => ?_
    refine (emits_liftM _ (by simp)).and_then fun box _ _ _ => ?_
    exact .pure (.inr ⟨_, u, t, rfl, rfl, rfl, hliteral⟩)
  next => exact .pure (.inl ⟨rfl, rfl⟩)

theorem emits_genConversion
    (hgen : ∀ c ∈ (env.arena.get slot).kind.operands,
      Generates env.package env.arena generate c)
    (hexpr : Elaborated env.package env.arena Γ slot)
    (hagree : Agrees env.package.declarations env.arena Γ slot w.function.bindings)
    (hk : (env.arena.get slot).kind = .conversion inner op)
    (hsound : op.IsSound env.package.declarations (env.arena.typeAt inner)
      (env.arena.typeAt slot)) :
    Emits env first w (genConversion generate inner op (env.arena.typeAt slot))
      (Ready env.arena Γ slot w.function.bindings) fun v _ =>
        v.type = env.package.declarations.llvmType (env.arena.typeAt slot) := by
  have hclosure (literal : Closure) : (env.arena.get slot).kind ≠ .closure literal := by simp [hk]
  have hmem : inner ∈ (env.arena.get slot).kind.operands := by simp [hk, ExprKind.operands]
  rw [ready_iff_operand (congrArg ExprKind.operands hk) hclosure (by simp [hk])]
  unfold genConversion
  refine (emits_node inner).and_then fun e w₁ _ he => ?_
  obtain ⟨rfl, rfl⟩ := he
  refine (emits_foldBoxed? op _).and_then fun folded w₂ _ hfolded => ?_
  rcases hfolded with ⟨rfl, rfl⟩ | ⟨v, u, t, rfl, hv, rfl, hliteral⟩
  · refine (emits_operand hgen hexpr hagree hclosure hmem).followed_by fun value w₃ _ hvalue => ?_
    refine (emits_typeOf (hexpr.operands inner hmem).nodeOk.typed).and_then fun t w₄ _ ht => ?_
    obtain ⟨rfl, rfl⟩ := ht
    exact emits_realize rfl hsound hvalue
  · have hptr := hsound.self.realizedType_eq
    exact (Emits.pure (hv.trans hptr)).congr (iff_of_true trivial (ready_of_literal hliteral))

/-! ### Nodes -/

/-- Where the generator does right by the operands of a node, `genNode` does by the node. -/
theorem generates_genNode {p : Package} {a : Arena}
    (hgen : ∀ c ∈ (a.get slot).kind.operands, Generates p a generate c) :
    Generates p a (genNode generate) slot := by
  intro env first w Γ hp ha hexpr hagree
  subst hp ha
  have hform := hexpr.nodeOk.form
  unfold genNode
  refine (emits_node slot).and_then fun e w₁ _ he => ?_
  obtain ⟨rfl, rfl⟩ := he
  refine (emits_typeOf hexpr.nodeOk.typed).and_then fun t w₂ _ ht => ?_
  obtain ⟨rfl, rfl⟩ := ht
  have hleaf {step : Emit Value} {Q : Value → World → Prop}
      (hoperands : (env.arena.get slot).kind.operands = [])
      (href : ∀ name id, (env.arena.get slot).kind ≠ .localRef name (some id))
      (h : Emits env first w₂ step True Q) :
      Emits env first w₂ step (Ready env.arena Γ slot w₂.function.bindings) Q :=
    h.congr (iff_of_true trivial (ready_of_leaf hoperands href))
  obtain ⟨t, ht⟩ : ∃ t, env.arena.typeAt slot = t := ⟨_, rfl⟩
  rw [ht] at hform ⊢
  cases hk : (env.arena.get slot).kind with
  | int v =>
      rw [hk] at hform
      cases hform
      exact hleaf (by simp [hk, ExprKind.operands]) (by simp [hk]) (.pure rfl)
  | real bits =>
      rw [hk] at hform
      cases hform
      exact hleaf (by simp [hk, ExprKind.operands]) (by simp [hk]) (.pure rfl)
  | bool v =>
      rw [hk] at hform
      cases hform
      exact hleaf (by simp [hk, ExprKind.operands]) (by simp [hk]) (.pure rfl)
  | symbol v =>
      rw [hk] at hform
      cases hform
      exact hleaf (by simp [hk, ExprKind.operands]) (by simp [hk]) (.pure rfl)
  | string v =>
      rw [hk] at hform
      cases hform
      exact hleaf (by simp [hk, ExprKind.operands]) (by simp [hk]) (emits_genString v)
  | noValue => exact hleaf (by simp [hk, ExprKind.operands]) (by simp [hk]) (emits_genNoValue t)
  | typeExpr form =>
      rw [hk] at hform
      cases hform
      exact hleaf (by simp [hk, ExprKind.operands]) (by simp [hk]) (emits_genTypeExpr _)
  | localRef name id? =>
      rw [hk] at hform
      cases hform with
      | @localRef _ id _ hΓ =>
          rw [ready_localRef_iff hk ⟨t, hΓ⟩]
          refine (emits_resolved id name).and_then fun id' w₃ _ hid => ?_
          obtain ⟨rfl, rfl⟩ := hid
          refine (emits_readVariable id').mono fun v _ hread => ?_
          obtain ⟨b, hb, hv⟩ := hread
          refine hv.trans ?_
          exact hagree id' t b (Arena.readsAs_iff.mpr (.inl ⟨⟨name, hk⟩, ht⟩)) ⟨t, hΓ⟩ hb
  | call function arguments target? =>
      rw [hk] at hform
      cases hform with
      | call _ _ _ hret =>
          exact (emits_genCall hgen hexpr hagree hk).mono fun v _ hv => hv.trans hret.symm
  | methodCall receiver method arguments target? =>
      rw [hk] at hform
      cases hform with
      | methodCall _ _ _ _ hret =>
          exact (emits_genMethodCall hgen hexpr hagree hk).mono fun v _ hv => hv.trans hret.symm
  | invoke callee args =>
      rw [hk] at hform
      cases hform with
      | invoke hcallee _ _ => exact emits_genInvoke hgen hexpr hagree hk hcallee
  | closure literal =>
      rw [hk] at hform
      have hbody : Generates env.package env.arena generate literal.body :=
        hgen literal.body (by simp [hk, ExprKind.operands])
      cases hform with
      | closure _ _ _ _ _ _ _ _ =>
          rw [← ht]
          exact (emits_genClosure hbody hk hexpr hagree).mono fun v _ hv => by rw [ht]; exact hv
  | unwrap inner =>
      rw [hk] at hform
      cases hform
      have hmem : inner ∈ (env.arena.get slot).kind.operands := by simp [hk, ExprKind.operands]
      have hclosure (literal : Closure) : (env.arena.get slot).kind ≠ .closure literal := by
        simp [hk]
      refine (emits_operand hgen hexpr hagree hclosure hmem).congr ?_
      exact (ready_iff_operand (congrArg ExprKind.operands hk) hclosure (by simp [hk])).symm
  | conversion inner op =>
      rw [hk] at hform
      cases hform with
      | conversion _ hsound =>
          subst ht
          exact emits_genConversion hgen hexpr hagree hk hsound

/-! ### Expressions -/

theorem generates_genExprWithin {p : Package} {a : Arena} {n : Nat} (h : a.IsWithin n slot) :
    Generates p a (genExprWithin n) slot := by
  induction n generalizing slot with
  | zero => exact h.elim
  | succ n ih => exact generates_genNode fun c hc => ih (h c hc)

theorem generates_genExpr (p : Package) (a : Arena) (slot : Slot) : Generates p a genExpr slot := by
  intro env first w Γ hp ha hexpr hagree
  subst hp ha
  unfold genExpr
  refine emits_read.and_then fun env' w₁ _ henv => ?_
  obtain ⟨rfl, rfl⟩ := henv
  exact generates_genExprWithin hexpr.isWithin_size rfl rfl hexpr hagree

end Emit

end Boxlang
