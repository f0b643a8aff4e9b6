import Boxlang.Emit.Expr
import Boxlang.Proofs.Emit.Conversion
import Boxlang.Proofs.Emit.Ready

/-!
# Code for operands and calls

What generating the operands of a node gives, for any generator that does right by
them (`Emit.Generates`), and from it what calls and invocations give.
-/

namespace Boxlang

namespace Emit

open Llvm

variable {env : FunctionEnv} {first : Nat} {w : World}

/-! ### Reading the results of analysis -/

theorem emits_node (slot : Slot) :
    Emits env first w (node slot) True fun e w' => e = env.arena.get slot ∧ w' = w :=
  .of_runIn (a := env.arena.get slot) rfl (.refl w) ⟨rfl, rfl⟩

theorem emits_typeOf {slot : Slot} {t : Ty} (h : (env.arena.get slot).type? = some t) :
    Emits env first w (typeOf slot) True fun t' w' => t' = t ∧ w' = w := by
  unfold typeOf
  refine (emits_node slot).and_then fun e w₁ _ he => ?_
  obtain ⟨rfl, rfl⟩ := he
  rw [h]
  exact .pure ⟨rfl, rfl⟩

theorem emits_resolved {α : Type} (a : α) (name : Ident) :
    Emits env first w (resolved (some a) name) True fun b w' => b = a ∧ w' = w :=
  .pure ⟨rfl, rfl⟩

theorem emits_declarations :
    Emits env first w declarations True fun d _ => d = env.package.declarations :=
  .of_runIn (a := env.package.declarations) rfl (.refl w) rfl

theorem emits_readVariable (id : VariableId) :
    Emits env first w (readVariable id) ((w.function.bindings.get? id).isSome = true) fun v _ =>
      ∃ b, w.function.bindings.get? id = some b ∧ v.type = b.value.type := by
  unfold readVariable
  refine emits_get.and_then fun s w₁ _ hs => ?_
  obtain ⟨rfl, rfl⟩ := hs
  cases hb : w₁.function.bindings.get? id with
  | none => exact (Emits.throw _).congr (by simp)
  | some b =>
      refine Emits.congr (?_ : Emits env first w₁ _ True _) (by simp)
      dsimp only
      split
      next => exact .pure ⟨b, rfl, rfl⟩
      next =>
        refine .map ?_
        exact (emits_define _ fun _ => by trivial).mono fun _ _ _ => ⟨b, rfl, rfl⟩

theorem emits_genString (value : String) :
    Emits env first w (genString value) True fun v _ => v.type = .ptr := by
  unfold genString
  refine (emits_liftM _ (by simp)).and_then fun bytes _ _ _ => ?_
  exact (emits_emitCall _ _ _).mono fun _ _ h => h.1

theorem emits_genNoValue (t : Ty) :
    Emits env first w (genNoValue t) True fun v _ =>
      v.type = env.package.declarations.llvmType t := by
  unfold genNoValue
  split
  next hbox =>
    refine .map ?_
    exact (emits_liftM _ (by simp)).mono fun _ _ _ => (Declarations.llvmType_of_box _ hbox).symm
  all_goals
    refine .map ?_
    exact emits_llvmType t

theorem emits_protocolMethod (this : Operand) (protocol method : String) :
    Emits env first w (protocolMethod this protocol method) True Anything := by
  unfold protocolMethod
  refine (emits_loadTag this).and_then fun tag _ _ _ => ?_
  refine (emits_conformanceOf tag protocol).and_then fun conformance _ _ _ => ?_
  refine (emits_liftM _ (by simp)).and_then fun selector _ _ _ => ?_
  refine .map ?_
  exact (emits_emitCall _ _ _).anything

theorem emits_genTypeExpr (t : Ty) :
    Emits env first w (genTypeExpr (.typeValue t)) True fun v _ => v.type = .ptr := by
  refine .map ?_
  exact (emits_liftM _ (by simp)).mono fun _ _ _ => rfl

/-! ### Operands -/

/--
The generator succeeds for an elaborated expression exactly if that can be generated,
and gives a value of the LLVM type of its type.
-/
def Generates (p : Package) (a : Arena) (generate : Generate) (slot : Slot) : Prop :=
  ∀ {env first w Γ}, env.package = p → env.arena = a → Elaborated p a Γ slot →
    Agrees p.declarations a Γ slot w.function.bindings →
    Emits env first w (generate slot) (Ready a Γ slot w.function.bindings) fun v _ =>
      v.type = p.declarations.llvmType (a.typeAt slot)

section Operands

variable {Γ : Context} {generate : Generate} {slot : Slot}

theorem emits_mapM_generate {args : List Slot}
    (hgen : ∀ c ∈ args, Generates env.package env.arena generate c)
    (hexpr : ∀ c ∈ args, Elaborated env.package env.arena Γ c)
    (hagree : ∀ c ∈ args, Agrees env.package.declarations env.arena Γ c w.function.bindings) :
    Emits env first w (args.mapM generate)
      (∀ c ∈ args, Ready env.arena Γ c w.function.bindings) fun vs _ =>
        vs.map (·.type) =
          args.map fun c => env.package.declarations.llvmType (env.arena.typeAt c) := by
  induction args generalizing w with
  | nil =>
      rw [List.mapM_nil]
      exact Emits.congr (.pure rfl) (by simp)
  | cons c args ih =>
      obtain ⟨hgenC, hgenRest⟩ := List.forall_mem_cons.mp hgen
      obtain ⟨helabC, helabRest⟩ := List.forall_mem_cons.mp hexpr
      obtain ⟨hagreeC, hagreeRest⟩ := List.forall_mem_cons.mp hagree
      rw [List.mapM_cons]
      rw [List.forall_mem_cons]
      refine .bind (hgenC rfl rfl helabC hagreeC) fun v w₁ hext hv => .map ?_
      rw [← hext.bindings_eq] at hagreeRest ⊢
      exact (ih hgenRest helabRest hagreeRest).mono fun vs _ hvs => congrArg₂ List.cons hv hvs

variable (hgen : ∀ c ∈ (env.arena.get slot).kind.operands,
    Generates env.package env.arena generate c)
  (hexpr : Elaborated env.package env.arena Γ slot)
  (hagree : Agrees env.package.declarations env.arena Γ slot w.function.bindings)
include hgen hexpr hagree

theorem emits_operand (hclosure : ∀ literal, (env.arena.get slot).kind ≠ .closure literal)
    {c : Slot} (hc : c ∈ (env.arena.get slot).kind.operands) :
    Emits env first w (generate c) (Ready env.arena Γ c w.function.bindings) fun v _ =>
      v.type = env.package.declarations.llvmType (env.arena.typeAt c) := by
  have hop := hexpr.operands c hc
  rw [Context.under_of_ne hclosure] at hop
  exact hgen c hc rfl rfl hop (hagree.operand hc)

theorem emits_operands (hclosure : ∀ literal, (env.arena.get slot).kind ≠ .closure literal)
    {args : List Slot} (hargs : ∀ c ∈ args, c ∈ (env.arena.get slot).kind.operands) :
    Emits env first w (args.mapM generate)
      (∀ c ∈ args, Ready env.arena Γ c w.function.bindings) fun vs _ =>
        vs.map (·.type) =
          args.map fun c => env.package.declarations.llvmType (env.arena.typeAt c) := by
  refine emits_mapM_generate (fun c hc => hgen c (hargs c hc)) (fun c hc => ?_)
    fun c hc => hagree.operand (hargs c hc)
  have hop := hexpr.operands c (hargs c hc)
  rwa [Context.under_of_ne hclosure] at hop

theorem emits_genCall {function : Ident} {arguments : Arguments} {id : FunctionId}
    (hk : (env.arena.get slot).kind = .call function arguments (some id)) :
    Emits env first w (genCall generate function arguments (some id))
      (Ready env.arena Γ slot w.function.bindings) fun v _ =>
        v.type = env.package.declarations.llvmType (env.package.signature id).ret := by
  have hclosure (literal : Closure) : (env.arena.get slot).kind ≠ .closure literal := by simp [hk]
  have hready : Ready env.arena Γ slot w.function.bindings ↔ _ :=
    ready_iff_operands hclosure (by simp [hk])
  rw [hready, hk]
  unfold genCall
  refine emits_read.and_then fun env' w₁ _ henv => ?_
  obtain ⟨rfl, rfl⟩ := henv
  refine (emits_resolved id function).and_then fun target w₂ _ htarget => ?_
  obtain ⟨rfl, rfl⟩ := htarget
  refine (emits_operands hgen hexpr hagree hclosure (by simp [hk, ExprKind.operands])).followed_by
    fun args _ _ _ => ?_
  refine (emits_llvmType _).and_then fun ret _ _ hret => ?_
  refine emits_declarations.and_then fun d _ _ _ => ?_
  refine (emits_liftM _ (by simp)).and_then fun callee _ _ _ => ?_
  exact (emits_emitCall ret _ args).mono fun v _ hv => hv.1.trans hret

theorem emits_genMethodCall {receiver : Slot} {method : Ident} {arguments : Arguments}
    {id : FunctionId}
    (hk : (env.arena.get slot).kind = .methodCall receiver method arguments (some id)) :
    Emits env first w (genMethodCall generate receiver method arguments (some id))
      (Ready env.arena Γ slot w.function.bindings) fun v _ =>
        v.type = env.package.declarations.llvmType (env.package.signature id).ret := by
  have hclosure (literal : Closure) : (env.arena.get slot).kind ≠ .closure literal := by simp [hk]
  have hready : Ready env.arena Γ slot w.function.bindings ↔ _ :=
    ready_iff_operands hclosure (by simp [hk])
  rw [hready, hk]
  unfold genMethodCall
  refine emits_read.and_then fun env' w₁ _ henv => ?_
  obtain ⟨rfl, rfl⟩ := henv
  refine (emits_resolved id method).and_then fun target w₂ _ htarget => ?_
  obtain ⟨rfl, rfl⟩ := htarget
  show Emits _ _ _ _ (∀ c ∈ receiver :: arguments.args, _) _
  rw [List.forall_mem_cons]
  refine (emits_operand hgen hexpr hagree hclosure (by simp [hk, ExprKind.operands])).bind
    fun this w₃ hext _ => ?_
  rw [← hext.bindings_eq] at hagree ⊢
  refine (emits_operands hgen hexpr hagree hclosure (by simp +contextual [hk, ExprKind.operands])).followed_by
    fun args _ _ _ => ?_
  refine (emits_llvmType _).and_then fun ret _ _ hret => ?_
  have hcall (callee : Operand) (w : World) : Emits env' first w (emitCall ret callee (this :: args))
      True fun v _ =>
        v.type = env'.package.declarations.llvmType (env'.package.signature target).ret :=
    (emits_emitCall ret callee _).mono fun v _ hv => hv.1.trans hret
  dsimp only
  split
  next => exact (emits_protocolMethod _ _ _).and_then fun callee _ _ _ => hcall callee _
  next =>
    refine emits_declarations.and_then fun d _ _ _ => ?_
    refine (emits_liftM _ (by simp)).and_then fun symbol _ _ _ => ?_
    rw [pure_bind]
    exact hcall _ _

theorem emits_genInvoke {callee : Slot} {args : List Slot} {params : List Ty} {ret : Ty}
    (hk : (env.arena.get slot).kind = .invoke callee args)
    (hcallee : (env.arena.typeAt callee).unboxed = .callable params ret) :
    Emits env first w (genInvoke generate callee args)
      (Ready env.arena Γ slot w.function.bindings) fun v _ =>
        v.type = env.package.declarations.llvmType ret := by
  have hclosure (literal : Closure) : (env.arena.get slot).kind ≠ .closure literal := by simp [hk]
  have hready : Ready env.arena Γ slot w.function.bindings ↔ _ :=
    ready_iff_operands hclosure (by simp [hk])
  have hmem : callee ∈ (env.arena.get slot).kind.operands := by simp [hk, ExprKind.operands]
  rw [hready, hk]
  unfold genInvoke
  refine (emits_typeOf (hexpr.operands callee hmem).nodeOk.typed).and_then fun t w₁ _ ht => ?_
  obtain ⟨rfl, rfl⟩ := ht
  rw [hcallee]
  show Emits _ _ _ _ (∀ c ∈ callee :: args, _) _
  rw [List.forall_mem_cons]
  refine (emits_operand hgen hexpr hagree hclosure hmem).bind fun callable w₂ h₂ _ => ?_
  refine (emits_loadWord _ 0).and_then fun function w₃ h₃ _ => ?_
  refine (emits_loadWord _ 1).and_then fun bound w₄ h₄ _ => ?_
  rw [← ((h₂.trans h₃).trans h₄).bindings_eq] at hagree ⊢
  refine (emits_operands hgen hexpr hagree hclosure (by simp +contextual [hk, ExprKind.operands])).followed_by
    fun values _ _ _ => ?_
  refine (emits_llvmType ret).and_then fun type _ _ htype => ?_
  exact (emits_emitCall type _ _).mono fun v _ hv => hv.1.trans htype

end Operands

end Emit

end Boxlang
