import Boxlang.Proofs.Emit.Body

/-!
# Checking the types of values

A generator that checks every value it gives against the type that analysis gave the
expression (`Emit.checked`).  As long as no check fails, it runs as the generator
without checks does (`Emit.Refines`), and on elaborated bodies no check fails.
-/

namespace Boxlang

namespace Emit

open Llvm

/-! ### Checks -/

def check (slot : Slot) (v : Value) : Emit Value := do
  let t := (← read).arena.typeAt slot
  if v.type = (← llvmType t) then
    return v
  else
    unsupported (.adapting v.type.text t.text)

def checked (generate : Generate) : Generate := fun slot => do
  check slot (← generate slot)

/-- `genExprWithin`, with a check of the value of every node. -/
def genCheckedWithin : Nat → Generate
  | 0 => fun _ => unsupported .cyclicExpression
  | n + 1 => checked (genNode (genCheckedWithin n))

/-- `genExpr`, with a check of the value of every node. -/
def genChecked : Generate := fun slot => do
  genCheckedWithin (← read).arena.size slot

/-! ### Checks that do not fail -/

/-- The first step runs as the second does, unless a check fails. -/
def Refines {α : Type} (step step' : Emit α) : Prop :=
  ∀ env w, step.runIn env w = step'.runIn env w ∨
    ∃ source target w', step.runIn env w = (.error (.unsupported (.adapting source target)), w')

namespace Refines

variable {α β : Type} {step step' : Emit α} {next next' : α → Emit β}

theorem refl (step : Emit α) : Refines step step :=
  fun _ _ => .inl rfl

theorem bind (h : Refines step step') (hnext : ∀ a, Refines (next a) (next' a)) :
    Refines (step >>= next) (step' >>= next') := by
  intro env w
  rcases h env w with heq | ⟨source, target, w', hfails⟩
  · rw [runIn_bind, runIn_bind, heq]
    rcases step'.runIn env w with ⟨e | a, w'⟩
    · exact .inl rfl
    · exact hnext a env w'
  · exact .inr ⟨source, target, w', by rw [runIn_bind, hfails]⟩

theorem after (step : Emit α) (hnext : ∀ a, Refines (next a) (next' a)) :
    Refines (step >>= next) (step >>= next') :=
  (refl step).bind hnext

theorem followed_by (h : Refines step step') (next : α → Emit β) :
    Refines (step >>= next) (step' >>= next) :=
  h.bind fun a => refl (next a)

theorem mapM {generate generate' : α → Emit β} (h : ∀ a, Refines (generate a) (generate' a))
    (l : List α) : Refines (l.mapM generate) (l.mapM generate') := by
  induction l with
  | nil => exact refl _
  | cons a l ih =>
      rw [List.mapM_cons, List.mapM_cons]
      exact (h a).bind fun _ => ih.followed_by _

theorem nested (h : Refines step step') (name : String) (count : Nat) (style : ArgumentStyle) :
    Refines (nested name count style step) (nested name count style step') := by
  intro env w
  rw [runIn_nested, runIn_nested]
  rcases h { env with name, variableCount := count, style } ⟨.start count, w.refs⟩ with
    heq | ⟨source, target, w', hfails⟩
  · exact .inl (by rw [heq])
  · exact .inr ⟨source, target, ⟨w.function, w'.refs⟩, by rw [hfails]⟩

end Refines

/-! ### Erasing the checks -/

theorem runIn_check (slot : Slot) (v : Value) (env : FunctionEnv) (w : World) :
    (check slot v).runIn env w =
      if v.type = env.package.declarations.llvmType (env.arena.typeAt slot) then (.ok v, w)
      else (.error (.unsupported (.adapting v.type.text (env.arena.typeAt slot).text)), w) := by
  have hrun : (check slot v).runIn env w = Emit.runIn (if v.type =
      env.package.declarations.llvmType (env.arena.typeAt slot) then pure v else
        unsupported (.adapting v.type.text (env.arena.typeAt slot).text)) env w := rfl
  rw [hrun]
  split <;> rfl

theorem refines_check (slot : Slot) (v : Value) : Refines (check slot v) (pure v) := by
  intro env w
  rw [runIn_check]
  split
  next => exact .inl rfl
  next => exact .inr ⟨_, _, w, rfl⟩

section Erasure

variable {generate generate' : Generate} (h : ∀ c, Refines (generate c) (generate' c))
include h

theorem refines_checked (slot : Slot) : Refines (checked generate slot) (generate' slot) := by
  rw [← bind_pure (generate' slot)]
  exact (h slot).bind (refines_check slot)

theorem refines_genNode (slot : Slot) : Refines (genNode generate slot) (genNode generate' slot) := by
  unfold genNode
  refine .after _ fun e => .after _ fun t => ?_
  cases e.kind with
  | call function arguments target? =>
      refine .after _ fun env => .after _ fun target => ?_
      exact (Refines.mapM h _).followed_by _
  | methodCall receiver method arguments target? =>
      refine .after _ fun env => .after _ fun target => ?_
      exact (h receiver).bind fun this => (Refines.mapM h _).followed_by _
  | invoke callee args =>
      show Refines (genInvoke generate callee args) (genInvoke generate' callee args)
      refine .after _ fun t => ?_
      split
      next =>
        refine (h callee).bind fun callable => ?_
        refine .after _ fun function => .after _ fun bound => ?_
        exact (Refines.mapM h _).followed_by _
      next => exact .refl _
  | closure literal =>
      show Refines (genClosure generate literal t) (genClosure generate' literal t)
      unfold genClosure
      split
      next params ret _ =>
        refine .after _ fun captured => .after _ fun env => .after _ fun name => ?_
        refine .followed_by (.nested ?_ _ _ _) _
        refine .after _ fun types => .after _ fun declared => ?_
        exact (h literal.body).followed_by _
      next => exact .refl _
  | unwrap inner => exact h inner
  | conversion inner op =>
      show Refines (genConversion generate inner op t) (genConversion generate' inner op t)
      refine .after _ fun e => .after _ fun folded => ?_
      split
      next => exact .refl _
      next => exact (h inner).followed_by _
  | _ => exact .refl _

theorem refines_genStmt (stmt : Stmt) : Refines (genStmt generate stmt) (genStmt generate' stmt) := by
  cases stmt with
  | letStmt stmt =>
      refine .after _ fun id => ?_
      split
      next => exact .refl _
      next init _ => exact (h init).followed_by _
  | assign stmt => exact (h stmt.value).followed_by _
  | expr slot =>
      show Refines ((fun _ => ()) <$> generate slot) ((fun _ => ()) <$> generate' slot)
      rw [← bind_pure_comp, ← bind_pure_comp]
      exact (h slot).followed_by _
  | ret stmt =>
      unfold genStmt
      dsimp only
      split
      next slot _ => exact (h slot).followed_by _
      next => exact .refl _

theorem refines_genStmts (stmts : List Stmt) :
    Refines (genStmts generate stmts) (genStmts generate' stmts) := by
  induction stmts with
  | nil => exact .refl _
  | cons stmt stmts ih =>
      refine .after _ fun s => ?_
      split
      next => exact .refl _
      next => exact (refines_genStmt h stmt).bind fun _ => ih

theorem refines_genBody (f : Signature) (stmts : List Stmt) :
    Refines (genBody generate f stmts) (genBody generate' f stmts) := by
  refine .after _ fun types => .after _ fun declared => ?_
  exact (refines_genStmts h stmts).followed_by _

end Erasure

theorem refines_genCheckedWithin (n : Nat) (slot : Slot) :
    Refines (genCheckedWithin n slot) (genExprWithin n slot) := by
  induction n generalizing slot with
  | zero => exact .refl _
  | succ n ih => exact refines_checked (refines_genNode ih) slot

theorem refines_genChecked (slot : Slot) : Refines (genChecked slot) (genExpr slot) :=
  .after _ fun env => refines_genCheckedWithin env.arena.size slot

/-! ### Elaborated bodies -/

theorem emits_check {env : FunctionEnv} {first : Nat} {w : World} {slot : Slot} {v : Value}
    (h : v.type = env.package.declarations.llvmType (env.arena.typeAt slot)) :
    Emits env first w (check slot v) True fun u _ => u = v :=
  .of_runIn ((runIn_check slot v env w).trans (if_pos h)) (.refl w) rfl

section Elaborated

variable {p : Package} {a : Arena} {generate : Generate} {slot : Slot}

theorem generates_checked (h : Generates p a generate slot) :
    Generates p a (checked generate) slot := by
  intro env first w Γ hp ha hexpr hagree
  refine (h hp ha hexpr hagree).followed_by fun v w₁ _ hv => ?_
  subst hp ha
  exact (emits_check hv).mono fun u _ hu => hu ▸ hv

theorem generates_genCheckedWithin {n : Nat} (h : a.IsWithin n slot) :
    Generates p a (genCheckedWithin n) slot := by
  induction n generalizing slot with
  | zero => exact h.elim
  | succ n ih => exact generates_checked (generates_genNode fun c hc => ih (h c hc))

theorem generates_genChecked (p : Package) (a : Arena) (slot : Slot) :
    Generates p a genChecked slot := by
  intro env first w Γ hp ha hexpr hagree
  subst hp ha
  unfold genChecked
  refine emits_read.and_then fun env' w₁ _ henv => ?_
  obtain ⟨rfl, rfl⟩ := henv
  exact generates_genCheckedWithin hexpr.isWithin_size rfl rfl hexpr hagree

end Elaborated

/-- In elaborated bodies all values have the LLVM types of the types that analysis gave. -/
theorem runIn_genBody_genChecked (env : FunctionEnv) {f : Signature} {stmts : List Stmt}
    {count : Nat} {m : ModuleState} (hstyle : env.style = styleOf f)
    (hok : StmtsOk env.package f.ret env.arena (.ofSignature f) stmts) :
    (genBody genChecked f stmts).runIn env ⟨.start count, m⟩ =
      (genFunction f stmts).runIn env ⟨.start count, m⟩ := by
  rcases refines_genBody refines_genChecked f stmts env ⟨.start count, m⟩ with
    heq | ⟨source, target, w', hfails⟩
  · exact heq
  · obtain ⟨id, hid⟩ := (meets_genBody (generates_genChecked _ _) hstyle hok).error _ _ hfails
    cases hid

end Emit

end Boxlang
