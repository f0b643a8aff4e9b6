import Boxlang.Package
import Boxlang.Proofs.Arena.Forest

/-!
# Expressions that lose their type

Where the types of some names are lost, an expression has no type of its own if it is
such a name, or an unwrapping, an invocation or a conversion of an expression that has
none (`Arena.Loses`).  The arguments of an invocation whose callee has no type are not
looked at any more; `Arena.Remains` tells the nodes that still are.  All other uses of
a value without type are fine but two: that a method is called on it, and that a generic
argument is inferred from it (`Arena.Tolerates`).
-/

namespace Boxlang

/-- The operand whose loss of type a node shares. -/
def ExprKind.carrier? : ExprKind → Option Slot
  | .unwrap inner | .conversion inner _ | .invoke inner _ => some inner
  | _ => none

namespace Arena

variable {a : Arena} {roots : List Slot} {root slot c x : Slot} {k : Nat} {name : String}
  {X : String → Prop} {lost : Slot → String → Prop}

/-! ### Names -/

/-- Whether a closure in the expression in `root` that is around `slot` has a parameter of that name. -/
def Rebinds (a : Arena) (root slot : Slot) (name : String) : Prop :=
  ∃ c literal, a.Reaches root c ∧ (a.get c).kind = .closure literal ∧
    a.Reaches literal.body slot ∧ name ∈ literal.params.map (·.name.name)

/-- Those of some names that mean in `slot` what they mean around the expression in `root`. -/
def visibleAt (a : Arena) (root : Slot) (X : String → Prop) (slot : Slot) (name : String) : Prop :=
  X name ∧ ¬ a.Rebinds root slot name

section Forest

variable (hf : a.IsForest roots) (hroot : a.Level roots k root)
include hf

theorem rebinds_operand (hr : a.Reaches root slot) (hc : c ∈ (a.get slot).kind.operands) :
    a.Rebinds root c name ↔ a.Rebinds root slot name ∨
      ∃ literal, (a.get slot).kind = .closure literal ∧ name ∈ literal.params.map (·.name.name) := by
  constructor
  · rintro ⟨y, literal, hy, hkind, hreach, hname⟩
    cases hreach with
    | refl =>
        have hbody : literal.body ∈ (a.get y).kind.operands := by simp [hkind, ExprKind.operands]
        obtain rfl := hf.eq_of_mem _ _ _ hbody hc
        exact .inr ⟨literal, hkind, hname⟩
    | tail hz hmem =>
        obtain rfl := hf.eq_of_mem _ _ _ hmem hc
        exact .inl ⟨y, literal, hy, hkind, hz, hname⟩
  · rintro (⟨y, literal, hy, hkind, hreach, hname⟩ | ⟨literal, hkind, hname⟩)
    · exact ⟨y, literal, hy, hkind, .tail hreach hc, hname⟩
    · obtain rfl : c = literal.body := by simpa [hkind, ExprKind.operands] using hc
      exact ⟨slot, literal, hr, hkind, .refl a _, hname⟩

/-- The operands of a node that is no closure see the names that it sees. -/
theorem visibleAt_operand (hr : a.Reaches root slot) (hc : c ∈ (a.get slot).kind.operands)
    (hkind : ∀ literal, (a.get slot).kind ≠ .closure literal) :
    a.visibleAt root X c = a.visibleAt root X slot := by
  funext name
  simp only [visibleAt, rebinds_operand hf hr hc, hkind, false_and, exists_false, or_false]

theorem visibleAt_body (hr : a.Reaches root slot) {literal : Closure}
    (hkind : (a.get slot).kind = .closure literal) : a.visibleAt root X literal.body = fun name =>
      a.visibleAt root X slot name ∧ name ∉ literal.params.map (·.name.name) := by
  funext name
  have hbody : literal.body ∈ (a.get slot).kind.operands := by simp [hkind, ExprKind.operands]
  simp only [visibleAt, rebinds_operand hf hr hbody, hkind, ExprKind.closure.injEq, exists_eq_left',
    not_or, and_assoc]

include hroot

theorem not_reaches_root (hr : a.Reaches root slot) (hc : c ∈ (a.get slot).kind.operands) :
    ¬ a.Reaches c root := by
  intro hreach
  obtain ⟨j, -, hslot⟩ := IsForest.exists_level_of_reaches hroot hr
  exact hf.not_reaches_parent hslot hc (hreach.trans hr)

theorem visibleAt_root : a.visibleAt root X root = X := by
  funext name
  refine propext (and_iff_left ?_)
  rintro ⟨y, literal, hy, hkind, hreach, -⟩
  exact not_reaches_root hf hroot hy (by simp [hkind, ExprKind.operands]) hreach

end Forest

/-! ### Losses -/

/-- Whether an untyped expression has no type of its own, where the names told by `lost` have none. -/
inductive Loses (a : Arena) (lost : Slot → String → Prop) : Slot → Prop
  | name {slot : Slot} {name : Ident} {id? : Option VariableId} : (a.get slot).type? = none →
      (a.get slot).kind = .localRef name id? → lost slot name.name → Loses a lost slot
  | carried {slot c : Slot} : (a.get slot).type? = none → (a.get slot).kind.carrier? = some c →
      Loses a lost c → Loses a lost slot

theorem loses_localRef_iff (ht : (a.get slot).type? = none) {name : Ident} {id? : Option VariableId}
    (hkind : (a.get slot).kind = .localRef name id?) : a.Loses lost slot ↔ lost slot name.name := by
  constructor
  · rintro (⟨-, hk, hlost⟩ | ⟨-, hk, -⟩)
    · rw [hkind] at hk
      cases hk
      exact hlost
    · simp [hkind, ExprKind.carrier?] at hk
  · exact .name ht hkind

theorem loses_carrier_iff (ht : (a.get slot).type? = none) (hc : (a.get slot).kind.carrier? = some c) :
    a.Loses lost slot ↔ a.Loses lost c := by
  constructor
  · rintro (⟨-, hk, -⟩ | ⟨-, hk, hloses⟩)
    · simp [hk, ExprKind.carrier?] at hc
    · rw [hc] at hk
      cases hk
      exact hloses
  · exact .carried ht hc

theorem not_loses (hc : (a.get slot).kind.carrier? = none)
    (hlocal : ∀ name id?, (a.get slot).kind ≠ .localRef name id?) : ¬ a.Loses lost slot := by
  rintro (⟨-, hk, -⟩ | ⟨-, hk, -⟩)
  · exact hlocal _ _ hk
  · simp [hc] at hk

theorem not_loses_of_typed {t : Ty} (ht : (a.get slot).type? = some t) : ¬ a.Loses lost slot := by
  rintro (⟨hn, -, -⟩ | ⟨hn, -, -⟩)
  all_goals simp [ht] at hn

/-! ### Nodes that are looked at -/

/-- The nodes of the expression in `root` that are looked at even where types are lost. -/
inductive Remains (a : Arena) (lost : Slot → String → Prop) (root : Slot) : Slot → Prop
  | root : Remains a lost root root
  | operand {slot c : Slot} : Remains a lost root slot → c ∈ (a.get slot).kind.operands →
      (∀ callee args, (a.get slot).kind = .invoke callee args → a.Loses lost callee → c = callee) →
      Remains a lost root c

theorem Remains.reaches (h : a.Remains lost root x) : a.Reaches root x := by
  induction h with
  | root => exact .refl a root
  | operand _ hc _ ih => exact ih.tail hc

/-- The arguments of an invocation whose callee has lost its type share no node with the rest. -/
theorem Remains.not_reaches (hf : a.IsForest roots) (hroot : a.Level roots k root)
    (h : a.Remains lost root x) (hr : a.Reaches root slot) {callee : Slot} {args : List Slot}
    (hkind : (a.get slot).kind = .invoke callee args) (hloses : a.Loses lost callee) {arg : Slot}
    (harg : arg ∈ args) : ¬ a.Reaches arg x := by
  have hmem : arg ∈ (a.get slot).kind.operands := by simp [hkind, ExprKind.operands, harg]
  induction h with
  | root => exact not_reaches_root hf hroot hr hmem
  | @operand y x _ hx honly ih =>
      intro hreach
      cases hreach with
      | refl =>
          obtain rfl := hf.eq_of_mem _ _ _ hx hmem
          have hnodup := hf.operands_nodup y
          rw [hkind] at hnodup
          exact (List.nodup_cons.mp hnodup).1 (honly callee args hkind hloses ▸ harg)
      | tail hz hmem' =>
          obtain rfl := hf.eq_of_mem _ _ _ hmem' hx
          exact ih hz

/-! ### Uses that cannot do without a type -/

end Arena

/-- Whether no generic argument of a call of `target` is inferred from an argument without type. -/
def Signature.InfersWithout (target : Signature) (loses : Slot → Prop) (arguments : Arguments) : Prop :=
  arguments.written = [] → target.isGeneric = true →
    ∀ q ∈ target.params.zip arguments.args, q.1.type.mentionsLocalGenerics = true → ¬ loses q.2

/--
Whether an untyped node calls no method on an expression without type, and infers no
generic argument from one.
-/
def Arena.Tolerates (a : Arena) (p : Package) (loses : Slot → Prop) (slot : Slot) : Prop :=
  (a.get slot).type? = none →
    match (a.get slot).kind with
    | .call function arguments _ =>
      ∀ id, p.function? function.name = some id → (p.signature id).InfersWithout loses arguments
    | .methodCall receiver method arguments _ => ¬ loses receiver ∧
      ∀ t id, p.method? t method.name = some id → (p.signature id).InfersWithout loses arguments
    | _ => True

end Boxlang
