import Boxlang.Emit.Body
import Boxlang.Proofs.Elaboration.Statement
import Boxlang.Proofs.Emit.Expr

/-!
# Variables and their stack slots

What holds of the state between the statements of a function (`Emit.Inside`): the
variables declared so far are bound to values of their types, or to stack slots for
them, and nothing else has been stored in a stack slot than values of its type.
-/

namespace Boxlang

namespace Emit

open Llvm

/-- A register that no instruction so far makes room in but for values of the given type. -/
structure World.HasRoom (w : World) (r : Nat) (type : LType) : Prop where
  lt : r < w.function.nextRegister
  type_eq : ∀ t, .alloca r t ∈ w.function.code → t = type

/-- A variable as bound: to a value of its type or, if it is mutable, to room for one. -/
structure LocalVariable.Fits (d : Declarations) (w : World) (v : Variable) (b : LocalVariable) :
    Prop where
  isMutable_eq : b.isMutable = v.isMutable
  type_eq : b.value.type = d.llvmType v.type
  room : b.isMutable = true → b.value.isVoid = false →
    ∃ r, b.value.operand = .register r ∧ w.HasRoom r b.value.type

/-- The code of a function that returns `ret`, up to some place inside it. -/
structure CodeOk (env : FunctionEnv) (ret : LType) (m : ModuleState) (w : World) : Prop where
  alloca_lt : ∀ r t, .alloca r t ∈ w.function.code → r < w.function.nextRegister
  store_lt : ∀ v r, .store v (.register r) ∈ w.function.code → r < w.function.nextRegister
  store_type : ∀ v r t, .store v (.register r) ∈ w.function.code →
    .alloca r t ∈ w.function.code → v.type = t
  exits : ∀ exit ∈ w.function.exits, exit.Returns ret
  synthesized : Appends (Synthesized.IsMade env.package env.arena) m.synthesized w.refs.synthesized

/--
The state between two statements.  An immutable variable without a value is not bound,
because its one assignment will bind it.
-/
structure Inside (env : FunctionEnv) (ret : LType) (m : ModuleState) (L : Locals) (w : World) : Prop
    extends CodeOk env ret m w where
  returned_eq : w.function.returned = false
  bound : ∀ id v, L id = some v → v.hasValue = true ∨ v.isMutable = true →
    ∃ b, w.function.bindings.get? id = some b ∧ b.Fits env.package.declarations w v
  unbound : ∀ id v, L id = some v → v.hasValue = false → v.isMutable = false →
    w.function.bindings.get? id = none
  undeclared : ∀ id, L id = none → w.function.bindings.get? id = none

variable {env : FunctionEnv} {ret : LType} {m : ModuleState} {L : Locals} {w w' : World}

/-! ### Code that only adds -/

theorem World.HasRoom.extends {r : Nat} {type : LType} {first : Nat} {p : Package} {a : Arena}
    (h : w.HasRoom r type) (hext : Extends p a first w w') : w'.HasRoom r type := by
  refine ⟨Nat.lt_of_lt_of_le h.lt hext.nextRegister_le, fun t ht => ?_⟩
  rcases hext.code.mem ht with hold | hnew
  · exact h.type_eq t hold
  · exact hnew.elim

theorem CodeOk.extends (h : CodeOk env ret m w)
    (hext : Extends env.package env.arena w.function.nextRegister w w') : CodeOk env ret m w' := by
  have halloca (r : Nat) (t : LType) (hmem : .alloca r t ∈ w'.function.code) :
      .alloca r t ∈ w.function.code := by
    rcases hext.code.mem hmem with hold | hnew
    · exact hold
    · exact hnew.elim
  refine ⟨fun r t hmem => ?_, fun v r hmem => ?_, fun v r t hstore hmem => ?_, fun exit hmem => ?_,
    h.synthesized.trans hext.synthesized⟩
  · exact Nat.lt_of_lt_of_le (h.alloca_lt r t (halloca r t hmem)) hext.nextRegister_le
  · rcases hext.code.mem hmem with hold | hnew
    · exact Nat.lt_of_lt_of_le (h.store_lt v r hold) hext.nextRegister_le
    · exact hnew.2
  · rcases hext.code.mem hstore with hold | hnew
    · exact h.store_type v r t hold (halloca r t hmem)
    · exact absurd (h.alloca_lt r t (halloca r t hmem)) (Nat.not_lt_of_le hnew.1)
  · rcases hext.exits.mem hmem with hold | hnew
    · exact h.exits exit hold
    · exact Terminator.returns_of_not_isReturn hnew ret

/-- Whatever keeps the bindings and the room there is keeps what holds of variables. -/
theorem Inside.of_codeOk (h : Inside env ret m L w) (hcode : CodeOk env ret m w')
    (hbindings : w'.function.bindings = w.function.bindings)
    (hreturned : w'.function.returned = w.function.returned)
    (hroom : ∀ r t, w.HasRoom r t → w'.HasRoom r t) : Inside env ret m L w' where
  toCodeOk := hcode
  returned_eq := hreturned.trans h.returned_eq
  bound id v hv hvalue := by
    obtain ⟨b, hb, hfits⟩ := h.bound id v hv hvalue
    refine ⟨b, by rw [hbindings, hb], hfits.isMutable_eq, hfits.type_eq, fun hm hvoid => ?_⟩
    obtain ⟨r, hr, hr'⟩ := hfits.room hm hvoid
    exact ⟨r, hr, hroom r _ hr'⟩
  unbound id v hv hvalue hm := by rw [hbindings, h.unbound id v hv hvalue hm]
  undeclared id hid := by rw [hbindings, h.undeclared id hid]

theorem Inside.extends (h : Inside env ret m L w)
    (hext : Extends env.package env.arena w.function.nextRegister w w') : Inside env ret m L w' :=
  h.of_codeOk (h.toCodeOk.extends hext) hext.bindings_eq hext.returned_eq
    fun _ _ hroom => hroom.extends hext

/-! ### Expressions of statements -/

section Expressions

variable {c : Slot} (h : Inside env ret m L w)
  (hexpr : Elaborated env.package env.arena L.context c)
include h hexpr

/-- Between statements, variables agree with every expression that reads those with a value. -/
theorem Inside.agrees :
    Agrees env.package.declarations env.arena L.context c w.function.bindings := by
  intro id t b hread hid hb
  obtain ⟨v, hv, rfl, hvalue⟩ := hexpr.context_of_readsAs hread hid
  obtain ⟨b', hb', hfits⟩ := h.bound id v hv (.inl hvalue)
  obtain rfl : b' = b := Option.some.inj (hb'.symm.trans hb)
  exact hfits.type_eq

omit hexpr in
theorem Inside.ready_iff :
    Ready env.arena L.context c w.function.bindings ↔ ¬ env.arena.CapturesNothing c := by
  refine ⟨fun hready => hready.not_captures, fun hnot => ⟨fun id _ hid => ?_, hnot⟩⟩
  obtain ⟨t, v, hv, rfl, hvalue⟩ := hid
  obtain ⟨b, hb, -⟩ := h.bound id v hv (.inl hvalue)
  rw [hb]
  rfl

/-- The expression of a statement can be generated exactly if no closure captures nothing. -/
theorem Inside.meets_generate {generate : Generate}
    (hgen : Generates env.package env.arena generate c) :
    Meets env w (generate c) (¬ env.arena.CapturesNothing c) fun v w' =>
      Inside env ret m L w' ∧
        v.type = env.package.declarations.llvmType (env.arena.typeAt c) := by
  rw [← h.ready_iff]
  exact (hgen rfl rfl hexpr (h.agrees hexpr) (Nat.le_refl _)).mono fun v w' ⟨hext, hv⟩ =>
    ⟨h.extends hext, hv⟩

end Expressions

/-! ### Declarations and assignments -/

/-- What is known of one variable changes, and how it is bound. -/
theorem Inside.set (h : Inside env ret m L w) {id : VariableId} {v : Variable}
    {bindings : Slots LocalVariable}
    (hothers : ∀ id', id' ≠ id → bindings.get? id' = w.function.bindings.get? id')
    (hbound : v.hasValue = true ∨ v.isMutable = true →
      ∃ b, bindings.get? id = some b ∧ b.Fits env.package.declarations w v)
    (hunbound : v.hasValue = false → v.isMutable = false → bindings.get? id = none) :
    Inside env ret m (L.set id v) ⟨{ w.function with bindings }, w.refs⟩ := by
  have hfits (v' : Variable) (b : LocalVariable) (hb : b.Fits env.package.declarations w v') :
      b.Fits env.package.declarations ⟨{ w.function with bindings }, w.refs⟩ v' :=
    ⟨hb.isMutable_eq, hb.type_eq, fun hm hv =>
      let ⟨r, hr, hroom⟩ := hb.room hm hv
      ⟨r, hr, hroom.lt, hroom.type_eq⟩⟩
  have hself (v' : Variable) (hv' : L.set id v id = some v') : v' = v :=
    Option.some.inj (hv'.symm.trans (L.set_self id v))
  refine ⟨⟨h.alloca_lt, h.store_lt, h.store_type, h.exits, h.synthesized⟩, h.returned_eq,
    fun id' v' hv' hvalue => ?_, fun id' v' hv' hvalue hm => ?_, fun id' hid' => ?_⟩
  all_goals by_cases heq : id' = id
  · subst heq
    obtain rfl := hself v' hv'
    obtain ⟨b, hb, hb'⟩ := hbound hvalue
    exact ⟨b, hb, hfits v' b hb'⟩
  · rw [L.set_of_ne heq] at hv'
    obtain ⟨b, hb, hb'⟩ := h.bound id' v' hv' hvalue
    exact ⟨b, (hothers id' heq).trans hb, hfits v' b hb'⟩
  · subst heq
    obtain rfl := hself v' hv'
    exact hunbound hvalue hm
  · rw [L.set_of_ne heq] at hv'
    exact (hothers id' heq).trans (h.unbound id' v' hv' hvalue hm)
  · subst heq
    rw [L.set_self] at hid'
    cases hid'
  · rw [L.set_of_ne heq] at hid'
    exact (hothers id' heq).trans (h.undeclared id' hid')

theorem Inside.meets_bind (h : Inside env ret m L w) {id : VariableId} {v : Variable}
    {b : LocalVariable} (hfits : b.Fits env.package.declarations w v)
    (hv : v.hasValue = true ∨ v.isMutable = true) :
    Meets env w (bindVariable id b) True fun _ w' => Inside env ret m (L.set id v) w' := by
  refine .of_runIn (runIn_modify _) (h.set (fun id' heq => Slots.get?_set_of_ne _ heq _)
    (fun _ => ⟨b, Slots.get?_set_self _ _ _, hfits⟩) fun hvalue hm => ?_)
  rcases hv with hv | hv
  · rw [hv] at hvalue
    cases hvalue
  · rw [hv] at hm
    cases hm

theorem Inside.declare (h : Inside env ret m L w) {id : VariableId} (hid : L id = none) (t : Ty) :
    Inside env ret m (L.set id ⟨t, false, false⟩) w :=
  h.set (fun _ _ => rfl) (by simp) fun _ _ => h.undeclared id hid

theorem Inside.assign (h : Inside env ret m L w) {id : VariableId} {v : Variable}
    (hv : L id = some v) (hm : v.isMutable = true) :
    Inside env ret m (L.set id { v with hasValue := true }) w := by
  obtain ⟨b, hb, hfits⟩ := h.bound id v hv (.inr hm)
  exact h.set (fun _ _ => rfl) (fun _ => ⟨b, hb, hfits.isMutable_eq, hfits.type_eq, hfits.room⟩)
    (by simp)

theorem Inside.meets_alloca (h : Inside env ret m L w) (type : LType) :
    Meets env w (define (.alloca · type)) True fun o w' => Inside env ret m L w' ∧
      ∃ r, o = .register r ∧ w'.HasRoom r type := by
  let n := w.function.nextRegister
  let w' : World :=
    ⟨{ w.function with nextRegister := n + 1, body := w.function.body ++ [.alloca n type] }, w.refs⟩
  have hcode : w'.function.code = w.function.code ++ [.alloca n type] :=
    (List.append_assoc _ _ _).symm
  have halloca (r : Nat) (t : LType) (hmem : .alloca r t ∈ w'.function.code) :
      .alloca r t ∈ w.function.code ∨ r = n ∧ t = type := by
    rw [hcode] at hmem
    simpa using hmem
  have hstore (v : Value) (r : Nat) (hmem : .store v (.register r) ∈ w'.function.code) :
      .store v (.register r) ∈ w.function.code := by
    rw [hcode] at hmem
    simpa using hmem
  have hle : n ≤ w'.function.nextRegister := Nat.le_succ n
  refine .of_runIn (a := .register n) (v := w') rfl ⟨h.of_codeOk ⟨fun r t hmem => ?_,
    fun v r hmem => ?_, fun v r t hs hmem => ?_, h.exits, h.synthesized⟩ rfl rfl
    fun r t hroom => ⟨Nat.lt_of_lt_of_le hroom.lt hle, fun t' hmem => ?_⟩, n, rfl,
    Nat.lt_succ_self n, fun t hmem => ?_⟩
  · rcases halloca r t hmem with hold | ⟨rfl, -⟩
    · exact Nat.lt_of_lt_of_le (h.alloca_lt r t hold) hle
    · exact Nat.lt_succ_self n
  · exact Nat.lt_of_lt_of_le (h.store_lt v r (hstore v r hmem)) hle
  · rcases halloca r t hmem with hold | ⟨rfl, -⟩
    · exact h.store_type v r t (hstore v r hs) hold
    · exact absurd (h.store_lt v n (hstore v n hs)) (Nat.lt_irrefl n)
  · rcases halloca r t' hmem with hold | ⟨rfl, -⟩
    · exact hroom.type_eq t' hold
    · exact absurd hroom.lt (Nat.lt_irrefl n)
  · rcases halloca n t hmem with hold | ⟨-, rfl⟩
    · exact absurd (h.alloca_lt n t hold) (Nat.lt_irrefl n)
    · rfl

theorem Inside.meets_store (h : Inside env ret m L w) {r : Nat} {v : Value}
    (hroom : w.HasRoom r v.type) :
    Meets env w (emit (.store v (.register r))) True fun _ w' => Inside env ret m L w' ∧
      w'.HasRoom r v.type := by
  let w' : World :=
    ⟨{ w.function with body := w.function.body ++ [.store v (.register r)] }, w.refs⟩
  have hcode : w'.function.code = w.function.code ++ [.store v (.register r)] :=
    (List.append_assoc _ _ _).symm
  have halloca (r' : Nat) (t : LType) (hmem : .alloca r' t ∈ w'.function.code) :
      .alloca r' t ∈ w.function.code := by
    rw [hcode] at hmem
    simpa using hmem
  have hstore (u : Value) (r' : Nat) (hmem : .store u (.register r') ∈ w'.function.code) :
      .store u (.register r') ∈ w.function.code ∨ u = v ∧ r' = r := by
    rw [hcode] at hmem
    simpa using hmem
  have hkeeps (r' : Nat) (t : LType) (hr' : w.HasRoom r' t) : w'.HasRoom r' t :=
    ⟨hr'.lt, fun t' hmem => hr'.type_eq t' (halloca r' t' hmem)⟩
  refine .of_runIn (v := w') (runIn_modify _) ⟨h.of_codeOk ⟨fun r' t hmem => ?_,
    fun u r' hmem => ?_, fun u r' t hs hmem => ?_, h.exits, h.synthesized⟩ rfl rfl hkeeps,
    hkeeps r _ hroom⟩
  · exact h.alloca_lt r' t (halloca r' t hmem)
  · rcases hstore u r' hmem with hold | ⟨-, rfl⟩
    · exact h.store_lt u r' hold
    · exact hroom.lt
  · rcases hstore u r' hs with hold | ⟨rfl, rfl⟩
    · exact h.store_type u r' t hold (halloca r' t hmem)
    · exact (hroom.type_eq t (halloca r' t hmem)).symm

end Emit

end Boxlang
