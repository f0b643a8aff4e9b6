import Boxlang.Emit.Conversion
import Boxlang.Proofs.Emit.Box

/-!
# Functions from their beginning to their end

What declaring the parameters of a function binds, and what a function is like that
only adds code between its parameters and its one return.
-/

namespace Boxlang

namespace Emit

open Llvm

/-! ### Bound variables -/

/-- Variables have been bound to values of the given types, and no others. -/
structure Binds (l : List (VariableId × LType)) (s s' : Slots LocalVariable) : Prop where
  bound : ∀ e ∈ l, ∃ b, s'.get? e.1 = some b ∧ b.isMutable = false ∧ b.value.type = e.2
  kept : ∀ id, id ∉ l.map (·.1) → s'.get? id = s.get? id

namespace Binds

variable {l l' : List (VariableId × LType)} {s s' s'' : Slots LocalVariable}

theorem refl (s : Slots LocalVariable) : Binds [] s s :=
  ⟨by simp, fun _ _ => rfl⟩

theorem single (s : Slots LocalVariable) (id : VariableId) (value : Value) :
    Binds [(id, value.type)] s (s.set id { isMutable := false, value }) := by
  refine ⟨fun e he => ?_, fun other hother => ?_⟩
  · obtain rfl := List.mem_singleton.mp he
    exact ⟨_, s.get?_set_self _ _, rfl, rfl⟩
  · exact s.get?_set_of_ne (by simpa using hother) _

theorem append (h : Binds l s s') (h' : Binds l' s' s'')
    (hdisj : ∀ id ∈ l.map (·.1), id ∉ l'.map (·.1)) : Binds (l ++ l') s s'' := by
  refine ⟨fun e he => ?_, fun id hid => ?_⟩
  · rcases List.mem_append.mp he with he | he
    · obtain ⟨b, hb, hrest⟩ := h.bound e he
      exact ⟨b, (h'.kept e.1 (hdisj e.1 (List.mem_map_of_mem he))).trans hb, hrest⟩
    · exact h'.bound e he
  · rw [List.map_append, List.mem_append, not_or] at hid
    rw [h'.kept id hid.2, h.kept id hid.1]

end Binds

/-- The step succeeds, adds code, binds the given variables, and `Q` holds of what it gives. -/
def Declares {α : Type} (env : FunctionEnv) (first : Nat) (w : World) (step : Emit α)
    (l : List (VariableId × LType)) (Q : α → Prop) : Prop :=
  first ≤ w.function.nextRegister → Meets env w step True fun a w' =>
    Grows env.package env.arena first w w' ∧ Binds l w.function.bindings w'.function.bindings ∧ Q a

variable {α β : Type} {env : FunctionEnv} {first : Nat} {w : World}

namespace Declares

variable {step : Emit α} {next : α → Emit β} {l l' : List (VariableId × LType)} {Q : α → Prop}
  {R : β → Prop}

theorem of_emits (h : Emits env first w step True fun a _ => Q a) :
    Declares env first w step [] Q := fun hle =>
  (h hle).mono fun _ _ ⟨hext, ha⟩ => ⟨hext.toGrows, hext.bindings_eq ▸ .refl _, ha⟩

theorem mono {Q' : α → Prop} (h : Declares env first w step l Q) (hQ : ∀ a, Q a → Q' a) :
    Declares env first w step l Q' := fun hle =>
  (h hle).mono fun a _ ⟨hgrows, hbinds, ha⟩ => ⟨hgrows, hbinds, hQ a ha⟩

theorem pure {a : α} (h : Q a) : Declares env first w (Pure.pure a) [] Q :=
  .of_emits (.pure h)

theorem bind (h : Declares env first w step l Q)
    (hnext : ∀ a w', Q a → Declares env first w' (next a) l' R)
    (hdisj : ∀ id ∈ l.map (·.1), id ∉ l'.map (·.1)) :
    Declares env first w (step >>= next) (l ++ l') R := fun hle =>
  (h hle).bind_true fun a w' ⟨hgrows, hbinds, ha⟩ =>
    (hnext a w' ha (Nat.le_trans hle hgrows.nextRegister_le)).mono
      fun _ _ ⟨hgrows', hbinds', hb⟩ =>
        ⟨hgrows.trans hgrows', hbinds.append hbinds' hdisj, hb⟩

theorem map {f : α → β} (h : Declares env first w step l fun a => R (f a)) :
    Declares env first w (do return f (← step)) l R := by
  rw [← List.append_nil l]
  exact h.bind (fun _ _ ha => .pure ha) (by simp)

theorem and_then {Q : α → World → Prop} (h : Emits env first w step True Q)
    (hnext : ∀ a w', Q a w' → Declares env first w' (next a) l R) :
    Declares env first w (step >>= next) l R := fun hle =>
  (h hle).bind_true fun a w' ⟨hext, ha⟩ =>
    (hnext a w' ha (Nat.le_trans hle hext.nextRegister_le)).mono
      fun _ _ ⟨hgrows, hbinds, hb⟩ =>
        ⟨hext.toGrows.trans hgrows, hext.bindings_eq ▸ hbinds, hb⟩

end Declares

/-! ### Parameters -/

def ArgumentStyle.captured : ArgumentStyle → List (VariableId × LType)
  | .closure captures => captures
  | .free | .method _ => []

def ArgumentStyle.firstTypes (d : Declarations) : ArgumentStyle → List LType
  | .free => []
  | .method this => [d.llvmType this]
  | .closure _ => [.ptr]

def namedParams (params : List (Option VariableId × LType)) : List (VariableId × LType) :=
  params.filterMap fun (id?, type) => id?.map fun id => (id, type)

theorem declares_bind (id : VariableId) (value : Value) :
    Declares env first w (declareArguments.bind id value) [(id, value.type)] fun _ => True :=
  fun _ => .of_runIn (runIn_modify _) ⟨.of_bindings _ _, .single _ id value, trivial⟩

theorem declares_captures (type : LType) (captures : List (VariableId × LType)) (start : Nat)
    (hnodup : (captures.map (·.1)).Nodup) :
    Declares env first w
      ((captures.zipIdx start).forM fun ((id, field), i) => do
        let address ← define (.address · type .context [0, i])
        let value ← define (.load · field address)
        declareArguments.bind id ⟨field, value⟩) captures fun _ => True := by
  induction captures generalizing w start with
  | nil => exact .pure trivial
  | cons capture captures ih =>
      obtain ⟨id, field⟩ := capture
      obtain ⟨hnew, hnodup⟩ := List.nodup_cons.mp hnodup
      show Declares env first w (_ >>= fun _ => (captures.zipIdx (start + 1)).forM _)
        ([(id, field)] ++ captures) _
      have hcapture : Declares env first w (do
          let address ← define (.address · type .context [0, start])
          let value ← define (.load · field address)
          declareArguments.bind id ⟨field, value⟩) [(id, field)] fun _ => True := by
        refine .and_then (emits_define _ fun _ => by trivial) fun address w₁ _ => ?_
        refine .and_then (emits_define _ fun _ => by trivial) fun value w₂ _ => ?_
        exact declares_bind id ⟨field, value⟩
      exact hcapture.bind (fun _ w' _ => ih (start + 1) hnodup) (by simpa using hnew)

theorem declares_first (style : ArgumentStyle) (hnodup : (style.captured.map (·.1)).Nodup) :
    Declares env first w (declareArguments.declareFirst style) style.captured fun values =>
      values.map (·.type) = style.firstTypes env.package.declarations := by
  cases style with
  | free => exact .pure rfl
  | method this =>
      refine .of_emits ?_
      refine .map ?_
      exact (emits_llvmType this).mono fun _ _ h => congrArg (fun type => [type]) h
  | closure captures =>
      rw [← List.append_nil (ArgumentStyle.captured _)]
      exact .bind (declares_captures _ captures 0 hnodup) (fun _ _ _ => .pure rfl) (by simp)

theorem declares_params (params : List (Option VariableId × LType)) (start : Nat)
    (hnodup : ((namedParams params).map (·.1)).Nodup) :
    Declares env first w
      ((params.zipIdx start).mapM fun ((id?, type), i) => do
        let value : Value := if type.isVoid then .void else ⟨type, .param i⟩
        if let some id := id? then
          declareArguments.bind id value
        return value) (namedParams params) fun values =>
      values.map (·.type) = params.map (·.2) := by
  induction params generalizing w start with
  | nil => exact .pure rfl
  | cons param params ih =>
      obtain ⟨id?, type⟩ := param
      have happend : namedParams ((id?, type) :: params) =
          (id?.map fun id => (id, type)).toList ++ namedParams params := by
        cases id? <;> rfl
      rw [happend] at hnodup ⊢
      rw [List.map_append] at hnodup
      obtain ⟨-, hnodup, hdisj⟩ := List.nodup_append.mp hnodup
      let value : Value := if type.isVoid then .void else ⟨type, .param start⟩
      have htype : value.type = type := by
        show (if type.isVoid then Value.void else ⟨type, .param start⟩).type = type
        split
        next h => exact (LType.eq_void h).symm
        next => rfl
      have hparam : Declares env first w (do
          if let some id := id? then
            declareArguments.bind id value
          return value) (id?.map fun id => (id, type)).toList fun v => v.type = type := by
        cases id? with
        | none => exact .pure htype
        | some id =>
            refine .map (f := fun _ => value) ?_
            rw [← htype]
            exact (declares_bind id value).mono fun _ _ => rfl
      rw [List.zipIdx_cons, List.mapM_cons]
      refine hparam.bind (fun v w' hv => .map ?_) fun id hid hid' => hdisj id hid id hid' rfl
      refine (ih (start + 1) hnodup).mono fun vs hvs => ?_
      exact congrArg₂ List.cons hv hvs

theorem declares_arguments (params : List (Option VariableId × LType))
    (hnodup : ((env.style.captured ++ namedParams params).map (·.1)).Nodup) :
    Declares env first w (declareArguments params) (env.style.captured ++ namedParams params)
      fun declared => declared.map (·.type) =
        env.style.firstTypes env.package.declarations ++ (params.map (·.2)).filter (!·.isVoid) := by
  rw [List.map_append] at hnodup
  obtain ⟨hcaptured, hnamed, hdisj⟩ := List.nodup_append.mp hnodup
  unfold declareArguments
  refine .and_then emits_read fun env' w₁ henv => ?_
  obtain ⟨rfl, rfl⟩ := henv
  refine (declares_first env'.style hcaptured).bind (fun values w₂ hvalues => .map ?_)
    fun id hid hid' => hdisj id hid id hid' rfl
  refine (declares_params params 0 hnamed).mono fun rest hrest => ?_
  rw [List.map_append, hvalues, ← hrest, List.filter_map]
  rfl

/-! ### Whole functions -/

/-- How a function ends that returns a value of its result type. -/
theorem returns_exit {v : Value} {ret : LType} (h : v.type = ret) :
    (if v.isVoid then Terminator.retVoid else .ret v).Returns ret := by
  split
  next hvoid => exact h.symm.trans (LType.eq_void hvoid)
  next => exact h

theorem Grows.alloca_not_mem {p : Package} {a : Arena} {m : ModuleState} {count : Nat}
    (h : Grows p a first ⟨.start count, m⟩ w) (r : Nat) (t : LType) :
    .alloca r t ∉ w.function.code := by
  intro hmem
  rcases h.code.mem hmem with hstart | hnew
  · simp [FunctionState.code, FunctionState.start] at hstart
  · exact hnew

/-- The end of a function that does nothing but add code and then returns. -/
theorem meets_returning (params : List Ty) {m : ModuleState} {count : Nat} {ret : Ty} {v : Value}
    {declared : List Value}
    (hgrows : Grows env.package env.arena first ⟨.start count, m⟩ w)
    (hv : v.type = env.package.declarations.llvmType ret)
    (hdeclared : declared.map (·.type) =
      .ptr :: (params.map env.package.declarations.llvmType).filter (!·.isVoid)) :
    Meets env w (do
      emitReturn v
      finished (← llvmType ret) declared) True fun f w' => f.name = env.name ∧
        Implements env.package.declarations params ret f ∧
          w'.refs.synthesized = w.refs.synthesized := by
  let f : FunctionDef :=
    { name := env.name, ret := env.package.declarations.llvmType ret, params := declared
      blocks := w.function.blocks ++ [{
        label := w.function.label, body := w.function.body
        exit := if v.isVoid then .retVoid else .ret v }] }
  have hcode : f.code = w.function.code := by
    simp [FunctionDef.code, FunctionState.code, f]
  refine .of_runIn (a := f) (v := ⟨_, w.refs⟩) rfl
    ⟨rfl, ⟨rfl, hdeclared, fun b hb => ?_, ?_⟩, rfl⟩
  · rcases List.mem_append.mp hb with hb | hb
    · rcases hgrows.exits.mem (List.mem_map_of_mem hb) with hstart | hnew
      · simp [FunctionState.exits, FunctionState.start] at hstart
      · exact Terminator.returns_of_not_isReturn hnew _
    · obtain rfl := List.mem_singleton.mp hb
      exact returns_exit hv
  · intro u r t _ halloca
    rw [hcode] at halloca
    exact absurd halloca (hgrows.alloca_not_mem r t)

/-- A function made along the way only adds to the module. -/
theorem emits_nested {α : Type} {name : String} {count : Nat} {style : ArgumentStyle} {step : Emit α}
    {ok : Prop} {Q : α → Prop}
    (h : Meets { env with name, variableCount := count, style } ⟨.start count, w.refs⟩ step ok
      fun a w' => Appends (Synthesized.IsMade env.package env.arena) w.refs.synthesized
        w'.refs.synthesized ∧ Q a) :
    Emits env first w (nested name count style step) ok fun a _ => Q a := by
  intro _
  have hrun := runIn_nested env w name count style step
  refine ⟨by rw [hrun]; exact h.isOk_iff, fun a w' hok => ?_, fun e w' hfails => ?_⟩
  · rw [hrun] at hok
    obtain ⟨hvalue, rfl⟩ := Prod.mk.inj hok
    obtain ⟨happends, hQ⟩ := h.post a _ (Prod.ext hvalue rfl)
    exact ⟨.of_refs happends, hQ⟩
  · rw [hrun] at hfails
    exact h.error e _ (Prod.ext (Prod.mk.inj hfails).1 rfl)

/-- Making a function for a closure or an adapted callable. -/
theorem emits_pushFunction {f : FunctionDef} (h : Made env.package env.arena f) :
    Emits env first w (liftM (pushFunction (.function f))) True Anything :=
  .of_runIn (runIn_liftM _) (.of_refs (.snoc ⟨f, rfl, h⟩ _)) trivial

end Emit

end Boxlang
