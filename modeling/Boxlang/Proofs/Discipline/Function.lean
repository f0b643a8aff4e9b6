import Boxlang.Proofs.Discipline.Box
import Boxlang.Slots

/-!
# Functions that keep to a discipline

A function declares its parameters, goes on while its variables are bound to what is at
hand (`Emit.Frame.Running`), and is complete once its last block has ended.
-/

namespace Boxlang

namespace Emit

open Llvm

variable {α β : Type} {p : Package} {D : Discipline p} {env : FunctionEnv} {params : List Operand}
  {pt : Point D.Ghost}

/-! ### Running functions -/

theorem Frame.Running.extends {F : Frame} {pt pt' : Point F.Ghost} (h : F.Running params pt)
    (hext : F.Extends pt pt') (hpt' : F.Sound [] pt') : F.Running params pt' :=
  ⟨hpt', F.receives_mono h.receives hext.continues, hext.bound h.bound,
    hext.returned_eq.trans h.returned_eq⟩

/-- At the beginning of a function nothing is bound. -/
theorem Frame.running_start {F : Frame} {count : Nat} {m : ModuleState} {ghost : F.Ghost}
    (hsound : F.Sound [] ⟨⟨.start count, m⟩, ghost⟩)
    (hreceives : F.Receives ⟨⟨.start count, m⟩, ghost⟩ params) :
    F.Running params ⟨⟨.start count, m⟩, ghost⟩ where
  sound := hsound
  receives := hreceives
  bound id v hv := by
    cases (Slots.get?_ofSize count id).symm.trans hv
  returned_eq := rfl

theorem Frame.Running.rebind (h : D.Running params pt) (id : VariableId) {v : LocalVariable}
    (hv : D.Gives pt v.value) :
    D.Running params (pt.rebind (pt.function.bindings.set id v)) ∧
      D.Continues pt (pt.rebind (pt.function.bindings.set id v)) := by
  obtain ⟨hsound, hcont⟩ := D.rebind h.sound (pt.function.bindings.set id v)
  refine ⟨⟨hsound, D.receives_mono h.receives hcont, fun other u hu => ?_, h.returned_eq⟩, hcont⟩
  have hgives {u : Value} (hu : D.Gives pt u) := Frame.Gives.mk (D.has_mono hu.has hcont) hu.isGiven
  by_cases heq : other = id
  · subst heq
    obtain rfl := Option.some.inj ((Slots.get?_set_self _ _ _).symm.trans hu)
    exact hgives hv
  · exact hgives (h.bound other u ((Slots.get?_set_of_ne _ heq _).symm.trans hu))

/-- The step keeps the function running, and `Q` holds of what it gives. -/
def Frame.Runs (F : Frame) (env : FunctionEnv) (params : List Operand) (pt : Point F.Ghost)
    (step : Emit α) (Q : α → Prop) : Prop :=
  F.Running params pt → Reaches env pt step fun a pt' =>
    F.Running params pt' ∧ F.Continues pt pt' ∧ Q a

namespace Frame.Runs

variable {F : Frame} {pt : Point F.Ghost} {step : Emit α} {next : α → Emit β} {Q : α → Prop}
  {R : β → Prop}

theorem of_keeps {P : α → Point F.Ghost → Prop} (h : F.Keeps env [] pt step P)
    (hQ : ∀ a pt', P a pt' → Q a) : F.Runs env params pt step Q := fun hpt =>
  (h hpt.sound).mono fun a pt' ⟨hsound, hext, ha⟩ =>
    ⟨hpt.extends hext hsound, hext.continues, hQ a pt' ha⟩

theorem mono {Q' : α → Prop} (h : F.Runs env params pt step Q) (hQ : ∀ a, Q a → Q' a) :
    F.Runs env params pt step Q' := fun hpt =>
  (h hpt).mono fun a _ ⟨hpt', hcont, ha⟩ => ⟨hpt', hcont, hQ a ha⟩

theorem pure {a : α} (h : Q a) : F.Runs env params pt (Pure.pure a) Q :=
  .of_keeps (.pure h) fun _ _ => id

theorem reaches_bind (h : F.Runs env params pt step Q) (hpt : F.Running params pt)
    {S : β → Point F.Ghost → Prop}
    (hnext : ∀ a pt', F.Running params pt' → F.Continues pt pt' → Q a →
      Reaches env pt' (next a) S) :
    Reaches env pt (step >>= next) S := by
  refine (h hpt).bind fun a pt' hpt' => ?_
  obtain ⟨hpt', hcont, ha⟩ := hpt'
  exact hnext a pt' hpt' hcont ha

theorem bind (h : F.Runs env params pt step Q)
    (hnext : ∀ a pt', Q a → F.Runs env params pt' (next a) R) :
    F.Runs env params pt (step >>= next) R := fun hpt =>
  h.reaches_bind hpt fun a pt' hpt' hcont ha =>
    (hnext a pt' ha hpt').mono fun _ _ ⟨hpt'', hcont', hb⟩ => ⟨hpt'', F.trans hcont hcont', hb⟩

theorem map {f : α → β} (h : F.Runs env params pt step fun a => R (f a)) :
    F.Runs env params pt (do return f (← step)) R :=
  h.bind fun _ _ ha => .pure ha

/-- A step that binds nothing comes first. -/
theorem after {P : α → Point F.Ghost → Prop} (h : F.Keeps env [] pt step P)
    (hnext : ∀ a pt', F.Extends pt pt' → P a pt' → F.Runs env params pt' (next a) R) :
    F.Runs env params pt (step >>= next) R := fun hpt =>
  h.reaches_bind hpt.sound fun a pt' hsound hext ha =>
    (hnext a pt' hext ha (hpt.extends hext hsound)).mono fun _ _ ⟨hpt'', hcont, hb⟩ =>
      ⟨hpt'', F.trans hext.continues hcont, hb⟩

theorem read {S : α → Prop} (h : Reads env step S)
    (hnext : ∀ a, S a → F.Runs env params pt (next a) R) :
    F.Runs env params pt (step >>= next) R := fun hpt =>
  .read h fun a ha => hnext a ha hpt

end Frame.Runs

/-! ### Parameters -/

/-- What is loaded from a context is held, and no receiver is of the error type. -/
structure ArgumentStyle.IsHeld (style : ArgumentStyle) : Prop where
  captures : ∀ captures, style = .closure captures → ∀ q ∈ captures, q.2.IsHeld
  this : ∀ t ∈ style.this?, t.mentionsError = false

theorem runs_declareBind (id : VariableId) {value : Value}
    (h : D.Running params pt → D.Gives pt value) :
    D.Runs env params pt (declareArguments.bind id value) fun _ => True := fun hpt =>
  have hrebind := hpt.rebind id (v := ⟨false, value⟩) (h hpt)
  .of_runIn (q := pt.rebind _) (runIn_modify _) ⟨hrebind.1, hrebind.2, trivial⟩

theorem runs_captures {type : LType} (htype : D.Typed → type.IsHeld) (hcontext : .context ∈ params)
    {captures : List (VariableId × LType)} (hcaptures : D.Typed → ∀ q ∈ captures, q.2.IsHeld)
    (start : Nat) :
    D.Runs env params pt
      ((captures.zipIdx start).forM fun ((id, field), i) => do
        let address ← define (.address · type .context [0, i])
        let value ← define (.load · field address)
        declareArguments.bind id ⟨field, value⟩) fun _ => True := by
  induction captures generalizing pt start with
  | nil => exact .pure trivial
  | cons capture captures ih =>
    obtain ⟨id, field⟩ := capture
    have hfield (htyped : D.Typed) : field.IsHeld := hcaptures htyped _ List.mem_cons_self
    show D.Runs env params pt (_ >>= fun _ => (captures.zipIdx (start + 1)).forM _) _
    have hcapture : D.Runs env params pt (do
        let address ← define (.address · type .context [0, start])
        let value ← define (.load · field address)
        declareArguments.bind id ⟨field, value⟩) fun _ => True := by
      intro hpt
      refine Frame.Runs.after (keeps_address htype (D.has_received hpt.receives hcontext) _)
        (fun address pt₁ _ haddress => ?_) hpt
      refine .after (keeps_load hfield haddress) fun value pt₂ _ hvalue => ?_
      exact runs_declareBind id fun _ => ⟨hvalue, fun htyped => (hfield htyped).isGiven⟩
    exact hcapture.bind fun _ _ _ => ih (fun htyped q hq =>
      hcaptures htyped q (List.mem_cons_of_mem _ hq)) (start + 1)

theorem runs_declareFirst {style : ArgumentStyle} (hstyle : D.Typed → style.IsHeld)
    (hparams : ∀ o ∈ style.firstOperands, o ∈ params) :
    D.Runs env params pt (declareArguments.declareFirst style) fun values =>
      values.map (·.operand) = style.firstOperands ∧
        (D.Typed → ∀ v ∈ values, v.IsReceived style.this?) := by
  cases style with
  | free => exact .pure ⟨rfl, by simp⟩
  | method this =>
    refine .read (reads_llvmType this) fun type htype => .pure ⟨rfl, fun htyped v hv => ?_⟩
    obtain rfl := List.mem_singleton.mp hv
    rcases env.package.declarations.isGiven_llvmType this with hvoid | hheld
    · have herror := (hstyle htyped).this this rfl
      have hnothing := (env.package.declarations.llvmType_void_iff herror).1.mp hvoid
      exact .inr ⟨congrArg some hnothing, by rw [htype, hvoid]⟩
    · exact .inl (htype ▸ hheld)
  | closure captures =>
    have hcontext : .context ∈ params := hparams _ List.mem_cons_self
    have hcaptures (htyped : D.Typed) := (hstyle htyped).captures captures rfl
    have htype (htyped : D.Typed) : (LType.struct (captures.map (·.2))).IsHeld := by
      refine .context fun t ht => ?_
      obtain ⟨q, hq, rfl⟩ := List.mem_map.mp ht
      exact hcaptures htyped q hq
    refine (runs_captures htype hcontext hcaptures 0).bind fun _ _ _ => .pure ⟨rfl, fun _ => ?_⟩
    simp [Value.IsReceived, Value.pointer]

/-- Parameters of type void are bound to nothing, and left out. -/
theorem runs_params {l : List (Option VariableId × LType)}
    (htypes : D.Typed → ∀ q ∈ l, q.2.IsGiven) {start : Nat}
    (hparams : ∀ o ∈ paramOperands start (l.map (·.2)), o ∈ params) :
    D.Runs env params pt
      ((l.zipIdx start).mapM fun ((id?, type), i) => do
        let value : Value := if type.isVoid then .void else ⟨type, .param i⟩
        if let some id := id? then
          declareArguments.bind id value
        return value) fun values =>
      (values.filter (!·.isVoid)).map (·.operand) = paramOperands start (l.map (·.2)) ∧
        (D.Typed → ∀ v ∈ values, v.type.IsGiven) := by
  induction l generalizing pt start with
  | nil => exact .pure ⟨rfl, by simp⟩
  | cons param l ih =>
    obtain ⟨id?, type⟩ := param
    rw [List.map_cons, paramOperands_cons] at hparams ⊢
    let value : Value := if type.isVoid then .void else ⟨type, .param start⟩
    have hgiven (htyped : D.Typed) : value.type.IsGiven := by
      simp only [value]
      split
      next => exact .inl rfl
      next => exact htypes htyped _ List.mem_cons_self
    have hgives (hpt : D.Running params pt) : D.Gives pt value := by
      refine ⟨?_, hgiven⟩
      cases hvoid : type.isVoid with
      | true => simp [value, hvoid, Value.void]
      | false =>
        simp only [value, hvoid, Bool.false_eq_true, if_false]
        exact D.has_received hpt.receives (hparams _ (by simp [hvoid]))
    -- A parameter of type void is numbered like the others, but nothing is declared for it.
    have hvalue : ([value].filter (!·.isVoid)).map (·.operand) =
        if type.isVoid then [] else [.param start] := by
      cases hvoid : type.isVoid with
      | true =>
        simp only [value, hvoid, if_true]
        rfl
      | false => simp [value, hvoid, Value.isVoid]
    rw [List.zipIdx_cons, List.mapM_cons]
    refine Frame.Runs.bind (Q := (· = value)) ?_ fun v pt₁ hv => .map ?_
    · cases id? with
      | none => exact .pure rfl
      | some id => exact (runs_declareBind id hgives).bind fun _ _ _ => .pure rfl
    · subst hv
      refine Frame.Runs.mono (ih (fun htyped q hq => htypes htyped q (List.mem_cons_of_mem _ hq))
        fun o ho => hparams o (List.mem_append_right _ ho)) fun values hvalues => ?_
      refine ⟨?_, fun htyped => List.forall_mem_cons.mpr ⟨hgiven htyped, hvalues.2 htyped⟩⟩
      rw [← hvalue, ← hvalues.1, ← List.map_append, ← List.filter_append]
      rfl

/-- What a function declares is what it receives. -/
theorem runs_declareArguments {l : List (Option VariableId × LType)}
    (hstyle : D.Typed → env.style.IsHeld) (htypes : D.Typed → ∀ q ∈ l, q.2.IsGiven)
    (hparams : params = env.style.operands (l.map (·.2))) :
    D.Runs env params pt (declareArguments l) (D.Declares env.style params) := by
  have hmem (o : Operand) (ho : o ∈ env.style.operands (l.map (·.2))) : o ∈ params := hparams ▸ ho
  unfold declareArguments
  refine .read reads_read fun env' henv => ?_
  subst henv
  refine (runs_declareFirst hstyle fun o ho => hmem o (List.mem_append_left _ ho)).bind
    fun first pt₂ ⟨hfirst, hreceived⟩ => .map ?_
  refine (runs_params htypes fun o ho => hmem o (List.mem_append_right _ ho)).mono
    fun rest ⟨hrest, hgiven⟩ => ⟨?_, fun htyped v hv => ?_⟩
  · rw [List.map_append, hfirst, hrest, hparams]
    rfl
  · rcases List.mem_append.mp hv with hv | hv
    · exact hreceived htyped v hv
    · exact .inl (isHeld_of_mem_filter (hgiven htyped) hv)

/-! ### Ends of functions -/

/-- The end of a block that returns a value, unless that is void. -/
theorem uses_returning {v : Value} (hv : D.Has pt v.operand) :
    ∀ o ∈ (if v.isVoid then Terminator.retVoid else .ret v).uses, D.Has pt o := by
  split <;> simp [Terminator.uses, hv]

theorem hasHeldTypes_returning {v : Value} (hv : v.type.IsGiven) :
    (if v.isVoid then Terminator.retVoid else .ret v).HasHeldTypes := by
  split
  next => trivial
  next hvoid => exact hv.isHeld hvoid

/-- After a return the function is complete but for its parameters. -/
theorem reaches_emitReturn (h : D.Running params pt) {v : Value} (hv : D.Gives pt v) :
    Reaches env pt (emitReturn v) fun _ pt' =>
      D.Closed pt' ∧ D.Continues pt pt' ∧ pt'.function.returned = true := by
  let exit : Terminator := if v.isVoid then .retVoid else .ret v
  have htargets : exit.targets = [] := by
    simp only [exit]
    split <;> rfl
  obtain ⟨hclosed, hcont⟩ := D.finish h.sound (uses_returning hv.has) htargets
    (fun htyped => hasHeldTypes_returning (hv.isGiven htyped)) true
  exact .of_runIn (a := ()) (q := pt.finish exit true) rfl ⟨hclosed, hcont, rfl⟩

theorem completes_of_closed {F : Frame} {pt pt' : Point F.Ghost} (hclosed : F.Closed pt')
    (hcont : F.Continues pt pt') (hreceives : F.Receives pt params) {ret : LType}
    (hret : F.Typed → ret.IsGiven) {declared : List Value}
    (hdeclared : F.Declares env.style params declared) :
    Reaches env pt' (finished ret declared) (F.Completes env params pt) :=
  .of_runIn (q := pt') rfl ⟨hclosed, hcont, F.receives_mono hreceives hcont, rfl, rfl, hdeclared,
    hret⟩

/-- A function that returns a value. -/
theorem reaches_returning {pt₀ : Point D.Ghost} (h : D.Running params pt)
    (hpt₀ : D.Continues pt₀ pt)
    (hreceives : D.Receives pt₀ params) {v : Value} (hv : D.Gives pt v) (ret : Ty)
    {declared : List Value} (hdeclared : D.Declares env.style params declared) :
    Reaches env pt (do
      emitReturn v
      finished (← llvmType ret) declared) (D.Completes env params pt₀) := by
  refine (reaches_emitReturn h hv).bind fun _ pt₁ hpt₁ => ?_
  obtain ⟨hclosed, hcont, -⟩ := hpt₁
  refine .read (reads_llvmType ret) fun type htype => ?_
  refine completes_of_closed hclosed (D.trans hpt₀ hcont) hreceives (fun _ => ?_) hdeclared
  exact htype ▸ env.package.declarations.isGiven_llvmType ret

/-! ### Functions made along the way -/

/-- A function that was generated from its beginning. -/
theorem Frame.Makes.exists_completes {F : Frame} {step : Emit FunctionDef} (h : F.Makes env step)
    {count : Nat} {m : ModuleState} (ghost : List LType → F.Ghost)
    (hsound : ∀ types, F.Sound [] ⟨⟨.start count, m⟩, ghost types⟩)
    (hreceives : ∀ types, F.Receives ⟨⟨.start count, m⟩, ghost types⟩ (env.style.operands types))
    {f : FunctionDef} {w : World} (hrun : step.runIn env ⟨.start count, m⟩ = (.ok f, w)) :
    ∃ types ghost', F.Completes env (env.style.operands types) ⟨⟨.start count, m⟩, ghost types⟩ f
      ⟨w, ghost'⟩ := by
  obtain ⟨types, hmakes⟩ := h
  exact ⟨types, hmakes _ (running_start (hsound types) (hreceives types)) f w hrun⟩

/-- The function that is made starts from what its number left, and has its place right after it. -/
theorem Frame.reaches_making {F : Frame} {pt : Point F.Ghost} {mk : ModuleM String} {count : Nat}
    {captures : List (VariableId × LType)} {step : Emit FunctionDef}
    {P : String → Point F.Ghost → Prop}
    (hstep : ∀ name,
      F.Makes { env with name, variableCount := count, style := .closure captures } step)
    (ghost : List LType → F.Ghost)
    (hsound : ∀ types, F.Sound [] ⟨⟨.start count, (mk.run pt.world.refs).2⟩, ghost types⟩)
    (hreceives : ∀ types, F.Receives ⟨⟨.start count, (mk.run pt.world.refs).2⟩, ghost types⟩
      (ArgumentStyle.operands (.closure captures) types))
    (hdone : ∀ types f q, F.Completes
      { env with
        name := (mk.run pt.world.refs).1, variableCount := count, style := .closure captures }
      (ArgumentStyle.operands (.closure captures) types)
      ⟨⟨.start count, (mk.run pt.world.refs).2⟩, ghost types⟩ f q →
      P (mk.run pt.world.refs).1 (pt.refer ((pushFunction (.function f)).run q.world.refs).2)) :
    Reaches env pt (Emit.making mk count captures step) P := by
  intro name w hrun
  obtain ⟨_, w₁, hname, hrun⟩ := exists_of_runIn_bind hrun
  obtain ⟨f, w₂, hnested, hrun⟩ := exists_of_runIn_bind hrun
  cases hname
  obtain ⟨inner, hinner, rfl⟩ := exists_of_runIn_nested hnested
  cases hrun
  obtain ⟨types, ghost', hcompletes⟩ :=
    (hstep (mk.run pt.world.refs).1).exists_completes ghost hsound hreceives hinner
  -- What was kept in mind of the function around it is left as it was.
  exact ⟨pt.ghost, hdone types f _ hcompletes⟩

/-- A function is made before the rest of the code. -/
theorem Discipline.making {owed : List Label} {mk : ModuleM String} {count : Nat}
    {captures : List (VariableId × LType)} {step : Emit FunctionDef} {next : String → Emit β}
    {Q : β → Point D.Ghost → Prop} (hmk : Numbers mk)
    (hstep : ∀ name,
      D.Makes { env with name, variableCount := count, style := .closure captures } step)
    (hnext : ∀ name pt', D.Extends pt pt' → D.Has pt' (.global ⟨name⟩) →
      D.Keeps env owed pt' (next name) Q) :
    D.Keeps env owed pt (do
      let name ← mk
      let f ← nested name count (.closure captures) step
      pushFunction (.function f)
      next name) Q := by
  have hmake : D.Keeps env owed pt (Emit.making mk count captures step) fun name pt' =>
      D.Has pt' (.global ⟨name⟩) :=
    D.make hmk hstep
  have hboth : D.Keeps env owed pt (Emit.making mk count captures step >>= next) Q :=
    hmake.bind hnext
  simpa only [Emit.making, bind_assoc, pure_bind] using hboth

end Emit

end Boxlang
