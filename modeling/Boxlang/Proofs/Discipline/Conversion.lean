import Boxlang.Proofs.Conversion.Mentions
import Boxlang.Proofs.Conversion.Sound
import Boxlang.Proofs.Discipline.Function

/-!
# Code for conversions keeps to a discipline

The code of a conversion gives a value that is at hand, if the conversion suits the
discipline (`Emit.Frame.Fits`): it mentions what the discipline permits, it is sound
where types are minded, and all that holds of its entries, too, where it adapts a callable.
The function of an adapted callable uses each of its parameters, also those of type void,
which are not declared.
-/

namespace Boxlang

namespace Emit

open Llvm Conversion

variable {p : Package} {D : Discipline p} {env : FunctionEnv} {owed : List Label}
  {pt : Point D.Ghost}

/-! ### The conversions one by one -/

theorem keeps_checkTag {box : Operand} (hbox : D.Has pt box) {t : Ty} (ht : D.IsType t) :
    D.Keeps env owed pt (checkTag box t) Frame.Whatever := by
  unfold checkTag
  split
  next => exact .pure trivial
  next =>
    refine (keeps_loadTag hbox).bind fun tag pt₁ _ htag => ?_
    refine (D.note (.type ht)).bind fun expected pt₂ h₂ hexpected => ?_
    refine (keeps_comparePointer .ne (h₂.has htag) hexpected).bind fun mismatch pt₃ _ hmismatch => ?_
    exact D.emitCheck hmismatch _

section Steps

variable {value : Value}

theorem keeps_boxTag (hv : D.Has pt value.operand) {t : Ty} (ht : D.IsType t)
    {protocol : Option String} (hprotocol : ∀ name ∈ protocol, D.IsName name) :
    D.Keeps env owed pt (boxTag value t protocol) fun o pt' => D.Has pt' o := by
  unfold boxTag
  split
  next =>
    exact (keeps_metaOfObject hv).bind fun tag _ _ htag =>
      keeps_conformanceOf htag (hprotocol _ rfl)
  next => exact .map (D.note (.conformance ht (hprotocol _ rfl)))
  next => exact keeps_dynamicMeta ht hv

theorem keeps_realizeBox (hv : D.Gives pt value) {t : Ty} (ht : D.IsType t)
    {protocol : Option String} (hprotocol : ∀ name ∈ protocol, D.IsName name) :
    D.Keeps env owed pt (realizeBox value t protocol) fun v pt' => D.Gives pt' v := by
  unfold realizeBox
  refine keeps_allocBox.bind fun box pt₁ h₁ hbox => ?_
  refine (keeps_boxTag (h₁.has hv.has) ht hprotocol).bind fun tag pt₂ h₂ htag => ?_
  refine (keeps_tagField (h₂.has hbox)).bind fun field pt₃ h₃ hfield => ?_
  refine (keeps_storePointer (h₃.has htag) hfield).bind fun _ pt₄ h₄ _ => ?_
  have h₂₄ := (h₂.trans h₃).trans h₄
  refine (keeps_storeInBox (h₂₄.has hbox) ((h₁.trans h₂₄).gives hv) t).bind fun _ pt₅ h₅ _ => ?_
  exact .pure (.pointer ((h₂₄.trans h₅).has hbox))

theorem realizeBoxOptional_eq (value : Value) (t : Ty) : realizeBoxOptional value t = (do
    let layout := OptionalLayout.ofType t
    let box ← alloc .box
    let field ← tagField box
    let empty ← optionalIsEmpty value layout
    branching (.boxSome, .boxNone, .boxJoin) empty
      (do
        let payload ← optionalPayload value layout (← llvmType t)
        let tag ← dynamicMeta payload t
        storePointer tag field
        storeInBox box payload t)
      (storePointer .null field) fun _ _ => return .pointer box) := by
  simp [realizeBoxOptional, branching]

theorem keeps_realizeBoxOptional (hv : D.Has pt value.operand)
    (hheld : D.Typed → value.type.IsHeld) {t : Ty} (ht : D.IsType t) :
    D.Keeps env owed pt (realizeBoxOptional value t) fun v pt' => D.Gives pt' v := by
  rw [realizeBoxOptional_eq]
  refine keeps_allocBox.bind fun box pt₁ h₁ hbox => ?_
  refine (keeps_tagField hbox).bind fun field pt₂ h₂ hfield => ?_
  have hv₂ := (h₁.trans h₂).has hv
  refine (keeps_optionalIsEmpty hv₂ hheld _).bind fun empty pt₃ h₃ hempty => ?_
  have hv₃ := h₃.has hv₂
  have hbox₃ := (h₂.trans h₃).has hbox
  have hfield₃ := h₃.has hfield
  refine D.branching (Q := Frame.Whatever) _ hempty (fun owed pt₄ h₄ => ?_) (fun owed pt₄ h₄ => ?_)
    fun _ _ _ pt₄ _ h₄ _ => .pure (.pointer (h₄.has hbox₃))
  · refine .read (reads_llvmType t) fun type htype => ?_
    refine (keeps_optionalPayload (h₄.has hv₃) hheld _ type).bind
      fun payload pt₅ h₅ ⟨hpayload, hpayload'⟩ => ?_
    have hgives : D.Gives pt₅ payload := .of_type hpayload (hpayload'.trans htype)
    refine (keeps_dynamicMeta ht hpayload).bind fun tag pt₆ h₆ htag => ?_
    have h₄₆ := (h₄.trans h₅).trans h₆
    refine (keeps_storePointer htag (h₄₆.has hfield₃)).bind fun _ pt₇ h₇ _ => ?_
    exact keeps_storeInBox ((h₄₆.trans h₇).has hbox₃) ((h₆.trans h₇).gives hgives) t
  · exact keeps_storePointer has_null (h₄.has hfield₃)

theorem keeps_realizeRebox (hv : D.Has pt value.operand) {protocol : String}
    (hprotocol : D.IsName protocol) :
    D.Keeps env owed pt (realizeRebox value protocol) fun v pt' => D.Gives pt' v := by
  unfold realizeRebox
  refine (keeps_loadTag hv).bind fun tag pt₁ h₁ htag => ?_
  refine (keeps_conformanceOf htag hprotocol).bind fun conformance pt₂ h₂ hconformance => ?_
  refine (keeps_sizeFor fun _ => LType.isHeld_box).bind fun size pt₃ h₃ hsize => ?_
  refine (keeps_callRuntime (by decide) (by simpa using gives_word hsize 64)).bind
    fun copy pt₄ h₄ hcopy => ?_
  have hv₄ := ((h₁.trans h₂).trans (h₃.trans h₄)).has hv
  have hmemcpy : D.Has pt₄ (runtime "llvm.memcpy.p0.p0.i64") := D.has_runtime (by decide)
  refine .bind (D.emit ⟨?_, fun _ => ?_⟩ rfl not_false) fun _ pt₅ h₅ _ => ?_
  · simpa [Instr.uses, Value.pointer] using ⟨hmemcpy, hcopy.has, hv₄, h₄.has hsize⟩
  · simp [Instr.HasHeldTypes, Value.pointer]
  refine (keeps_tagField (h₅.has hcopy.has)).bind fun field pt₆ h₆ hfield => ?_
  have h₃₆ := (h₃.trans h₄).trans (h₅.trans h₆)
  refine (keeps_storePointer (h₃₆.has hconformance) hfield).bind fun _ pt₇ h₇ _ => ?_
  exact .pure (.pointer (((h₅.trans h₆).trans h₇).has hcopy.has))

theorem keeps_realizeUnbox (hv : D.Has pt value.operand) {t : Ty} (ht : D.IsType t) :
    D.Keeps env owed pt (realizeUnbox value t) fun v pt' => D.Gives pt' v := by
  unfold realizeUnbox
  refine (keeps_checkTag hv ht).bind fun _ _ h₁ _ => ?_
  exact (keeps_loadFromBox (h₁.has hv) t).mono fun v _ ⟨hv, htype⟩ => .of_type hv htype

theorem realizeUnboxOptional_eq (value : Value) (t : Ty) : realizeUnboxOptional value t = (do
    let inner := t.optionalInner?.getD t
    let layout := OptionalLayout.ofType inner
    let type ← llvmType t
    let empty ← boxIsEmpty value.operand
    branching (.unboxSome, .unboxNone, .unboxJoin) empty
      (do
        checkTag value.operand inner
        let payload ← loadFromBox value.operand inner
        let present ← wrapOptional payload layout type
        return (present, (← get).label))
      (pure ()) fun noneLabel (present, someEnd) => do
        let incoming := [(present.operand, someEnd), (absentOperand layout, noneLabel)]
        return ⟨type, ← define (.phi · type incoming)⟩) := by
  simp [realizeUnboxOptional, branching]

theorem keeps_realizeUnboxOptional (hv : D.Has pt value.operand) {t : Ty} (ht : D.IsType t)
    (hheld : D.Typed → (env.package.declarations.llvmType t).IsHeld) :
    D.Keeps env owed pt (realizeUnboxOptional value t) fun v pt' => D.Gives pt' v := by
  have hinner : D.IsType (t.optionalInner?.getD t) := by
    cases hu : t.optionalInner? with
    | none => exact ht
    | some u => exact D.pervasive.of_optionalInner? ht hu
  rw [realizeUnboxOptional_eq]
  refine .read (reads_llvmType t) fun type htype => ?_
  subst htype
  refine (keeps_boxIsEmpty hv).bind fun empty pt₁ h₁ hempty => ?_
  have hv₁ := h₁.has hv
  refine D.branching (Q := fun q pt' => D.Has pt' q.1.operand ∧ q.2 = pt'.function.label)
    _ hempty (fun owed pt₂ h₂ => ?_) (fun owed pt₂ h₂ => .pure rfl) fun q pt₂ other pt₃ hq _ hjoins => ?_
  · refine (keeps_checkTag (h₂.has hv₁) hinner).bind fun _ pt₃ h₃ _ => ?_
    refine (keeps_loadFromBox ((h₂.trans h₃).has hv₁) _).bind
      fun payload pt₄ _ ⟨hpayload, htype⟩ => ?_
    refine (keeps_wrapOptional _ (.of_type hpayload htype) hheld).bind
      fun present pt₅ _ ⟨hpresent, _⟩ => ?_
    exact .get (.pure ⟨hpresent, rfl⟩)
  · obtain ⟨present, someEnd⟩ := q
    obtain ⟨hpresent, rfl⟩ := hq
    refine .map (.mono (D.phi hjoins hpresent (isConstant_absentOperand _) hheld) fun _ _ ho => ?_)
    exact .of_type ho rfl

theorem keeps_realizeUnwrapOptional (hv : D.Has pt value.operand)
    (hheld : D.Typed → value.type.IsHeld) (source : Ty) :
    D.Keeps env owed pt (realizeUnwrapOptional value source) fun v pt' => D.Gives pt' v := by
  unfold realizeUnwrapOptional
  refine (keeps_optionalIsEmpty hv hheld _).bind fun empty pt₁ h₁ hempty => ?_
  refine (D.emitCheck hempty _).bind fun _ pt₂ h₂ _ => ?_
  refine .read (reads_llvmType _) fun type htype => ?_
  exact (keeps_optionalPayload ((h₁.trans h₂).has hv) hheld _ type).mono
    fun v _ ⟨hv, hv'⟩ => .of_type hv (hv'.trans htype)

theorem keeps_realizeUnwrapBoxOptional (hv : D.Gives pt value) :
    D.Keeps env owed pt (realizeUnwrapBoxOptional value) fun v pt' => D.Gives pt' v := by
  unfold realizeUnwrapBoxOptional
  refine (keeps_boxIsEmpty hv.has).bind fun empty pt₁ h₁ hempty => ?_
  exact (D.emitCheck hempty _).bind fun _ pt₂ h₂ _ => .pure ((h₁.trans h₂).gives hv)

/-- What a sound conversion starts from is held where it is not the native representation. -/
theorem isHeld_of_consumes {op : Conversion} {source target : Ty}
    (hsound : op.StepSound env.package.declarations source target)
    (hvalue : value.type = env.package.declarations.llvmType source)
    (hconsumes : op.consumes ≠ .simple) : value.type.IsHeld := by
  rw [hvalue]
  exact env.package.declarations.isHeld_llvmType (hsound.consumes_eq ▸ hconsumes)

theorem keeps_realize_step {op : Conversion} {source target : Ty}
    (hop : ∀ s t args ret, op ≠ .adaptCallable s t args ret)
    (hmentions : op.Mentions D.IsName D.IsType)
    (hsound : D.Typed → op.StepSound env.package.declarations source target)
    (hv : D.Has pt value.operand)
    (htype : D.Typed → value.type = env.package.declarations.llvmType source) :
    D.Keeps env owed pt (realize op value source target) fun v pt' => D.Gives pt' v := by
  have hgives : D.Gives pt value :=
    ⟨hv, fun htyped => htype htyped ▸ env.package.declarations.isGiven_llvmType source⟩
  have hsource (h : op.consumes ≠ .simple) (htyped : D.Typed) : value.type.IsHeld :=
    isHeld_of_consumes (hsound htyped) (htype htyped) h
  have htarget (h : op.produces ≠ .simple) (htyped : D.Typed) :
      (env.package.declarations.llvmType target).IsHeld :=
    env.package.declarations.isHeld_llvmType ((hsound htyped).produces_eq ▸ h)
  cases op with
  | box t protocol => exact keeps_realizeBox hgives hmentions.1 hmentions.2
  | boxOptional t => exact keeps_realizeBoxOptional hv (hsource (by simp [consumes])) hmentions
  | rebox protocol => exact keeps_realizeRebox hv hmentions
  | unbox t => exact keeps_realizeUnbox hv hmentions
  | unboxOptional t =>
    refine keeps_realizeUnboxOptional hv hmentions fun htyped => ?_
    have heq : env.package.declarations.llvmType t = _ := (hsound htyped).realizedType_eq
    rw [heq]
    exact htarget (by simp [produces]) htyped
  | wrapOptional =>
    refine .read (reads_llvmType target) fun type htype => ?_
    subst htype
    exact (keeps_wrapOptional _ hgives (htarget (by simp [produces]))).mono
      fun v _ ⟨hv, htype⟩ => .of_type hv htype
  | unwrapOptional => exact keeps_realizeUnwrapOptional hv (hsource (by simp [consumes])) source
  | unwrapBoxOptional => exact keeps_realizeUnwrapBoxOptional hgives
  | adaptCallable s t args ret => exact absurd rfl (hop s t args ret)

end Steps

/-! ### Adapters -/

/-- A conversion whose code keeps to the discipline, between values of the two types. -/
inductive Frame.Fits (F : Frame) (d : Declarations) : Conversion → Ty → Ty → Prop where
  | step {op : Conversion} {source target : Ty} :
      (∀ s t args ret, op ≠ .adaptCallable s t args ret) → op.Mentions F.IsName F.IsType →
      (F.Typed → op.StepSound d source target) → Fits F d op source target
  | adapt {inner outer source target : Ty} {args : List (Option Conversion)}
      {ret : Option Conversion} :
      (∀ ps r ps' r', inner.unboxed = .callable ps r → outer.unboxed = .callable ps' r' →
        ∀ t ∈ ps', F.Passes (d.llvmType t)) →
      (∀ ps r ps' r', inner.unboxed = .callable ps r → outer.unboxed = .callable ps' r' →
        ∀ e ∈ args.zip (ps'.zip ps), ∀ op, e.1 = some op → Fits F d op e.2.1 e.2.2) →
      (∀ ps r ps' r', inner.unboxed = .callable ps r → outer.unboxed = .callable ps' r' →
        ∀ op, ret = some op → Fits F d op r r') →
      Fits F d (.adaptCallable inner outer args ret) source target

/-- What holds of a conversion and of the entries of its adapters may be enough for the discipline. -/
theorem Frame.fits_of_everywhere {F : Frame} {d : Declarations} {P : Conversion → Ty → Ty → Prop}
    {Q : Ty → Ty → Prop} {op : Conversion} {source target : Ty}
    (h : op.Everywhere P Q source target)
    (hmentions : ∀ op : Conversion, op.Mentions F.IsName F.IsType)
    (hsound : F.Typed → ∀ op s t, P op s t → op.StepSound d s t)
    (hpasses : ∀ op s t, P op s t → ∀ ps r, t.unboxed = .callable ps r →
      ∀ u ∈ ps, F.Passes (d.llvmType u)) :
    F.Fits d op source target := by
  induction h with
  | step hop hP => exact .step hop (hmentions _) fun htyped => hsound htyped _ _ _ hP
  | adapt hP hs ht _ _ _ _ _ _ ihargs ihret =>
    refine .adapt (fun ps r ps' r' _ ht' => hpasses _ _ _ hP ps' r' ht')
      (fun ps r ps' r' hs' ht' => ?_) fun ps r ps' r' hs' ht' => ?_
    all_goals
      cases hs.symm.trans hs'
      cases ht.symm.trans ht'
    · exact ihargs
    · exact ihret

/-- Of a value that is at hand, the code of the entry of an adapter makes one that is. -/
def Frame.Converts (F : Frame) (env : FunctionEnv) (entry : Option Conversion)
    (source target : Ty) : Prop :=
  ∀ {owed pt v}, F.Has pt v.operand →
    (F.Typed → v.type = env.package.declarations.llvmType source) →
    F.Keeps env owed pt (realizeEntry entry v source target) fun u pt' => F.Gives pt' u

theorem Frame.converts_none {F : Frame} (source target : Ty) : F.Converts env none source target :=
  fun hv htype => .pure ⟨hv, fun htyped =>
    htype htyped ▸ env.package.declarations.isGiven_llvmType source⟩

/-- Values are converted one by one, each by its own entry. -/
theorem keeps_realizeAll {args : List (Option Conversion)} {values : List Value} {ps ps' : List Ty}
    (hargs : ∀ e ∈ args.zip (ps'.zip ps), D.Converts env e.1 e.2.1 e.2.2)
    (hvalues : ∀ v ∈ values, D.Has pt v.operand)
    (htypes : D.Typed → values.map (·.type) = ps'.map env.package.declarations.llvmType) :
    D.Keeps env owed pt (realizeAll args (values.zip (ps'.zip ps))) fun vs pt' =>
      ∀ v ∈ vs, D.Gives pt' v := by
  induction args generalizing pt values ps ps' with
  | nil => exact .pure (by simp)
  | cons entry args ih =>
    obtain _ | ⟨value, values⟩ := values
    · exact .pure (by simp)
    obtain _ | ⟨source, ps'⟩ := ps'
    · exact .pure (by simp)
    obtain _ | ⟨target, ps⟩ := ps
    · exact .pure (by simp)
    simp only [List.zip_cons_cons, List.forall_mem_cons] at hargs hvalues ⊢
    rw [realizeAll]
    have htypes' (htyped : D.Typed) := List.cons.inj (htypes htyped)
    refine (hargs.1 hvalues.1 fun htyped => (htypes' htyped).1).bind fun v pt₁ h₁ hv => ?_
    refine (ih hargs.2 (fun u hu => h₁.has (hvalues.2 u hu))
      fun htyped => (htypes' htyped).2).bind fun vs pt₂ h₂ hvs => .pure ?_
    exact List.forall_mem_cons.mpr ⟨h₂.gives hv, hvs⟩

theorem makes_adapterFunction {ps ps' : List Ty} {r r' : Ty} {args : List (Option Conversion)}
    {ret : Option Conversion} (hstyle : env.style = .closure [])
    (hpasses : ∀ t ∈ ps', D.Passes (env.package.declarations.llvmType t))
    (hargs : ∀ e ∈ args.zip (ps'.zip ps), D.Converts env e.1 e.2.1 e.2.2)
    (hret : D.Converts env ret r r') :
    D.Makes env (adapterFunction ps ps' r r' args ret) := by
  let types := ps'.map env.package.declarations.llvmType
  have hgiven (htyped : D.Typed) : ∀ q ∈ types.map fun t => ((none : Option VariableId), t),
      q.2.IsGiven := by
    intro q hq
    obtain ⟨type, htype, rfl⟩ := List.mem_map.mp hq
    obtain ⟨t, -, rfl⟩ := List.mem_map.mp htype
    exact env.package.declarations.isGiven_llvmType t
  have hheld : env.style.IsHeld := by
    rw [hstyle]
    exact ⟨by simp, by simp [ArgumentStyle.this?]⟩
  have hcontext : .context ∈ env.style.operands types := by
    rw [hstyle]
    exact List.mem_cons_self
  have hvalues {pt : Point D.Ghost} (h : D.Receives pt (env.style.operands types)) (v : Value)
      (hv : v ∈ paramValues 0 types) : D.Has pt v.operand := by
    obtain ⟨t, i, hmem, rfl⟩ := mem_paramValues.mp hv
    obtain ⟨u, hu, rfl⟩ := List.mem_map.mp (List.fst_mem_of_mem_zipIdx hmem)
    exact D.has_param h hmem (hpasses u hu)
  refine ⟨types, fun pt hpt => ?_⟩
  unfold adapterFunction
  refine .read (.mapM (fun t => reads_llvmType t) ps') fun types' htypes => ?_
  obtain rfl : types' = types := htypes
  refine (runs_declareArguments (fun _ => hheld) hgiven (by rw [List.map_map]; simp)).reaches_bind
    hpt fun declared pt₁ hpt₁ hcont₁ hdeclared => ?_
  have hcontext₁ : D.Has pt₁ .context := D.has_received hpt₁.receives hcontext
  -- The code between the parameters and the end binds nothing.
  let body : Emit Value := do
    let wrapped ← loadWord .context 0
    let wrappedContext ← loadWord .context 1
    let converted ← realizeAll args ((paramValues 0 types).zip (ps'.zip ps))
    let result ← emitCall (← llvmType r) wrapped (.pointer wrappedContext :: converted)
    realizeEntry ret result r r'
  have hbody : D.Keeps env [] pt₁ body fun v pt' => D.Gives pt' v := by
    refine (keeps_loadWord hcontext₁ 0).bind fun wrapped pt₂ h₂ hwrapped => ?_
    refine (keeps_loadWord (h₂.has hcontext₁) 1).bind fun bound pt₃ h₃ hbound => ?_
    have h₁₃ := h₂.trans h₃
    refine (keeps_realizeAll hargs (fun v hv => h₁₃.has (hvalues hpt₁.receives v hv))
      fun _ => map_type_paramValues 0 types).bind fun converted pt₄ h₄ hconverted => ?_
    refine .read (reads_llvmType r) fun type htype => ?_
    refine (keeps_emitCall (fun _ => htype ▸ env.package.declarations.isGiven_llvmType r)
      ((h₃.trans h₄).has hwrapped) ?_).bind fun result pt₅ _ ⟨hresult, hresult'⟩ => ?_
    · exact List.forall_mem_cons.mpr ⟨.pointer (h₄.has hbound), hconverted⟩
    · exact hret hresult fun _ => hresult'.trans htype
  have hrest : Reaches env pt₁ (body >>= fun v => do
      emitReturn v
      finished (← llvmType r') declared) (D.Completes env (env.style.operands types) pt) :=
    hbody.reaches_bind hpt₁.sound fun v pt₂ hsound hext hv =>
      reaches_returning (hpt₁.extends hext hsound) (D.trans hcont₁ hext.continues) hpt.receives hv r'
        hdeclared
  simpa only [body, bind_assoc] using hrest

/-- Of a value that is at hand, the code of a conversion makes one that is. -/
theorem keeps_realize {d : Declarations} (hd : env.package.declarations = d) {op : Conversion}
    {value : Value} {source target : Ty} (h : D.Fits d op source target)
    (hv : D.Has pt value.operand) (htype : D.Typed → value.type = d.llvmType source) :
    D.Keeps env owed pt (realize op value source target) fun v pt' => D.Gives pt' v := by
  induction h generalizing env owed pt value with
  | step hop hmentions hsound =>
    subst hd
    exact keeps_realize_step hop hmentions hsound hv htype
  | @adapt inner outer source target args ret hpasses _ _ ihargs ihret =>
    subst hd
    -- Both types are those of callables, or else no code is given.
    by_cases hcallables : ∃ ps r ps' r',
        inner.unboxed = .callable ps r ∧ outer.unboxed = .callable ps' r'
    · obtain ⟨ps, r, ps', r', hs, ht⟩ := hcallables
      rw [realize_adaptCallable hs ht]
      refine D.making .adapter (fun name => makes_adapterFunction rfl
        (hpasses ps r ps' r' hs ht) (fun e he => ?_) ?_) fun name pt₁ h₁ hname =>
          keeps_makeCallable hname (h₁.has hv)
      · cases hop : e.1 with
        | none => exact Frame.converts_none _ _
        | some op => exact fun hv htype => ihargs ps r ps' r' hs ht e he op hop (by exact rfl) hv htype
      · cases hop : ret with
        | none => exact Frame.converts_none _ _
        | some op => exact fun hv htype => ihret ps r ps' r' hs ht op hop (by exact rfl) hv htype
    · rw [realize]
      refine D.making .adapter (fun name => ⟨[], fun pt _ => ?_⟩) fun name pt₁ h₁ hname =>
        keeps_makeCallable hname (h₁.has hv)
      split
      next ps r ps' r' hs ht => exact absurd ⟨ps, r, ps', r', hs, ht⟩ hcallables
      next => exact .throw _

end Emit

end Boxlang
