import Boxlang.Proofs.Emit.Function

/-!
# Code for sound conversions

The code of a sound conversion always exists, only adds, and leaves a value of the
LLVM type of the target.
-/

namespace Boxlang

namespace Emit

open Llvm Conversion

variable {env : FunctionEnv} {first : Nat} {w : World}

/-! ### The conversions one by one -/

theorem emits_boxTag (value : Value) (t : Ty) (protocol : Option String) :
    Emits env first w (boxTag value t protocol) True Anything := by
  unfold boxTag
  split
  next =>
    refine (emits_define _ fun _ => by trivial).and_then fun tag _ _ _ => ?_
    exact emits_conformanceOf tag _
  next =>
    refine .map ?_
    exact (emits_liftM _ (by simp)).anything
  next => exact emits_dynamicMeta value t

theorem emits_realizeBox (value : Value) (t : Ty) (protocol : Option String) :
    Emits env first w (realizeBox value t protocol) True fun v _ => v.type = .ptr := by
  unfold realizeBox
  refine (emits_alloc .box).and_then fun box _ _ _ => ?_
  refine (emits_boxTag value t protocol).and_then fun tag _ _ _ => ?_
  refine (emits_tagField box).and_then fun field _ _ hfield => ?_
  refine (emits_storePointer hfield tag).and_then fun _ _ _ _ => ?_
  exact (emits_storeInBox box value t).and_then fun _ _ _ _ => .pure rfl

theorem emits_realizeBoxOptional (value : Value) (t : Ty) :
    Emits env first w (realizeBoxOptional value t) True fun v _ => v.type = .ptr := by
  unfold realizeBoxOptional
  refine (emits_alloc .box).and_then fun box _ _ _ => ?_
  refine (emits_tagField box).and_then fun field w₁ _ hfield => ?_
  refine (emits_optionalIsEmpty value _).and_then fun empty w₂ h₂ _ => ?_
  refine (emits_freshLabel .boxSome).and_then fun someLabel w₃ h₃ _ => ?_
  refine (emits_freshLabel .boxNone).and_then fun noneLabel w₄ h₄ _ => ?_
  refine (emits_freshLabel .boxJoin).and_then fun joinLabel w₅ h₅ _ => ?_
  refine (emits_finishBlock _ (by exact not_false)).and_then fun _ w₆ h₆ _ => ?_
  refine (emits_startBlock someLabel).and_then fun _ w₇ h₇ _ => ?_
  refine (emits_llvmType t).and_then fun type w₈ h₈ _ => ?_
  refine (emits_optionalPayload value _ type).and_then fun payload w₉ h₉ _ => ?_
  refine (emits_dynamicMeta payload t).and_then fun tag w₁₀ h₁₀ _ => ?_
  have hext := ((((((h₂.trans h₃).trans h₄).trans h₅).trans h₆).trans h₇).trans h₈).trans
    (h₉.trans h₁₀)
  refine (emits_storePointer (hfield.mono hext) tag).and_then fun _ w₁₁ h₁₁ _ => ?_
  refine (emits_storeInBox box payload t).and_then fun _ w₁₂ h₁₂ _ => ?_
  refine (emits_finishBlock _ (by exact not_false)).and_then fun _ w₁₃ h₁₃ _ => ?_
  refine (emits_startBlock noneLabel).and_then fun _ w₁₄ h₁₄ _ => ?_
  have hext' := ((hext.trans h₁₁).trans h₁₂).trans (h₁₃.trans h₁₄)
  refine (emits_storePointer (hfield.mono hext') .null).and_then fun _ _ _ _ => ?_
  refine (emits_finishBlock _ (by exact not_false)).and_then fun _ _ _ _ => ?_
  exact (emits_startBlock joinLabel).and_then fun _ _ _ _ => .pure rfl

theorem emits_realizeRebox (value : Value) (protocol : String) :
    Emits env first w (realizeRebox value protocol) True fun v _ => v.type = .ptr := by
  unfold realizeRebox
  refine (emits_loadTag _).and_then fun tag _ _ _ => ?_
  refine (emits_conformanceOf tag protocol).and_then fun conformance _ _ _ => ?_
  refine (emits_sizeFor .box).and_then fun size _ _ _ => ?_
  refine (emits_emitCall _ _ _).and_then fun copy _ _ _ => ?_
  refine (emits_plain _ (by trivial)).and_then fun _ _ _ _ => ?_
  refine (emits_tagField _).and_then fun field _ _ hfield => ?_
  exact (emits_storePointer hfield conformance).and_then fun _ _ _ _ => .pure rfl

theorem emits_checkTag (box : Operand) (t : Ty) :
    Emits env first w (checkTag box t) True Anything := by
  unfold checkTag
  split
  next => exact .pure trivial
  next =>
    refine (emits_loadTag box).and_then fun tag _ _ _ => ?_
    refine (emits_liftM _ (by simp)).and_then fun expected _ _ _ => ?_
    refine (emits_define _ fun _ => by trivial).and_then fun mismatch _ _ _ => ?_
    exact emits_emitCheck mismatch _

theorem emits_realizeUnbox (value : Value) (t : Ty) :
    Emits env first w (realizeUnbox value t) True fun v _ =>
      v.type = env.package.declarations.llvmType t := by
  unfold realizeUnbox
  exact (emits_checkTag _ t).and_then fun _ _ _ _ => emits_loadFromBox _ t

theorem emits_realizeUnboxOptional (value : Value) (t : Ty) :
    Emits env first w (realizeUnboxOptional value t) True fun v _ =>
      v.type = env.package.declarations.llvmType t := by
  unfold realizeUnboxOptional
  refine (emits_llvmType t).and_then fun type _ _ htype => ?_
  refine (emits_boxIsEmpty _).and_then fun empty _ _ _ => ?_
  refine (emits_freshLabel .unboxSome).and_then fun someLabel _ _ _ => ?_
  refine (emits_freshLabel .unboxNone).and_then fun noneLabel _ _ _ => ?_
  refine (emits_freshLabel .unboxJoin).and_then fun joinLabel _ _ _ => ?_
  refine (emits_finishBlock _ (by exact not_false)).and_then fun _ _ _ _ => ?_
  refine (emits_startBlock someLabel).and_then fun _ _ _ _ => ?_
  refine (emits_checkTag _ _).and_then fun _ _ _ _ => ?_
  refine (emits_loadFromBox _ _).and_then fun payload _ _ _ => ?_
  refine (emits_wrapOptional payload _ type).and_then fun present _ _ _ => ?_
  refine emits_get.and_then fun s _ _ _ => ?_
  refine (emits_finishBlock _ (by exact not_false)).and_then fun _ _ _ _ => ?_
  refine (emits_startBlock noneLabel).and_then fun _ _ _ _ => ?_
  refine (emits_finishBlock _ (by exact not_false)).and_then fun _ _ _ _ => ?_
  refine (emits_startBlock joinLabel).and_then fun _ _ _ _ => ?_
  refine .map ?_
  exact (emits_define _ fun _ => by trivial).mono fun _ _ _ => htype

theorem emits_realizeUnwrapOptional (value : Value) (source : Ty) :
    Emits env first w (realizeUnwrapOptional value source) True fun v _ =>
      v.type = env.package.declarations.llvmType (source.optionalInner?.getD source) := by
  unfold realizeUnwrapOptional
  refine (emits_optionalIsEmpty value _).and_then fun empty _ _ _ => ?_
  refine (emits_emitCheck empty _).and_then fun _ _ _ _ => ?_
  refine (emits_llvmType _).and_then fun type _ _ htype => ?_
  exact (emits_optionalPayload value _ type).mono fun _ _ h => h.trans htype

theorem emits_realizeUnwrapBoxOptional (value : Value) :
    Emits env first w (realizeUnwrapBoxOptional value) True fun v _ => v = value := by
  unfold realizeUnwrapBoxOptional
  refine (emits_boxIsEmpty _).and_then fun empty _ _ _ => ?_
  exact (emits_emitCheck empty _).and_then fun _ _ _ _ => .pure rfl

theorem emits_realize_step {op : Conversion} {value : Value} {source target : Ty}
    (hop : ∀ s t args ret, op ≠ .adaptCallable s t args ret)
    (hsound : op.StepSound env.package.declarations source target)
    (hvalue : value.type = env.package.declarations.llvmType source) :
    Emits env first w (realize op value source target) True fun v _ =>
      v.type = env.package.declarations.llvmType target := by
  have htype := hsound.realizedType_eq
  cases op with
  | box t protocol => exact (emits_realizeBox value t protocol).mono fun _ _ h => h.trans htype
  | boxOptional t => exact (emits_realizeBoxOptional value t).mono fun _ _ h => h.trans htype
  | rebox protocol => exact (emits_realizeRebox value protocol).mono fun _ _ h => h.trans htype
  | unbox t => exact (emits_realizeUnbox value t).mono fun _ _ h => h.trans htype
  | unboxOptional t => exact (emits_realizeUnboxOptional value t).mono fun _ _ h => h.trans htype
  | wrapOptional =>
      refine (emits_llvmType target).and_then fun type _ _ hlt => ?_
      exact (emits_wrapOptional value _ type).mono fun _ _ h => h.trans hlt
  | unwrapOptional =>
      exact (emits_realizeUnwrapOptional value source).mono fun _ _ h => h.trans htype
  | unwrapBoxOptional =>
      refine (emits_realizeUnwrapBoxOptional value).mono fun v _ h => ?_
      have hsource : source.storage = .box := hsound.consumes_eq.symm
      rw [h, hvalue, Declarations.llvmType_of_box _ hsource]
      exact htype
  | adaptCallable s t args ret => exact absurd rfl (hop s t args ret)

/-! ### Adapters -/

theorem emits_realizeAll {d : Declarations} {args : List (Option Conversion)} {params params' : List Ty}
    {values : List Value} (hlen : params'.length = params.length) (hargs : args.length = params.length)
    (hentry : ∀ e ∈ args.zip (params'.zip params), ∀ w v, v.type = d.llvmType e.2.1 →
      Emits env first w (realizeEntry e.1 v e.2.1 e.2.2) True fun u _ => u.type = d.llvmType e.2.2)
    (hvalues : values.map (·.type) = params'.map d.llvmType) :
    Emits env first w (realizeAll args (values.zip (params'.zip params))) True fun vs _ =>
      vs.map (·.type) = params.map d.llvmType := by
  induction args generalizing w params params' values with
  | nil =>
      obtain rfl := List.eq_nil_of_length_eq_zero hargs.symm
      exact .pure rfl
  | cons entry args ih =>
      obtain _ | ⟨param, params⟩ := params
      · cases hargs
      obtain _ | ⟨param', params'⟩ := params'
      · cases hlen
      obtain _ | ⟨value, values⟩ := values
      · cases hvalues
      obtain ⟨hvalue, hvalues⟩ := List.cons.inj hvalues
      rw [List.zip_cons_cons, List.zip_cons_cons] at *
      rw [realizeAll]
      refine (hentry _ List.mem_cons_self w value hvalue).and_then fun v _ _ hv => ?_
      refine .map ?_
      refine (ih (Nat.succ.inj hlen) (Nat.succ.inj hargs) (fun e he => ?_) hvalues).mono
        fun vs _ hvs => congrArg₂ List.cons hv hvs
      exact hentry e (List.mem_cons_of_mem _ he)

/--
The function of an adapted callable.  It is invoked as a callable of parameters
`params'` and result `r'`, and invokes one of parameters `params` and result `r`.
-/
theorem meets_adapterFunction {params params' : List Ty} {r r' : Ty}
    {args : List (Option Conversion)} {ret : Option Conversion} {m : ModuleState}
    (hname : ∃ n : Nat, env.name = s!"ember.adapter.{n}")
    (hstyle : env.style = .closure []) (hlen : params'.length = params.length)
    (hargs : args.length = params.length)
    (hentry : ∀ e ∈ args.zip (params'.zip params), ∀ w v,
      v.type = env.package.declarations.llvmType e.2.1 →
      Emits env 0 w (realizeEntry e.1 v e.2.1 e.2.2) True fun u _ =>
        u.type = env.package.declarations.llvmType e.2.2)
    (hret : ∀ w v, v.type = env.package.declarations.llvmType r →
      Emits env 0 w (realizeEntry ret v r r') True fun u _ =>
        u.type = env.package.declarations.llvmType r') :
    Meets env ⟨.start 0, m⟩ (adapterFunction params params' r r' args ret) True fun f w' =>
        Appends (Synthesized.IsMade env.package env.arena) m.synthesized w'.refs.synthesized ∧
          Made env.package env.arena f := by
  have hle (n : Nat) : 0 ≤ n := Nat.zero_le n
  unfold adapterFunction
  refine (emits_mapM (fun t _ => emits_llvmType t) params' (hle _)).bind_true fun types w₂ ⟨h₂, htypes⟩ => ?_
  have hnamed : namedParams (types.map fun t => (none, t)) = [] := by
    simp [namedParams, List.filterMap_map]
  have hnodup : ((env.style.captured ++
      namedParams (types.map fun t => (none, t))).map (·.1)).Nodup := by
    simp [hstyle, hnamed, ArgumentStyle.captured]
  refine (declares_arguments _ hnodup (hle _)).bind_true fun declared w₃ ⟨h₃, _, hdeclared⟩ => ?_
  refine (emits_loadWord _ 0 (hle _)).bind_true fun wrapped w₄ ⟨h₄, _⟩ => ?_
  refine (emits_loadWord _ 1 (hle _)).bind_true fun wrappedContext w₅ ⟨h₅, _⟩ => ?_
  have hvalues := (map_type_paramValues 0 types).trans htypes
  refine (emits_realizeAll hlen hargs hentry hvalues (hle _)).bind_true
    fun converted w₆ ⟨h₆, _⟩ => ?_
  refine (emits_llvmType r (hle _)).bind_true fun type w₇ ⟨h₇, htype⟩ => ?_
  refine (emits_emitCall type _ _ (hle _)).bind_true fun result w₈ ⟨h₈, hresult⟩ => ?_
  refine (hret _ result (hresult.1.trans htype) (hle _)).bind_true fun v w₉ ⟨h₉, hv⟩ => ?_
  have hgrows := (h₂.toGrows.trans h₃).trans
    (h₄.trans (h₅.trans (h₆.trans (h₇.trans (h₈.trans h₉))))).toGrows
  refine (meets_returning params' hgrows hv ?_).mono
    fun f w' ⟨hf, himplements, hrefs⟩ => ?_
  · rw [hdeclared, hstyle, ← htypes]
    simp [ArgumentStyle.firstTypes, Function.comp_def]
  · obtain ⟨n, hn⟩ := hname
    exact ⟨hrefs ▸ hgrows.synthesized, .adapter (hf.trans hn) himplements⟩

theorem emits_realize {d : Declarations} (hd : env.package.declarations = d) {op : Conversion}
    {value : Value} {source target : Ty} (hsound : op.IsSound d source target)
    (hvalue : value.type = d.llvmType source) :
    Emits env first w (realize op value source target) True fun v _ =>
      v.type = d.llvmType target := by
  unfold IsSound at hsound
  induction hsound generalizing env first w value with
  | step hop hstep =>
      subst hd
      exact emits_realize_step hop hstep hvalue
  | @adapt source target params params' r r' args ret hstep hs ht hlen hargs hnone _ hretNone _
      ihargs ihret =>
      rw [realize_adaptCallable hs ht]
      refine (emits_liftM _ (by simp)).and_then fun name w₁ _ ⟨m, hname⟩ => ?_
      refine .and_then (Q := fun f _ => Made env.package env.arena f)
        (emits_nested (meets_adapterFunction ⟨m.nextAdapter, hname⟩ rfl hlen hargs (fun e he w v hv => ?_)
          fun w v hv => ?_)) fun f w₂ _ hf => ?_
      · cases hop : e.1 with
        | none => exact .pure (hv.trans (hd ▸ (hnone e he hop).llvmType_eq))
        | some op =>
            rw [hd] at hv ⊢
            exact ihargs e he op hop (by exact hd) hv
      · rw [hd] at hv ⊢
        cases hop : ret with
        | none => exact .pure (hv.trans (hretNone hop).llvmType_eq)
        | some op => exact ihret op hop (by exact hd) hv
      · refine (emits_pushFunction hf).and_then fun _ _ _ _ => ?_
        exact (emits_makeCallable _ _).mono fun v _ hv => hv.trans hstep.realizedType_eq

end Emit

end Boxlang
