import Boxlang.Proofs.Emit.Call

/-!
# Code for closures

The function of a closure starts without bindings.  On entry it binds what the
closure captured, except values of type void, and its parameters.  So the bindings
agree with its body, and suffice for it exactly if nothing of type nothing was
captured.
-/

namespace Boxlang

namespace Emit

open Llvm

/-- The values that a closure captures, as read from the given bindings. -/
structure Captured (captures : List VariableId) (bindings : Slots LocalVariable)
    (l : List (VariableId × LType)) : Prop where
  nodup : captures.Nodup → (l.map (·.1)).Nodup
  bound : ∀ e ∈ l, e.1 ∈ captures ∧ e.2.isVoid = false ∧
    ∃ b, bindings.get? e.1 = some b ∧ e.2 = b.value.type
  complete : ∀ id ∈ captures, ∃ b, bindings.get? id = some b ∧
    (b.value.type.isVoid = false → (id, b.value.type) ∈ l)

variable {env : FunctionEnv} {first : Nat} {w : World}

theorem emits_readCaptures (captures : List VariableId) :
    Emits env first w (captures.mapM fun id => return (id, ← readVariable id))
      (∀ id ∈ captures, (w.function.bindings.get? id).isSome = true) fun values _ =>
        values.map (·.1) = captures ∧ ∀ e ∈ values, ∃ b,
          w.function.bindings.get? e.1 = some b ∧ e.2.type = b.value.type := by
  induction captures generalizing w with
  | nil =>
      rw [List.mapM_nil]
      exact Emits.congr (.pure ⟨rfl, by simp⟩) (by simp)
  | cons id captures ih =>
      rw [List.mapM_cons, List.forall_mem_cons]
      have hread : Emits env first w (do return (id, ← readVariable id))
          ((w.function.bindings.get? id).isSome = true) fun e _ => e.1 = id ∧
            ∃ b, w.function.bindings.get? e.1 = some b ∧ e.2.type = b.value.type := by
        refine .map ?_
        exact (emits_readVariable id).mono fun _ _ h => ⟨rfl, h⟩
      refine hread.bind fun e w₁ hext he => .map ?_
      rw [← hext.bindings_eq] at he ⊢
      refine ih.mono fun values _ hvalues => ⟨congrArg₂ List.cons he.1 hvalues.1, ?_⟩
      exact List.forall_mem_cons.mpr ⟨he.2, hvalues.2⟩

theorem emits_capturedValues (literal : Closure) :
    Emits env first w (capturedValues literal)
      (∀ id ∈ literal.captures, (w.function.bindings.get? id).isSome = true) fun captured _ =>
        Captured literal.captures w.function.bindings (captured.map fun (id, v) => (id, v.type)) := by
  unfold capturedValues
  refine .map ?_
  refine (emits_readCaptures literal.captures).mono fun values _ ⟨hids, hvalues⟩ => ?_
  refine ⟨fun hnodup => ?_, fun e he => ?_, fun id hid => ?_⟩
  · rw [← hids] at hnodup
    rw [List.map_map]
    exact hnodup.sublist (List.filter_sublist.map _)
  · obtain ⟨q, hq, rfl⟩ := List.mem_map.mp he
    obtain ⟨hmem, hvoid⟩ := List.mem_filter.mp hq
    refine ⟨hids ▸ List.mem_map_of_mem hmem, by simpa [Value.isVoid] using hvoid, hvalues q hmem⟩
  · rw [← hids] at hid
    obtain ⟨q, hq, rfl⟩ := List.mem_map.mp hid
    obtain ⟨b, hb, htype⟩ := hvalues q hq
    refine ⟨b, hb, fun hvoid => List.mem_map.mpr ⟨q, List.mem_filter.mpr ⟨hq, ?_⟩, ?_⟩⟩
    · simp [Value.isVoid, htype, hvoid]
    · rw [← htype]

/-! ### The bindings of the function of a closure -/

structure ClosureOk (p : Package) (a : Arena) (Γ : Context) (literal : Closure) (params : List Ty)
    (ret : Ty) (ids : List VariableId) : Prop where
  ids_eq : literal.params.map (·.id?) = ids.map some
  length_eq : ids.length = params.length
  ids_nodup : ids.Nodup
  fresh : ∀ id ∈ ids, ∀ t, ¬ Γ id t
  captures_nodup : literal.captures.Nodup
  mem_captures_iff : ∀ id, id ∈ literal.captures ↔ (∃ t, Γ id t) ∧ a.Reads literal.body id
  body_alike : Conversion.Alike p.declarations (a.typeAt literal.body) ret
  body : Elaborated p a (Γ.under (.closure literal) (.callable params ret)) literal.body

variable {p : Package} {a : Arena} {Γ : Context} {slot : Slot} {literal : Closure}
  {ids : List VariableId} {params : List Ty} {ret : Ty} {bindings inner : Slots LocalVariable}
  {l : List (VariableId × LType)}

theorem exists_closureOk (hexpr : Elaborated p a Γ slot)
    (hk : (a.get slot).kind = .closure literal) : ∃ params ret ids,
      a.typeAt slot = .callable params ret ∧ ClosureOk p a Γ literal params ret ids := by
  have hform := hexpr.nodeOk.form
  have hbody := hexpr.operands literal.body (by simp [hk, ExprKind.operands])
  rw [hk] at hform hbody
  generalize a.typeAt slot = t at hform hbody
  cases hform with
  | @closure _ ids params ret hids hlen hnodup hfresh hcaptures hread hmem hret =>
      refine ⟨params, ret, ids, rfl, hids, hlen, hnodup, hfresh, hcaptures, fun id => ?_, hret, hbody⟩
      refine ⟨hread id, ?_⟩
      rintro ⟨⟨t, ht⟩, hr⟩
      exact hmem id t ht hr

theorem mentionsError_eq_of_readsAs (h : Elaborated p a Γ slot) {id : VariableId} {t : Ty}
    (hread : a.ReadsAs slot id t) : t.mentionsError = false := by
  obtain ⟨x, name, hx, -, rfl⟩ := hread
  obtain ⟨Δ, hΔ⟩ := h.nodeOk_of_reaches hx
  exact hΔ.nodeOk.mentionsError_eq

namespace ClosureOk

variable (h : ClosureOk p a Γ literal params ret ids)
include h

theorem under_iff {id : VariableId} {t : Ty} :
    Γ.under (.closure literal) (.callable params ret) id t ↔ (id, t) ∈ ids.zip params ∨ Γ id t := by
  show _ ∈ List.zip (List.filterMap _ _) params ∨ _ ↔ _
  rw [filterMap_id?_of_map h.ids_eq]

variable (hagree : Agrees p.declarations a Γ literal.body bindings)
  (hl : Captured literal.captures bindings l) {n : Nat}
  (hinner : Binds (l ++ ids.zip (params.map p.declarations.llvmType)) (.ofSize n) inner)
include hagree hl hinner

/--
What the body reads is bound to a value of the type it is read at, unless it is
captured and of type nothing.
-/
theorem bound_of_readsAs {id : VariableId} {t : Ty} (hread : a.ReadsAs literal.body id t)
    (hid : ∃ u, Γ.under (.closure literal) (.callable params ret) id u) :
    id ∈ literal.captures ∧ t = .nothing ∧ inner.get? id = none ∨
      (id ∈ literal.captures → t ≠ .nothing) ∧
        ∃ b, inner.get? id = some b ∧ b.value.type = p.declarations.llvmType t := by
  have hvoid : (p.declarations.llvmType t).isVoid = true ↔ t = .nothing :=
    Declarations.isVoid_llvmType_iff (mentionsError_eq_of_readsAs h.body hread)
  rcases h.under_iff.mp (h.body.context_of_readsAs hread hid) with hparam | hΓ
  · have hmem : (id, p.declarations.llvmType t) ∈ ids.zip (params.map p.declarations.llvmType) := by
      rw [List.zip_map_right]
      exact List.mem_map.mpr ⟨(id, t), hparam, rfl⟩
    obtain ⟨b, hb, -, htype⟩ := hinner.bound _ (List.mem_append_right l hmem)
    refine .inr ⟨fun hcapture => ?_, b, hb, htype⟩
    obtain ⟨u, hu⟩ := ((h.mem_captures_iff id).mp hcapture).1
    exact absurd hu (h.fresh id (List.of_mem_zip hparam).1 u)
  · have hmem := (h.mem_captures_iff id).mpr ⟨⟨t, hΓ⟩, hread.reads⟩
    obtain ⟨b, hb, hcomplete⟩ := hl.complete id hmem
    have htype := hagree id t b hread ⟨t, hΓ⟩ hb
    by_cases ht : t = .nothing
    · refine .inl ⟨hmem, ht, (hinner.kept id ?_).trans (Slots.get?_ofSize n id)⟩
      rw [List.map_append, List.mem_append, not_or]
      refine ⟨fun hcaptured => ?_, fun hparam => ?_⟩
      · obtain ⟨e, he, rfl⟩ := List.mem_map.mp hcaptured
        obtain ⟨-, hnot, b', hb', heq⟩ := hl.bound e he
        obtain rfl : b = b' := Option.some.inj (hb.symm.trans hb')
        rw [heq, htype, hvoid.mpr ht] at hnot
        cases hnot
      · obtain ⟨e, he, rfl⟩ := List.mem_map.mp hparam
        exact h.fresh e.1 (List.of_mem_zip he).1 t hΓ
    · have hnot : b.value.type.isVoid = false := by
        rw [htype]
        exact Bool.eq_false_iff.mpr fun h => ht (hvoid.mp h)
      obtain ⟨b', hb', -, htype'⟩ := hinner.bound _ (List.mem_append_left _ (hcomplete hnot))
      exact .inr ⟨fun _ => ht, b', hb', htype'.trans htype⟩

theorem agrees_body :
    Agrees p.declarations a (Γ.under (.closure literal) (.callable params ret)) literal.body inner := by
  intro id t b hread hid hb
  rcases h.bound_of_readsAs hagree hl hinner hread hid with ⟨-, -, hnone⟩ | ⟨-, b', hb', htype⟩
  · rw [hnone] at hb
    cases hb
  · rw [hb] at hb'
    cases hb'
    exact htype

theorem ready_body_iff :
    Ready a (Γ.under (.closure literal) (.callable params ret)) literal.body inner ↔
      (∀ id ∈ literal.captures, ¬ a.ReadsAs literal.body id .nothing) ∧
        ¬ a.CapturesNothing literal.body := by
  constructor
  · refine fun hready => ⟨fun id hid hread => ?_, hready.not_captures⟩
    obtain ⟨t, hΓ⟩ := ((h.mem_captures_iff id).mp hid).1
    have hunder : ∃ u, Γ.under (.closure literal) (.callable params ret) id u :=
      ⟨t, h.under_iff.mpr (.inr hΓ)⟩
    have hbound := hready.bound id hread.reads hunder
    rcases h.bound_of_readsAs hagree hl hinner hread hunder with ⟨-, -, hnone⟩ | ⟨hne, -⟩
    · rw [hnone] at hbound
      cases hbound
    · exact hne hid rfl
  · refine fun ⟨hnothing, hnot⟩ => ⟨fun id hread hid => ?_, hnot⟩
    obtain ⟨t, ht⟩ := hread.exists_readsAs
    rcases h.bound_of_readsAs hagree hl hinner ht hid with ⟨hmem, rfl, -⟩ | ⟨-, b, hb, -⟩
    · exact absurd ht (hnothing id hmem)
    · rw [hb]
      rfl

end ClosureOk

/-! ### Generating closures -/

theorem namedParams_eq {params : List ClosureParam} {ids : List VariableId} {ts : List Ty}
    {f : Ty → LType} (hids : params.map (·.id?) = ids.map some) (hlen : ids.length = ts.length) :
    namedParams ((params.zip ts).map fun q => (q.1.id?, f q.2)) = ids.zip (ts.map f) ∧
      ((params.zip ts).map fun q => (q.1.id?, f q.2)).map (·.2) = ts.map f := by
  induction ids generalizing params ts with
  | nil =>
      obtain rfl := List.eq_nil_of_length_eq_zero hlen.symm
      simp [namedParams]
  | cons id ids ih =>
      obtain _ | ⟨t, ts⟩ := ts
      · cases hlen
      obtain _ | ⟨p, params⟩ := params
      · cases hids
      obtain ⟨hid, hids⟩ := List.cons.inj hids
      obtain ⟨hnamed, htypes⟩ := ih hids (Nat.succ.inj hlen)
      replace hid : p.id? = some id := hid
      refine ⟨?_, congrArg (List.cons (f t)) htypes⟩
      rw [List.zip_cons_cons, List.map_cons, hid]
      exact congrArg (List.cons (id, f t)) hnamed

theorem meets_closureFunction {generate : Generate} {m : ModuleState} {n : Nat}
    (hname : ∃ (enclosing : String) (n : Nat), env.name = s!"{enclosing}.closure.{n}")
    (hstyle : env.style = .closure l) (hgen : Generates env.package env.arena generate literal.body)
    (hk : (env.arena.get slot).kind = .closure literal)
    (htype : env.arena.typeAt slot = .callable params ret)
    (h : ClosureOk env.package env.arena Γ literal params ret ids)
    (hagree : Agrees env.package.declarations env.arena Γ literal.body bindings)
    (hl : Captured literal.captures bindings l) :
    Meets env ⟨.start n, m⟩ (genClosureFunction generate literal params ret)
      ((∀ id ∈ literal.captures, ¬ env.arena.ReadsAs literal.body id .nothing) ∧
        ¬ env.arena.CapturesNothing literal.body) fun f w' =>
        Appends (Synthesized.IsMade env.package env.arena) m.synthesized w'.refs.synthesized ∧
          Made env.package env.arena f := by
  have hle (k : Nat) : 0 ≤ k := Nat.zero_le k
  obtain ⟨hnamed, hparams⟩ := namedParams_eq (f := env.package.declarations.llvmType) h.ids_eq
    h.length_eq
  have hnodup : ((l ++ ids.zip (params.map env.package.declarations.llvmType)).map (·.1)).Nodup := by
    rw [List.map_append, List.map_fst_zip (by simp [h.length_eq])]
    refine List.nodup_append.mpr ⟨hl.nodup h.captures_nodup, h.ids_nodup, ?_⟩
    rintro id hid _ hparam rfl
    obtain ⟨e, he, rfl⟩ := List.mem_map.mp hid
    obtain ⟨u, hu⟩ := ((h.mem_captures_iff e.1).mp (hl.bound e he).1).1
    exact h.fresh e.1 hparam u hu
  unfold genClosureFunction
  refine (emits_mapM (f := fun q : ClosureParam × Ty =>
    (q.1.id?, env.package.declarations.llvmType q.2)) (fun q w => ?_) _ (hle _)).bind_true
    fun types w₁ ⟨h₁, htypes⟩ => ?_
  · refine .map ?_
    exact (emits_llvmType q.2).mono fun _ _ ht => congrArg (Prod.mk q.1.id?) ht
  subst htypes
  refine (declares_arguments _ (by rw [hstyle, hnamed]; exact hnodup) (hle _)).bind_true
    fun declared w₂ ⟨h₂, hbinds, hdeclared⟩ => ?_
  rw [hstyle, hnamed, h₁.bindings_eq] at hbinds
  refine Meets.congr ?_ (h.ready_body_iff hagree hl hbinds)
  refine (hgen rfl rfl h.body (h.agrees_body hagree hl hbinds) (hle _)).followed_by
    fun v w₃ ⟨h₃, hv⟩ => ?_
  have hgrows := (h₁.toGrows.trans h₂).trans h₃.toGrows
  refine (meets_returning params hgrows (hv.trans h.body_alike.llvmType_eq) ?_).mono
    fun f w' ⟨hf, himplements, hrefs⟩ => ?_
  · rw [hdeclared, hstyle, hparams]
    rfl
  · obtain ⟨enclosing, n, hn⟩ := hname
    exact ⟨hrefs ▸ hgrows.synthesized, .closure (hf.trans hn) hk htype himplements⟩

theorem emits_storeCaptures (type : LType) (memory : Operand) (captured : List Value) (start : Nat) :
    Emits env first w ((captured.zipIdx start).forM fun (v, i) => do
      let field ← define (.address · type memory [0, i])
      emit (.store v field)) True Anything := by
  induction captured generalizing w start with
  | nil => exact .pure trivial
  | cons v captured ih =>
      show Emits env first w (_ >>= fun _ => (captured.zipIdx (start + 1)).forM _) True _
      have hstore : Emits env first w (do
          let field ← define (.address · type memory [0, start])
          emit (.store v field)) True Anything :=
        (emits_define _ fun _ => by trivial).and_then fun field _ _ hfield => emits_store hfield v
      exact hstore.and_then fun _ _ _ _ => ih (start + 1)

theorem emits_genContext (captured : List Value) :
    Emits env first w (genContext captured) True Anything := by
  unfold genContext
  split
  next => exact .pure trivial
  next =>
    refine (emits_alloc _).and_then fun memory _ _ _ => ?_
    exact (emits_storeCaptures _ memory captured 0).and_then fun _ _ _ _ => .pure trivial

theorem emits_genClosure {generate : Generate}
    (hgen : Generates env.package env.arena generate literal.body)
    (hk : (env.arena.get slot).kind = .closure literal)
    (hexpr : Elaborated env.package env.arena Γ slot)
    (hagree : Agrees env.package.declarations env.arena Γ slot w.function.bindings) :
    Emits env first w (genClosure generate literal (env.arena.typeAt slot))
      (Ready env.arena Γ slot w.function.bindings) fun v _ => v.type = .ptr := by
  obtain ⟨params, ret, ids, htype, h⟩ := exists_closureOk hexpr hk
  rw [ready_closure_iff hk h.mem_captures_iff, htype]
  refine (emits_capturedValues literal).bind fun captured w₁ h₁ hcaptured => ?_
  refine emits_read.and_then fun env' w₂ _ henv => ?_
  obtain ⟨rfl, rfl⟩ := henv
  refine (emits_liftM _ (by simp)).and_then fun name w₃ _ ⟨m, hname⟩ => ?_
  refine (emits_nested (meets_closureFunction ⟨_, m.nextClosure, hname⟩ rfl hgen hk htype h
    (hagree.operand (by simp [hk, ExprKind.operands])) hcaptured)).followed_by fun f w₄ _ hf => ?_
  replace hf : Made env'.package env'.arena f := hf
  refine (emits_pushFunction hf).and_then fun _ _ _ _ => ?_
  refine (emits_genContext _).and_then fun memory _ _ _ => ?_
  exact emits_makeCallable _ memory

end Emit

end Boxlang
