import Boxlang.Proofs.Elaboration.Call

/-!
# Analysing expressions

One lemma for each kind of node: if its operands can be typed and the node is typed
without an error, the expression is elaborated.  The induction is on the bound of
the depth; it carries the level of the node, since levels and bound together are
never less than the size of the arena.
-/

namespace Boxlang

open Conversion Analysis

namespace AnalysisState

/-- The step from `s` to `s'` found the type of the node in a slot, which is then written down. -/
def Completes (p : Package) (a₀ : Arena) (s : AnalysisState) (slot : Slot) (t : Ty)
    (s' : AnalysisState) : Prop :=
  s.Analysed p a₀ slot t (s'.withArena (s'.body.arena.setType slot t)) ∧
    ¬ ((s'.body.arena.setType slot t).get slot).IsConversion

variable {p : Package} {a₀ : Arena} {roots : List Slot} {s s₁ s' : AnalysisState} {slot : Slot}
  {V : Slot → Prop} {Γ : Context} {e : Expr} {k : Nat} {t : Ty}

section Settle

variable (hf : a₀.IsForest roots) (hk : a₀.Level roots k slot)
  (h : Tracks p a₀ s₁ Γ slot V e s') (hall : ∀ c ∈ e.kind.operands, V c)
  (hunder : s.readable.under e.kind t = Γ) (hform : FormOk p s'.body.arena s.readable e.kind t)
  (ht : t.mentionsError = false) (hconv : ¬ e.IsConversion)
include hf hk h hall hunder hform ht hconv

/-- A node all of whose operands are settled is completed, once it is known what was read. -/
theorem Tracks.completes_of_notes (hp : s.Progress (a₀.Reaches slot) s₁)
    (hnotes : s.Notes (fun id => (∃ name, e.kind = .localRef name (some id)) ∨
      ∃ c ∈ e.kind.operands, s'.body.arena.Reads c id) s') : s.Completes p a₀ slot t s' := by
  obtain ⟨h', hkeep⟩ := h.annotate hf hk (g := fun e => { e with type? := some t })
    (.withType e t)
  have hnode : (s'.body.arena.setType slot t).get slot = { e with type? := some t } := h'.get_eq
  have hreads (c : Slot) (hc : c ∈ e.kind.operands) (id : VariableId) :
      (s'.body.arena.setType slot t).Reads c id ↔ s'.body.arena.Reads c id :=
    Arena.reads_congr (hkeep c (hall c hc)) id
  have hform' : FormOk p (s'.body.arena.setType slot t) s.readable e.kind t :=
    hform.congr (fun c hc => hkeep c (hall c hc) c (.refl _ c)) hreads
  refine ⟨⟨hp.trans (h'.progress.mono ?_), h'.valid, ?_, Arena.typeAt_of_type? ?_, ?_⟩, ?_⟩
  · rintro x (rfl | ⟨c, hc, hx⟩)
    · exact .refl a₀ x
    · exact .head (h.mem c hc) hx
  · refine Settled.node hnode (fun c hc => ?_) hform' ht ?_
    · rw [hunder]
      exact h'.settled c (hall c hc)
    · rcases h.valid.holdsNodes.holds slot (hf.lt_size_of_level hk) with hbare | ⟨-, hconv'⟩
      · rw [← h.get_eq]
        exact Expr.operands_eq_of_bare_eq hbare
      · exact absurd (h.get_eq ▸ hconv') hconv
  · rw [arena_withArena, hnode]
  · refine (hnotes.of_closures_eq rfl).congr fun id => ?_
    rw [arena_withArena, Arena.reads_iff, hnode]
    exact or_congr_right (exists_congr fun c => and_congr_right fun hc => hreads c hc id)
  · rw [hnode]
    exact hconv

theorem Tracks.completes (hs₁ : s₁ = s) (hmem : ∀ c, V c → c ∈ e.kind.operands)
    (hlocal : ∀ name id, e.kind ≠ .localRef name (some id)) : s.Completes p a₀ slot t s' := by
  subst hs₁
  refine completes_of_notes hf hk h hall hunder hform ht hconv (.refl s₁)
    (h.notes.congr fun id => ?_)
  constructor
  · rintro (⟨name, hname⟩ | ⟨c, hc, hr⟩)
    · exact absurd hname (hlocal name id)
    · exact ⟨c, hall c hc, hr⟩
  · rintro ⟨c, hc, hr⟩
    exact .inr ⟨c, hmem c hc, hr⟩

end Settle

end AnalysisState

theorem map_id?_zipWith (params : List ClosureParam) (ids : List VariableId)
    (h : ids.length = params.length) :
    (params.zipWith (fun p id => { p with id? := some id }) ids).map (·.id?) = ids.map some := by
  induction params generalizing ids with
  | nil =>
      obtain rfl := List.length_eq_zero_iff.mp h
      rfl
  | cons p params ih =>
      cases ids with
      | nil => cases h
      | cons id ids => simpa using ih ids (by simpa using h)

namespace Analysis

open AnalysisState

variable {env : Environment} {visit : Visit} {a₀ : Arena} {roots : List Slot}
  {s s' : AnalysisState} {slot : Slot} {k : Nat} {t : Ty} {e? : Option Expectation} {span : Span}

section Kinds

variable (henv : env.ErrorFree) (hf : a₀.IsForest roots) (hk : a₀.Level roots k slot)
  (hs : s.Valid a₀) (hu : a₀.Untouched s.body.arena slot)
  (he : ∀ e ∈ e?, e.type.mentionsError = false)

section Leaves

include hf hk hs hu

theorem completes_leaf (hops : (a₀.get slot).kind.operands = [])
    (hform : FormOk env.package s.body.arena s.readable (a₀.get slot).kind t)
    (ht : t.mentionsError = false) (hconv : ¬ (a₀.get slot).IsConversion)
    (hlocal : ∀ name id, (a₀.get slot).kind ≠ .localRef name (some id))
    (hunder : s.readable.under (a₀.get slot).kind t = s.readable) :
    s.Completes env.package a₀ slot t s := by
  have hnode := hu slot (.refl a₀ slot)
  have h := Tracks.start env.package slot s.readable hs
  rw [hnode] at h
  exact h.completes hf hk (by simp [hops]) hunder hform ht hconv rfl (fun _ h => h.elim) hlocal

include he

theorem completes_noValue (hkind : (a₀.get slot).kind = .noValue)
    (hrun : (noValueType e? span).runIn env s = (.ok t, s')) :
    s.Completes env.package a₀ slot t s' := by
  have hleaf (t : Ty) (ht : t.mentionsError = false) : s.Completes env.package a₀ slot t s :=
    completes_leaf hf hk hs hu (by rw [hkind]; rfl) (by rw [hkind]; exact .noValue t) ht
      (by rintro ⟨_, _, h⟩; rw [hkind] at h; cases h) (by simp [hkind]) (by rw [hkind]; rfl)
  unfold noValueType at hrun
  cases e? with
  | none => simp at hrun
  | some e =>
      have hee := he e rfl
      dsimp only at hrun
      split at hrun
      · obtain ⟨rfl, rfl⟩ : _ = t ∧ s = s' := by simpa using hrun
        exact hleaf _ (Ty.mentionsError_heldIn _ hee)
      next herror =>
        have := Ty.mentionsError_unboxed e.type
        rw [herror, hee] at this
        cases this
      · simp at hrun

include henv

theorem completes_typeExpr {form : TypeForm} (hkind : (a₀.get slot).kind = .typeExpr form)
    (hrun : (do
        let t ← formType form e? span
        validateMetability t span
        return .typeValue t : Analysis Ty).runIn env s = (.ok t, s')) :
    s.Completes env.package a₀ slot t s' := by
  obtain ⟨u, s₁, hformType, hrun⟩ := runIn_bind_ok.mp hrun
  obtain ⟨⟨⟩, s₂, hmetable, hreturn⟩ := runIn_bind_ok.mp hrun
  obtain ⟨rfl, rfl⟩ : Ty.typeValue u = t ∧ s₂ = s' := by simpa using hreturn
  obtain rfl : s₁ = s₂ := by
    unfold validateMetability at hmetable
    split at hmetable
    all_goals exact (Prod.mk.inj hmetable).2
  obtain ⟨rfl, hue⟩ : s = s₁ ∧ u.mentionsError = false := by
    unfold formType at hformType
    cases form with
    | explicit written =>
        obtain ⟨rfl, hue⟩ := runIn_resolveType_ok hformType
        exact ⟨rfl, hue⟩
    | inferred =>
        dsimp only at hformType
        split at hformType
        next v hv =>
          obtain ⟨rfl, rfl⟩ : v = u ∧ s = s₁ := by simpa using hformType
          obtain ⟨x, hx, hxu⟩ := Option.map_eq_some_iff.mp hv
          obtain ⟨e, rfl, rfl⟩ := Option.map_eq_some_iff.mp hx
          have := Ty.mentionsError_unboxed e.type
          rw [hxu, he e rfl] at this
          exact ⟨rfl, by simpa [Ty.mentionsError] using this⟩
        next => simp at hformType
    | this =>
        rw [runIn_bind, runIn_read] at hformType
        dsimp only at hformType
        split at hformType
        next v hv =>
          obtain ⟨rfl, rfl⟩ : v = u ∧ s = s₁ := by simpa using hformType
          exact ⟨rfl, henv.function.owner v hv⟩
        next => simp at hformType
  exact completes_leaf hf hk hs hu (by rw [hkind]; rfl) (by rw [hkind]; exact .typeExpr form u)
    (by simpa [Ty.mentionsError] using hue)
    (by rintro ⟨_, _, h⟩; rw [hkind] at h; cases h) (by simp [hkind]) (by rw [hkind]; rfl)

end Leaves

include hf hk hs hu

theorem completes_localRef {name : Ident} {id? : Option VariableId}
    (hkind : (a₀.get slot).kind = .localRef name id?)
    (hrun : (analyseLocal slot name).runIn env s = (.ok t, s')) :
    s.Completes env.package a₀ slot t s' := by
  have hnode := hu slot (.refl a₀ slot)
  unfold analyseLocal at hrun
  rw [runIn_bind, runIn_resolveName] at hrun
  cases hb : (s.scope.resolve name.name).1 with
  | none =>
      rw [hb] at hrun
      simp at hrun
  | some b =>
      rw [hb] at hrun
      let s₁ : AnalysisState := { s with scope := (s.scope.resolve name.name).2 }
      have hp : s.Progress (a₀.Reaches slot) s₁ := .of_scope (Scope.extends_resolve _ _)
      have hs₁ : s₁.Valid a₀ := hs.progress hp
        (Arena.isRegion_reaches hf.inRange (hf.lt_size_of_level hk)).lt hs.plain
      obtain ⟨h, -⟩ := (Tracks.start env.package slot s.readable hs₁).annotate hf hk
        (g := fun e => { e with kind := e.kind.withVariable b.id })
        (.withKind (f := (·.withVariable b.id)) (ExprKind.bare_withVariable _ b.id))
      dsimp only at hrun
      rw [runIn_bind, runIn_modifyKind] at hrun
      dsimp only at hrun
      rw [runIn_bind, runIn_get] at hrun
      dsimp only at hrun
      split at hrun
      next hi =>
        obtain ⟨rfl, rfl⟩ : b.type = t ∧ _ = s' := by simpa using hrun
        have hi : s.isInitialized b.id = true := hi
        have hreadable : s.readable b.id b.type := ⟨Scope.binds_of_resolve hb, hi⟩
        have hkind' : (s₁.body.arena.get slot).kind.withVariable b.id =
            .localRef name (some b.id) := by
          rw [show s₁.body.arena.get slot = a₀.get slot from hnode, hkind]
          rfl
        refine h.completes_of_notes hf hk ?_ ?_ ?_ (hs.mentionsError_eq _ _ hreadable.1) ?_ hp ?_
        · simp [hkind', ExprKind.operands]
        · simp only [hkind', Context.under]
        · simp only [hkind']
          exact .localRef hreadable
        · rintro ⟨_, _, hconv⟩
          simp [hkind'] at hconv
        · refine ((notes_resolve hs hb hi).of_closures_eq rfl).congr fun id => ?_
          simp [hkind', ExprKind.operands, eq_comm]
      next =>
        rw [runIn_bind] at hrun
        simp at hrun

section Operands

variable (hv : ∀ c ∈ (a₀.get slot).kind.operands, VisitSpec env a₀ visit c)
include hv

variable (env) in
omit hv hf hk in
theorem tracks_start : Tracks env.package a₀ s s.readable slot (fun _ => False) (a₀.get slot) s := by
  have h := Tracks.start env.package slot s.readable hs
  rwa [hu slot (.refl a₀ slot)] at h

theorem completes_unwrap {inner : Slot} (hkind : (a₀.get slot).kind = .unwrap inner)
    (hrun : (analyseUnwrap visit inner span).runIn env s = (.ok t, s')) :
    s.Completes env.package a₀ slot t s' := by
  have hmem : inner ∈ (a₀.get slot).kind.operands := by simp [hkind, ExprKind.operands]
  have huops (c : Slot) (hc : c ∈ (a₀.get slot).kind.operands) : a₀.Untouched s.body.arena c :=
    fun x hx => hu x (.head hc hx)
  have hstart := tracks_start env hs hu
  unfold analyseUnwrap at hrun
  obtain ⟨actual, s₁, hvisit, hrun⟩ := runIn_bind_ok.mp hrun
  obtain ⟨ha, hplain⟩ := (hv inner hmem).analysed hs (huops inner hmem) (by simp) hvisit
  obtain ⟨h, -⟩ := hstart.extend hf hk rfl ha hmem (fun h => h)
  have hae := ha.mentionsError_eq
  rw [Ty.isError_eq_false hae] at hrun
  simp only [Bool.false_eq_true, if_false] at hrun
  -- Both ways of unwrapping leave a conversion from the optional to the result.
  have hconvert {op : Conversion} {u : Ty} (hop : op.IsSound env.declarations actual u)
      (hue : u.mentionsError = false)
      (hrun : (insertConversion inner op u).runIn env s₁ = (.ok t, s')) :
      s.Completes env.package a₀ slot t s' := by
    rw [runIn_insertConversion] at hrun
    obtain ⟨rfl, rfl⟩ : u = t ∧ _ = s' := by simpa using hrun
    rw [← ha.typeAt_eq] at hop
    obtain ⟨h', -⟩ := h.convert hf hk (.inl rfl) hplain hop hue
    have htype : (s₁.body.arena.convert inner op u).2.typeAt inner = u :=
      (h.settled inner (.inl rfl)).typeAt_convert
    refine h'.completes hf hk ?_ ?_ ?_ hue ?_ rfl ?_ ?_
    · simp [hkind, ExprKind.operands]
    · rw [hkind]
      rfl
    · have hform := FormOk.unwrap (p := env.package)
        (a := (s₁.body.arena.convert inner op u).2) (Γ := s.readable) inner
      rw [htype] at hform
      rwa [hkind]
    · rintro ⟨_, _, hk⟩
      simp [hkind] at hk
    · simp [hkind, ExprKind.operands]
    · simp [hkind]
  split at hrun
  next => simp at hrun
  next value hvalue =>
    have hve := Ty.mentionsError_optionalInner? hae hvalue
    have hnotSimple := Ty.storage_ne_simple_of_optionalInner? hvalue
    split at hrun
    next hs => exact hconvert (isSound_unwrapOptional hvalue hs) hve hrun
    next hs => exact hconvert (isSound_unwrapBoxOptional hs hve) (Ty.mentionsError_heldIn _ hve) hrun
    next hs => exact absurd hs hnotSimple

theorem completes_invoke {callee : Slot} {args : List Slot}
    (hkind : (a₀.get slot).kind = .invoke callee args)
    (hrun : (analyseInvoke visit callee args span).runIn env s = (.ok t, s')) :
    s.Completes env.package a₀ slot t s' := by
  have hops : (a₀.get slot).kind.operands = callee :: args := by rw [hkind]; rfl
  have hmem : callee ∈ (a₀.get slot).kind.operands := by simp [hops]
  have huops (c : Slot) (hc : c ∈ (a₀.get slot).kind.operands) : a₀.Untouched s.body.arena c :=
    fun x hx => hu x (.head hc hx)
  obtain ⟨hcallee, hargsNodup⟩ := List.nodup_cons.mp (hops ▸ hf.operands_nodup slot)
  unfold analyseInvoke at hrun
  obtain ⟨actual, s₁, hvisit, hrun⟩ := runIn_bind_ok.mp hrun
  obtain ⟨ha, -⟩ := (hv callee hmem).analysed hs (huops callee hmem) (by simp) hvisit
  obtain ⟨h, -⟩ := (tracks_start env hs hu).extend hf hk rfl ha hmem (fun h => h)
  have hae := ha.mentionsError_eq
  rw [Ty.isError_eq_false hae] at hrun
  simp only [Bool.false_eq_true, if_false] at hrun
  split at hrun
  next params ret hcallable =>
    obtain ⟨hpe, hre⟩ := Ty.mentionsError_of_unboxed_callable hae hcallable
    split at hrun
    · rw [runIn_bind] at hrun
      simp at hrun
    next hlen =>
      have hlen := Decidable.not_not.mp hlen
      have hsnd : (params.zip args).map (·.2) = args := List.map_snd_zip hlen.ge
      obtain ⟨⟨⟩, s₂, hargs, hreturn⟩ := runIn_bind_ok.mp hrun
      obtain ⟨rfl, rfl⟩ : ret = t ∧ s₂ = s' := by simpa using hreturn
      have hnew (q : Ty × Slot) (hq : q ∈ params.zip args) : ¬ (q.2 = callee ∨ False) := by
        rintro (heq | hfalse)
        · exact hcallee (heq ▸ (List.of_mem_zip hq).2)
        · exact hfalse
      obtain ⟨h', halike, hkeep⟩ := h.expectAll hf hk hv huops (fun param : Ty => param)
        (fun q hq => by simp [hops, (List.of_mem_zip hq).2]) (by rwa [hsnd])
        (fun q hq hV => absurd hV (hnew q hq)) (fun q hq => hpe q.1 (List.of_mem_zip hq).1) hargs
      have hcalleeType : (s₂.body.arena.typeAt callee).unboxed = .callable params ret := by
        rw [Arena.typeAt_congr (hkeep callee (.inl rfl) (by rwa [hsnd])), ha.typeAt_eq, hcallable]
      refine h'.completes hf hk ?_ ?_ ?_ hre ?_ rfl ?_ ?_
      · rw [hsnd, hops]
        intro c hc
        rcases List.mem_cons.mp hc with rfl | hc
        · exact .inl (.inl rfl)
        · exact .inr hc
      · rw [hkind]
        rfl
      · rw [hkind]
        exact .invoke hcalleeType hlen.symm halike
      · rintro ⟨_, _, hconv⟩
        simp [hkind] at hconv
      · rw [hsnd, hops]
        rintro c ((rfl | hc) | hc)
        · exact List.mem_cons_self
        · exact hc.elim
        · exact List.mem_cons_of_mem _ hc
      · simp [hkind]
  next =>
    rw [runIn_bind, runIn_spanOf] at hrun
    simp at hrun

include henv

theorem completes_call {function : Ident} {arguments : Arguments} {target? : Option FunctionId}
    (hkind : (a₀.get slot).kind = .call function arguments target?)
    (hrun : (analyseCall visit slot function).runIn env s = (.ok t, s')) :
    s.Completes env.package a₀ slot t s' := by
  have hops : (a₀.get slot).kind.operands = arguments.args := by rw [hkind]; rfl
  have huops (c : Slot) (hc : c ∈ (a₀.get slot).kind.operands) : a₀.Untouched s.body.arena c :=
    fun x hx => hu x (.head hc hx)
  unfold analyseCall at hrun
  rw [runIn_bind, runIn_read] at hrun
  dsimp only at hrun
  split at hrun
  next => simp at hrun
  next id hid =>
    have hlt := Package.lt_of_function? hid
    rw [runIn_bind, runIn_modifyKind] at hrun
    dsimp only at hrun
    obtain ⟨h, -⟩ := (tracks_start env hs hu).annotate hf hk
      (g := fun e => { e with kind := e.kind.withTarget id })
      (.withKind (f := (·.withTarget id)) (ExprKind.bare_withTarget _ id))
    obtain ⟨⟨types, h'⟩, hlen, halike, hret, hte, -⟩ := h.analyseFunctionCall hf hk hv huops henv
      (by simp [hkind, ExprKind.withTarget, ExprKind.arguments?]) (by simp [hops])
      (hops ▸ hf.operands_nodup slot) (by simp) (henv.package.signature hlt) (by simp) hrun
    refine h'.completes hf hk ?_ ?_ ?_ hte ?_ rfl ?_ ?_
    · simp [hkind, ExprKind.withTarget, ExprKind.withGenericArguments, ExprKind.operands]
    · rw [hkind]
      rfl
    · rw [hkind]
      exact .call hlt hlen halike hret
    · rintro ⟨_, _, hconv⟩
      simp [hkind, ExprKind.withTarget, ExprKind.withGenericArguments] at hconv
    · simp [hkind, ExprKind.withTarget, ExprKind.withGenericArguments, ExprKind.operands]
    · simp [hkind, ExprKind.withTarget, ExprKind.withGenericArguments]

theorem completes_methodCall {receiver : Slot} {method : Ident} {arguments : Arguments}
    {target? : Option FunctionId}
    (hkind : (a₀.get slot).kind = .methodCall receiver method arguments target?)
    (hrun : (analyseMethodCall visit slot receiver method).runIn env s = (.ok t, s')) :
    s.Completes env.package a₀ slot t s' := by
  have hops : (a₀.get slot).kind.operands = receiver :: arguments.args := by rw [hkind]; rfl
  have hmem : receiver ∈ (a₀.get slot).kind.operands := by simp [hops]
  have huops (c : Slot) (hc : c ∈ (a₀.get slot).kind.operands) : a₀.Untouched s.body.arena c :=
    fun x hx => hu x (.head hc hx)
  obtain ⟨hreceiver, hargsNodup⟩ := List.nodup_cons.mp (hops ▸ hf.operands_nodup slot)
  unfold analyseMethodCall at hrun
  obtain ⟨actual, s₁, hvisit, hrest⟩ := runIn_bind_ok.mp hrun
  obtain ⟨held, s₂, hcomply, hcall⟩ := runIn_bind_ok.mp hrest
  obtain ⟨ha, hplain⟩ := (hv receiver hmem).analysed hs (huops receiver hmem) (by simp) hvisit
  obtain ⟨h₁, -⟩ := (tracks_start env hs hu).extend hf hk rfl ha hmem (fun h => h)
  have hae : actual.erased.mentionsError = false := by simpa using ha.mentionsError_eq
  obtain rfl := ha.typeAt_eq
  obtain ⟨h₂, hheld, hmet, -⟩ := h₁.comply hf hk (.inl rfl) hplain
    (Declarations.widens_of_erased_eq (Ty.erased_erased _).symm) hae hcomply
  rw [runIn_bind, runIn_read] at hcall
  dsimp only at hcall
  split at hcall
  next => simp at hcall
  next id hid =>
    have hlt := Package.lt_of_method? hid
    have hcallee : (env.context.upperBound held.erased).mentionsError = false :=
      henv.context.upperBound (by simpa using hmet.mentionsError_eq)
    have hnew (c : Slot) (hc : c ∈ arguments.args) : ¬ (c = receiver ∨ False) := by
      rintro (rfl | hfalse)
      · exact hreceiver hc
      · exact hfalse
    rw [runIn_bind, runIn_modifyKind] at hcall
    dsimp only at hcall
    obtain ⟨h₃, hkeep⟩ := h₂.annotate hf hk (g := fun e => { e with kind := e.kind.withTarget id })
      (.withKind (f := (·.withTarget id)) (ExprKind.bare_withTarget _ id))
    obtain ⟨⟨types, h'⟩, hlen, halike, hret, hte, hkeep'⟩ := h₃.analyseFunctionCall hf hk hv huops henv
      (by simp [hkind, ExprKind.withTarget, ExprKind.arguments?])
      (fun c hc => by simp [hops, hc]) hargsNodup hnew (henv.package.signature hlt)
      (fun r hr => by cases hr; exact hcallee) hcall
    have hreceiverType : s'.body.arena.typeAt receiver = held :=
      (Arena.typeAt_congr ((hkeep' receiver (.inl rfl)).trans
        (hkeep receiver (.inl rfl) receiver (.refl _ receiver)))).trans hheld
    obtain ⟨herased, hstorage⟩ := type?_compliance_preferSimple rfl rfl ha.mentionsError_eq
      (type?_compliance_of_runIn_comply hcomply)
    have hreceiverOk : ReceiverOk env.package (s'.body.arena.typeAt receiver) method.name id := by
      rw [hreceiverType]
      exact ⟨hstorage.trans (by rw [herased]), env.context, hid⟩
    refine h'.completes hf hk ?_ ?_ ?_ hte ?_ rfl ?_ ?_
    · simp [hkind, ExprKind.withTarget, ExprKind.withGenericArguments, ExprKind.operands]
    · rw [hkind]
      rfl
    · rw [hkind]
      exact .methodCall hreceiverOk hlt hlen halike hret
    · rintro ⟨_, _, hconv⟩
      simp [hkind, ExprKind.withTarget, ExprKind.withGenericArguments] at hconv
    · simp [hkind, ExprKind.withTarget, ExprKind.withGenericArguments, ExprKind.operands]
    · simp [hkind, ExprKind.withTarget, ExprKind.withGenericArguments]

omit henv in
theorem completes_closure {literal : Closure} (hkind : (a₀.get slot).kind = .closure literal)
    (hrun : (analyseClosure visit slot literal).runIn env s = (.ok t, s')) :
    s.Completes env.package a₀ slot t s' := by
  have hops : (a₀.get slot).kind.operands = [literal.body] := by rw [hkind]; rfl
  have hmem : literal.body ∈ (a₀.get slot).kind.operands := by simp [hops]
  have huops (c : Slot) (hc : c ∈ (a₀.get slot).kind.operands) : a₀.Untouched s.body.arena c :=
    fun x hx => hu x (.head hc hx)
  rw [analyseClosure_eq] at hrun
  obtain ⟨params, s₁, hparams, hrest⟩ := runIn_bind_ok.mp hrun
  obtain ⟨ret, s₂, hret, hclosure⟩ := runIn_bind_ok.mp hrest
  have hlen := length_of_runIn_mapM_ok hparams
  obtain ⟨hs₁, hpe⟩ := runIn_mapM_ok_of_keeps
    (fun p _ s t s' hrun => runIn_resolveType_ok hrun) hparams
  obtain ⟨hs₂, hre⟩ := runIn_resolveType_ok hret
  obtain rfl := hs₁.symm
  obtain rfl := hs₂.symm
  have hzip : (literal.params.zip params).length = params.length := by simp [hlen]
  have hnames : (literal.named params).map (·.2) = params := by
    simp only [Closure.named, List.map_map, Function.comp_def]
    exact List.map_snd_zip hlen.le
  have hentered : (s.enter (literal.named params)).Valid a₀ := hs.enter fun q hq =>
    hpe q.2 (hnames ▸ List.mem_map_of_mem hq)
  obtain ⟨u, s₃, hbody, rfl, rfl⟩ := runIn_closureAs_ok.mp hclosure
  let ids := List.range' s.scope.count (literal.params.zip params).length
  let captures := s₃.scope.exitClosure.1
  obtain ⟨h₁, htype, hmet, -⟩ := (tracks_start env hentered hu).expect hf hk
    (hv _ hmem) hmem (huops _ hmem) (fun h => h.elim) hre hbody
  have hregion := (Arena.isRegion_reaches hf.inRange (hf.lt_size_of_level hk)).lt
  have h₂ := h₁.leave hs hregion (by
    rintro x (rfl | ⟨c, rfl | hc, hx⟩)
    · exact .refl a₀ x
    · exact .head hmem hx
    · exact hc.elim)
  have hidsLength : ids.length = literal.params.length := by simp [ids, hlen]
  obtain ⟨h₃, hkeep⟩ := h₂.annotate hf hk
    (g := fun e => { e with kind := e.kind.withClosureVariables ids captures })
    (.withKind (f := (·.withClosureVariables ids captures))
      (ExprKind.bare_withClosureVariables _ _ _ fun now hnow => by
        rw [hkind] at hnow
        cases hnow
        exact hidsLength))
  have hkind' : (a₀.get slot).kind.withClosureVariables ids captures = .closure
      { literal with
        params := literal.params.zipWith (fun p id => { p with id? := some id }) ids
        captures := captures } := by
    rw [hkind]
    rfl
  have hids := map_id?_zipWith literal.params ids hidsLength
  obtain ⟨-, hcaptures, hread, hnoted⟩ := h₁.notes.leave hs
  have hreads (id : VariableId) := Arena.reads_congr (hkeep literal.body (.inl rfl)) id
  have hbodyType : u = (s₃.body.arena.modifyKind slot
      (·.withClosureVariables ids captures)).typeAt literal.body := by
    rw [← htype]
    exact (Arena.typeAt_congr (hkeep literal.body (.inl rfl) literal.body (.refl _ _))).symm
  refine h₃.completes hf hk ?_ ?_ ?_ ?_ ?_ rfl ?_ ?_
  · rw [hkind']
    simp [ExprKind.operands]
  · rw [hkind']
    funext id t
    refine propext ?_
    show (id, t) ∈ List.zip (List.filterMap _ _) params ∨ s.readable id t ↔ _
    rw [filterMap_id?_of_map hids, readable_enter hs, hnames]
    simp only [ids, Closure.named, List.length_map]
  · rw [hkind']
    refine .closure hids (by simp [ids, hzip]) List.nodup_range' (fun id hid t ht => ?_)
      hcaptures (fun id hid => ?_) (fun id t ht hr => ?_) ?_
    · exact Nat.not_lt_of_le (List.mem_range'_1.mp hid).1 (hs.lt_of_readable ht)
    · obtain ⟨hreadable, c, rfl | hc, hr⟩ := hread id hid
      · exact ⟨hreadable, (hreads id).mpr hr⟩
      · exact hc.elim
    · exact hnoted id t ht ⟨literal.body, .inl rfl, (hreads id).mp hr⟩
    · exact hbodyType ▸ hmet.alike rfl
  · simp [Ty.mentionsError, Ty.anyMentionsError_eq_false.mpr hpe, hre]
  · rintro ⟨_, _, hconv⟩
    simp [hkind'] at hconv
  · rw [hkind']
    simp [ExprKind.operands]
  · simp [hkind']

include he

theorem completes_nodeType (hplain : ¬ (a₀.get slot).IsConversion)
    (hrun : (nodeType visit slot (a₀.get slot) e?).runIn env s = (.ok t, s')) :
    s.Completes env.package a₀ slot t s' := by
  have hliteral (t' : Ty) (hform : FormOk env.package s.body.arena s.readable (a₀.get slot).kind t')
      (ht : t'.mentionsError = false) (hops : (a₀.get slot).kind.operands = [])
      (hlocal : ∀ name id, (a₀.get slot).kind ≠ .localRef name (some id))
      (hunder : s.readable.under (a₀.get slot).kind t' = s.readable)
      (hrun : (pure t' : Analysis Ty).runIn env s = (.ok t, s')) :
      s.Completes env.package a₀ slot t s' := by
    obtain ⟨rfl, rfl⟩ : t' = t ∧ s = s' := by simpa using hrun
    exact completes_leaf hf hk hs hu hops hform ht hplain hlocal hunder
  unfold nodeType at hrun
  cases hkind : (a₀.get slot).kind with
  | int v =>
      rw [hkind] at hrun hliteral
      exact hliteral _ (.int v) rfl rfl (by simp) rfl hrun
  | real v =>
      rw [hkind] at hrun hliteral
      exact hliteral _ (.real v) rfl rfl (by simp) rfl hrun
  | bool v =>
      rw [hkind] at hrun hliteral
      exact hliteral _ (.bool v) rfl rfl (by simp) rfl hrun
  | string v =>
      rw [hkind] at hrun hliteral
      exact hliteral _ (.string v) rfl rfl (by simp) rfl hrun
  | symbol v =>
      rw [hkind] at hrun hliteral
      exact hliteral _ (.symbol v) rfl rfl (by simp) rfl hrun
  | noValue =>
      rw [hkind] at hrun
      exact completes_noValue hf hk hs hu he hkind hrun
  | localRef name id? =>
      rw [hkind] at hrun
      exact completes_localRef hf hk hs hu hkind hrun
  | call function arguments target? =>
      rw [hkind] at hrun
      exact completes_call henv hf hk hs hu hv hkind hrun
  | methodCall receiver method arguments target? =>
      rw [hkind] at hrun
      exact completes_methodCall henv hf hk hs hu hv hkind hrun
  | invoke callee args =>
      rw [hkind] at hrun
      exact completes_invoke hf hk hs hu hv hkind hrun
  | closure literal =>
      rw [hkind] at hrun
      exact completes_closure hf hk hs hu hv hkind hrun
  | typeExpr form =>
      rw [hkind] at hrun
      exact completes_typeExpr henv hf hk hs hu he hkind hrun
  | unwrap inner =>
      rw [hkind] at hrun
      exact completes_unwrap hf hk hs hu hv hkind hrun
  | conversion inner op => exact absurd ⟨inner, op, hkind⟩ hplain

end Operands

end Kinds

/-! ### The induction -/

theorem runIn_analyseNode_of_typed (h : (s.body.arena.get slot).type? = some t) :
    (analyseNode visit slot e?).runIn env s = (.ok t, s) := by
  unfold analyseNode
  rw [runIn_bind, runIn_node]
  simp [h]

theorem runIn_analyseNode_ok {s' : AnalysisState}
    (hrun : (analyseNode visit slot e?).runIn env s = (.ok t, s')) :
    (s.body.arena.get slot).type? = some t ∧ s' = s ∨ (s.body.arena.get slot).type? = none ∧
      ∃ s₁, (nodeType visit slot (s.body.arena.get slot) e?).runIn env s = (.ok t, s₁) ∧
        s' = s₁.withArena (s₁.body.arena.setType slot t) := by
  cases htype : (s.body.arena.get slot).type? with
  | some u =>
    rw [runIn_analyseNode_of_typed htype] at hrun
    cases hrun
    exact .inl ⟨rfl, rfl⟩
  | none =>
    unfold analyseNode at hrun
    rw [runIn_bind, runIn_node] at hrun
    dsimp only at hrun
    rw [htype] at hrun
    obtain ⟨t', s₁, hnode, hrest⟩ := runIn_bind_ok.mp hrun
    cases hrest
    exact .inr ⟨rfl, s₁, hnode, rfl⟩

/-- Only what its kind says can go wrong with a node. -/
theorem runIn_analyseNode_error {err : SemanticError} {s' : AnalysisState}
    (hrun : (analyseNode visit slot e?).runIn env s = (.error err, s')) :
    (s.body.arena.get slot).type? = none ∧
      (nodeType visit slot (s.body.arena.get slot) e?).runIn env s = (.error err, s') := by
  cases htype : (s.body.arena.get slot).type? with
  | some u =>
    rw [runIn_analyseNode_of_typed htype] at hrun
    cases hrun
  | none =>
    unfold analyseNode at hrun
    rw [runIn_bind, runIn_node] at hrun
    dsimp only at hrun
    rw [htype] at hrun
    dsimp only at hrun
    rw [runIn_bind] at hrun
    cases hnode : (nodeType visit slot (s.body.arena.get slot) e?).runIn env s with
    | mk result s₁ =>
      rw [hnode] at hrun
      cases result with
      | ok t => exact nomatch (Prod.mk.inj hrun).1
      | error e =>
        cases hrun
        exact ⟨rfl, rfl⟩

theorem runIn_analyseExpr_of_typed (h : (s.body.arena.get slot).type? = some t) :
    (analyseExpr slot e?).runIn env s = (.ok t, s) := by
  have hpos : ∃ n, s.body.arena.size = n + 1 := by
    refine Nat.exists_eq_succ_of_ne_zero fun hzero => ?_
    rw [Arena.get_of_size_le _ (by simp [hzero])] at h
    cases h
  obtain ⟨n, hn⟩ := hpos
  unfold analyseExpr
  rw [runIn_bind, runIn_get]
  dsimp only
  rw [hn]
  exact runIn_analyseNode_of_typed h

theorem visitSpec_analyseNode (henv : env.ErrorFree) (hf : a₀.IsForest roots)
    (hk : a₀.Level roots k slot) (hv : ∀ c ∈ (a₀.get slot).kind.operands, VisitSpec env a₀ visit c)
    (huntyped : (a₀.get slot).type? = none) (hplain : ¬ (a₀.get slot).IsConversion) :
    VisitSpec env a₀ (analyseNode visit) slot where
  analysed {s s' e? t} hs hu he hrun := by
    have hget := hu slot (.refl a₀ slot)
    rcases runIn_analyseNode_ok hrun with ⟨htyped, -⟩ | ⟨-, s₁, htype, rfl⟩
    · cases (hget ▸ htyped).symm.trans huntyped
    · exact completes_nodeType henv hf hk hs hu he hv hplain (hget ▸ htype)
  typed h := runIn_analyseNode_of_typed h

variable {body : Body}

theorem visitSpec_analyseExprWithin (henv : env.ErrorFree) (hb : body.IsFresh) {n : Nat}
    (hk : body.arena.Level (body.stmts.flatMap Stmt.slots) k slot)
    (hn : body.arena.size ≤ n + k) : VisitSpec env body.arena (analyseExprWithin n) slot := by
  have hf := hb.isForest
  induction n generalizing k slot with
  | zero =>
      have := hf.level_lt_size hk
      omega
  | succ n ih =>
      have hslot := hf.lt_size_of_level hk
      exact visitSpec_analyseNode henv hf hk (fun c hc => ih (.child hk hc) (by omega))
        (hb.untyped slot hslot) (hb.unconverted slot hslot)

theorem visitSpec_analyseExpr (henv : env.ErrorFree) (hb : body.IsFresh)
    (hslot : slot ∈ body.stmts.flatMap Stmt.slots) :
    VisitSpec env body.arena analyseExpr slot where
  analysed {s s' e? t} hs hu he hrun := by
    unfold analyseExpr at hrun
    rw [runIn_bind, runIn_get] at hrun
    exact (visitSpec_analyseExprWithin henv hb (.root hslot) hs.edits.size_le).analysed hs hu he hrun
  typed h := runIn_analyseExpr_of_typed h

end Analysis

end Boxlang
