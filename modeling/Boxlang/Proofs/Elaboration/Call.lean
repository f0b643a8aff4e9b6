import Boxlang.Proofs.Calls.Run
import Boxlang.Proofs.Elaboration.Operands
import Boxlang.Proofs.Types.ErrorFree

/-!
# Analysing calls

A call types its arguments, those that generic parameters are inferred from twice,
and makes each meet its parameter.  Afterwards all arguments are settled and held
like the parameters of the callee as the callee itself declares them.
-/

namespace Boxlang

open Conversion

namespace Analysis

variable {α β : Type} {env : Environment} {s s' : AnalysisState} {slot : Slot} {t : Ty}

/-! ### Steps that read only -/

/-- A loop whose steps leave the state alone. -/
theorem runIn_mapM_ok_of_keeps {P : β → Prop} {l : List α} {step : α → Analysis β} {bs : List β}
    (hstep : ∀ a ∈ l, ∀ s b s', (step a).runIn env s = (.ok b, s') → s' = s ∧ P b)
    (h : (l.mapM step).runIn env s = (.ok bs, s')) : s' = s ∧ ∀ b ∈ bs, P b := by
  induction l generalizing s bs with
  | nil =>
      obtain ⟨rfl, rfl⟩ : [] = bs ∧ s = s' := by simpa using h
      simp
  | cons a l ih =>
      rw [List.mapM_cons] at h
      obtain ⟨b, s₁, ha, h⟩ := runIn_bind_ok.mp h
      obtain ⟨bs', s₂, hrest, h⟩ := runIn_bind_ok.mp h
      obtain ⟨rfl, rfl⟩ : b :: bs' = bs ∧ s₂ = s' := by simpa using h
      obtain ⟨rfl, hb⟩ := hstep a List.mem_cons_self s b s₁ ha
      obtain ⟨rfl, hbs⟩ := ih (fun a' ha' => hstep a' (List.mem_cons_of_mem a ha')) hrest
      exact ⟨rfl, List.forall_mem_cons.mpr ⟨hb, hbs⟩⟩

theorem runIn_resolveType_ok {w : WrittenType} (h : (resolveType w).runIn env s = (.ok t, s')) :
    s' = s ∧ t.mentionsError = false := by
  rw [runIn_resolveType] at h
  obtain ⟨hresolve, rfl⟩ := Prod.mk.inj h
  exact ⟨rfl, Signature.mentionsError_resolve _ _ w t hresolve⟩

theorem runIn_argumentsOf {target : Signature} {arguments : Arguments}
    (h : (s.body.arena.get slot).kind.arguments? = some arguments) :
    (argumentsOf slot target).runIn env s = (.ok arguments, s) := by
  unfold argumentsOf
  rw [runIn_bind, runIn_node]
  simp only [h]
  rfl

theorem runIn_argumentsOf_ok {target : Signature} {arguments : Arguments}
    (h : (argumentsOf slot target).runIn env s = (.ok arguments, s')) :
    (s.body.arena.get slot).kind.arguments? = some arguments ∧ s' = s := by
  unfold argumentsOf at h
  rw [runIn_bind, runIn_node] at h
  dsimp only at h
  split at h
  next found hfound =>
    obtain ⟨rfl, rfl⟩ : found = arguments ∧ s = s' := by simpa using h
    exact ⟨hfound, rfl⟩
  next => simp at h

/-- Whether a function may be used does not depend on the state, nor does what is reported. -/
theorem exists_runIn_checkUse (env : Environment) (target : Signature) (span : Span) :
    ∃ r new, (∀ w ∈ new, w.error.isWarning = true) ∧
      ∀ s, (checkUse target span).runIn env s = (r, { s with reports := s.reports ++ new }) := by
  unfold checkUse
  by_cases hmay : env.mayCall target
  · by_cases hwarn : target.deprecated?.isSome ∧ env.warnDeprecated
    · refine ⟨.ok (), [{
        function := env.function.qualifiedName
        error := .deprecated target.qualifiedName (target.deprecated?.filter fun note => note ≠ "") span }],
        by simp [SemanticError.isWarning], fun s => ?_⟩
      rw [runIn_bind, runIn_read]
      simp only [hmay, hwarn.1, if_true, warnDeprecated]
      rw [runIn_bind, runIn_read]
      simp only [hwarn.2, if_true]
      rfl
    · refine ⟨.ok (), [], nofun, fun s => ?_⟩
      rw [runIn_bind, runIn_read]
      simp only [hmay, warnDeprecated]
      by_cases hdep : target.deprecated?.isSome
      · simp [hdep, runIn_bind, (not_and.mp hwarn hdep)]
      · simp [hdep]
  · refine ⟨.error (.accessViolation target.qualifiedName env.function.qualifiedName span), [], nofun,
      fun s => ?_⟩
    rw [runIn_bind, runIn_read]
    simp [hmay, runIn_bind]

theorem runIn_checkUse_ok {target : Signature} {span : Span}
    (h : (checkUse target span).runIn env s = (.ok (), s')) :
    ∃ new, s' = { s with reports := s.reports ++ new } ∧ ∀ r ∈ new, r.error.isWarning = true := by
  obtain ⟨r, new, hwarn, hrun⟩ := exists_runIn_checkUse env target span
  rw [hrun] at h
  exact ⟨new, (Prod.mk.inj h).2.symm, hwarn⟩

theorem runIn_checkGenericArguments_ok {target : Signature} {receiver? : Option Ty}
    {arguments : Arguments} {types : List Ty}
    (h : (checkGenericArguments target receiver? arguments).runIn env s = (.ok types, s')) :
    s' = s ∧ ∀ t ∈ types, t.mentionsError = false := by
  unfold checkGenericArguments at h
  dsimp only at h
  split at h
  · rw [runIn_bind] at h
    simp at h
  · rw [runIn_bind, runIn_read] at h
    refine runIn_mapM_ok_of_keeps (fun q _ s t s' hq => ?_) h
    obtain ⟨u, s₁, hresolve, hcheck⟩ := runIn_bind_ok.mp hq
    obtain ⟨⟨⟩, s₂, hsub, hreturn⟩ := runIn_bind_ok.mp hcheck
    obtain ⟨rfl, hue⟩ := runIn_resolveType_ok hresolve
    obtain ⟨-, rfl⟩ := runIn_requireSubtype_ok hsub
    obtain ⟨rfl, rfl⟩ : u = t ∧ s₂ = s' := by simpa using hreturn
    exact ⟨rfl, hue⟩

theorem runIn_inferredArgument_ok {c : GenericContext} {target : Signature} {span : Span}
    {generic : GenericParam} {candidates : Candidates} (hc : candidates.ErrorFree)
    (h : (inferredArgument c target span generic candidates).runIn env s = (.ok t, s')) :
    s' = s ∧ t.mentionsError = false := by
  obtain ⟨rfl, hresult, -⟩ := inferredArgument_ok h
  exact ⟨rfl, hc.result hresult⟩

end Analysis

open Analysis

theorem Signature.ErrorFree.calleeContext {target : Signature} (htarget : target.ErrorFree)
    (env : Environment) {receiver? : Option Ty} (hreceiver : ∀ r ∈ receiver?, r.mentionsError = false) :
    (env.calleeContext receiver? target).ErrorFree := by
  have hc := htarget.context env.declarations
  cases receiver? with
  | none => exact hc
  | some r => exact { hc with owner := fun t ht => by cases ht; exact hreceiver r rfl }

/-! ### Arguments -/

/--
On the way from `s` to `s'` some of the given operands were typed, besides those of
`V`, but not converted.
-/
structure AnalysisState.Samples (p : Package) (a₀ : Arena) (s₀ : AnalysisState) (slot : Slot)
    (V : Slot → Prop) (s : AnalysisState) (args : List Slot) (V' : Slot → Prop) (e : Expr)
    (s' : AnalysisState) : Prop where
  tracks : s₀.Tracks p a₀ s₀.readable slot V' e s'
  keeps : ∀ c, V c → V' c ∧ s'.body.arena.get c = s.body.arena.get c
  plain : ∀ c, V' c → V c ∨ c ∈ args ∧ ¬ (s'.body.arena.get c).IsConversion

theorem AnalysisState.Samples.refl {p : Package} {a₀ : Arena} {s₀ s : AnalysisState} {slot : Slot}
    {V : Slot → Prop} {e : Expr} {args : List Slot} (h : s₀.Tracks p a₀ s₀.readable slot V e s) :
    s₀.Samples p a₀ slot V s args V e s :=
  ⟨h, fun _ hc => ⟨hc, rfl⟩, fun _ hc => .inl hc⟩

namespace AnalysisState.Tracks

variable {env : Environment} {visit : Visit} {a₀ : Arena} {roots : List Slot}
  {s₀ s s' : AnalysisState} {slot : Slot} {V : Slot → Prop} {e : Expr} {k : Nat} {t : Ty}

theorem keepGenericArguments (hf : a₀.IsForest roots) (hk : a₀.Level roots k slot)
    (args : List Slot) {V' : Slot → Prop} {found types : List Ty} {s₁ : AnalysisState}
    (h : s₀.Samples env.package a₀ slot V s args V' e s₁)
    (hrun : (do
        modifyKind slot (·.withGenericArguments found)
        return found : Analysis (List Ty)).runIn env s₁ = (.ok types, s')) :
    found = types ∧ s₀.Samples env.package a₀ slot V s args V'
      { e with kind := e.kind.withGenericArguments types } s' := by
  obtain ⟨rfl, rfl⟩ : found = types ∧ s₁.withArena (s₁.body.arena.modifyKind slot
      (·.withGenericArguments found)) = s' := by
    have := Prod.mk.inj hrun
    exact ⟨Except.ok.inj this.1, this.2⟩
  obtain ⟨hann, hget⟩ := annotate hf hk h.tracks
    (g := fun e => { e with kind := e.kind.withGenericArguments found })
    (.withKind (f := (·.withGenericArguments found)) (e.kind.bare_withGenericArguments found))
  refine ⟨rfl, hann, fun c hc => ⟨(h.keeps c hc).1, ?_⟩, fun c hc => ?_⟩
  · exact (hget c (h.keeps c hc).1 c (.refl _ c)).trans (h.keeps c hc).2
  · refine (h.plain c hc).imp_right fun hplain => ⟨hplain.1, ?_⟩
    rw [arena_withArena, Arena.modifyKind, hget c hc c (.refl _ c)]
    exact hplain.2

section Loops

variable (hf : a₀.IsForest roots) (hk : a₀.Level roots k slot)
  (hv : ∀ c ∈ (a₀.get slot).kind.operands, VisitSpec env a₀ visit c)
  (hu : ∀ c ∈ (a₀.get slot).kind.operands, a₀.Untouched s₀.body.arena c)
include hf hk hv hu

theorem expectAll {β : Type} (ty : β → Ty) {l : List (β × Slot)}
    (h : Tracks env.package a₀ s₀ s₀.readable slot V e s) (hmem : ∀ q ∈ l, q.2 ∈ (a₀.get slot).kind.operands)
    (hnodup : (l.map (·.2)).Nodup)
    (hplain : ∀ q ∈ l, V q.2 → ¬ (s.body.arena.get q.2).IsConversion)
    (hty : ∀ q ∈ l, (ty q.1).mentionsError = false)
    (hrun : (l.forM fun q => discard (expectType visit (ty q.1) q.2)).runIn env s = (.ok (), s')) :
    Tracks env.package a₀ s₀ s₀.readable slot (fun c => V c ∨ c ∈ l.map (·.2)) e s' ∧
      (∀ q ∈ l, Alike env.declarations (s'.body.arena.typeAt q.2) (ty q.1)) ∧
      ∀ c, V c → c ∉ l.map (·.2) → s'.body.arena.get c = s.body.arena.get c := by
  induction l generalizing s V with
  | nil =>
      obtain rfl : s = s' := (Prod.mk.inj hrun).2
      exact ⟨h.congr (by simp), by simp, fun _ _ _ => rfl⟩
  | cons q l ih =>
      obtain ⟨⟨⟩, s₁, hq, hrest⟩ := runIn_bind_ok.mp
        (show (discard (expectType visit (ty q.1) q.2) >>= fun _ => l.forM _).runIn env s = _
          from hrun)
      obtain ⟨u, hq⟩ := runIn_discard_ok.mp hq
      obtain ⟨hqnew, hnodup⟩ := List.nodup_cons.mp hnodup
      have hqmem := hmem q List.mem_cons_self
      obtain ⟨h₁, htype, hmet, hkeep⟩ := expect hf hk h (hv _ hqmem) hqmem (hu _ hqmem)
        (hplain q List.mem_cons_self) (hty q List.mem_cons_self) hq
      have hne (q' : β × Slot) (hq' : q' ∈ l) : q'.2 ≠ q.2 := fun heq =>
        hqnew (List.mem_map.mpr ⟨q', hq', heq⟩)
      have hplain' (q' : β × Slot) (hq' : q' ∈ l) (hV : q'.2 = q.2 ∨ V q'.2) :
          ¬ (s₁.body.arena.get q'.2).IsConversion := by
        rcases hV with heq | hV
        · exact absurd heq (hne q' hq')
        · rw [hkeep q'.2 hV (hne q' hq')]
          exact hplain q' (List.mem_cons_of_mem q hq') hV
      obtain ⟨h', halike, hkeep'⟩ := ih h₁ (fun q' hq' => hmem q' (List.mem_cons_of_mem q hq'))
        hnodup hplain' (fun q' hq' => hty q' (List.mem_cons_of_mem q hq')) hrest
      refine ⟨h'.congr fun c => ?_, List.forall_mem_cons.mpr ⟨?_, halike⟩, fun c hc hnot => ?_⟩
      · simp only [List.map_cons, List.mem_cons]
        tauto
      · rw [Arena.typeAt_congr (hkeep' q.2 (.inl rfl) hqnew), htype]
        exact hmet.alike rfl
      · obtain ⟨hcq, hcl⟩ : c ≠ q.2 ∧ c ∉ l.map (·.2) := by simpa using hnot
        rw [hkeep' c (.inr hc) hcl, hkeep c hc hcq]

/-- Arguments are typed to infer generic arguments from them; nothing is converted. -/
theorem collectCandidates {c : GenericContext} {l : List (Param × Slot)}
    {all all' : List Candidates} (hd : env.declarations.ErrorFree)
    (h : Tracks env.package a₀ s₀ s₀.readable slot V e s) (hmem : ∀ q ∈ l, q.2 ∈ (a₀.get slot).kind.operands)
    (hnodup : (l.map (·.2)).Nodup) (hnew : ∀ q ∈ l, ¬ V q.2)
    (hall : ∀ candidates ∈ all, candidates.ErrorFree)
    (hrun : (l.foldlM (fun all (q : Param × Slot) => do
        if q.1.type.mentionsLocalGenerics then
          return (← collectFrom visit (c.instantiate q.1.type) q.2 all).2
        else return all) all).runIn env s = (.ok all', s')) :
    (∀ candidates ∈ all', candidates.ErrorFree) ∧
      ∃ V', Samples env.package a₀ s₀ slot V s (l.map (·.2)) V' e s' := by
  induction l generalizing s V all with
  | nil =>
      obtain ⟨rfl, rfl⟩ : all = all' ∧ s = s' := by simpa using hrun
      exact ⟨hall, V, .refl h⟩
  | cons q l ih =>
      rw [List.foldlM_cons] at hrun
      obtain ⟨all₁, s₁, hq, hrest⟩ := runIn_bind_ok.mp hrun
      obtain ⟨hqnew, hnodup⟩ := List.nodup_cons.mp hnodup
      have hqmem := hmem q List.mem_cons_self
      have hqV := hnew q List.mem_cons_self
      have hmem' (q' : Param × Slot) (hq' : q' ∈ l) := hmem q' (List.mem_cons_of_mem q hq')
      have hnew' (q' : Param × Slot) (hq' : q' ∈ l) := hnew q' (List.mem_cons_of_mem q hq')
      split at hq
      · obtain ⟨r, s₂, hcollect, hq⟩ := runIn_bind_ok.mp hq
        obtain ⟨actual, s₃, hvisit, hcollect⟩ := runIn_bind_ok.mp hcollect
        rw [runIn_bind, runIn_read] at hcollect
        obtain ⟨rfl, rfl⟩ : _ = r ∧ s₃ = s₂ := by simpa using hcollect
        obtain ⟨rfl, rfl⟩ : _ = all₁ ∧ s₃ = s₁ := by simpa using hq
        obtain ⟨ha, hplain⟩ := (hv _ hqmem).analysed h.valid
          (untouched hf hk h (hu _ hqmem) hqmem hqV) (by simp) hvisit
        obtain ⟨h₁, hkeep⟩ := extend hf hk h rfl ha hqmem hqV
        have hnew₁ (q' : Param × Slot) (hq' : q' ∈ l) : ¬ (q'.2 = q.2 ∨ V q'.2) := by
          rintro (heq | hV)
          · exact hqnew (List.mem_map.mpr ⟨q', hq', heq⟩)
          · exact hnew' q' hq' hV
        obtain ⟨hall', V', h'⟩ := ih h₁ hmem' hnodup hnew₁
          (Candidates.errorFree_collect hd _ _ _ ha.mentionsError_eq hall) hrest
        refine ⟨hall', V', h'.tracks, fun c hc => ?_, fun c hc => ?_⟩
        · obtain ⟨hc', hget⟩ := h'.keeps c (.inr hc)
          exact ⟨hc', hget.trans (hkeep c hc)⟩
        · rcases h'.plain c hc with (rfl | hc) | ⟨hc, hcp⟩
          · refine .inr ⟨List.mem_cons_self, ?_⟩
            rwa [(h'.keeps q.2 (.inl rfl)).2]
          · exact .inl hc
          · exact .inr ⟨List.mem_cons_of_mem _ hc, hcp⟩
      · obtain ⟨rfl, rfl⟩ : all = all₁ ∧ s = s₁ := by simpa using hq
        obtain ⟨hall', V', h'⟩ := ih h hmem' hnodup hnew' hall hrest
        refine ⟨hall', V', h'.tracks, h'.keeps, fun c hc => ?_⟩
        rcases h'.plain c hc with hc | ⟨hc, hcp⟩
        · exact .inl hc
        · exact .inr ⟨List.mem_cons_of_mem _ hc, hcp⟩

variable {target : Signature} {receiver? : Option Ty} {arguments : Arguments} {types : List Ty}
  (henv : env.ErrorFree) (h : Tracks env.package a₀ s₀ s₀.readable slot V e s)
  (harguments : e.kind.arguments? = some arguments)
  (hmem : ∀ c ∈ arguments.args, c ∈ (a₀.get slot).kind.operands)
  (hnodup : arguments.args.Nodup) (hnew : ∀ c ∈ arguments.args, ¬ V c)
include henv h hmem hnodup hnew

theorem inferGenericArguments (hlen : arguments.args.length = target.params.length)
    (hrun : (Analysis.inferGenericArguments visit target receiver? arguments).runIn env s =
      (.ok types, s')) :
    (∀ t ∈ types, t.mentionsError = false) ∧
      ∃ V', Samples env.package a₀ s₀ slot V s arguments.args V' e s' := by
  unfold Analysis.inferGenericArguments at hrun
  rw [runIn_bind, runIn_read] at hrun
  obtain ⟨all, s₁, hcollect, hinfer⟩ := runIn_bind_ok.mp hrun
  have hsnd : (target.params.zip arguments.args).map (·.2) = arguments.args :=
    List.map_snd_zip hlen.le
  have hall : ∀ candidates ∈ target.generics.map fun _ => Candidates.unseen,
      candidates.ErrorFree := by
    intro candidates hc
    obtain ⟨-, -, rfl⟩ := List.mem_map.mp hc
    trivial
  obtain ⟨hfree, V', h'⟩ := collectCandidates hf hk hv hu henv.package.declarations h
    (fun q hq => hmem q.2 (List.of_mem_zip hq).2) (by rwa [hsnd])
    (fun q hq => hnew q.2 (List.of_mem_zip hq).2) hall hcollect
  obtain ⟨rfl, htypes⟩ := runIn_mapM_ok_of_keeps
    (fun q hq s t s' hrun => runIn_inferredArgument_ok (hfree q.2 (List.of_mem_zip hq).2) hrun)
    hinfer
  rw [hsnd] at h'
  exact ⟨htypes, V', h'⟩

include harguments

theorem ensureGenericArguments (hlen : arguments.args.length = target.params.length)
    (hrun : (Analysis.ensureGenericArguments visit slot receiver? target).runIn env s =
      (.ok types, s')) :
    (∀ t ∈ types, t.mentionsError = false) ∧
      ∃ V', Samples env.package a₀ s₀ slot V s arguments.args V'
        { e with kind := e.kind.withGenericArguments types } s' := by
  unfold Analysis.ensureGenericArguments at hrun
  rw [runIn_bind, runIn_argumentsOf (h.get_eq ▸ harguments)] at hrun
  dsimp only at hrun
  split at hrun
  · obtain ⟨found, s₂, hcheck, hkeep⟩ := runIn_bind_ok.mp hrun
    obtain ⟨rfl, htypes⟩ := runIn_checkGenericArguments_ok hcheck
    obtain ⟨rfl, hsamples⟩ := keepGenericArguments hf hk arguments.args (.refl h) hkeep
    exact ⟨htypes, V, hsamples⟩
  · split at hrun
    · obtain ⟨found, s₂, hinfer, hkeep⟩ := runIn_bind_ok.mp hrun
      obtain ⟨htypes, V', h'⟩ :=
        inferGenericArguments hf hk hv hu henv h hmem hnodup hnew hlen hinfer
      obtain ⟨rfl, hsamples⟩ := keepGenericArguments hf hk arguments.args h' hkeep
      exact ⟨htypes, V', hsamples⟩
    · rw [runIn_bind, runIn_pure] at hrun
      dsimp only at hrun
      obtain ⟨rfl, hsamples⟩ := keepGenericArguments hf hk arguments.args (.refl h) hrun
      exact ⟨by simp, V, hsamples⟩

theorem analyseFunctionCall (htarget : target.ErrorFree)
    (hreceiver : ∀ r ∈ receiver?, r.mentionsError = false)
    (hrun : (Analysis.analyseFunctionCall visit slot receiver? target).runIn env s =
      (.ok t, s')) :
    (∃ types, Tracks env.package a₀ s₀ s₀.readable slot (fun c => V c ∨ c ∈ arguments.args)
        { e with kind := e.kind.withGenericArguments types } s') ∧
      arguments.args.length = target.params.length ∧
      (∀ q ∈ target.params.zip arguments.args,
        Alike env.declarations (s'.body.arena.typeAt q.2) q.1.type) ∧
      env.declarations.llvmType t = env.declarations.llvmType target.ret ∧
      t.mentionsError = false ∧ ∀ c, V c → s'.body.arena.get c = s.body.arena.get c := by
  unfold Analysis.analyseFunctionCall at hrun
  rw [runIn_bind, runIn_argumentsOf (h.get_eq ▸ harguments)] at hrun
  obtain ⟨⟨⟩, s₂, huse, hcall⟩ := runIn_bind_ok.mp hrun
  obtain ⟨new, rfl, hwarn⟩ := runIn_checkUse_ok huse
  dsimp only at hcall
  split at hcall
  · rw [runIn_bind] at hcall
    simp at hcall
  next hlen =>
    have hlen := Decidable.not_not.mp hlen
    have hsnd : (target.params.zip arguments.args).map (·.2) = arguments.args :=
      List.map_snd_zip hlen.le
    obtain ⟨types, s₃, hensure, hcall⟩ := runIn_bind_ok.mp hcall
    rw [runIn_bind, runIn_read] at hcall
    obtain ⟨⟨⟩, s₄, hargs, hreturn⟩ := runIn_bind_ok.mp hcall
    obtain ⟨htypes, V', h'⟩ := ensureGenericArguments hf hk hv hu henv
      (h.reporting hwarn) harguments hmem hnodup hnew hlen hensure
    have hc : ({ env.calleeContext receiver? target with args := types } :
        GenericContext).ErrorFree :=
      { htarget.calleeContext env hreceiver with args := htypes }
    have hparams (q : Param × Slot) (hq : q ∈ target.params.zip arguments.args) :
        q.1.type.mentionsError = false := htarget.params q.1 (List.of_mem_zip hq).1
    have hplain (q : Param × Slot) (hq : q ∈ target.params.zip arguments.args) (hV : V' q.2) :
        ¬ (s₃.body.arena.get q.2).IsConversion := by
      have harg := (List.of_mem_zip hq).2
      rcases h'.plain q.2 hV with hold | ⟨-, hplain⟩
      · exact absurd hold (hnew q.2 harg)
      · exact hplain
    obtain ⟨h'', halike, hkeep⟩ := expectAll hf hk hv hu (fun param : Param =>
        ({ env.calleeContext receiver? target with args := types } : GenericContext).instantiate
          param.type) h'.tracks (fun q hq => hmem q.2 (List.of_mem_zip hq).2) (by rwa [hsnd]) hplain
      (fun q hq => hc.instantiate (hparams q hq)) hargs
    obtain ⟨rfl, rfl⟩ : _ = t ∧ s₄ = s' := by
      have := Prod.mk.inj hreturn
      exact ⟨Except.ok.inj this.1, this.2⟩
    refine ⟨⟨types, h''.congr fun c => ?_⟩, hlen, fun q hq => ?_,
      Declarations.llvmType_instantiate hc htarget.ret, hc.instantiate htarget.ret,
      fun c hV => ?_⟩
    · rw [hsnd]
      constructor
      · rintro (hc | hc)
        · exact .inl (h'.keeps c hc).1
        · exact .inr hc
      · rintro (hc | hc)
        · exact (h'.plain c hc).imp_right And.left
        · exact .inr hc
    · have hq' := halike q hq
      exact ⟨hq'.storage_eq.trans (Declarations.storage_instantiate hc (hparams q hq)),
        hq'.llvmType_eq.trans (Declarations.llvmType_instantiate hc (hparams q hq))⟩
    · obtain ⟨hV', hget⟩ := h'.keeps c hV
      exact (hkeep c hV' fun hc => hnew c (by rwa [hsnd] at hc) hV).trans hget

end Loops

end AnalysisState.Tracks

end Boxlang
