import Boxlang.Proofs.Calls.Inferred
import Mathlib.Tactic.IntervalCases

/-!
# No value as an argument

A literal for no value has the type that is expected of it.  A call expects the types of
its parameters, so where a parameter is an optional the literal becomes one, and nothing is
converted (`runIn_expectType_noValue`).  To infer generic arguments, though, the arguments
for parameters that mention them are typed with nothing expected, which no such literal
survives, whatever the other arguments show (`runIn_ensureGenericArguments_noValue`).
-/

namespace Boxlang

structure Expr.IsNoValue (e : Expr) : Prop where
  kind_eq : e.kind = .noValue
  type?_eq : e.type? = none

theorem compliance_optional (u : Ty) : ({ type := .optional u } : Expectation).compliance (.optional u) =
    .asIs (.optional u) := by
  have hs : ({ type := .optional u } : Expectation).target (.optional u) = (Ty.optional u).storage := rfl
  unfold Expectation.compliance Expectation.storageCompliance
  rw [hs]
  cases (Ty.optional u).storage <;> rfl

namespace Analysis

variable {env : Environment} {s s' : AnalysisState} {slot arg : Slot} {target : Signature} {receiver? : Option Ty}
  {arguments : Arguments} {types : List Ty} {a₀ : Arena}

/-! ### Typing the literal -/

theorem runIn_analyseExpr_noValue (hlt : arg < s.body.arena.size) (harg : (s.body.arena.get arg).IsNoValue)
    (e? : Option Expectation) : (analyseExpr arg e?).runIn env s = (do
      let t ← noValueType e? (s.body.arena.get arg).span
      modifyArena (·.setType arg t)
      return t : Analysis Ty).runIn env s := by
  obtain ⟨n, hn⟩ := Nat.exists_eq_add_of_lt hlt
  unfold analyseExpr
  rw [runIn_bind, runIn_get]
  dsimp only
  rw [hn, analyseExprWithin, analyseNode, runIn_bind, runIn_node]
  simp only [harg.type?_eq, nodeType, harg.kind_eq]

theorem runIn_analyseExpr_noValue_none (hlt : arg < s.body.arena.size)
    (harg : (s.body.arena.get arg).IsNoValue) :
    (analyseExpr arg none).runIn env s = (.error (.noValueWithoutOptional (s.body.arena.get arg).span), s) := by
  rw [runIn_analyseExpr_noValue hlt harg, runIn_bind]
  rfl

/-- No value takes the expected optional type in the storage that is asked for, so it is not converted. -/
theorem runIn_expectType_noValue (hlt : arg < s.body.arena.size) (harg : (s.body.arena.get arg).IsNoValue)
    (u : Ty) : (expectType analyseExpr (.optional u) arg).runIn env s =
      (.ok (.optional u), s.withArena (s.body.arena.setType arg (.optional u))) := by
  have hheld : (Ty.optional u).heldIn (Ty.optional u).storage = .optional u := by
    rcases hs : (Ty.optional u).storage with _ | _ | _
    · exact (Ty.storage_optional_ne_simple u hs).elim
    · rfl
    · rw [Ty.heldIn, if_pos hs]
  have htype : noValueType (some { type := .optional u }) (s.body.arena.get arg).span =
      pure (.optional u) := by
    show (pure ((Ty.optional u).heldIn (Ty.optional u).storage) : Analysis Ty) = _
    rw [hheld]
  have hsub : env.declarations.isSubtype env.context (.optional u) (.optional u) = true :=
    Declarations.isSubtype_iff.mpr (.refl _)
  unfold expectType expect
  rw [runIn_bind, runIn_analyseExpr_noValue hlt harg, htype, pure_bind]
  show ((do
    requireSubtype _ _ (← spanOf arg)
    comply _ _ arg : Analysis Ty).runIn env _) = _
  rw [runIn_bind, runIn_spanOf]
  dsimp only
  rw [runIn_bind, runIn_requireSubtype_of_isSubtype hsub]
  exact runIn_comply_asIs (compliance_optional u)

/-! ### Inferring generic arguments -/

/-- A loop fails as the first of its steps that fails. -/
theorem runIn_mapM_append_error {α β : Type} {step : α → Analysis β} {l₁ l₂ : List α} {a : α} {bs : List β}
    {s₁ s₂ : AnalysisState} {e : SemanticError} (h₁ : (l₁.mapM step).runIn env s = (.ok bs, s₁))
    (ha : (step a).runIn env s₁ = (.error e, s₂)) :
    ((l₁ ++ a :: l₂).mapM step).runIn env s = (.error e, s₂) := by
  rw [List.mapM_append, runIn_bind, h₁]
  dsimp only
  rw [List.mapM_cons, bind_assoc, runIn_bind, ha]

theorem runIn_ensureGenericArguments_error {visit : Visit} {e : SemanticError}
    (harguments : (s.body.arena.get slot).kind.arguments? = some arguments) (hwritten : arguments.written = [])
    (hgeneric : target.isGeneric = true)
    (h : (observeArguments visit target arguments).runIn env s = (.error e, s')) :
    (ensureGenericArguments visit slot receiver? target).runIn env s = (.error e, s') := by
  have hcollect (c : GenericContext) : (collectCandidates visit c target arguments).runIn env s = (.error e, s') := by
    rw [runIn_collectCandidates, ← bind_pure_comp, runIn_bind, h]
  unfold ensureGenericArguments
  rw [runIn_bind, runIn_argumentsOf harguments]
  simp only [hwritten, List.isEmpty_nil, Bool.not_true, Bool.false_eq_true, if_false, hgeneric, if_true]
  rw [inferGenericArguments, runIn_bind, runIn_bind, runIn_read]
  dsimp only
  rw [runIn_bind, hcollect]

/-- The generic arguments of a call are inferred, from its argument for the parameter among others. -/
structure InfersFrom (target : Signature) (arguments : Arguments) (param : Param) : Prop where
  written_eq : arguments.written = []
  isGeneric : target.isGeneric = true
  mentions : param.type.mentionsLocalGenerics = true

/-- Finding the generic arguments of a call leaves an argument alone that none is inferred from. -/
theorem get_eq_of_ensureGenericArguments {l : List (Param × Slot)} {r : Except SemanticError (List Ty)}
    (hin : a₀.InRange) (ha : s.body.arena.HoldsNodesOf a₀) (hlt : ∀ q ∈ l, q.2 < a₀.size)
    (harguments : (s.body.arena.get slot).kind.arguments? = some arguments)
    (hl : arguments.written = [] → target.isGeneric = true → ∀ q ∈ target.params.zip arguments.args,
      q.1.type.mentionsLocalGenerics = true → q ∈ l)
    (hx : arg < a₀.size) (hne : arg ≠ slot) (hapart : ∀ q ∈ l, ¬ a₀.Reaches q.2 arg)
    (hrun : (ensureGenericArguments analyseExpr slot receiver? target).runIn env s = (r, s')) :
    s'.body.arena.get arg = s.body.arena.get arg := by
  have hregion : a₀.IsRegion (reachesAny a₀ l) := isRegion_reachesAny hin hlt
  -- The arguments are found in a region that this one is not part of, and then kept in the call.
  have hkept {step : Analysis (List Ty)} (hwalks : Walks a₀ (reachesAny a₀ l) env step)
      (hrun : (do
        let resolved ← step
        modifyKind slot (·.withGenericArguments resolved)
        return resolved : Analysis (List Ty)).runIn env s = (r, s')) :
      s'.body.arena.get arg = s.body.arena.get arg := by
    rcases hstep : step.runIn env s with ⟨e | types, s₁⟩
    all_goals
      have hget : s₁.body.arena.get arg = s.body.arena.get arg :=
        get_eq_of_walks hregion ha hwalks hstep hx fun ⟨q, hq, hreach⟩ => hapart q hq hreach
      rw [runIn_bind, hstep] at hrun
      dsimp only at hrun
    · rw [← (Prod.mk.inj hrun).2, hget]
    · rw [runIn_bind, runIn_modifyKind] at hrun
      obtain ⟨-, rfl⟩ := Prod.mk.inj hrun
      exact (Arena.get_modify_of_ne _ hne _).trans hget
  unfold ensureGenericArguments at hrun
  rw [runIn_bind, runIn_argumentsOf harguments] at hrun
  dsimp only at hrun
  split at hrun
  next => exact hkept (walks_checkGenericArguments hregion.lt target receiver? arguments) hrun
  next hwritten =>
    have hwritten : arguments.written = [] := by simpa using hwritten
    split at hrun
    next hgeneric =>
      refine hkept (walks_inferGenericArguments hregion.lt (walks_analyseExpr hregion) target receiver? arguments
        fun q hq hm => ⟨q, hl hwritten hgeneric q hq hm, .refl a₀ _⟩) hrun
    next => exact hkept (fun s _ => .pure []) hrun

/-! ### Checking the literal -/

/--
What checking the arguments of a call from a state makes of a literal for no value, where the call
sees the types of the target through `view`: once the arguments before it have been checked
it takes the type of its parameter and stays where it is, also while the arguments
after it are checked, and if some argument is refused, it is another one.
-/
structure ChecksNoValue (env : Environment) (s : AnalysisState) (target : Signature) (arguments : Arguments)
    (view : Ty → Ty) (before : List (Param × Slot)) (param : Param) (arg : Slot) : Prop where
  runIn_expectType : ∀ s₁, (before.forM (checkArgument view)).runIn env s = (.ok (), s₁) →
    (expectType analyseExpr (view param.type) arg).runIn env s₁ =
      (.ok (view param.type), s₁.withArena (s₁.body.arena.setType arg (view param.type)))
  get_eq : ∀ ret s₁, (checkArguments analyseExpr view target arguments).runIn env s = (.ok ret, s₁) →
    s₁.body.arena.get arg = { s.body.arena.get arg with type? := some (view param.type) }
  exists_other : ∀ e s₁, (checkArguments analyseExpr view target arguments).runIn env s = (.error e, s₁) →
    ∃ before' q after' s₂, target.params.zip arguments.args = before' ++ q :: after' ∧
      before'.length ≠ before.length ∧ (before'.forM (checkArgument view)).runIn env s = (.ok (), s₂) ∧
      (checkArgument view q).runIn env s₂ = (.error e, s₁)

theorem runIn_forM_append_ok {α : Type} {step : α → Analysis Unit} {l₁ l₂ : List α} :
    ((l₁ ++ l₂).forM step).runIn env s = (.ok (), s') ↔
      ∃ s₁, (l₁.forM step).runIn env s = (.ok (), s₁) ∧ (l₂.forM step).runIn env s₁ = (.ok (), s') := by
  have happend : (l₁ ++ l₂).forM step = (do l₁.forM step; l₂.forM step) := List.forM_append
  rw [happend, runIn_bind_ok]
  exact ⟨fun ⟨_, h⟩ => h, fun h => ⟨(), h⟩⟩

theorem runIn_forM_of_checkArguments_error {view : Ty → Ty} {e : SemanticError}
    (h : (checkArguments analyseExpr view target arguments).runIn env s = (.error e, s')) :
    ((target.params.zip arguments.args).forM (checkArgument view)).runIn env s = (.error e, s') := by
  rw [checkArguments_eq, runIn_bind] at h
  rcases hloop : ((target.params.zip arguments.args).forM (checkArgument view)).runIn env s
    with ⟨e' | ⟨⟩, s₁⟩ <;> rw [hloop] at h
  · rw [← (Prod.mk.inj h).2, Except.error.inj (Prod.mk.inj h).1]
  · cases h

/-- Once the generic arguments are known, the literal is checked against a parameter that is an optional. -/
theorem checksNoValue (hin : a₀.InRange) (ha : s.body.arena.HoldsNodesOf a₀)
    (hlt : ∀ q ∈ target.params.zip arguments.args, q.2 < a₀.size)
    (hapart : (target.params.zip arguments.args).Pairwise fun p q => ¬ a₀.Reaches p.2 q.2 ∧ ¬ a₀.Reaches q.2 p.2)
    {before after : List (Param × Slot)} {param : Param}
    (hzip : target.params.zip arguments.args = before ++ (param, arg) :: after)
    (harg : (s.body.arena.get arg).IsNoValue) {view : Ty → Ty} {u : Ty} (hview : view param.type = .optional u) :
    ChecksNoValue env s target arguments view before param arg := by
  rw [hzip] at hlt hapart
  obtain ⟨-, hafter, hcross⟩ := List.pairwise_append.mp hapart
  have hltarg : arg < a₀.size := hlt (param, arg) (by simp)
  have hltbefore : ∀ q ∈ before, q.2 < a₀.size := fun q hq => hlt q (List.mem_append_left _ hq)
  have hltafter : ∀ q ∈ after, q.2 < a₀.size := fun q hq => hlt q (by simp [hq])
  have hholds {l : List (Param × Slot)} (hl : ∀ q ∈ l, q.2 < a₀.size) {t t' : AnalysisState}
      (ht : t.body.arena.HoldsNodesOf a₀) (hrun : (l.forM (checkArgument view)).runIn env t = (.ok (), t')) :
      t'.body.arena.HoldsNodesOf a₀ := by
    have hregion := isRegion_reachesAny hin hl
    refine holdsNodes_of_walks hregion ht (Walks.forM hregion.lt fun q hq s hs => ?_) hrun
    exact (walks_expectType hregion.lt (walks_analyseExpr hregion) ⟨q, hq, .refl a₀ _⟩ _ s hs).discard
  -- The literal is as it was when its turn comes.
  have hturn (s₁ : AnalysisState) (hbefore : (before.forM (checkArgument view)).runIn env s = (.ok (), s₁)) :
      s₁.body.arena.get arg = s.body.arena.get arg ∧
        (expectType analyseExpr (view param.type) arg).runIn env s₁ =
          (.ok (view param.type), s₁.withArena (s₁.body.arena.setType arg (view param.type))) := by
    have hget : s₁.body.arena.get arg = s.body.arena.get arg :=
      get_eq_of_checkArgument hin hltbefore ha hbefore hltarg fun q hq =>
        (hcross q hq _ List.mem_cons_self).1
    have hsize := (hholds hltbefore ha hbefore).size_le
    refine ⟨hget, ?_⟩
    rw [hview]
    exact runIn_expectType_noValue (Nat.lt_of_lt_of_le hltarg hsize) (hget ▸ harg) u
  refine ⟨fun s₁ hbefore => (hturn s₁ hbefore).2, fun ret s₁ hrun => ?_, fun e s₁ hrun => ?_⟩
  · rw [checkArguments_eq, hzip] at hrun
    obtain ⟨⟨⟩, s₂, hloop, hreturn⟩ := runIn_bind_ok.mp hrun
    obtain ⟨-, rfl⟩ : view target.ret = ret ∧ s₂ = s₁ := by simpa using hreturn
    obtain ⟨s₃, hbefore, hrest⟩ := runIn_forM_append_ok.mp hloop
    obtain ⟨hget, hexpect⟩ := hturn s₃ hbefore
    obtain ⟨⟨⟩, s₄, hcheck, hrest⟩ := runIn_bind_ok.mp hrest
    obtain ⟨t, hcheck⟩ := runIn_discard_ok.mp hcheck
    rw [hexpect] at hcheck
    obtain ⟨-, rfl⟩ := Prod.mk.inj hcheck
    have ha₃ := hholds hltbefore ha hbefore
    have hset : (s₃.body.arena.setType arg (view param.type)).HoldsNodesOf a₀ := ha₃.annotate (.withType _ _)
    have hkept := get_eq_of_checkArgument hin hltafter hset hrest hltarg fun q hq =>
      ((List.pairwise_cons.mp hafter).1 q hq).2
    rw [hkept, AnalysisState.arena_withArena, Arena.setType,
      Arena.get_modify_self _ (Nat.lt_of_lt_of_le hltarg ha₃.size_le), hget]
  · obtain ⟨before', q, after', s₂, hsplit, hbefore, hstep⟩ :=
      exists_of_runIn_forM_error (runIn_forM_of_checkArguments_error hrun)
    refine ⟨before', q, after', s₂, hsplit, fun hlen => ?_, hbefore, hstep⟩
    -- A failure at the literal is none: the literal is accepted there.
    obtain ⟨rfl, hcons⟩ := List.append_inj (hzip.symm.trans hsplit).symm hlen
    obtain ⟨rfl, -⟩ := List.cons.inj hcons
    have hok : (checkArgument view (param, arg)).runIn env s₂ = (.ok (), _) :=
      runIn_discard_ok.mpr ⟨_, (hturn s₂ hbefore).2⟩
    rw [hok] at hstep
    cases (Prod.mk.inj hstep).1

section Call

variable {roots : List Slot} {k : Nat} (hf : a₀.IsForest roots) (hslot : a₀.Level roots k slot)
  (ha : s.body.arena.HoldsNodesOf a₀) (harguments : (s.body.arena.get slot).kind.arguments? = some arguments)
  {before after : List (Param × Slot)} {param : Param} {u : Ty}
  (hzip : target.params.zip arguments.args = before ++ (param, arg) :: after)
  (harg : (s.body.arena.get arg).IsNoValue)
include hf hslot ha harguments hzip harg

theorem runIn_ensureGenericArguments_noValue (hinfers : InfersFrom target arguments param)
    {observed : List (Ty × Ty)} {s₁ : AnalysisState}
    (hbefore : ((before.filter (·.1.type.mentionsLocalGenerics)).mapM (observeArgument analyseExpr)).runIn env s =
      (.ok observed, s₁)) :
    (ensureGenericArguments analyseExpr slot receiver? target).runIn env s =
      (.error (.noValueWithoutOptional (s.body.arena.get arg).span), s₁) := by
  have hlt : ∀ q ∈ target.params.zip arguments.args, q.2 < a₀.size :=
    lt_size_of_mem_zip_args hf hslot ha harguments
  have hapart : (target.params.zip arguments.args).Pairwise fun p q =>
      ¬ a₀.Reaches p.2 q.2 ∧ ¬ a₀.Reaches q.2 p.2 := pairwise_zip_args hf hslot ha harguments
  rw [hzip] at hlt hapart
  have hltarg : arg < a₀.size := hlt (param, arg) (by simp)
  have hltbefore : ∀ q ∈ before.filter (·.1.type.mentionsLocalGenerics), q.2 < a₀.size :=
    fun q hq => hlt q (List.mem_append_left _ (List.mem_filter.mp hq).1)
  -- The arguments before the literal are typed without touching it.
  have hget : s₁.body.arena.get arg = s.body.arena.get arg :=
    get_eq_of_observeArgument hf.inRange hltbefore ha hbefore hltarg fun q hq =>
      ((List.pairwise_append.mp hapart).2.2 q (List.mem_filter.mp hq).1 _ List.mem_cons_self).1
  have hregion := isRegion_reachesAny hf.inRange hltbefore
  have ha₁ : s₁.body.arena.HoldsNodesOf a₀ := holdsNodes_of_walks hregion ha
    (Walks.mapM hregion.lt fun q hq => walks_observeArgument hregion ⟨q, hq, .refl a₀ _⟩) hbefore
  have hfail : (observeArgument analyseExpr (param, arg)).runIn env s₁ =
      (.error (.noValueWithoutOptional (s.body.arena.get arg).span), s₁) := by
    rw [observeArgument, runIn_bind,
      runIn_analyseExpr_noValue_none (Nat.lt_of_lt_of_le hltarg ha₁.size_le) (hget ▸ harg), hget]
  apply runIn_ensureGenericArguments_error harguments hinfers.written_eq hinfers.isGeneric
  have hfilter : ((param, arg) :: after).filter (·.1.type.mentionsLocalGenerics) =
      (param, arg) :: after.filter (·.1.type.mentionsLocalGenerics) :=
    List.filter_cons_of_pos hinfers.mentions
  rw [observeArguments_eq, hzip, List.filter_append, hfilter]
  exact runIn_mapM_append_error hbefore hfail

/-- Where no generic argument is inferred from the literal, finding them leaves it untyped. -/
theorem get_eq_of_ensureGenericArguments_noValue (hinfers : ¬ InfersFrom target arguments param)
    {r : Except SemanticError (List Ty)}
    (hrun : (ensureGenericArguments analyseExpr slot receiver? target).runIn env s = (r, s')) :
    s'.body.arena.get arg = s.body.arena.get arg := by
  have hlt : ∀ q ∈ target.params.zip arguments.args, q.2 < a₀.size :=
    lt_size_of_mem_zip_args hf hslot ha harguments
  have hapart : (target.params.zip arguments.args).Pairwise fun p q =>
      ¬ a₀.Reaches p.2 q.2 ∧ ¬ a₀.Reaches q.2 p.2 := pairwise_zip_args hf hslot ha harguments
  rw [hzip] at hlt hapart
  obtain ⟨-, hafter, hcross⟩ := List.pairwise_append.mp hapart
  have hne : arg ≠ slot := by
    rintro rfl
    rw [harg.kind_eq] at harguments
    cases harguments
  have hothers : ∀ q ∈ before ++ after, ¬ a₀.Reaches q.2 arg := by
    intro q hq
    rcases List.mem_append.mp hq with hq | hq
    · exact (hcross q hq _ List.mem_cons_self).1
    · exact ((List.pairwise_cons.mp hafter).1 q hq).2
  refine get_eq_of_ensureGenericArguments hf.inRange ha (l := before ++ after) (fun q hq => hlt q ?_)
    harguments (fun hwritten hgeneric q hq hm => ?_) (hlt (param, arg) (by simp)) hne hothers hrun
  · rcases List.mem_append.mp hq with hq | hq <;> simp [hq]
  · rw [hzip, List.mem_append, List.mem_cons] at hq
    rcases hq with hq | rfl | hq
    · exact List.mem_append_left _ hq
    · exact (hinfers ⟨hwritten, hgeneric, hm⟩).elim
    · exact List.mem_append_right _ hq

/--
A literal for no value is refused as an argument for an optional exactly if generic arguments
are inferred from it: then finding these fails at the literal, as soon as the arguments before
it have been typed and whatever those after it are, and otherwise the literal is left alone
until it is checked, where it takes the optional that the call sees and needs no conversion.
-/
theorem noValueArgument_outcome {u : Ty} (hparam : param.type = .optional u) :
    (InfersFrom target arguments param → ∀ observed s₁,
      ((before.filter (·.1.type.mentionsLocalGenerics)).mapM (observeArgument analyseExpr)).runIn env s =
        (.ok observed, s₁) →
      (ensureGenericArguments analyseExpr slot receiver? target).runIn env s =
        (.error (.noValueWithoutOptional (s.body.arena.get arg).span), s₁)) ∧
    (¬ InfersFrom target arguments param → ∀ r s₁,
      (ensureGenericArguments analyseExpr slot receiver? target).runIn env s = (r, s₁) →
      s₁.body.arena.get arg = s.body.arena.get arg ∧ ∀ types, r = .ok types →
        let c : GenericContext := { env.calleeContext receiver? target with args := types }
        c.instantiate param.type = .optional (c.instantiate u) ∧
          ChecksNoValue env s₁ target arguments c.instantiate before param arg) := by
  refine ⟨fun hinfers observed s₁ => runIn_ensureGenericArguments_noValue hf hslot ha harguments hzip harg hinfers,
    fun hinfers r s₁ hrun => ?_⟩
  have hget := get_eq_of_ensureGenericArguments_noValue hf hslot ha harguments hzip harg hinfers hrun
  refine ⟨hget, fun types _ => ?_⟩
  intro c
  have hview : c.instantiate param.type = .optional (c.instantiate u) := by
    rw [hparam]
    rfl
  have hregion : a₀.IsRegion (· < a₀.size) := hf.inRange.isRegion
  have ha₁ : s₁.body.arena.HoldsNodesOf a₀ := holdsNodes_of_walks hregion ha
    (walks_ensureGenericArguments hregion (walks_analyseExpr hregion) (hf.lt_size_of_level hslot)
      receiver? target) hrun
  exact ⟨hview, checksNoValue hf.inRange ha₁ (lt_size_of_mem_zip_args hf hslot ha harguments)
    (pairwise_zip_args hf hslot ha harguments) hzip (hget ▸ harg) hview⟩

end Call

end Analysis

open Analysis

def fallbackPackage : Package where
  declarations := .shapes
  functions := [
    { name := "either", generics := [⟨"T", .something⟩],
      params := [⟨"value", .localGeneric 0 "T"⟩, ⟨"fallback", .optional (.localGeneric 0 "T")⟩] },
    { name := "main" }]

/-- `either(1, none)`, with the generic arguments that are written. -/
def callEither (written : List WrittenType) : Body where
  arena := { nodes := #[
    { span := ⟨0, 1⟩, kind := .int 1 },
    { span := ⟨10, 1⟩, kind := .noValue },
    { span := ⟨20, 1⟩, kind := .call ⟨"either", ⟨20, 1⟩⟩ { span := ⟨20, 1⟩, written, args := [0, 1] } none }] }
  stmts := [.expr 2]

theorem isFresh_callEither (written : List WrittenType) : (callEither written).IsFresh where
  inRange := by
    refine ⟨fun slot hs => ?_, ?_⟩
    · replace hs : slot < 3 := hs
      interval_cases slot <;> simp [callEither, Arena.get, ExprKind.operands, Arena.size]
    · simp [callEither, Arena.size, Stmt.slots]
  untyped slot hs := by
    replace hs : slot < 3 := hs
    interval_cases slot <;> rfl
  unconverted slot hs := by
    replace hs : slot < 3 := hs
    rintro ⟨inner, op, hk⟩
    interval_cases slot <;> cases hk
  count_references slot hs := by
    replace hs : slot < 3 := hs
    interval_cases slot <;> rfl

/-- The type `Int` as it is written. -/
def writtenInt : WrittenType :=
  .named ⟨15, 3⟩ "Int" []

/-- The literal is refused where the generic argument is inferred, and typed in place where it is written. -/
theorem noValueArgument_either :
    let env : Environment := { package := fallbackPackage, function := fallbackPackage.signature 1 }
    let target := fallbackPackage.signature 0
    let param : Param := ⟨"fallback", .optional (.localGeneric 0 "T")⟩
    let ensuring := ensureGenericArguments analyseExpr 2 none target
    let start (written : List WrittenType) := AnalysisState.start env.function (callEither written) []
    let view := ({ env.calleeContext none target with args := [.int] } : GenericContext).instantiate
    (ensuring.runIn env (start [])).1 = .error (.noValueWithoutOptional ⟨10, 1⟩) ∧
      (ensuring.runIn env (start [writtenInt])).1 = .ok [.int] ∧
      view param.type = .optional (.boxed .int) ∧
      ChecksNoValue env (ensuring.runIn env (start [writtenInt])).2 target
        { span := ⟨20, 1⟩, written := [writtenInt], args := [0, 1] } view
        [(⟨"value", .localGeneric 0 "T"⟩, 0)] param 1 := by
  intro env target param ensuring start view
  let arguments (written : List WrittenType) : Arguments := { span := ⟨20, 1⟩, written, args := [0, 1] }
  let value : Param × Slot := (⟨"value", .localGeneric 0 "T"⟩, 0)
  have ha (written : List WrittenType) :
      (start written).body.arena.HoldsNodesOf (callEither written).arena := .refl _
  have harguments (written : List WrittenType) :
      ((start written).body.arena.get 2).kind.arguments? = some (arguments written) := rfl
  have hzip (written : List WrittenType) :
      target.params.zip (arguments written).args = [value] ++ (param, 1) :: [] := rfl
  have harg (written : List WrittenType) : ((start written).body.arena.get 1).IsNoValue := ⟨rfl, rfl⟩
  refine ⟨?_, ?_, rfl, ?_⟩
  · have htyped : ((([value].filter (·.1.type.mentionsLocalGenerics)).mapM
        (observeArgument analyseExpr)).runIn env (start [])).1.toOption.isSome = true := by decide +kernel
    rcases hrun : (([value].filter (·.1.type.mentionsLocalGenerics)).mapM
        (observeArgument analyseExpr)).runIn env (start []) with ⟨_ | observed, s₁⟩ <;> rw [hrun] at htyped
    · cases htyped
    have hrefused : ensuring.runIn env (start []) = (.error (.noValueWithoutOptional ⟨10, 1⟩), s₁) :=
      (noValueArgument_outcome (isFresh_callEither []).isForest (.root List.mem_cons_self) (ha [])
        (harguments []) (hzip []) (harg []) rfl).1 ⟨rfl, rfl, rfl⟩ observed s₁ hrun
    rw [hrefused]
  · rfl
  · exact ((noValueArgument_outcome (isFresh_callEither [writtenInt]).isForest (.root List.mem_cons_self)
      (ha [writtenInt]) (harguments [writtenInt]) (hzip [writtenInt]) (harg [writtenInt]) rfl).2
      (fun h => nomatch h.written_eq) _ _ rfl).2 [.int] rfl |>.2

/-- What the literal stands beside determines the generic argument, and the literal is refused all the same. -/
theorem not_acceptsNoValue_inferred :
    let env : Environment := { package := fallbackPackage, function := fallbackPackage.signature 1 }
    let target := fallbackPackage.signature 0
    let reported (written : List WrittenType) :=
      (fallbackPackage.analyse true [{ function := 1, body := callEither written }] []).2.map (·.error)
    ((shownFor env none target [(.localGeneric 0 "T", .int)] 0).foldl
      (Candidates.add env.declarations env.context) .unseen).result.toOption = some .int ∧
      env.declarations.isSubtype env.context .int .something = true ∧
      reported [] = [.noValueWithoutOptional ⟨10, 1⟩] ∧ reported [writtenInt] = [] := by
  decide +kernel

end Boxlang
