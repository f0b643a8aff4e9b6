import Boxlang.Proofs.Absorption.Beside
import Boxlang.Proofs.Absorption.Loss
import Boxlang.Proofs.Calls.Candidates
import Boxlang.Proofs.Elaboration.Call

/-!
# Calls without a type

A value without type meets every expectation, and nothing is done to it.  So the
arguments of a call follow each other as long as their own analysis does; the generic
arguments are inferred from the same types if none of those that they come from is lost.
-/

namespace Boxlang

open AnalysisState

theorem Declarations.isSubtype_error (d : Declarations) (c : GenericContext) (t : Ty) :
    d.isSubtype c .error t = true := by
  simp [isSubtype, isSubtypeErased, subtypeSteps, isSubtypeWithin, Ty.erased, Ty.isError]

@[simp]
theorem Expectation.compliance_error (e : Expectation) : e.compliance .error = .asIs .error := by
  simp [compliance, Ty.isError]

def Arguments.bare (arguments : Arguments) : Arguments :=
  { arguments with resolved := [] }

theorem Arguments.eq_of_bare_eq {a b : Arguments} (h : a.bare = b.bare) :
    b.span = a.span ∧ b.args = a.args ∧ b.written = a.written := by
  obtain ⟨hspan, hargs, hwritten, -⟩ := Arguments.mk.inj h
  exact ⟨hspan.symm, hargs.symm, hwritten.symm⟩

theorem ExprKind.arguments?_bare (k : ExprKind) : k.bare.arguments? = k.arguments?.map Arguments.bare := by
  cases k <;> rfl

theorem ExprKind.mem_operands_of_arguments? {k : ExprKind} {arguments : Arguments}
    (h : k.arguments? = some arguments) {c : Slot} (hc : c ∈ arguments.args) : c ∈ k.operands := by
  cases k <;> cases h
  · exact hc
  · exact List.mem_cons_of_mem _ hc

namespace Analysis

variable {env : Environment} {a₀ : Arena} {L P : Slot → Prop} {X : String → Prop}
  {s₁ s₂ : AnalysisState} {visit : Visit} {slot c : Slot} {t₁ t₂ : Ty} {target : Signature}
  {receiver? : Option Ty}

/-- What a typed expression leaves in both runs. -/
structure Visited (a₀ : Arena) (L P : Slot → Prop) (X : String → Prop) (slot : Slot)
    (t₁ : Ty) (s₁ : AnalysisState) (t₂ : Ty) (s₂ : AnalysisState) : Prop where
  beside : Beside a₀ L P X s₁ s₂
  answers : Answers (P slot) t₁ t₂
  /-- Only an expression that is too deep is left untyped. -/
  typed : t₁ ≠ .error → (s₁.body.arena.get slot).type?.isSome

def VisitFollows (env : Environment) (a₀ : Arena) (L P : Slot → Prop) (X : String → Prop)
    (visit : Visit) (slot : Slot) : Prop :=
  ∀ e? s₁ s₂, Beside a₀ L P X s₁ s₂ →
    Follows env s₁ s₂ (visit slot e?) (visit slot e?) (Visited a₀ L P X slot)

/-! ### Expectations -/

theorem follows_requireSubtype {lost : Prop} (ha : Answers lost t₁ t₂) (expected : Ty) (span₁ span₂ : Span) :
    Follows env s₁ s₂ (requireSubtype t₁ expected span₁) (requireSubtype t₂ expected span₂)
      fun _ s₁' _ s₂' => s₁ = s₁' ∧ s₂ = s₂' := by
  intro u s₁' hrun
  obtain ⟨hw, rfl⟩ := runIn_requireSubtype_ok hrun
  have hsub : env.declarations.isSubtype env.context t₂ expected = true := by
    by_cases hlost : lost
    · rw [ha.eq_error hlost]
      exact Declarations.isSubtype_error _ _ _
    · rw [ha.eq hlost]
      exact Declarations.isSubtype_iff.mpr hw
  refine ⟨(), s₂, ?_, rfl, rfl⟩
  unfold requireSubtype
  rw [runIn_bind, runIn_read]
  simp [hsub]

variable (hL : ∀ x, L x → x < a₀.size)
include hL

/-- A value without type is left as it is, others are converted in both runs. -/
theorem Visited.comply (hslot : L slot) (h : Visited a₀ L P X slot t₁ s₁ t₂ s₂) (e : Expectation) :
    Follows env s₁ s₂ (comply t₁ e slot) (comply t₂ e slot) fun u₁ s₁' u₂ s₂' =>
      Beside a₀ L P X s₁' s₂' ∧ Answers (P slot) u₁ u₂ := by
  by_cases hP : P slot
  · obtain rfl := h.answers.eq_error hP
    intro u s₁' hrun
    refine ⟨.error, s₂, by simp [Analysis.comply, carryOut], ?_, fun _ => rfl, fun hn => absurd hP hn⟩
    unfold Analysis.comply carryOut at hrun
    cases hc : e.compliance t₁ with
    | asIs v =>
        rw [hc] at hrun
        obtain ⟨-, rfl⟩ : v = u ∧ s₁ = s₁' := by simpa using hrun
        exact h.beside
    | convert op v =>
        rw [hc] at hrun
        dsimp only at hrun
        rw [runIn_insertConversion] at hrun
        obtain rfl := (Prod.mk.inj hrun).2
        refine h.beside.convert_first hL (hL slot hslot) hslot hP (h.typed ?_)
        rintro rfl
        simp at hc
    | refused =>
        rw [hc] at hrun
        dsimp only at hrun
        rw [runIn_bind, runIn_spanOf] at hrun
        simp at hrun
  · obtain rfl := h.answers.eq hP
    unfold Analysis.comply carryOut
    cases e.compliance t₂ with
    | asIs v => exact .pure ⟨h.beside, .same hP v⟩
    | convert op v =>
        intro u s₁' hrun
        dsimp only at hrun ⊢
        rw [runIn_insertConversion] at hrun
        obtain ⟨hu, rfl⟩ := Prod.mk.inj hrun
        obtain rfl := Except.ok.inj hu
        exact ⟨v, _, runIn_insertConversion _ _ _, h.beside.convert hL (hL slot hslot) hP, .same hP v⟩
    | refused =>
        intro u s₁' hrun
        dsimp only at hrun
        rw [runIn_bind, runIn_spanOf] at hrun
        simp at hrun

theorem VisitFollows.expect (hv : VisitFollows env a₀ L P X visit slot) (hslot : L slot)
    (h : Beside a₀ L P X s₁ s₂) (e : Expectation) :
    Follows env s₁ s₂ (expect visit e slot) (expect visit e slot) fun u₁ s₁' u₂ s₂' =>
      Beside a₀ L P X s₁' s₂' ∧ Answers (P slot) u₁ u₂ := by
  unfold Analysis.expect
  refine (hv (some e) s₁ s₂ h).bind fun t₁ s₁' t₂ s₂' _ hvisited => ?_
  have hspan : Follows env s₁' s₂' (spanOf slot) (spanOf slot) fun _ u₁ _ u₂ => s₁' = u₁ ∧ s₂' = u₂ := by
    intro span u₁ hrun
    rw [runIn_spanOf] at hrun
    exact ⟨_, s₂', runIn_spanOf slot, (Prod.mk.inj hrun).2, rfl⟩
  refine hspan.bind fun span₁ _ span₂ _ _ hs => ?_
  obtain ⟨rfl, rfl⟩ := hs
  refine (follows_requireSubtype hvisited.answers e.type span₁ span₂).bind fun _ _ _ _ _ hs => ?_
  obtain ⟨rfl, rfl⟩ := hs
  exact hvisited.comply hL hslot e

theorem follows_expectAll {α : Type} {l : List (α × Slot)} (type : α → Ty)
    (hv : ∀ q ∈ l, L q.2 ∧ VisitFollows env a₀ L P X visit q.2) (h : Beside a₀ L P X s₁ s₂) :
    Follows env s₁ s₂ (l.forM fun (x, arg) => discard (expectType visit (type x) arg))
      (l.forM fun (x, arg) => discard (expectType visit (type x) arg))
      fun _ s₁' _ s₂' => Beside a₀ L P X s₁' s₂' := by
  refine .forM (R := Beside a₀ L P X) (fun q hq s₁ s₂ hb => ?_) h
  obtain ⟨hslot, hvisit⟩ := hv q hq
  exact (hvisit.expect hL hslot hb { type := type q.1 }).discard fun _ _ _ _ hpost => hpost.1

omit hL in
/-- What was found out about a node is written down in both runs. -/
theorem follows_modifyKind (h : Beside a₀ L P X s₁ s₂) (hslot : slot < a₀.size) {f : ExprKind → ExprKind}
    (hf : ∀ k : ExprKind, (f k).bare = k.bare) :
    Follows env s₁ s₂ (modifyKind slot f) (modifyKind slot f) fun _ s₁' _ s₂' => Beside a₀ L P X s₁' s₂' := by
  intro u s₁' hrun
  rw [runIn_modifyKind] at hrun
  obtain rfl := (Prod.mk.inj hrun).2
  exact ⟨(), _, runIn_modifyKind _ _, h.modifyKind hslot (hf _) (hf _)⟩

/-! ### Arguments -/

omit hL in
/-- The arguments of a call are the same in both runs, but for what was inferred. -/
theorem follows_argumentsOf (hL : ∀ x, L x → x < a₀.size) (h : Beside a₀ L P X s₁ s₂) (hslot : L slot)
    (hP : ¬ P slot) (target : Signature) :
    Follows env s₁ s₂ (argumentsOf slot target) (argumentsOf slot target) fun arguments₁ s₁' arguments₂ s₂' =>
      s₁ = s₁' ∧ s₂ = s₂' ∧ arguments₁.bare = arguments₂.bare ∧
        (a₀.get slot).kind.arguments?.map Arguments.bare = some arguments₁.bare := by
  intro arguments s₁' hrun
  obtain ⟨hfound, rfl⟩ := runIn_argumentsOf_ok hrun
  -- The node is a call in the first run, so it is none of the conversions of the second.
  have hplain : ¬ (s₁'.body.arena.get slot).IsConversion := by
    rintro ⟨inner, op, hk⟩
    simp [hk, ExprKind.arguments?] at hfound
  have hbare (a : Arena) (ha : a.HoldsNodesOf a₀) (hn : ¬ (a.get slot).IsConversion) :
      (a.get slot).kind.arguments?.map Arguments.bare = (a₀.get slot).kind.arguments?.map Arguments.bare := by
    rcases ha.holds slot (hL slot hslot) with heq | ⟨-, hconv⟩
    · have hkind : (a.get slot).kind.bare = (a₀.get slot).kind.bare := congrArg Expr.kind heq
      rw [← ExprKind.arguments?_bare, hkind, ExprKind.arguments?_bare]
    · exact absurd hconv hn
  have h₁ := hbare _ h.holds₁ hplain
  have h₂ := hbare _ h.holds₂ (mt (h.conversions slot hslot hP) hplain)
  rw [hfound] at h₁
  rw [← h₁] at h₂
  obtain ⟨arguments₂, hfound₂, heq⟩ := Option.map_eq_some_iff.mp h₂
  refine ⟨arguments₂, s₂, ?_, rfl, rfl, heq.symm, h₁.symm⟩
  unfold argumentsOf
  rw [runIn_bind, runIn_node]
  dsimp only
  rw [hfound₂]
  rfl

omit hL in
/-- What a use of a function reports is reported in both runs. -/
theorem follows_checkUse (h : Beside a₀ L P X s₁ s₂) (target : Signature) (span : Span) :
    Follows env s₁ s₂ (checkUse target span) (checkUse target span) fun _ s₁' _ s₂' => Beside a₀ L P X s₁' s₂' := by
  obtain ⟨r, new, -, hr⟩ := exists_runIn_checkUse env target span
  intro u s₁' hrun
  rw [hr] at hrun
  obtain ⟨rfl, rfl⟩ := Prod.mk.inj hrun
  exact ⟨(), _, hr s₂, h.report new⟩

/-! ### Generic arguments -/

omit hL in
theorem follows_collectCandidates {arguments : Arguments}
    (hv : ∀ c ∈ arguments.args, VisitFollows env a₀ L P X visit c)
    (hinfers : ∀ q ∈ target.params.zip arguments.args, q.1.type.mentionsLocalGenerics = true → ¬ P q.2)
    (h : Beside a₀ L P X s₁ s₂) (c : GenericContext) :
    Follows env s₁ s₂ (collectCandidates visit c target arguments) (collectCandidates visit c target arguments)
      fun all₁ s₁' all₂ s₂' => all₁ = all₂ ∧ Beside a₀ L P X s₁' s₂' := by
  have hobserve : Follows env s₁ s₂ (observeArguments visit target arguments)
      (observeArguments visit target arguments)
      fun seen₁ s₁' seen₂ s₂' => seen₁ = seen₂ ∧ Beside a₀ L P X s₁' s₂' := by
    refine .mapM (R := Beside a₀ L P X) (fun q hq s₁ s₂ hb => ?_) h
    obtain ⟨hmem, hmentions⟩ := List.mem_filter.mp hq
    refine (hv q.2 (List.of_mem_zip hmem).2 none s₁ s₂ hb).bind fun t₁ _ t₂ _ _ hvisited => ?_
    obtain rfl := hvisited.answers.eq (hinfers q hmem hmentions)
    exact .pure ⟨rfl, hvisited.beside⟩
  intro all s₁' hrun
  rw [runIn_collectCandidates] at hrun
  obtain ⟨seen, hseen, rfl⟩ := runIn_map_ok.mp hrun
  obtain ⟨seen₂, s₂', hseen₂, rfl, hb⟩ := hobserve seen s₁' hseen
  refine ⟨_, s₂', ?_, rfl, hb⟩
  rw [runIn_collectCandidates]
  exact runIn_map_ok.mpr ⟨seen, hseen₂, rfl⟩

omit hL in
theorem checkGenericArguments_bare (arguments : Arguments) :
    checkGenericArguments target receiver? arguments.bare = checkGenericArguments target receiver? arguments := rfl

omit hL in
theorem inferGenericArguments_bare (arguments : Arguments) :
    inferGenericArguments visit target receiver? arguments.bare =
      inferGenericArguments visit target receiver? arguments := rfl

omit hL in
theorem follows_inferGenericArguments {arguments : Arguments}
    (hv : ∀ c ∈ arguments.args, VisitFollows env a₀ L P X visit c)
    (hinfers : ∀ q ∈ target.params.zip arguments.args, q.1.type.mentionsLocalGenerics = true → ¬ P q.2)
    (h : Beside a₀ L P X s₁ s₂) :
    Follows env s₁ s₂ (inferGenericArguments visit target receiver? arguments)
      (inferGenericArguments visit target receiver? arguments)
      fun types₁ s₁' types₂ s₂' => types₁ = types₂ ∧ Beside a₀ L P X s₁' s₂' := by
  unfold inferGenericArguments
  refine IsSteady.read.follows.bind fun env' _ _ _ _ hs => ?_
  obtain ⟨rfl, rfl, rfl⟩ := hs
  refine (follows_collectCandidates hv hinfers h _).bind fun all _ _ _ _ hall => ?_
  obtain ⟨rfl, hb⟩ := hall
  refine (IsSteady.mapM fun q : GenericParam × Candidates => IsSteady.inferredArgument _ target _ q.1 q.2).follows.mono ?_
  rintro types _ _ _ ⟨rfl, rfl, rfl⟩
  exact ⟨rfl, hb⟩

/-- The generic arguments of a call are the same in both runs, which keep them at its node. -/
theorem follows_ensureGenericArguments (hslot : L slot) (hP : ¬ P slot)
    (hv : ∀ c ∈ (a₀.get slot).kind.operands, L c ∧ VisitFollows env a₀ L P X visit c)
    (hinfers : ∀ arguments, (a₀.get slot).kind.arguments? = some arguments → target.InfersWithout P arguments)
    (h : Beside a₀ L P X s₁ s₂) :
    Follows env s₁ s₂ (ensureGenericArguments visit slot receiver? target)
      (ensureGenericArguments visit slot receiver? target)
      fun types₁ s₁' types₂ s₂' => types₁ = types₂ ∧ Beside a₀ L P X s₁' s₂' := by
  unfold ensureGenericArguments
  refine (follows_argumentsOf hL h hslot hP target).bind fun arguments₁ _ arguments₂ _ _ hfollow => ?_
  obtain ⟨rfl, rfl, hbare, hargs⟩ := hfollow
  have hkeep (types : List Ty) (u₁ u₂ : AnalysisState) (hb : Beside a₀ L P X u₁ u₂) :
      let keep : Analysis (List Ty) := do
        modifyKind slot (·.withGenericArguments types)
        return types
      Follows env u₁ u₂ keep keep fun types₁ s₁' types₂ s₂' => types₁ = types₂ ∧ Beside a₀ L P X s₁' s₂' :=
    (follows_modifyKind hb (hL slot hslot) fun k => k.bare_withGenericArguments types).bind
      fun _ _ _ _ _ hb' => .pure ⟨rfl, hb'⟩
  dsimp only
  rw [(Arguments.eq_of_bare_eq hbare).2.2]
  split
  · have hsame : checkGenericArguments target receiver? arguments₂ =
        checkGenericArguments target receiver? arguments₁ := by
      rw [← checkGenericArguments_bare arguments₂, ← hbare, checkGenericArguments_bare]
    rw [hsame]
    refine (IsSteady.checkGenericArguments target receiver? arguments₁).follows.bind fun types _ _ _ _ hs => ?_
    obtain ⟨rfl, rfl, rfl⟩ := hs
    exact hkeep types _ _ h
  next hnone =>
    split
    next hgeneric =>
      have hsame : inferGenericArguments visit target receiver? arguments₂ =
          inferGenericArguments visit target receiver? arguments₁ := by
        rw [← inferGenericArguments_bare arguments₂, ← hbare, inferGenericArguments_bare]
      rw [hsame]
      obtain ⟨arguments, hfound, heq⟩ := Option.map_eq_some_iff.mp hargs
      obtain ⟨-, hargsEq, hwritten⟩ := Arguments.eq_of_bare_eq heq
      have hlost := hinfers arguments hfound (by simpa [hwritten] using hnone) hgeneric
      rw [← hargsEq] at hlost
      refine (follows_inferGenericArguments (fun c hc => (hv c ?_).2) hlost h).bind fun types _ _ _ _ hs => ?_
      · exact ExprKind.mem_operands_of_arguments? hfound (hargsEq ▸ hc)
      obtain ⟨rfl, hb⟩ := hs
      exact hkeep types _ _ hb
    · refine (IsSteady.pure []).follows.bind fun types _ _ _ _ hs => ?_
      obtain ⟨rfl, rfl, rfl⟩ := hs
      exact hkeep types _ _ h

theorem follows_analyseFunctionCall (hslot : L slot) (hP : ¬ P slot)
    (hv : ∀ c ∈ (a₀.get slot).kind.operands, L c ∧ VisitFollows env a₀ L P X visit c)
    (hinfers : ∀ arguments, (a₀.get slot).kind.arguments? = some arguments → target.InfersWithout P arguments)
    (h : Beside a₀ L P X s₁ s₂) :
    Follows env s₁ s₂ (analyseFunctionCall visit slot receiver? target)
      (analyseFunctionCall visit slot receiver? target)
      fun t₁ s₁' t₂ s₂' => t₁ = t₂ ∧ Beside a₀ L P X s₁' s₂' := by
  unfold analyseFunctionCall
  refine (follows_argumentsOf hL h hslot hP target).bind fun arguments₁ _ arguments₂ _ _ hfollow => ?_
  obtain ⟨rfl, rfl, hbare, hargs⟩ := hfollow
  obtain ⟨arguments, hfound, heq⟩ := Option.map_eq_some_iff.mp hargs
  obtain ⟨hspan, hargs₂, -⟩ := Arguments.eq_of_bare_eq hbare
  have hargs₁ := (Arguments.eq_of_bare_eq heq).2.1
  dsimp only
  rw [hspan, hargs₂]
  refine (follows_checkUse h target arguments₁.span).bind fun _ _ _ _ _ hb => ?_
  split
  · exact .throw_bind _
  · refine (follows_ensureGenericArguments hL hslot hP hv hinfers hb).bind fun generics _ _ _ _ hg => ?_
    obtain ⟨rfl, hb'⟩ := hg
    refine IsSteady.read.follows.bind fun env' _ _ _ _ hs => ?_
    obtain ⟨rfl, rfl, rfl⟩ := hs
    let c : GenericContext := { env'.calleeContext receiver? target with args := generics }
    refine (follows_expectAll hL (fun param : Param => c.instantiate param.type) (fun q hq => ?_) hb').bind
      fun _ _ _ _ _ hb'' => .pure ⟨rfl, hb''⟩
    exact hv q.2 (ExprKind.mem_operands_of_arguments? hfound (hargs₁ ▸ (List.of_mem_zip hq).2))

end Analysis

end Boxlang
