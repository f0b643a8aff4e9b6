import Boxlang.Proofs.Absorption.Call

/-!
# Nodes without a type

One lemma for each kind of node: the node follows in the second run if its operands do.
A name, an unwrapping and an invocation may lose their types; calls and closures keep
theirs, whatever becomes of their operands.
-/

namespace Boxlang

open AnalysisState

namespace Analysis

variable {env : Environment} {a₀ : Arena} {slot : Slot} {L P : Slot → Prop} {X : String → Prop}
  {s s' s₁ s₂ : AnalysisState} {visit : Visit} {t : Ty} {e? : Option Expectation}

/-! ### Nodes without their annotations -/

theorem analyseClosure_bare (literal : Closure) :
    analyseClosure visit slot { literal with params := literal.params.map ClosureParam.bare, captures := [] } =
      analyseClosure visit slot literal := by
  simp only [analyseClosure, List.mapM_map, List.zip_map_left, Function.comp_def, ClosureParam.bare, Prod.map]
  rfl

theorem nodeType_bare (slot : Slot) (e : Expr) (e? : Option Expectation) :
    nodeType visit slot e.bare e? = nodeType visit slot e e? := by
  unfold nodeType
  rw [Expr.kind_bare]
  cases e.kind with
  | closure literal => exact analyseClosure_bare literal
  | _ => rfl

theorem nodeType_eq_of_bare_eq {e e' : Expr} (h : e.bare = e'.bare) :
    nodeType visit slot e e? = nodeType visit slot e' e? := by
  rw [← nodeType_bare, h, nodeType_bare]

/-! ### One lemma for each kind of node -/

/-- A node that keeps its type answers alike in both runs. -/
theorem Follows.kept {step : Analysis Ty} {lost : Prop} (hn : ¬ lost)
    (hstep : Follows env s₁ s₂ step step fun t₁ s₁' t₂ s₂' => t₁ = t₂ ∧ Beside a₀ L P X s₁' s₂') :
    Follows env s₁ s₂ step step fun t₁ s₁' t₂ s₂' => Beside a₀ L P X s₁' s₂' ∧ Answers lost t₁ t₂ :=
  hstep.mono fun t₁ _ _ _ hpost => ⟨hpost.2, hpost.1 ▸ .same hn t₁⟩

theorem IsSteady.follows_beside {step : Analysis Ty} (hstep : IsSteady env step) (h : Beside a₀ L P X s₁ s₂) :
    Follows env s₁ s₂ step step fun t₁ s₁' t₂ s₂' => t₁ = t₂ ∧ Beside a₀ L P X s₁' s₂' :=
  hstep.follows.mono fun _ _ _ _ hs => ⟨hs.1, hs.2.1 ▸ hs.2.2 ▸ h⟩

theorem follows_analyseLocal (h : Beside a₀ L P X s₁ s₂) (hslot : slot < a₀.size) (name : Ident) :
    Follows env s₁ s₂ (analyseLocal slot name) (analyseLocal slot name) fun t₁ s₁' t₂ s₂' =>
      Beside a₀ L P X s₁' s₂' ∧ Answers (X name.name) t₁ t₂ := by
  intro t s₁' hrun
  obtain ⟨b, hb, hi, rfl, rfl⟩ := runIn_analyseLocal_ok.mp hrun
  have hread : s₁.reading name.name = some (b.type, true) := by simp [reading, hb, hi]
  obtain ⟨t₂, hread₂, ha⟩ : ∃ t₂, s₂.reading name.name = some (t₂, true) ∧ Answers (X name.name) b.type t₂ := by
    by_cases hX : X name.name
    · exact ⟨.error, by rw [h.reading_lost _ hX, hread]; rfl, fun _ => rfl, fun hn => absurd hX hn⟩
    · exact ⟨b.type, by rw [h.reading_kept _ hX, hread], .same hX _⟩
  obtain ⟨b₂, hb₂, heq⟩ := Option.map_eq_some_iff.mp hread₂
  obtain ⟨rfl, hi₂⟩ := Prod.mk.inj heq
  refine ⟨_, _, runIn_analyseLocal_ok.mpr ⟨b₂, hb₂, hi₂, rfl, rfl⟩, ?_, ha⟩
  exact (h.resolve name.name).modifyKind hslot (ExprKind.bare_withVariable _ b.id)
    (ExprKind.bare_withVariable _ b₂.id)

section Nodes

variable (hL : ∀ x, L x → x < a₀.size) (hslot : L slot)
include hL hslot

theorem follows_analyseCall (hP : ¬ P slot)
    (hv : ∀ c ∈ (a₀.get slot).kind.operands, L c ∧ VisitFollows env a₀ L P X visit c) {function : Ident}
    (hinfers : ∀ id arguments, env.package.function? function.name = some id →
      (a₀.get slot).kind.arguments? = some arguments → (env.package.signature id).InfersWithout P arguments)
    (h : Beside a₀ L P X s₁ s₂) :
    Follows env s₁ s₂ (analyseCall visit slot function) (analyseCall visit slot function)
      fun t₁ s₁' t₂ s₂' => t₁ = t₂ ∧ Beside a₀ L P X s₁' s₂' := by
  unfold analyseCall
  refine IsSteady.read.follows.bind fun env' _ _ _ hrun hs => ?_
  obtain ⟨rfl, rfl, rfl⟩ := hs
  obtain rfl : env = env' := by simpa using hrun
  dsimp only
  split
  · exact .throw _
  next id hid =>
    refine (follows_modifyKind h (hL slot hslot) fun k => k.bare_withTarget id).bind fun _ _ _ _ _ hb => ?_
    exact follows_analyseFunctionCall hL hslot hP hv (hinfers id · hid ·) hb

theorem follows_analyseMethodCall (hP : ¬ P slot)
    (hv : ∀ c ∈ (a₀.get slot).kind.operands, L c ∧ VisitFollows env a₀ L P X visit c) {receiver : Slot}
    {method : Ident} (hmem : receiver ∈ (a₀.get slot).kind.operands) (hreceiver : ¬ P receiver)
    (hinfers : ∀ t id arguments, env.package.method? t method.name = some id →
      (a₀.get slot).kind.arguments? = some arguments → (env.package.signature id).InfersWithout P arguments)
    (h : Beside a₀ L P X s₁ s₂) :
    Follows env s₁ s₂ (analyseMethodCall visit slot receiver method)
      (analyseMethodCall visit slot receiver method)
      fun t₁ s₁' t₂ s₂' => t₁ = t₂ ∧ Beside a₀ L P X s₁' s₂' := by
  unfold analyseMethodCall
  obtain ⟨hLr, hvisit⟩ := hv receiver hmem
  refine (hvisit none s₁ s₂ h).bind fun actual _ actual₂ _ _ hvisited => ?_
  obtain rfl := hvisited.answers.eq hreceiver
  refine (hvisited.comply hL hLr _).bind fun held _ held₂ _ _ hheld => ?_
  obtain ⟨hb, hanswer⟩ := hheld
  obtain rfl := hanswer.eq hreceiver
  refine IsSteady.read.follows.bind fun env' _ _ _ hrun hs => ?_
  obtain ⟨rfl, rfl, rfl⟩ := hs
  obtain rfl : env = env' := by simpa using hrun
  dsimp only
  split
  · exact .throw _
  next id hid =>
    refine (follows_modifyKind hb (hL slot hslot) fun k => k.bare_withTarget id).bind fun _ _ _ _ _ hb' => ?_
    exact follows_analyseFunctionCall hL hslot hP hv (hinfers _ id · hid ·) hb'

omit hslot in
theorem follows_analyseInvoke {callee : Slot} {args : List Slot} {span : Span}
    (hcallee : VisitFollows env a₀ L P X visit callee)
    (hargs : ¬ P callee → ∀ arg ∈ args, L arg ∧ VisitFollows env a₀ L P X visit arg)
    (hin : a₀.InRange) (hlt : ∀ arg ∈ args, arg < a₀.size)
    (hapart : P callee → ∀ x, L x → ∀ arg ∈ args, ¬ a₀.Reaches arg x)
    (hw : ∀ W, a₀.IsRegion W → VisitWalks a₀ W env visit) (h : Beside a₀ L P X s₁ s₂) :
    Follows env s₁ s₂ (analyseInvoke visit callee args span) (analyseInvoke visit callee args span)
      fun t₁ s₁' t₂ s₂' => Beside a₀ L P X s₁' s₂' ∧ Answers (P callee) t₁ t₂ := by
  rw [analyseInvoke_eq]
  refine (hcallee none s₁ s₂ h).bind fun t₁ s₁' t₂ s₂' _ hvisited => ?_
  by_cases hP : P callee
  · obtain rfl := hvisited.answers.eq_error hP
    intro t s₁'' hrun
    -- Only the first run goes on with the arguments.
    let V : Slot → Prop := fun x => ∃ arg ∈ args, a₀.Reaches arg x
    have hV : a₀.IsRegion V := Arena.isRegion_reaches_any hin hlt
    have hwalk := (walks_invokeAs hV.lt (hw V hV) callee (fun arg harg => ⟨arg, harg, .refl a₀ arg⟩) span t₁
      s₁' hvisited.beside.holds₁).progress
    rw [hrun] at hwalk
    refine ⟨.error, s₂', rfl, hvisited.beside.progress_first hL hV.lt ?_ hwalk, fun _ => rfl,
      fun hn => absurd hP hn⟩
    rintro x hx ⟨arg, harg, hreach⟩
    exact hapart hP x hx arg harg hreach
  · obtain rfl := hvisited.answers.eq hP
    unfold invokeAs
    split
    · exact .pure ⟨hvisited.beside, .same hP _⟩
    · split
      next params ret _ =>
        dsimp only
        split
        · exact .throw_bind _
        · refine (follows_expectAll hL (fun param : Ty => param) (fun q hq => ?_) hvisited.beside).bind
            fun _ _ _ _ _ hb => .pure ⟨hb, .same hP _⟩
          exact hargs hP q.2 (List.of_mem_zip hq).2
      next =>
        intro t s₁'' hrun
        rw [runIn_bind, runIn_spanOf] at hrun
        simp at hrun

omit hslot in
theorem follows_analyseUnwrap {inner : Slot} {span : Span} (hLi : L inner)
    (hinner : VisitFollows env a₀ L P X visit inner) (h : Beside a₀ L P X s₁ s₂) :
    Follows env s₁ s₂ (analyseUnwrap visit inner span) (analyseUnwrap visit inner span)
      fun t₁ s₁' t₂ s₂' => Beside a₀ L P X s₁' s₂' ∧ Answers (P inner) t₁ t₂ := by
  unfold analyseUnwrap
  refine (hinner none s₁ s₂ h).bind fun t₁ s₁' t₂ s₂' _ hvisited => ?_
  by_cases hP : P inner
  · obtain rfl := hvisited.answers.eq_error hP
    intro t s₁'' hrun
    refine ⟨.error, s₂', rfl, ?_, fun _ => rfl, fun hn => absurd hP hn⟩
    split at hrun
    · obtain rfl := (Prod.mk.inj hrun).2
      exact hvisited.beside
    next hne =>
      have hsome := hvisited.typed fun heq => hne (by simp [heq, Ty.isError])
      split at hrun
      · simp at hrun
      · split at hrun
        all_goals
          rw [runIn_insertConversion] at hrun
          obtain rfl := (Prod.mk.inj hrun).2
          exact hvisited.beside.convert_first hL (hL inner hLi) hLi hP hsome
  · obtain rfl := hvisited.answers.eq hP
    have hconvert (op : Conversion) (u : Ty) : Follows env s₁' s₂' (insertConversion inner op u)
        (insertConversion inner op u) fun t₁ s₁' t₂ s₂' => Beside a₀ L P X s₁' s₂' ∧ Answers (P inner) t₁ t₂ := by
      intro t s₁'' hrun
      rw [runIn_insertConversion] at hrun
      obtain ⟨ht, rfl⟩ := Prod.mk.inj hrun
      obtain rfl := Except.ok.inj ht
      exact ⟨u, _, runIn_insertConversion _ _ _, hvisited.beside.convert hL (hL inner hLi) hP, .same hP u⟩
    split
    · exact .pure ⟨hvisited.beside, .same hP _⟩
    · split
      · exact .throw _
      · split
        all_goals exact hconvert _ _

/-- A closure has the types that are written, whatever it captures. -/
theorem follows_analyseClosure {literal : Closure}
    (hkind : (a₀.get slot).kind = .closure literal) (hin : a₀.InRange) (hLb : L literal.body)
    (hbody : VisitFollows env a₀ L P (fun name => X name ∧ name ∉ literal.params.map (·.name.name)) visit
      literal.body)
    (hw : ∀ W, a₀.IsRegion W → VisitWalks a₀ W env visit) (h : Beside a₀ L P X s₁ s₂) :
    Follows env s₁ s₂ (analyseClosure visit slot literal) (analyseClosure visit slot literal)
      fun t₁ s₁' t₂ s₂' => t₁ = t₂ ∧ Beside a₀ L P X s₁' s₂' := by
  rw [analyseClosure_eq]
  refine (IsSteady.mapM fun p : ClosureParam => .resolveType p.type).follows.bind
    fun params _ _ _ hrun hs => ?_
  obtain ⟨rfl, rfl, rfl⟩ := hs
  have hlen := length_of_runIn_mapM_ok hrun
  refine (IsSteady.resolveType literal.ret).follows.bind fun ret _ _ _ _ hs => ?_
  obtain ⟨rfl, rfl, rfl⟩ := hs
  have hnames := Closure.map_fst_named hlen
  have hentered := h.enter (literal.named params)
    (Y := fun name => X name ∧ name ∉ literal.params.map (·.name.name)) (by simp [hnames])
  -- The runs of the body change the scopes around it by no more than what closures capture.
  let W : Slot → Prop := (· < a₀.size)
  have hregion : a₀.IsRegion W := hin.isRegion
  have hwalk (u : AnalysisState) (hu : u.body.arena.HoldsNodesOf a₀) :=
    (walks_expectType hregion.lt (hw W hregion) (hL _ hLb) ret u hu).progress
  intro t s₁' hrun
  obtain ⟨u, s₃, hbodyRun, rfl, rfl⟩ := runIn_closureAs_ok.mp hrun
  obtain ⟨u₂, t₃, hbodyRun₂, hb, -⟩ := hbody.expect hL hLb hentered { type := ret } u s₃ hbodyRun
  refine ⟨_, _, runIn_closureAs_ok.mpr ⟨u₂, t₃, hbodyRun₂, rfl, rfl⟩, rfl, ?_⟩
  have hp₁ := hwalk _ hentered.holds₁
  have hp₂ := hwalk _ hentered.holds₂
  rw [hbodyRun] at hp₁
  rw [show (expectType visit ret literal.body).runIn env (s₂.enter (literal.named params)) = (.ok u₂, t₃)
    from hbodyRun₂] at hp₂
  have hleft : Beside a₀ L P X s₃.leave t₃.leave := h.leave hb hp₁ hp₂
  have hids (start : Nat) : (List.range' start (literal.params.zip params).length).length =
      literal.params.length := by simp [hlen]
  exact hleft.modifyKind (hL slot hslot)
    (bare_withClosureVariables_of_holds hleft.holds₁ (hL slot hslot) (congrArg ExprKind.bare hkind) (hids _))
    (bare_withClosureVariables_of_holds hleft.holds₂ (hL slot hslot) (congrArg ExprKind.bare hkind) (hids _))

end Nodes

end Analysis

end Boxlang
