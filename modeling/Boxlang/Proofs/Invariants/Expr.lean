import Boxlang.Analysis.Expr
import Boxlang.Proofs.Invariants.Call

/-!
# Invariants through the nodes of an expression

Where visits of its operands keep an invariant, so does the analysis of a node,
whatever its kind.  Names and closures are left to those who know what the invariant
says of the scope.
-/

namespace Boxlang

namespace Analysis

variable {env : Environment} {J F : AnalysisState → Prop} {V P : Ty → Prop}
  {G : Slot → Conversion → Prop} {visit : Visit} {slot : Slot} {operands : List Slot}
  (hT : TypeInvariant env V P) (hG : ConversionInvariant env P G)
  (h : Stable env J F V P G visit slot operands)
include hT hG h

theorem ensures_analyseCall (function : Ident) :
    Ensures env J F (analyseCall visit slot function) P := by
  unfold analyseCall
  refine Ensures.read.bind fun _ henv => ?_
  obtain rfl := henv
  dsimp only
  split
  · exact .throw (fun _ => h.fails) _
  next id hid =>
    refine (Ensures.modify fun s hs => h.withTarget id hs).bind fun _ _ => ?_
    exact ensures_analyseFunctionCall h hT hG (by simp) (Package.lt_of_function? hid)

theorem ensures_callMethod (method : Ident) {held : Ty} (hP : P held) : Ensures env J F (do
    let env ← read
    let callee := env.context.upperBound held.erased
    match env.package.method? callee method.name with
    | none => throw (.unresolved .method (callee.text ++ "." ++ method.name) method.span)
    | some id =>
      modifyKind slot (·.withTarget id)
      analyseFunctionCall visit slot (some callee) (env.package.signature id)) P := by
  refine Ensures.read.bind fun _ henv => ?_
  obtain rfl := henv
  dsimp only
  split
  · exact .throw (fun _ => h.fails) _
  next id hid =>
    refine (Ensures.modify fun s hs => h.withTarget id hs).bind fun _ _ => ?_
    exact ensures_analyseFunctionCall h hT hG (by simpa using hT.receiver hP hid)
      (Package.lt_of_method? hid)

theorem ensures_analyseMethodCall {receiver : Slot} (hreceiver : receiver ∈ operands)
    (method : Ident) : Ensures env J F (analyseMethodCall visit slot receiver method) P := by
  have hheld := ensures_preferSimple hT hG h.fails (h.visits receiver hreceiver)
  have hrun := hheld.bind fun held hP => ensures_callMethod hT hG h method hP
  rw [bind_assoc] at hrun
  exact hrun

/-- Arguments are made to meet the parameters of the callable. -/
theorem ensures_analyseInvoke {callee : Slot} {args : List Slot} (hcallee : callee ∈ operands)
    (hargs : args ⊆ operands) (span : Span) :
    Ensures env J F (analyseInvoke visit callee args span) P := by
  unfold analyseInvoke
  refine ((h.visits callee hcallee).ensures (by simp)).bind fun t ht => ?_
  split
  next herror =>
    have heq : t = .error := by simpa [Ty.isError] using herror
    exact .pure (heq ▸ ht)
  next =>
    split
    next params ret hcallable =>
      obtain ⟨hparams, hret⟩ := hT.callable ht hcallable
      have hinvoke := ensures_expectAll h hT hG id (l := params.zip args)
        (fun q hq => ⟨hparams _ (List.of_mem_zip hq).1, hargs (List.of_mem_zip hq).2⟩) hret
      dsimp only
      split
      · exact (Ensures.throw (fun _ => h.fails) _).bind fun _ (_ : True) => hinvoke
      · exact hinvoke
    next => exact (ensures_spanOf callee).bind fun _ _ => .throw (fun _ => h.fails) _

omit hG in
theorem ensures_analyseUnwrap {inner : Slot} (hinner : inner ∈ operands)
    (hunwrap : G inner .unwrapOptional ∧ G inner .unwrapBoxOptional) (span : Span) :
    Ensures env J F (analyseUnwrap visit inner span) P where
  ok {s u s'} hs hrun := by
    unfold analyseUnwrap at hrun
    obtain ⟨t, s₁, hvisit, hrest⟩ := runIn_bind_ok.mp hrun
    have ht := (h.visits inner hinner).ok hs (by simp) hvisit
    split at hrest
    next herror =>
      cases hrest
      have heq : t = .error := by simpa [Ty.isError] using herror
      exact ⟨ht.holds, heq ▸ ht.type⟩
    next =>
      split at hrest
      next => cases hrest
      next value hvalue =>
        obtain ⟨hP, hbox⟩ := hT.value ht.type hvalue
        split at hrest
        · cases hrest
          exact ⟨ht.convert _ _ hunwrap.1 True.intro hP, hP⟩
        · cases hrest
          exact ⟨ht.convert _ _ hunwrap.2 True.intro hbox, hbox⟩
        · cases hrest
          exact ⟨ht.convert _ _ hunwrap.2 True.intro hbox, hbox⟩
  error {s e s'} hs hrun := by
    unfold analyseUnwrap at hrun
    rw [runIn_bind] at hrun
    cases hvisit : (visit inner none).runIn env s with
    | mk result s₁ =>
      rw [hvisit] at hrun
      cases result with
      | error e' => exact (Prod.mk.inj hrun).2 ▸ (h.visits inner hinner).error hs (by simp) hvisit
      | ok t =>
        dsimp only at hrun
        split at hrun
        next => cases hrun
        next =>
          split at hrun
          next =>
            cases hrun
            exact h.fails ((h.visits inner hinner).ok hs (by simp) hvisit).holds
          next => split at hrun <;> cases hrun

variable {e? : Option Expectation} (he : ∀ e ∈ e?, P e.type)
include he

omit hG in
theorem ensures_noValueType (span : Span) : Ensures env J F (noValueType e? span) P := by
  unfold noValueType
  split
  next => exact .throw (fun _ => h.fails) _
  next e =>
    have hP : P e.type := he e rfl
    split
    next hopt => exact .pure (hT.heldIn _ hP hopt)
    next herror => exact .pure (hT.error hP herror)
    next => exact .throw (fun _ => h.fails) _

omit hG in
theorem ensures_formType {form : TypeForm}
    (hwritten : ∀ w, form = .explicit w → w.Denotes env P) (span : Span) :
    Ensures env J F (formType form e? span) P := by
  cases form with
  | explicit written => exact ensures_resolveType h.fails (hwritten written rfl)
  | inferred =>
    unfold formType
    dsimp only
    split
    next t ht =>
      obtain ⟨u, hu, hut⟩ := Option.map_eq_some_iff.mp ht
      obtain ⟨e, hmem, rfl⟩ := Option.map_eq_some_iff.mp hu
      exact .pure (hT.denoted (he e hmem) hut)
    next => exact .throw (fun _ => h.fails) _
  | this =>
    unfold formType
    refine Ensures.read.bind fun _ henv => ?_
    obtain rfl := henv
    split
    next t ht => exact .pure (hT.owner ht)
    next => exact .throw (fun _ => h.fails) _

omit hG in
theorem ensures_typeExpr {form : TypeForm}
    (hwritten : ∀ w, form = .explicit w → w.Denotes env P) (span : Span) :
    Ensures env J F (do
      let t ← formType form e? span
      validateMetability t span
      return .typeValue t) P := by
  have hmeta (t : Ty) : Ensures env J F (validateMetability t span) fun _ => t.unboxed ≠ .nothing := by
    unfold validateMetability
    by_cases hnothing : t.unboxed = .nothing
    · rw [hnothing]
      exact .throw (fun _ => h.fails) _
    · split
      case h_7 => exact .pure hnothing
      all_goals exact .throw (fun _ => h.fails) _
  refine (ensures_formType hT h he hwritten span).bind fun t ht => ?_
  exact (hmeta t).bind fun _ hne => .pure (hT.typeValue ht hne)

theorem ensures_nodeType {e : Expr} (hoperands : e.kind.operands ⊆ operands)
    (hwritten : ∀ w, e.kind = .typeExpr (.explicit w) → w.Denotes env P)
    (hlocal : ∀ name id?, e.kind = .localRef name id? →
      Ensures env J F (analyseLocal slot name) P)
    (hclosure : ∀ literal, e.kind = .closure literal →
      Ensures env J F (analyseClosure visit slot literal) P)
    (hunwrap : ∀ inner, e.kind = .unwrap inner →
      G inner .unwrapOptional ∧ G inner .unwrapBoxOptional) :
    Ensures env J F (nodeType visit slot e e?) P := by
  have hliteral {t : Ty} (ht : t ∈ [Ty.int, .real, .bool, .string, .symbol]) :
      Ensures env J F (pure t) P := .pure (hT.literal t ht)
  unfold nodeType
  cases hkind : e.kind with
  | int _ => exact hliteral (by simp)
  | real _ => exact hliteral (by simp)
  | bool _ => exact hliteral (by simp)
  | string _ => exact hliteral (by simp)
  | symbol _ => exact hliteral (by simp)
  | noValue => exact ensures_noValueType hT h he _
  | localRef name id? => exact hlocal name id? hkind
  | call function _ _ => exact ensures_analyseCall hT hG h function
  | methodCall receiver method arguments _ =>
    exact ensures_analyseMethodCall hT hG h
      (hoperands (by simp [hkind, ExprKind.operands])) method
  | invoke callee args =>
    rw [hkind] at hoperands
    exact ensures_analyseInvoke hT hG h (hoperands List.mem_cons_self)
      (fun c hc => hoperands (List.mem_cons_of_mem callee hc)) _
  | closure literal => exact hclosure literal hkind
  | typeExpr form =>
    exact ensures_typeExpr hT h he (fun w hw => hwritten w (hw ▸ hkind)) _
  | unwrap inner =>
    exact ensures_analyseUnwrap hT h (hoperands (by simp [hkind, ExprKind.operands]))
      (hunwrap inner hkind) _
  | conversion inner op =>
    exact (h.visits inner (hoperands (by simp [hkind, ExprKind.operands]))).ensures he

omit hT hG h he in
theorem visits_analyseExpr
    (hwithin : ∀ {s}, J s → Visits env J F P G (analyseExprWithin s.body.arena.size) slot) :
    Visits env J F P G analyseExpr slot where
  ok hs he hrun := (hwithin hs).ok hs he hrun
  error hs he hrun := (hwithin hs).error hs he hrun

end Analysis

end Boxlang
