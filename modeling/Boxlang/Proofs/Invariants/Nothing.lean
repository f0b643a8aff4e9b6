import Boxlang.Proofs.Invariants.Body
import Boxlang.Proofs.Types.Nothing

/-!
# Analysis computes nothing only as a result

In a package without the error type, where nothing is written only as a result,
expressions have types in which nothing occurs only as a result.  What stands for a
generic variable is not nothing itself.
-/

namespace Boxlang

/-- A type of values: it mentions no error, and nothing occurs in it only as a result. -/
structure Ty.IsOfValues (t : Ty) : Prop where
  mentionsError_eq : t.mentionsError = false
  onlyReturns : t.onlyReturnsNothing = true

/-- A type that expressions may have: that of a value or nothing. -/
structure Ty.IsOfResults (t : Ty) : Prop where
  mentionsError_eq : t.mentionsError = false
  isResult : t.isResult = true

namespace Ty

variable {t u : Ty}

theorem IsOfValues.isOfResults (h : t.IsOfValues) : t.IsOfResults :=
  ⟨h.mentionsError_eq, isResult_of_onlyReturnsNothing h.onlyReturns⟩

theorem IsOfResults.isOfValues (h : t.IsOfResults) (hne : t.unboxed ≠ .nothing) : t.IsOfValues :=
  ⟨h.mentionsError_eq, (isResult_iff.mp h.isResult).resolve_left hne⟩

theorem isOfValues_unboxed : t.unboxed.IsOfValues ↔ t.IsOfValues := by
  constructor
  · exact fun h => ⟨by simpa using h.mentionsError_eq, by simpa using h.onlyReturns⟩
  · exact fun h => ⟨by simpa using h.mentionsError_eq, by simpa using h.onlyReturns⟩

theorem IsOfResults.of_unboxed (h : t.IsOfResults) (hu : t.unboxed = u) (hne : u ≠ .nothing) :
    u.IsOfValues :=
  hu ▸ isOfValues_unboxed.mpr (h.isOfValues (hu ▸ hne))

theorem IsOfResults.erased (h : t.IsOfResults) : t.erased.IsOfResults where
  mentionsError_eq := by simpa using h.mentionsError_eq
  isResult := by
    rcases erased_of_isResult h.isResult with hnothing | honly
    · rw [hnothing]
      rfl
    · exact isResult_of_onlyReturnsNothing honly

theorem IsOfValues.heldIn (h : t.IsOfValues) (s : Storage) : (t.heldIn s).IsOfValues :=
  ⟨mentionsError_heldIn s h.mentionsError_eq, onlyReturnsNothing_heldIn s h.onlyReturns⟩

theorem isOfValues_optional : (optional t).IsOfValues ↔ t.IsOfValues := by
  constructor
  · exact fun h => ⟨by simpa [mentionsError] using h.mentionsError_eq, h.onlyReturns⟩
  · exact fun h => ⟨by simpa [mentionsError] using h.mentionsError_eq, h.onlyReturns⟩

theorem isOfValues_typeValue : (typeValue t).IsOfValues ↔ t.IsOfValues := by
  constructor
  · exact fun h => ⟨by simpa [mentionsError] using h.mentionsError_eq, h.onlyReturns⟩
  · exact fun h => ⟨by simpa [mentionsError] using h.mentionsError_eq, h.onlyReturns⟩

theorem isOfValues_callable {params : List Ty} {ret : Ty} :
    (callable params ret).IsOfValues ↔ (∀ p ∈ params, p.IsOfValues) ∧ ret.IsOfResults := by
  constructor
  · intro h
    obtain ⟨hpe, hre⟩ := mentionsError_of_unboxed_callable h.mentionsError_eq rfl
    obtain ⟨hp, hr⟩ := onlyReturnsNothing_callable.mp h.onlyReturns
    exact ⟨fun p hmem => ⟨hpe p hmem, hp p hmem⟩, hre, hr⟩
  · intro ⟨hparams, hret⟩
    refine ⟨?_, onlyReturnsNothing_callable.mpr ⟨fun p hmem => (hparams p hmem).onlyReturns,
      hret.isResult⟩⟩
    simp only [mentionsError, Bool.or_eq_false_iff, anyMentionsError_eq_false]
    exact ⟨fun p hmem => (hparams p hmem).mentionsError_eq, hret.mentionsError_eq⟩

theorem isOfValues_of_optionalInner? (h : t.IsOfResults) (hu : t.optionalInner? = some u) :
    u.IsOfValues := by
  unfold optionalInner? at hu
  split at hu
  next heq =>
    cases hu
    exact isOfValues_optional.mp (h.of_unboxed heq (by simp))
  next => cases hu

theorem eq_of_unboxed_eq_nothing (h : t.unboxed = .nothing) :
    t = .nothing ∨ t = .boxed .nothing := by
  cases t <;> simp_all [unboxed]

end Ty

/-! ### Compliance -/

namespace Declarations

variable {d : Declarations} {c : GenericContext} {a b : Ty}

theorem isOfValues_of_widens (h : d.Widens c a b) (ha : a.IsOfResults) (hb : b.IsOfValues) :
    a.IsOfValues := by
  refine ha.isOfValues fun hnothing => ?_
  rw [widens_iff, Ty.erased_eq_nothing hnothing] at h
  refine not_below_nothing_left ?_ (Ty.onlyReturnsNothing_erased b hb.onlyReturns) h
  simpa using hb.mentionsError_eq

end Declarations

section Compliance

variable {d : Declarations} {c : GenericContext} {e : Expectation} {actual t : Ty}

theorem isOfResults_storageCompliance (ha : actual.IsOfValues)
    (ht : (e.storageCompliance actual).type? = some t) : t.IsOfResults := by
  have hprotocol (name : String) : (Ty.protocol name).IsOfValues := ⟨rfl, rfl⟩
  have herased : actual.erased.IsOfValues :=
    ⟨by simpa using ha.mentionsError_eq, Ty.onlyReturnsNothing_erased actual ha.onlyReturns⟩
  refine Ty.IsOfValues.isOfResults ?_
  unfold Expectation.storageCompliance at ht
  split at ht
  case h_1 =>
    unfold Expectation.boxToBox at ht
    split at ht
    · cases ht
      exact ha
    · split at ht <;> cases ht
      · exact ha
      · exact hprotocol _
  case h_2 =>
    unfold Expectation.boxToSimple at ht
    split at ht <;> cases ht
    exact Ty.isOfValues_unboxed.mpr ha
  case h_3 =>
    unfold Expectation.boxToSimpleOptional at ht
    split at ht
    next inner hinner =>
      split at ht <;> cases ht
      exact hinner ▸ herased
    next =>
      split at ht <;> cases ht
      exact Ty.isOfValues_optional.mpr herased
  case h_4 =>
    unfold Expectation.simpleToBox at ht
    split at ht <;> cases ht
    · exact hprotocol _
    · exact ha.heldIn .box
  case h_5 =>
    cases ht
    exact ha.heldIn .box
  case h_6 =>
    cases ht
    exact Ty.isOfValues_optional.mpr ha
  case h_7 => cases ht
  case h_8 | h_9 =>
    cases ht
    exact ha

/-- A value is made to meet an expectation of a result only by becoming one. -/
theorem isOfResults_compliance (hw : d.Widens c actual e.type) (ha : actual.IsOfResults)
    (he : e.type.IsOfResults) (ht : (e.compliance actual).type? = some t) : t.IsOfResults := by
  by_cases hnothing : actual.unboxed = .nothing
  · have hexpected : e.type.unboxed = .nothing := by
      by_contra hne
      exact absurd (Declarations.isOfValues_of_widens hw ha (he.isOfValues hne)).onlyReturns
        (by rw [← Ty.onlyReturnsNothing_unboxed, hnothing]; exact Bool.false_ne_true)
    obtain ⟨type, policy⟩ := e
    rcases Ty.eq_of_unboxed_eq_nothing hnothing with rfl | rfl <;>
      rcases Ty.eq_of_unboxed_eq_nothing hexpected with rfl | rfl <;>
      cases policy <;> cases ht <;> exact ⟨rfl, rfl⟩
  · unfold Expectation.compliance at ht
    split at ht
    next =>
      cases ht
      exact ha
    next =>
      split at ht
      next =>
        cases ht
        exact he
      next => exact isOfResults_storageCompliance (ha.isOfValues hnothing) ht

end Compliance

/-! ### Inference -/

theorem Ty.descends_isOfResults : Ty.Descends Ty.IsOfResults := fun t ht u hu =>
  ⟨Ty.descends_mentionsError t ht.mentionsError_eq u hu, Ty.descends_isResult t ht.isResult u hu⟩

theorem Candidates.yields_add {d : Declarations} {c : GenericContext} (hde : d.ErrorFree)
    (hd : d.OnlyReturnsNothing) (hce : c.ErrorFree) (hc : c.OnlyReturnsNothing)
    (candidates : Candidates) (t : Ty) (h : candidates.Yields Ty.IsOfResults)
    (ht : t.IsOfResults) : (candidates.add d c t).Yields Ty.IsOfResults := by
  intro u hu
  unfold add at hu
  split at hu
  next =>
    cases hu
    exact ht.erased
  next v =>
    have hv : v.IsOfResults := h v rfl
    split at hu
    next wider hwider =>
      cases hu
      have hte := ht.erased
      exact ⟨hde.commonSupertype? c hv.mentionsError_eq hte.mentionsError_eq hwider,
        hd.commonSupertype? hce hc hv.mentionsError_eq hte.mentionsError_eq hv.isResult hte.isResult
          hwider⟩
    next => cases hu
  next => cases hu

/-! ### Environments -/

/-- An environment in whose package and function nothing occurs only as a result. -/
structure Environment.OnlyReturnsNothing (env : Environment) : Prop where
  package : env.package.OnlyReturnsNothing
  function : env.function.OnlyReturnsNothing

theorem Signature.OnlyReturnsNothing.calleeContext {target : Signature}
    (htarget : target.OnlyReturnsNothing) (env : Environment) {receiver? : Option Ty}
    (hreceiver : ∀ r ∈ receiver?, r.onlyReturnsNothing = true) :
    (env.calleeContext receiver? target).OnlyReturnsNothing := by
  have hc := htarget.context env.declarations
  cases receiver? with
  | none => exact hc
  | some r => exact { hc with owner := fun t ht => by cases ht; exact hreceiver r rfl }

theorem Package.method?_nothing (p : Package) (name : String) : p.method? .nothing name = none := by
  have hsome : p.declarations.findSomeAncestor? .nothing (p.ownMethod? name) = none := by
    unfold Declarations.findSomeAncestor?
    cases p.declarations.ancestorSteps .nothing <;> rfl
  unfold Package.method?
  rw [show Ty.nothing.unboxed = .nothing from rfl, hsome]
  rfl

namespace Environment

variable {env : Environment}

theorem denotes_isOfValues {written : WrittenType} (h : written.onlyReturnsNothing = true) :
    written.Denotes env Ty.IsOfValues := fun t ht =>
  ⟨Signature.mentionsError_resolve _ _ written t ht,
    Signature.onlyReturnsNothing_resolve _ _ written t h ht⟩

theorem denotes_isOfResults {written : WrittenType} (h : written.isResult = true) :
    written.Denotes env Ty.IsOfResults := fun t ht =>
  ⟨Signature.mentionsError_resolve _ _ written t ht, Signature.isResult_resolve h ht⟩

/-- The types of expressions are of results, and those of generic arguments are of values. -/
theorem OnlyReturnsNothing.typeInvariant (h : env.OnlyReturnsNothing) (he : env.ErrorFree) :
    TypeInvariant env Ty.IsOfValues Ty.IsOfResults where
  weaken ht := ht.isOfResults
  literal t ht := by
    simp only [List.mem_cons, List.not_mem_nil, or_false] at ht
    rcases ht with rfl | rfl | rfl | rfl | rfl <;> exact ⟨rfl, rfl⟩
  owner ht := Ty.IsOfValues.isOfResults ⟨he.function.owner _ ht, h.function.owner _ ht⟩
  param param hmem :=
    Ty.IsOfValues.isOfResults ⟨he.function.params param hmem, h.function.params param hmem⟩
  ret := ⟨he.function.ret, h.function.ret⟩
  erased ht := ht.erased
  error ht herror := by
    have hvalues := ht.of_unboxed herror (by simp)
    cases hvalues.mentionsError_eq
  heldIn s ht hu := ((ht.isOfValues (by simp [hu])).heldIn s).isOfResults
  typeValue ht hne := (Ty.isOfValues_typeValue.mpr (ht.isOfValues hne)).isOfResults
  denoted ht hu := (Ty.isOfValues_typeValue.mp (ht.of_unboxed hu (by simp))).isOfResults
  callable ht hu := by
    obtain ⟨hparams, hret⟩ := Ty.isOfValues_callable.mp (ht.of_unboxed hu (by simp))
    exact ⟨fun u hmem => (hparams u hmem).isOfResults, hret⟩
  closure hparams hret := (Ty.isOfValues_callable.mpr ⟨hparams, hret⟩).isOfResults
  value ht hu :=
    have hv := Ty.isOfValues_of_optionalInner? ht hu
    ⟨hv.isOfResults, (hv.heldIn .box).isOfResults⟩
  comply hw ht he hu := isOfResults_compliance hw ht he hu
  collect declared actual all ha hall :=
    Candidates.forall_mem_collect Ty.descends_isOfResults
      (Candidates.yields_add he.package.declarations h.package.declarations he.context
        (h.function.context _)) declared actual all ha hall
  argument {id receiver? generic t} hid hreceiver hgeneric ht hw := by
    have hce := (he.package.signature hid).calleeContext env
      fun r hr => (hreceiver r hr).mentionsError_eq
    have hc := (h.package.signature hid).calleeContext env
      fun r hr => (hreceiver r hr).onlyReturns
    refine Declarations.isOfValues_of_widens hw ht ⟨hce.upperBound ?_, hc.upperBound ?_⟩
    · exact (he.package.signature hid).constraints generic hgeneric
    · exact (h.package.signature hid).constraints generic hgeneric
  receiver {t name id} ht hid := by
    refine ⟨he.context.upperBound ht.erased.mentionsError_eq, ?_⟩
    rcases Ty.erased_of_isResult ht.isResult with hnothing | honly
    · rw [hnothing, show env.context.upperBound .nothing = .nothing from rfl,
        Package.method?_nothing] at hid
      cases hid
    · exact (h.function.context _).upperBound honly
  instantiate {id receiver? types} hid hreceiver htypes := by
    have hte := he.package.signature hid
    have ht := h.package.signature hid
    have hce : ({ env.calleeContext receiver? (env.package.signature id) with
        args := types } : GenericContext).ErrorFree :=
      { hte.calleeContext env fun r hr => (hreceiver r hr).mentionsError_eq with
        args := fun t hmem => (htypes t hmem).mentionsError_eq }
    have hc : ({ env.calleeContext receiver? (env.package.signature id) with
        args := types } : GenericContext).OnlyReturnsNothing :=
      { ht.calleeContext env fun r hr => (hreceiver r hr).onlyReturns with
        args := fun t hmem => (htypes t hmem).onlyReturns }
    refine ⟨fun param hparam => Ty.IsOfValues.isOfResults ⟨?_, ?_⟩, ?_, ?_⟩
    · exact hce.instantiate (hte.params param hparam)
    · exact hc.instantiate (ht.params param hparam)
    · exact hce.instantiate hte.ret
    · exact hc.isResult_instantiate ht.ret

end Environment

/-! ### Bodies -/

structure Body.OnlyReturnsNothing (body : Body) : Prop where
  types : ∀ slot < body.arena.size, ∀ w ∈ (body.arena.get slot).kind.writtenTypes,
    w.onlyReturnsNothing = true
  results : ∀ slot < body.arena.size, ∀ w ∈ (body.arena.get slot).kind.writtenResults,
    w.isResult = true
  stmts : ∀ stmt ∈ body.stmts, ∀ w ∈ stmt.writtenTypes, w.onlyReturnsNothing = true

theorem Body.OnlyReturnsNothing.denotes {body : Body} (h : body.OnlyReturnsNothing)
    (env : Environment) : body.Denotes env Ty.IsOfValues Ty.IsOfResults where
  types slot hslot w hw := Environment.denotes_isOfValues (h.types slot hslot w hw)
  results slot hslot w hw := Environment.denotes_isOfResults (h.results slot hslot w hw)
  stmts stmt hstmt w hw := Environment.denotes_isOfValues (h.stmts stmt hstmt w hw)

theorem Package.AnalysesCleanly.isOfResults {p : Package} (hp : p.ErrorFree)
    (hn : p.OnlyReturnsNothing) {warnDeprecated : Bool} {reports : List Report}
    {definition : Definition} (hf : definition.function < p.functions.length)
    (hb : definition.body.IsFresh) (hbody : definition.body.OnlyReturnsNothing)
    (hclean : p.AnalysesCleanly warnDeprecated reports definition) (slot : Slot) (t : Ty)
    (ht : ((p.analyseDefinition warnDeprecated reports definition).1.body.arena.get slot).type? =
      some t) : t.IsOfResults :=
  have henv : Environment.OnlyReturnsNothing
      { package := p, function := p.signature definition.function, warnDeprecated } :=
    ⟨hn, hn.signature hf⟩
  hclean.type_of_node hb (henv.typeInvariant ⟨hp, hp.signature hf⟩) (hbody.denotes _) slot t ht

end Boxlang
