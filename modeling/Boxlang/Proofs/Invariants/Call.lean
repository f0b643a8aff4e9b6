import Boxlang.Proofs.Conversion.Compliance
import Boxlang.Proofs.Elaboration.Call
import Boxlang.Proofs.Invariants.Ensures

/-!
# Invariants of types

Types come from what is written, from declarations and from types of other
expressions.  A `TypeInvariant` is a property of types that all ways to get one of
these from others keep.  Where a state keeps an invariant while operands are visited
and converted (`Stable`), it is kept by checking a call, and the result has a type
with the property.
-/

namespace Boxlang

/-- A written type denotes, where the body is analysed, nothing but types with the property. -/
def WrittenType.Denotes (env : Environment) (P : Ty → Prop) (written : WrittenType) : Prop :=
  ∀ t, env.function.resolve env.declarations written = .ok t → P t

/--
A property `P` of the types of expressions and a stronger one `V` of the types that
stand for generic variables, as kept by all that analysis does with types.
-/
structure TypeInvariant (env : Environment) (V P : Ty → Prop) : Prop where
  weaken : ∀ {t}, V t → P t
  literal : ∀ t ∈ [Ty.int, .real, .bool, .string, .symbol], P t
  owner : ∀ {t}, env.function.owner? = some t → P t
  param : ∀ param ∈ env.function.params, P param.type
  ret : P env.function.ret
  erased : ∀ {t}, P t → P t.erased
  error : ∀ {t}, P t → t.unboxed = .error → P .error
  heldIn : ∀ {t u} s, P t → t.unboxed = .optional u → P (t.heldIn s)
  typeValue : ∀ {t}, P t → t.unboxed ≠ .nothing → P (.typeValue t)
  denoted : ∀ {t u}, P t → t.unboxed = .typeValue u → P u
  callable : ∀ {t params ret}, P t → t.unboxed = .callable params ret → (∀ u ∈ params, P u) ∧ P ret
  closure : ∀ {params ret}, (∀ u ∈ params, V u) → P ret → P (.callable params ret)
  value : ∀ {t u}, P t → t.optionalInner? = some u → P u ∧ P (u.heldIn .box)
  comply : ∀ {e : Expectation} {t u}, env.declarations.Widens env.context t e.type → P t →
    P e.type → (e.compliance t).type? = some u → P u
  collect : ∀ declared {actual} {all : List Candidates}, P actual → (∀ c ∈ all, c.Yields P) →
    ∀ c ∈ Candidates.collect env.declarations env.context declared actual all, c.Yields P
  argument : ∀ {id receiver? generic t}, id < env.package.functions.length →
    (∀ r ∈ receiver?, V r) → generic ∈ (env.package.signature id).generics → P t →
    env.declarations.Widens env.context t
      ((env.calleeContext receiver? (env.package.signature id)).upperBound generic.constraint) →
    V t
  receiver : ∀ {t name id}, P t →
    env.package.method? (env.context.upperBound t.erased) name = some id →
    V (env.context.upperBound t.erased)
  instantiate : ∀ {id receiver? types}, id < env.package.functions.length →
    (∀ r ∈ receiver?, V r) → (∀ t ∈ types, V t) →
    let target := env.package.signature id
    let c := { env.calleeContext receiver? target with args := types }
    (∀ param ∈ target.params, P (c.instantiate param.type)) ∧ P (c.instantiate target.ret)

theorem TypeInvariant.trivial (env : Environment) :
    TypeInvariant env (fun _ => True) (fun _ => True) := by
  constructor <;> simp [Candidates.Yields]

/--
A property of conversions, by the slot that they are put in, of all those by which values
of types with the property `P` are made to meet what is expected of them.
-/
def ConversionInvariant (env : Environment) (P : Ty → Prop) (G : Slot → Conversion → Prop) : Prop :=
  ∀ slot (e : Expectation) t op u, env.declarations.Widens env.context t e.type → P t → P e.type →
    e.compliance t = .convert op u → G slot op

/-- Where the conversion puts a value in a box, the box is one of a value of the type, which is known. -/
def Conversion.BoxesAs (t : Ty) : Conversion → Prop
  | .box u _ => u = t ∧ t ≠ .error
  | _ => True

theorem Expectation.boxesAs_of_compliance {e : Expectation} {t u : Ty} {op : Conversion}
    (h : e.compliance t = .convert op u) : op.BoxesAs t := by
  cases op with
  | box v p =>
    have ht : t ≠ .error := by
      rintro rfl
      simp [compliance, Ty.isError] at h
    unfold compliance at h
    split at h
    · cases h
    split at h
    · unfold adapted callableAdapter at h
      split at h <;> cases h
    unfold storageCompliance boxToBox boxToSimple boxToSimpleOptional simpleToBox at h
    refine ⟨?_, ht⟩
    grind
  | _ => exact True.intro

theorem ConversionInvariant.trivial (env : Environment) (P : Ty → Prop) :
    ConversionInvariant env P fun _ _ => True :=
  fun _ _ _ _ _ _ _ _ _ => True.intro

namespace Analysis

/--
A value of a type with the property was just typed in a slot, and may be converted there
by the conversions of `G`.
-/
structure Arrives (J : AnalysisState → Prop) (P : Ty → Prop) (G : Slot → Conversion → Prop)
    (slot : Slot) (t : Ty) (s : AnalysisState) : Prop where
  holds : J s
  type : P t
  convert : ∀ op u, G slot op → op.BoxesAs t → P u → J (s.withArena (s.body.arena.convert slot op u).2)

structure Visits (env : Environment) (J F : AnalysisState → Prop) (P : Ty → Prop)
    (G : Slot → Conversion → Prop) (visit : Visit) (slot : Slot) : Prop where
  ok : ∀ {s e? t s'}, J s → (∀ e ∈ e?, P e.type) → (visit slot e?).runIn env s = (.ok t, s') →
    Arrives J P G slot t s'
  error : ∀ {s e? err s'}, J s → (∀ e ∈ e?, P e.type) →
    (visit slot e?).runIn env s = (.error err, s') → F s'

/--
The invariant is kept by what the analysis of the node in a slot does, apart from
closures and names: visits of its operands, annotations of the node and reports.
-/
structure Stable (env : Environment) (J F : AnalysisState → Prop) (V P : Ty → Prop)
    (G : Slot → Conversion → Prop) (visit : Visit) (slot : Slot) (operands : List Slot) : Prop where
  fails : ∀ {s}, J s → F s
  reports : ∀ {s} reports, J s → J { s with reports }
  visits : ∀ c ∈ operands, Visits env J F P G visit c
  arguments : ∀ {s arguments}, J s →
    (s.body.arena.get slot).kind.arguments? = some arguments →
    arguments.args ⊆ operands ∧ ∀ w ∈ arguments.written, w.Denotes env V
  withTarget : ∀ {s} id, J s →
    J (s.withArena (s.body.arena.modifyKind slot (·.withTarget id)))
  withGenericArguments : ∀ {s} types, (∀ t ∈ types, V t) → J s →
    J (s.withArena (s.body.arena.modifyKind slot (·.withGenericArguments types)))

variable {env : Environment} {J F : AnalysisState → Prop} {V P : Ty → Prop}
  {G : Slot → Conversion → Prop} {visit : Visit} {slot : Slot} {operands : List Slot}

/-! ### Expectations -/

theorem ensures_resolveType {written : WrittenType} (hF : ∀ {s}, J s → F s)
    (h : written.Denotes env P) : Ensures env J F (resolveType written) P where
  ok hs hrun := by
    rw [runIn_resolveType] at hrun
    obtain ⟨ht, rfl⟩ := Prod.mk.inj hrun
    exact ⟨hs, h _ ht⟩
  error hs hrun := by
    rw [runIn_resolveType] at hrun
    exact (Prod.mk.inj hrun).2 ▸ hF hs

/-- The types that are written of a closure are resolved before it is entered. -/
theorem ensures_analyseClosure_of_closureAs {literal : Closure} {Q : Ty → Prop} (hF : ∀ {s}, J s → F s)
    (hparams : ∀ p ∈ literal.params, p.type.Denotes env V) (hret : literal.ret.Denotes env P)
    (h : ∀ params ret, params.length = literal.params.length → (∀ t ∈ params, V t) → P ret →
      Ensures env J F (closureAs visit slot literal params ret) Q) :
    Ensures env J F (analyseClosure visit slot literal) Q := by
  have hresolved := Ensures.mapM fun p hp => ensures_resolveType (J := J) hF (hparams p hp)
  rw [analyseClosure_eq]
  refine Ensures.bind (Q := fun params => params.length = literal.params.length ∧ ∀ t ∈ params, V t)
    ⟨fun hs hrun => ⟨(hresolved.ok hs hrun).1, length_of_runIn_mapM_ok hrun, (hresolved.ok hs hrun).2⟩,
      hresolved.error⟩ fun params ⟨hlen, hV⟩ => ?_
  exact (ensures_resolveType hF hret).bind fun ret hP => h params ret hlen hV hP

theorem ensures_requireSubtype (hF : ∀ {s}, J s → F s) (actual expected : Ty) (span : Span) :
    Ensures env J F (requireSubtype actual expected span) fun _ =>
      env.declarations.Widens env.context actual expected where
  ok hs hrun := by
    obtain ⟨hw, rfl⟩ := runIn_requireSubtype_ok hrun
    exact ⟨hs, hw⟩
  error {s e s'} hs hrun := by
    unfold requireSubtype at hrun
    rw [runIn_bind, runIn_read] at hrun
    dsimp only at hrun
    split at hrun
    · cases hrun
    · exact (Prod.mk.inj hrun).2 ▸ hF hs

theorem ensures_spanOf (c : Slot) : Ensures env J F (spanOf c) fun _ => True :=
  .of_keeps fun _ _ => ⟨_, rfl, trivial⟩

theorem Visits.ensures {c : Slot} (h : Visits env J F P G visit c) {e? : Option Expectation}
    (he : ∀ e ∈ e?, P e.type) : Ensures env J F (visit c e?) P where
  ok hs hrun := ⟨(h.ok hs he hrun).holds, (h.ok hs he hrun).type⟩
  error hs hrun := h.error hs he hrun

theorem runIn_comply_error {c : Slot} {t : Ty} {e : Expectation} {s s' : AnalysisState}
    {err : SemanticError} (hrun : (comply t e c).runIn env s = (.error err, s')) : s' = s := by
  unfold comply carryOut at hrun
  split at hrun
  · cases hrun
  · cases hrun
  · rw [runIn_bind, runIn_spanOf] at hrun
    exact (Prod.mk.inj hrun).2.symm

/-- Where an expectation is not met, the value itself failed or nothing was done to it. -/
theorem runIn_expect_error {c : Slot} {e : Expectation} {s s' : AnalysisState}
    {err : SemanticError} (hrun : (expect visit e c).runIn env s = (.error err, s')) :
    ∃ result, (visit c (some e)).runIn env s = (result, s') := by
  unfold expect at hrun
  rw [runIn_bind] at hrun
  cases hvisit : (visit c (some e)).runIn env s with
  | mk result s₁ =>
    rw [hvisit] at hrun
    cases result with
    | error e' => exact ⟨.error e', congrArg _ (Prod.mk.inj hrun).2⟩
    | ok t =>
      dsimp only at hrun
      rw [runIn_bind, runIn_spanOf] at hrun
      dsimp only at hrun
      rw [runIn_bind] at hrun
      have hsub : Ensures env (· = s₁) (· = s₁)
          (requireSubtype t e.type (s₁.body.arena.get c).span) _ :=
        ensures_requireSubtype id t e.type _
      cases hrequire : (requireSubtype t e.type (s₁.body.arena.get c).span).runIn env s₁ with
      | mk result s₂ =>
        rw [hrequire] at hrun
        cases result with
        | error e' =>
          obtain rfl := hsub.error rfl hrequire
          exact ⟨.ok t, congrArg _ (Prod.mk.inj hrun).2⟩
        | ok _ =>
          obtain ⟨rfl, -⟩ := hsub.ok rfl hrequire
          obtain rfl := runIn_comply_error hrun
          exact ⟨_, rfl⟩

section Expect

variable (hT : TypeInvariant env V P) (hG : ConversionInvariant env P G) (hF : ∀ {s}, J s → F s)
include hT hG

theorem Arrives.comply {c : Slot} {e : Expectation} {t u : Ty} {s s' : AnalysisState}
    (h : Arrives J P G c t s) (he : P e.type) (hw : env.declarations.Widens env.context t e.type)
    (hrun : (Analysis.comply t e c).runIn env s = (.ok u, s')) : J s' ∧ P u := by
  have htype := type?_compliance_of_runIn_comply hrun
  unfold Analysis.comply carryOut at hrun
  have hu : P u := hT.comply hw h.type he htype
  split at hrun
  next => exact (Prod.mk.inj hrun).2 ▸ ⟨h.holds, hu⟩
  next op v hop =>
    cases hrun
    exact ⟨h.convert _ _ (hG c e t op u hw h.type he hop) (Expectation.boxesAs_of_compliance hop) hu, hu⟩
  next =>
    rw [runIn_bind, runIn_spanOf] at hrun
    cases hrun

include hF

theorem ensures_expect {c : Slot} (hv : Visits env J F P G visit c) {e : Expectation}
    (he : P e.type) : Ensures env J F (expect visit e c) P where
  ok hs hrun := by
    obtain ⟨t, s₁, hvisit, hw, hcomply⟩ := runIn_expect_ok hrun
    exact (hv.ok hs (by rintro _ ⟨⟩; exact he) hvisit).comply hT hG he hw hcomply
  error hs hrun := by
    obtain ⟨result, hvisit⟩ := runIn_expect_error hrun
    cases result with
    | error e' => exact hv.error hs (by rintro _ ⟨⟩; exact he) hvisit
    | ok t => exact hF (hv.ok hs (by rintro _ ⟨⟩; exact he) hvisit).holds

theorem ensures_preferSimple {c : Slot} (hv : Visits env J F P G visit c) : Ensures env J F (do
    let t ← visit c none
    comply t { type := t.erased, policy := .preferSimple } c) P where
  ok hs hrun := by
    obtain ⟨t, s₁, hvisit, hcomply⟩ := runIn_bind_ok.mp hrun
    have ht := hv.ok hs (by simp) hvisit
    exact ht.comply hT hG (hT.erased ht.type)
      (Declarations.widens_of_erased_eq (Ty.erased_erased t).symm) hcomply
  error {s e s'} hs hrun := by
    rw [runIn_bind] at hrun
    cases hvisit : (visit c none).runIn env s with
    | mk result s₁ =>
      rw [hvisit] at hrun
      cases result with
      | error e' => exact (Prod.mk.inj hrun).2 ▸ hv.error hs (by simp) hvisit
      | ok t =>
        obtain rfl := runIn_comply_error hrun
        exact hF (hv.ok hs (by simp) hvisit).holds

end Expect

/-! ### Calls -/

theorem ensures_node : Ensures env J F (node slot) fun e =>
    ∃ s, J s ∧ s.body.arena.get slot = e :=
  .of_keeps fun s hs => ⟨_, rfl, s, hs, rfl⟩

section Call

variable (h : Stable env J F V P G visit slot operands)
include h

theorem ensures_checkUse (target : Signature) (span : Span) :
    Ensures env J F (checkUse target span) fun _ => True := by
  obtain ⟨r, new, -, hcheck⟩ := exists_runIn_checkUse env target span
  constructor
  · intro s a s' hs hrun
    cases (hcheck s).symm.trans hrun
    exact ⟨h.reports _ hs, trivial⟩
  · intro s e s' hs hrun
    cases (hcheck s).symm.trans hrun
    exact h.fails (h.reports _ hs)

theorem ensures_argumentsOf (target : Signature) :
    Ensures env J F (argumentsOf slot target) fun arguments =>
      arguments.args ⊆ operands ∧ ∀ w ∈ arguments.written, w.Denotes env V := by
  unfold argumentsOf
  refine ensures_node.bind fun e ⟨s, hs, he⟩ => ?_
  split
  next arguments harguments => exact .pure (h.arguments hs (he ▸ harguments))
  next => exact .throw (fun _ => h.fails) _

variable (hT : TypeInvariant env V P) (hG : ConversionInvariant env P G) {receiver? : Option Ty}
  (hreceiver : ∀ r ∈ receiver?, V r) {id : FunctionId} (hid : id < env.package.functions.length)
  {arguments : Arguments}
include hT hG hreceiver hid

omit hT hG hreceiver hid in
theorem ensures_checkWritten (target : Signature) (receiver? : Option Ty)
    {l : List (WrittenType × GenericParam)} (hl : ∀ q ∈ l, q.1.Denotes env V) :
    Ensures env J F (do
      let c := (← read).calleeContext receiver? target
      l.mapM fun (written, generic) => do
        let t ← resolveType written
        requireSubtype t (c.upperBound generic.constraint) written.span
        return t) fun types => ∀ t ∈ types, V t := by
  refine Ensures.read.bind fun _ _ => Ensures.mapM fun q hmem => ?_
  obtain ⟨written, generic⟩ := q
  refine (ensures_resolveType h.fails (hl _ hmem)).bind fun t ht => ?_
  exact (ensures_requireSubtype h.fails _ _ _).bind fun _ _ => .pure ht

omit hT hG hreceiver hid in
theorem ensures_checkGenericArguments (target : Signature) (receiver? : Option Ty)
    (hwritten : ∀ w ∈ arguments.written, w.Denotes env V) :
    Ensures env J F (checkGenericArguments target receiver? arguments) fun types =>
      ∀ t ∈ types, V t := by
  have hchecks := ensures_checkWritten h target receiver?
    (l := arguments.written.zip target.generics) fun q hq => hwritten _ (List.of_mem_zip hq).1
  unfold checkGenericArguments
  dsimp only
  split
  · exact (Ensures.throw (fun _ => h.fails) _).bind fun _ (_ : True) => hchecks
  · exact hchecks

omit hG in
theorem ensures_inferGenericArguments (hargs : arguments.args ⊆ operands) :
    Ensures env J F (inferGenericArguments visit (env.package.signature id) receiver? arguments)
      fun types => ∀ t ∈ types, V t := by
  have hcollect (c : GenericContext) :
      Ensures env J F (collectCandidates visit c (env.package.signature id) arguments)
        fun all => ∀ candidates ∈ all, candidates.Yields P := by
    refine Ensures.foldlM ?_ ?_
    · rintro ⟨param, arg⟩ hmem all hall
      have harg := h.visits arg (hargs (List.of_mem_zip hmem).2)
      dsimp only
      split
      · refine Ensures.bind ?_ fun result hresult => .pure hresult
        refine (harg.ensures (by simp)).bind fun actual hactual => ?_
        refine Ensures.read.bind fun _ henv => .pure ?_
        obtain rfl := henv
        exact hT.collect _ hactual hall
      · exact .pure hall
    · intro candidates hmem t ht
      obtain ⟨_, -, rfl⟩ := List.mem_map.mp hmem
      cases ht
  unfold inferGenericArguments
  refine Ensures.read.bind fun _ henv => (hcollect _).bind fun all hall => ?_
  obtain rfl := henv
  refine Ensures.mapM fun (generic, candidates) hmem => ?_
  unfold inferredArgument
  dsimp only
  split
  · exact .throw (fun _ => h.fails) _
  next t ht =>
    have hP : P t := hall _ (List.of_mem_zip hmem).2 t ht
    refine Ensures.read.bind fun _ henv => ?_
    obtain rfl := henv
    split
    next hsub =>
      refine .pure (hT.argument hid hreceiver (List.of_mem_zip hmem).1 hP ?_)
      exact Declarations.widens_of_isSubtype hsub
    · exact (Ensures.throw (fun _ => h.fails) _).bind fun _ (h : False) => h.elim

omit hG in
theorem ensures_ensureGenericArguments :
    Ensures env J F (ensureGenericArguments visit slot receiver? (env.package.signature id))
      fun types => ∀ t ∈ types, V t := by
  have hkeep (types : List Ty) (htypes : ∀ t ∈ types, V t) : Ensures env J F (do
      modifyKind slot (·.withGenericArguments types)
      return types) fun types => ∀ t ∈ types, V t :=
    (Ensures.modify fun s hs => h.withGenericArguments types htypes hs).bind fun _ _ => .pure htypes
  unfold ensureGenericArguments
  refine (ensures_argumentsOf h _).bind fun arguments ⟨hargs, hwritten⟩ => ?_
  dsimp only
  split
  · exact (ensures_checkGenericArguments h _ _ hwritten).bind hkeep
  · split
    · exact (ensures_inferGenericArguments h hT hreceiver hid hargs).bind hkeep
    · exact (Ensures.pure (by simp)).bind hkeep

omit hreceiver hid in
theorem ensures_expectAll {α : Type} (type : α → Ty) {l : List (α × Slot)} {t : Ty}
    (hl : ∀ q ∈ l, P (type q.1) ∧ q.2 ∈ operands) (ht : P t) :
    Ensures env J F (do
      l.forM fun (param, arg) => discard (expectType visit (type param) arg)
      return t) P := by
  refine (Ensures.forM fun q hmem => ?_).bind fun _ _ => .pure ht
  obtain ⟨param, arg⟩ := q
  obtain ⟨hparam, harg⟩ := hl _ hmem
  exact (ensures_expect hT hG h.fails (h.visits arg harg) hparam).discard

/-- The arguments of a call are checked, once their number is right. -/
theorem ensures_checkedCall {args : List Slot} (hargs : args ⊆ operands) :
    let target := env.package.signature id
    Ensures env J F (do
      let generics ← ensureGenericArguments visit slot receiver? target
      let c := { (← read).calleeContext receiver? target with args := generics }
      (target.params.zip args).forM fun (param, arg) =>
        discard (expectType visit (c.instantiate param.type) arg)
      return c.instantiate target.ret) P := by
  refine (ensures_ensureGenericArguments h hT hreceiver hid).bind fun types htypes => ?_
  refine Ensures.read.bind fun env' henv => ?_
  obtain rfl : env' = env := henv
  obtain ⟨hparams, hret⟩ := hT.instantiate hid hreceiver htypes
  let c := { env'.calleeContext receiver? (env'.package.signature id) with args := types }
  refine ensures_expectAll h hT hG (fun param : Param => c.instantiate param.type) (fun q hq => ?_) hret
  exact ⟨hparams _ (List.of_mem_zip hq).1, hargs (List.of_mem_zip hq).2⟩

/-- A call is checked, and its result has a type with the property. -/
theorem ensures_analyseFunctionCall :
    Ensures env J F (analyseFunctionCall visit slot receiver? (env.package.signature id)) P := by
  unfold analyseFunctionCall
  refine (ensures_argumentsOf h _).bind fun arguments ⟨hargs, _⟩ => ?_
  refine (ensures_checkUse h _ _).bind fun _ _ => ?_
  have hchecks := ensures_checkedCall h hT hG hreceiver hid hargs
  dsimp only
  split
  · exact (Ensures.throw (fun _ => h.fails) _).bind fun _ (_ : True) => hchecks
  · exact hchecks

end Call

end Analysis

end Boxlang
