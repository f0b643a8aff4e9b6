import Boxlang.Proofs.Calls.Bounds
import Boxlang.Proofs.Elaboration.Comply
import Boxlang.Proofs.Subtyping.Join

/-!
# Arguments that generic arguments are inferred from

Where the parameters that mention the generic parameters of a function are these alone, under
any number of optionals, the arguments of a call meet the parameters of the instance that was
inferred from them.  Four things fit together for this: a candidate is what is left of an
argument's type under as many optionals (`Ty.found_optional_iterate`), the inferred type is
above all candidates of its parameter, as many optionals of it are above the argument's
type again, even where that has fewer (`Declarations.below_optional_iterate`), and the
instance asks for a box, which every value can be held in.

The node of an argument keeps the type that the candidate was taken from until it is
checked: the arguments of a call share no nodes.
-/

namespace Boxlang

namespace Ty

variable {t x : Ty}

/-! ### Types under optionals -/

/-- What stands where an optional has its content: the content, or what may stand for an optional. -/
def content (t : Ty) : Ty :=
  match t.unboxed with
  | .optional x => x
  | u => u

theorem content_of_unboxed (h : t.unboxed = .optional x) : t.content = x := by
  rw [content, h]

theorem content_of_not_optional (h : ∀ x, t.unboxed ≠ .optional x) : t.content = t.unboxed := by
  unfold content
  split
  next x hx => exact (h x hx).elim
  next => rfl

theorem cases_erased_content (t : Ty) : t.erased = t.content.erased ∨ t.erased = .optional t.content.erased := by
  by_cases h : ∃ x, t.unboxed = .optional x
  · obtain ⟨x, hx⟩ := h
    rw [content_of_unboxed hx, ← erased_unboxed t, hx]
    exact .inr rfl
  · rw [content_of_not_optional (not_exists.mp h), erased_unboxed]
    exact .inl rfl

theorem found_optional (x t : Ty) : found (.optional x) t = found x t.content := by
  rw [Candidates.found_of_not_isVariable id]
  by_cases h : ∃ y, t.unboxed = .optional y
  · obtain ⟨y, hy⟩ := h
    rw [content_of_unboxed hy, hy]
    exact List.flatMap_singleton _ _
  · rw [content_of_not_optional (not_exists.mp h)]
    show (pairedParts (.optional x) t.unboxed).flatMap _ = _
    rw [pairedParts_optional (not_exists.mp h)]
    exact List.flatMap_singleton _ _

/-- Under optionals a walk finds what it finds on what is left of the other side under as many. -/
theorem found_optional_iterate (k : Nat) (x t : Ty) :
    found (optional^[k] x) t = found x (content^[k] t) := by
  induction k generalizing t with
  | zero => rfl
  | succ k ih => rw [Function.iterate_succ_apply', found_optional, ih, Function.iterate_succ_apply]

theorem found_localGeneric (j : Nat) (name : String) (t : Ty) : found (.localGeneric j name) t = [(j, t)] := by
  rw [found, walk_localGeneric]
  rfl

theorem subst_optional_iterate (owner locals : Nat → Option Ty) (k : Nat) (x : Ty) :
    (optional^[k] x).subst owner locals = optional^[k] (x.subst owner locals) := by
  induction k with
  | zero => rfl
  | succ k ih => rw [Function.iterate_succ_apply', Function.iterate_succ_apply', subst, ih]

theorem erased_optional_iterate (k : Nat) (x : Ty) : (optional^[k] x).erased = optional^[k] x.erased := by
  induction k with
  | zero => rfl
  | succ k ih => rw [Function.iterate_succ_apply', Function.iterate_succ_apply', erased, ih]

theorem storage_optional_iterate (k : Nat) (h : x.storage = .box) : (optional^[k] x).storage = .box := by
  induction k with
  | zero => exact h
  | succ k ih => rw [Function.iterate_succ_apply', storage, ih]

theorem ne_error_of_storage (h : t.storage = .box) : t ≠ .error := by
  rintro rfl
  cases h

end Ty

namespace Declarations

variable {d : Declarations} {c : GenericContext} {t r : Ty}

/-- What is above the rest of a type under some optionals is above the type under as many. -/
theorem below_optional_iterate (k : Nat) (h : d.Below c (Ty.content^[k] t).erased r) :
    d.Below c t.erased (Ty.optional^[k] r) := by
  induction k generalizing t with
  | zero => exact h
  | succ k ih =>
      have hcontent : d.Below c t.content.erased (Ty.optional^[k] r) := ih h
      rw [Function.iterate_succ_apply']
      rcases t.cases_erased_content with heq | heq
      · exact heq ▸ hcontent.toOptional
      · exact heq ▸ below_optional_iff.mpr hcontent

theorem IsJoinable.content_iterate (k : Nat) (h : d.IsJoinable t.erased) :
    d.IsJoinable (Ty.content^[k] t).erased := by
  induction k generalizing t with
  | zero => exact h
  | succ k ih =>
      refine ih (t := t.content) ?_
      rcases t.cases_erased_content with heq | heq
      · exact heq ▸ h
      · exact IsJoinable.optional_iff.mp (heq ▸ h)

end Declarations

namespace Candidates

variable {d : Declarations} {c : GenericContext}

def foundFor (found : List (Nat × Ty)) (j : Nat) : List Ty :=
  (found.filter (·.1 = j)).map (·.2)

theorem mem_foundFor {found : List (Nat × Ty)} {j : Nat} {t : Ty} : t ∈ foundFor found j ↔ (j, t) ∈ found := by
  simp [foundFor]

theorem getElem?_addFound (found : List (Nat × Ty)) (all : List Candidates) (j : Nat) :
    (addFound d c found all)[j]? = all[j]?.map fun candidates => (foundFor found j).foldl (add d c) candidates := by
  induction found generalizing all with
  | nil => simp [addFound, foundFor]
  | cons q found ih =>
      rw [addFound, List.foldl_cons]
      refine (ih _).trans ?_
      rw [List.getElem?_modify]
      by_cases hq : q.1 = j <;> simp [foundFor, hq, Option.map_map, Function.comp_def]

theorem below_of_result (hd : d.IsAcyclic) (hmarks : d.EverySuperclass fun _ => Ty.IsUnmarked) {ts : List Ty}
    (hts : ∀ t ∈ ts, d.IsJoinable t.erased) {r : Ty} (h : (ts.foldl (add d c) .unseen).result = .ok r) :
    d.IsJoinable r ∧ ∀ t ∈ ts, d.Below c t.erased r := by
  have hbounds : (ts.foldl (add d c) .unseen).Bounds d c (ts.reverse ++ []) :=
    bounds_foldl hd hmarks (show Candidates.unseen.Bounds d c [] from rfl) hts
  cases hc : ts.foldl (add d c) .unseen <;> rw [hc] at h hbounds
  case unseen | conflict => cases h
  case common u =>
    obtain rfl : u = r := Except.ok.inj h
    exact ⟨hbounds.1, fun t ht => hbounds.2 t (by simpa using ht)⟩

end Candidates

/-! ### Arguments share no nodes -/

theorem ExprKind.args_sublist_operands {kind : ExprKind} {arguments : Arguments}
    (h : kind.arguments? = some arguments) : arguments.args.Sublist kind.operands := by
  cases kind with
  | call => exact Option.some.inj h ▸ .refl _
  | methodCall => exact Option.some.inj h ▸ List.sublist_cons_self _ _
  | _ => cases h

namespace Arena

variable {a : Arena} {roots : List Slot} {slot : Slot} {k : Nat}

theorem IsForest.pairwise_operands (hf : a.IsForest roots) (hs : a.Level roots k slot) :
    (a.get slot).kind.operands.Pairwise fun x y => ¬ a.Reaches x y ∧ ¬ a.Reaches y x := by
  refine (hf.operands_nodup slot).imp_of_mem fun {x y} hx hy hne => ⟨fun h => hne ?_, fun h => hne ?_⟩
  · exact hf.eq_of_reaches (.child hs hx) (.child hs hy) h (.refl a y)
  · exact hf.eq_of_reaches (.child hs hx) (.child hs hy) (.refl a x) h

end Arena

namespace Analysis

variable {α : Type} {env : Environment} {s s' : AnalysisState} {visit : Visit} {slot : Slot}
  {target : Signature} {receiver? : Option Ty} {arguments : Arguments} {types : List Ty} {a₀ : Arena} {W : Slot → Prop}

theorem get_eq_of_walks (hW : a₀.IsRegion W) (ha : s.body.arena.HoldsNodesOf a₀) {step : Analysis α}
    (h : Walks a₀ W env step) {r : Except SemanticError α} (hrun : step.runIn env s = (r, s')) {x : Slot}
    (hx : x < a₀.size) (hn : ¬ W x) : s'.body.arena.get x = s.body.arena.get x := by
  have hedits := (h s ha).progress.arena
  rw [hrun] at hedits
  exact hedits.get_of_not (fun y hy => Nat.lt_of_lt_of_le (hW.lt y hy) ha.size_le)
    (Nat.lt_of_lt_of_le hx ha.size_le) hn

theorem holdsNodes_of_walks (hW : a₀.IsRegion W) (ha : s.body.arena.HoldsNodesOf a₀) {step : Analysis α}
    (h : Walks a₀ W env step) {r : Except SemanticError α} (hrun : step.runIn env s = (r, s')) :
    s'.body.arena.HoldsNodesOf a₀ := by
  have hprogress := (h s ha).progress
  rw [hrun] at hprogress
  exact hprogress.holdsNodes hW.lt ha

def reachesAny (a₀ : Arena) (l : List (Param × Slot)) (x : Slot) : Prop :=
  ∃ q ∈ l, a₀.Reaches q.2 x

theorem isRegion_reachesAny (hin : a₀.InRange) {l : List (Param × Slot)} (hlt : ∀ q ∈ l, q.2 < a₀.size) :
    a₀.IsRegion (reachesAny a₀ l) := by
  have h := Arena.isRegion_reaches_any (l := l.map (·.2)) hin (List.forall_mem_map.mpr hlt)
  simp only [List.mem_map, exists_exists_and_eq_and] at h
  exact h

def observeArgument (visit : Visit) (q : Param × Slot) : Analysis (Ty × Ty) := do
  return (q.1.type, ← visit q.2 none)

theorem observeArguments_eq : observeArguments visit target arguments =
    ((target.params.zip arguments.args).filter (·.1.type.mentionsLocalGenerics)).mapM
      (observeArgument visit) := rfl

theorem runIn_observeArgument_ok {q : Param × Slot} {o : Ty × Ty} :
    (observeArgument visit q).runIn env s = (.ok o, s') ↔
      ∃ t, (visit q.2 none).runIn env s = (.ok t, s') ∧ (q.1.type, t) = o := by
  rw [observeArgument, bind_pure_comp]
  exact runIn_map_ok

theorem walks_observeArgument (hW : a₀.IsRegion W) {q : Param × Slot} (hq : W q.2) :
    Walks a₀ W env (observeArgument analyseExpr q) :=
  (walks_analyseExpr hW q.2 hq none).bind hW.lt fun _ _ _ => .pure _

/-- Typing arguments leaves the nodes alone that are no part of them. -/
theorem get_eq_of_observeArgument (hin : a₀.InRange) {l : List (Param × Slot)} (hlt : ∀ q ∈ l, q.2 < a₀.size)
    (ha : s.body.arena.HoldsNodesOf a₀) {r : Except SemanticError (List (Ty × Ty))}
    (hrun : (l.mapM (observeArgument analyseExpr)).runIn env s = (r, s')) {x : Slot} (hx : x < a₀.size)
    (hapart : ∀ q ∈ l, ¬ a₀.Reaches q.2 x) : s'.body.arena.get x = s.body.arena.get x := by
  have hregion : a₀.IsRegion (reachesAny a₀ l) := isRegion_reachesAny hin hlt
  refine get_eq_of_walks hregion ha (Walks.mapM hregion.lt fun q hq => ?_) hrun hx ?_
  · exact walks_observeArgument hregion ⟨q, hq, .refl a₀ _⟩
  · rintro ⟨q, hq, hreach⟩
    exact hapart q hq hreach

theorem map_type?_of_observeArgument (hin : a₀.InRange) {l : List (Param × Slot)}
    (hlt : ∀ q ∈ l, q.2 < a₀.size)
    (hapart : l.Pairwise fun p q => ¬ a₀.Reaches p.2 q.2 ∧ ¬ a₀.Reaches q.2 p.2)
    (ha : s.body.arena.HoldsNodesOf a₀) {observed : List (Ty × Ty)}
    (hrun : (l.mapM (observeArgument analyseExpr)).runIn env s = (.ok observed, s')) :
    (l.map fun q => (q.1.type, (s'.body.arena.get q.2).type?)) = observed.map fun o => (o.1, some o.2) := by
  induction l generalizing s observed with
  | nil =>
      obtain ⟨rfl, -⟩ : [] = observed ∧ s = s' := by simpa using hrun
      rfl
  | cons q l ih =>
      obtain ⟨hq, hl⟩ := List.forall_mem_cons.mp hlt
      obtain ⟨hqapart, hlapart⟩ := List.pairwise_cons.mp hapart
      rw [List.mapM_cons] at hrun
      obtain ⟨o, s₁, hfirst, hrun⟩ := runIn_bind_ok.mp hrun
      obtain ⟨rest, s₂, hrest, hreturn⟩ := runIn_bind_ok.mp hrun
      obtain ⟨rfl, rfl⟩ : o :: rest = observed ∧ s₂ = s' := by simpa using hreturn
      obtain ⟨t, hvisit, rfl⟩ := runIn_observeArgument_ok.mp hfirst
      have htype : (s₁.body.arena.get q.2).type? = some t :=
        type?_of_runIn_analyseExpr (Nat.lt_of_lt_of_le hq ha.size_le) hvisit
      have hregion : a₀.IsRegion (a₀.Reaches q.2) := Arena.isRegion_reaches hin hq
      have ha₁ : s₁.body.arena.HoldsNodesOf a₀ :=
        holdsNodes_of_walks hregion ha (walks_observeArgument hregion (.refl a₀ _)) hfirst
      -- The arguments that follow are typed in a region that this one is not part of.
      have hkeep : s₂.body.arena.get q.2 = s₁.body.arena.get q.2 :=
        get_eq_of_observeArgument hin hl ha₁ hrest hq fun p hp => (hqapart p hp).2
      rw [List.map_cons, List.map_cons, ih hl hlapart ha₁ hrest, hkeep, htype]

def checkArgument (view : Ty → Ty) (q : Param × Slot) : Analysis Unit :=
  discard (expectType analyseExpr (view q.1.type) q.2)

theorem get_eq_of_checkArgument (hin : a₀.InRange) {l : List (Param × Slot)} (hlt : ∀ q ∈ l, q.2 < a₀.size)
    (ha : s.body.arena.HoldsNodesOf a₀) {view : Ty → Ty} {r : Except SemanticError Unit}
    (hrun : (l.forM (checkArgument view)).runIn env s = (r, s')) {x : Slot} (hx : x < a₀.size)
    (hapart : ∀ q ∈ l, ¬ a₀.Reaches q.2 x) : s'.body.arena.get x = s.body.arena.get x := by
  have hregion : a₀.IsRegion (reachesAny a₀ l) := isRegion_reachesAny hin hlt
  refine get_eq_of_walks hregion ha (Walks.forM hregion.lt fun q hq s hs => ?_) hrun hx ?_
  · exact (walks_expectType hregion.lt (walks_analyseExpr hregion) ⟨q, hq, .refl a₀ _⟩ _ s hs).discard
  · rintro ⟨q, hq, hreach⟩
    exact hapart q hq hreach

/-! ### Inferred arguments -/

def shownFor (env : Environment) (receiver? : Option Ty) (target : Signature) (observed : List (Ty × Ty))
    (j : Nat) : List Ty :=
  Candidates.foundFor
    (observed.flatMap fun o => Ty.found ((env.calleeContext receiver? target).instantiate o.1) o.2) j

theorem mem_shownFor {observed : List (Ty × Ty)} {j : Nat} {t : Ty} :
    t ∈ shownFor env receiver? target observed j ↔
      ∃ o ∈ observed, (j, t) ∈ Ty.found ((env.calleeContext receiver? target).instantiate o.1) o.2 := by
  rw [shownFor, Candidates.mem_foundFor, List.mem_flatMap]

/-- Each of the types is what the candidates for its parameter amount to. -/
def InferredFrom (env : Environment) (receiver? : Option Ty) (target : Signature) (observed : List (Ty × Ty))
    (types : List Ty) : Prop :=
  ∀ j < target.generics.length, ∃ t, types[j]? = some t ∧
    ((shownFor env receiver? target observed j).foldl (Candidates.add env.declarations env.context)
      .unseen).result = .ok t

theorem inferredFrom_of_inferGenericArguments
    (hrun : (inferGenericArguments visit target receiver? arguments).runIn env s = (.ok types, s')) :
    ∃ observed, (observeArguments visit target arguments).runIn env s = (.ok observed, s') ∧
      InferredFrom env receiver? target observed types := by
  unfold inferGenericArguments at hrun
  rw [runIn_bind, runIn_read] at hrun
  dsimp only at hrun
  obtain ⟨all, s₁, hcollect, hinfer⟩ := runIn_bind_ok.mp hrun
  have hlen : all.length = target.generics.length := length_of_collectCandidates hcollect
  rw [runIn_collectCandidates] at hcollect
  obtain ⟨observed, hobserve, hall⟩ := runIn_map_ok.mp hcollect
  obtain ⟨rfl, -⟩ := runIn_mapM_ok_of_keeps (P := fun _ => True)
    (fun q _ s t s' hq => ⟨(inferredArgument_ok hq).1, trivial⟩) hinfer
  have hresults : all.map Candidates.result = types.map .ok := by
    have h := forall₂_of_runIn_mapM_ok (P := fun q t => q.2.result = .ok t)
      (fun q _ s t s' hq => (inferredArgument_ok hq).2.1) hinfer
    rw [← List.forall₂_eq_eq_eq, List.forall₂_map_left_iff, List.forall₂_map_right_iff,
      ← List.map_snd_zip hlen.le, List.forall₂_map_left_iff]
    exact h
  refine ⟨observed, hobserve, fun j hj => ?_⟩
  have hj' : all[j]? = some ((shownFor env receiver? target observed j).foldl
      (Candidates.add env.declarations env.context) .unseen) := by
    rw [← hall, collectThrough_eq, Candidates.getElem?_addFound, List.getElem?_map, List.getElem?_eq_getElem hj]
    rfl
  have hresult := congrArg (·[j]?) hresults
  simp only [List.getElem?_map, hj', Option.map_some] at hresult
  obtain ⟨t, ht, hok⟩ := Option.map_eq_some_iff.mp hresult.symm
  exact ⟨t, ht, hok.symm⟩

/-- As far as types of nodes go, arguments that were not written are inferred and nothing else is done. -/
theorem exists_of_ensureGenericArguments (harguments : (s.body.arena.get slot).kind.arguments? = some arguments)
    (hwritten : arguments.written = []) (hgeneric : target.isGeneric = true)
    (hrun : (ensureGenericArguments visit slot receiver? target).runIn env s = (.ok types, s')) :
    ∃ s₁, (inferGenericArguments visit target receiver? arguments).runIn env s = (.ok types, s₁) ∧
      ∀ x, (s'.body.arena.get x).type? = (s₁.body.arena.get x).type? := by
  unfold ensureGenericArguments at hrun
  obtain ⟨found, s₀, hfound, hrun⟩ := runIn_bind_ok.mp hrun
  obtain ⟨hkind, rfl⟩ := runIn_argumentsOf_ok hfound
  obtain rfl : arguments = found := Option.some.inj (harguments.symm.trans hkind)
  simp only [hwritten, List.isEmpty_nil, Bool.not_true, Bool.false_eq_true, if_false, hgeneric, if_true] at hrun
  obtain ⟨inferred, s₁, hinfer, hkeep⟩ := runIn_bind_ok.mp hrun
  obtain rfl := eq_of_keepGenericArguments hkeep
  refine ⟨s₁, hinfer, fun x => ?_⟩
  rw [runIn_bind, runIn_modifyKind] at hkeep
  obtain ⟨-, rfl⟩ := Prod.mk.inj hkeep
  show ((s₁.body.arena.modify slot _).get x).type? = _
  rw [Arena.get_modify]
  split
  next hx => rw [hx.1]
  next => rfl

theorem operands_eq_of_arguments? {a : Arena} (ha : a.HoldsNodesOf a₀) (hslot : slot < a₀.size)
    (h : (a.get slot).kind.arguments? = some arguments) :
    (a.get slot).kind.operands = (a₀.get slot).kind.operands := by
  rcases ha.holds slot hslot with hb | ⟨-, inner, op, hk⟩
  · exact Expr.operands_eq_of_bare_eq hb
  · simp [hk, ExprKind.arguments?] at h

end Analysis

open Analysis

/-! ### Checking inferred arguments -/

/--
A value of one type meets an expected one in a box: its type is below the expected one, nothing
prevents it from being held in a box, and wherever the node of an argument has that type,
checking the argument comes to this.
-/
structure MeetsInBox (env : Environment) (arg : Slot) (actual expected : Ty) : Prop where
  isSubtype_eq : env.declarations.isSubtype env.context actual expected = true
  exists_comply : ∀ s, ∃ t s', (comply actual { type := expected } arg).runIn env s = (.ok t, s') ∧
    t.storage = .box
  runIn_expectType : ∀ s : AnalysisState, (s.body.arena.get arg).type? = some actual →
    (expectType analyseExpr expected arg).runIn env s = (comply actual { type := expected } arg).runIn env s

theorem Expectation.compliance_ne_refused_of_box {e : Expectation} {actual : Ty} (h : e.target actual = .box) :
    e.compliance actual ≠ .refused := by
  unfold compliance
  split
  · nofun
  split
  · nofun
  · unfold storageCompliance boxToBox simpleToBox
    rw [h]
    cases actual.storage <;> dsimp only <;> repeat' split
    all_goals nofun

section

variable {env : Environment} {arg : Slot} {actual expected : Ty}

/-- Values of lesser types meet what is held in a box. -/
theorem meetsInBox (ha : actual.mentionsError = false) (hbox : expected.storage = .box)
    (hsub : env.declarations.isSubtype env.context actual expected = true) :
    MeetsInBox env arg actual expected where
  isSubtype_eq := hsub
  exists_comply s := by
    have htarget : ({ type := expected } : Expectation).target actual = .box := hbox
    have herror : (actual.isError || expected.isError) = false := by
      rw [Ty.isError_eq_false ha]
      simpa [Ty.isError] using Ty.ne_error_of_storage hbox
    have hw := Declarations.widens_of_isSubtype hsub
    cases hc : ({ type := expected } : Expectation).compliance actual with
    | asIs t =>
        have hfinal := final_compliance hw herror (by rw [hc]; rfl)
        exact ⟨t, s, runIn_comply_asIs hc, hfinal.storage_eq.trans htarget⟩
    | convert op t =>
        have hfinal := final_compliance hw herror (by rw [hc]; rfl)
        exact ⟨t, _, runIn_comply_convert hc, hfinal.storage_eq.trans htarget⟩
    | refused => exact (Expectation.compliance_ne_refused_of_box htarget hc).elim
  runIn_expectType s hs := by
    unfold expectType expect
    rw [runIn_bind, runIn_analyseExpr_of_typed hs]
    dsimp only
    rw [runIn_bind, runIn_spanOf]
    dsimp only
    rw [runIn_bind, runIn_requireSubtype_of_isSubtype hsub]

end

/-- The parameters that mention generic parameters of the function are these, under any number of optionals. -/
def Signature.TakesVariables (f : Signature) : Prop :=
  ∀ param ∈ f.params, param.type.mentionsLocalGenerics = true →
    ∃ k j name, param.type = Ty.optional^[k] (.localGeneric j name) ∧ j < f.generics.length

namespace Analysis

variable {env : Environment} {s s' : AnalysisState} {slot : Slot} {target : Signature}
  {receiver? : Option Ty} {arguments : Arguments} {types : List Ty} {a₀ : Arena}

theorem instantiate_optional_iterate (c : GenericContext) {j : Nat} {r : Ty} (h : c.args[j]? = some r) (k : Nat)
    (name : String) : c.instantiate (Ty.optional^[k] (.localGeneric j name)) = Ty.optional^[k] r.inBox := by
  rw [GenericContext.instantiate, Ty.subst_optional_iterate, Ty.subst]
  simp [h]

theorem pairwise_zip {α β : Type} {R : β → β → Prop} {l : List α} {m : List β} (h : m.Pairwise R) :
    (l.zip m).Pairwise fun p q => R p.2 q.2 := by
  refine List.pairwise_iff_getElem.mpr fun i j hi hj hij => ?_
  rw [List.length_zip] at hi hj
  simpa using List.pairwise_iff_getElem.mp h i j (by omega) (by omega) hij

/-- What an argument shows for a parameter that is a variable under optionals. -/
theorem found_instantiate_optional_iterate (k j : Nat) (name : String) (t : Ty) :
    Ty.found ((env.calleeContext receiver? target).instantiate (Ty.optional^[k] (.localGeneric j name))) t =
      [(j, Ty.content^[k] t)] := by
  rw [instantiate_eq_subst, Ty.subst_optional_iterate]
  exact (Ty.found_optional_iterate k _ t).trans (Ty.found_localGeneric j name _)

/-- What is noted of an argument whose parameter is a variable under optionals. -/
structure ShowsVariable (d : Declarations) (generics : Nat) (o : Ty × Ty) : Prop where
  exists_optional : ∃ k j name, o.1 = Ty.optional^[k] (.localGeneric j name) ∧ j < generics
  isJoinable : d.IsJoinable o.2.erased

theorem isJoinable_of_mem_shownFor {observed : List (Ty × Ty)}
    (hobserved : ∀ o ∈ observed, ShowsVariable env.declarations target.generics.length o) {j : Nat} {t : Ty}
    (ht : t ∈ shownFor env receiver? target observed j) : env.declarations.IsJoinable t.erased := by
  obtain ⟨o, ho, hfound⟩ := mem_shownFor.mp ht
  obtain ⟨k, i, name, hshape, -⟩ := (hobserved o ho).exists_optional
  rw [hshape, found_instantiate_optional_iterate] at hfound
  obtain ⟨-, rfl⟩ := Prod.mk.inj (List.mem_singleton.mp hfound)
  exact (hobserved o ho).isJoinable.content_iterate k

/-- The types of the arguments are below the instance that is inferred from them, which is held in boxes. -/
theorem InferredFrom.isSubtype_instance (hd : env.declarations.IsAcyclic)
    (hmarks : env.declarations.EverySuperclass fun _ => Ty.IsUnmarked) {observed : List (Ty × Ty)}
    (hobserved : ∀ o ∈ observed, ShowsVariable env.declarations target.generics.length o)
    (h : InferredFrom env receiver? target observed types) {o : Ty × Ty} (ho : o ∈ observed) :
    let expected := ({ env.calleeContext receiver? target with args := types } : GenericContext).instantiate o.1
    env.declarations.isSubtype env.context o.2 expected = true ∧ expected.storage = .box := by
  intro expected
  obtain ⟨k, j, name, hshape, hj⟩ := (hobserved o ho).exists_optional
  obtain ⟨r, hr, hresult⟩ := h j hj
  obtain ⟨hrjoin, hbelow⟩ := Candidates.below_of_result hd hmarks
    (fun t ht => isJoinable_of_mem_shownFor hobserved ht) hresult
  have hcandidate : env.declarations.Below env.context (Ty.content^[k] o.2).erased r := by
    refine hbelow _ (mem_shownFor.mpr ⟨o, ho, ?_⟩)
    rw [hshape, found_instantiate_optional_iterate]
    exact List.mem_singleton_self _
  have hexpected : expected = Ty.optional^[k] r.inBox := by
    show GenericContext.instantiate _ o.1 = _
    rw [hshape]
    exact instantiate_optional_iterate _ hr k name
  constructor
  · rw [Declarations.isSubtype_iff, hexpected, Ty.erased_optional_iterate, Ty.erased_inBox, hrjoin.erased_eq]
    exact Declarations.below_optional_iterate k hcandidate
  · rw [hexpected]
    refine Ty.storage_optional_iterate k (Ty.storage_inBox ?_)
    rintro rfl
    exact hrjoin.error_notMem (Ty.mem_parts_self _)

theorem checkArguments_eq (view : Ty → Ty) : checkArguments analyseExpr view target arguments = (do
    (target.params.zip arguments.args).forM (checkArgument view)
    return view target.ret) := rfl

theorem exists_of_runIn_forM_error {α : Type} {l : List α} {step : α → Analysis Unit} {e : SemanticError}
    (h : (l.forM step).runIn env s = (.error e, s')) :
    ∃ before a after s₁, l = before ++ a :: after ∧ (before.forM step).runIn env s = (.ok (), s₁) ∧
      (step a).runIn env s₁ = (.error e, s') := by
  induction l generalizing s with
  | nil => cases h
  | cons a l ih =>
      replace h : (step a >>= fun _ => l.forM step).runIn env s = (.error e, s') := h
      rw [runIn_bind] at h
      rcases ha : (step a).runIn env s with ⟨e' | ⟨⟩, s₁⟩ <;> rw [ha] at h
      · exact ⟨[], a, l, s, rfl, rfl, ha.trans h⟩
      · obtain ⟨before, b, after, s₂, rfl, hbefore, hb⟩ := ih h
        refine ⟨a :: before, b, after, s₂, rfl, ?_, hb⟩
        show (step a >>= fun _ => before.forM step).runIn env s = _
        rw [runIn_bind, ha]
        exact hbefore

section Call

variable {roots : List Slot} {k : Nat} (hf : a₀.IsForest roots) (hslot : a₀.Level roots k slot)
  (ha : s.body.arena.HoldsNodesOf a₀) (harguments : (s.body.arena.get slot).kind.arguments? = some arguments)
include hf hslot ha harguments

theorem lt_size_of_mem_zip_args (q : Param × Slot) (hq : q ∈ target.params.zip arguments.args) :
    q.2 < a₀.size := by
  have hmem : q.2 ∈ (s.body.arena.get slot).kind.operands :=
    ExprKind.args_subset_operands harguments (List.of_mem_zip hq).2
  rw [operands_eq_of_arguments? ha (hf.lt_size_of_level hslot) harguments] at hmem
  exact hf.inRange slot (hf.lt_size_of_level hslot) q.2 hmem

theorem pairwise_zip_args : (target.params.zip arguments.args).Pairwise
    fun p q => ¬ a₀.Reaches p.2 q.2 ∧ ¬ a₀.Reaches q.2 p.2 := by
  have hsub : arguments.args.Sublist (a₀.get slot).kind.operands := by
    rw [← operands_eq_of_arguments? ha (hf.lt_size_of_level hslot) harguments]
    exact ExprKind.args_sublist_operands harguments
  exact pairwise_zip ((hf.pairwise_operands hslot).sublist hsub)

variable {s₁ : AnalysisState} (hd : env.declarations.IsAcyclic)
  (hmarks : env.declarations.EverySuperclass fun _ => Ty.IsUnmarked) (htarget : target.TakesVariables)
  (hwritten : arguments.written = [])
  (hrun : (ensureGenericArguments analyseExpr slot receiver? target).runIn env s = (.ok types, s₁))
  (htypes : ∀ q ∈ target.params.zip arguments.args, q.1.type.mentionsLocalGenerics = true →
    ∀ t, (s₁.body.arena.get q.2).type? = some t →
      t.mentionsError = false ∧ env.declarations.InheritsClasses t.erased)
include hd hmarks htarget hwritten hrun htypes

/-- An argument keeps its type until it is checked, and then it meets the inferred instance in a box. -/
theorem exists_meetsInBox {before after : List (Param × Slot)} {param : Param} {arg : Slot}
    (hzip : target.params.zip arguments.args = before ++ (param, arg) :: after)
    (hmentions : param.type.mentionsLocalGenerics = true) :
    let c : GenericContext := { env.calleeContext receiver? target with args := types }
    ∃ actual, (s₁.body.arena.get arg).type? = some actual ∧
      MeetsInBox env arg actual (c.instantiate param.type) ∧
      ∀ s₂, (before.forM (checkArgument c.instantiate)).runIn env s₁ = (.ok (), s₂) →
        (s₂.body.arena.get arg).type? = some actual := by
  intro c
  have hmem : (param, arg) ∈ target.params.zip arguments.args := by simp [hzip]
  have hlt : ∀ q ∈ target.params.zip arguments.args, q.2 < a₀.size :=
    lt_size_of_mem_zip_args hf hslot ha harguments
  have hapart : (target.params.zip arguments.args).Pairwise fun p q =>
      ¬ a₀.Reaches p.2 q.2 ∧ ¬ a₀.Reaches q.2 p.2 := pairwise_zip_args hf hslot ha harguments
  have hgeneric : target.isGeneric = true := by
    obtain ⟨-, j, -, -, hj⟩ := htarget param (List.of_mem_zip hmem).1 hmentions
    cases hg : target.generics with
    | nil => simp [hg] at hj
    | cons => simp [Signature.isGeneric, hg]
  obtain ⟨s₂, hinfer, hsame⟩ := exists_of_ensureGenericArguments harguments hwritten hgeneric hrun
  obtain ⟨observed, hobserve, hinferred⟩ := inferredFrom_of_inferGenericArguments hinfer
  have hnoted := map_type?_of_observeArgument hf.inRange (fun q hq => hlt q (List.mem_filter.mp hq).1)
    (hapart.filter _) ha (observeArguments_eq ▸ hobserve)
  simp only [← hsame] at hnoted
  have hobserved : ∀ o ∈ observed, ShowsVariable env.declarations target.generics.length o := by
    intro o ho
    obtain ⟨q, hq, heq⟩ := List.mem_map.mp (hnoted ▸ List.mem_map.mpr ⟨o, ho, rfl⟩)
    obtain ⟨hfst, hsnd⟩ := Prod.mk.inj heq
    obtain ⟨hq, hqmentions⟩ := List.mem_filter.mp hq
    obtain ⟨he, hinherits⟩ := htypes q hq hqmentions _ hsnd
    have hshape := htarget q.1 (List.of_mem_zip hq).1 hqmentions
    exact ⟨hfst ▸ hshape, Ty.erased_erased _, Ty.error_notMem_parts (by simpa using he), hinherits⟩
  have hfiltered : (param, arg) ∈ (target.params.zip arguments.args).filter
      (·.1.type.mentionsLocalGenerics) := List.mem_filter.mpr ⟨hmem, hmentions⟩
  obtain ⟨o, ho, heq⟩ := List.mem_map.mp (hnoted ▸ List.mem_map.mpr ⟨_, hfiltered, rfl⟩)
  obtain ⟨hparam, htype⟩ := Prod.mk.inj heq
  obtain ⟨hsub, hbox⟩ := hinferred.isSubtype_instance hd hmarks hobserved ho
  rw [hparam] at hsub hbox
  obtain ⟨he, -⟩ := htypes _ hmem hmentions _ htype.symm
  refine ⟨o.2, htype.symm, meetsInBox he hbox hsub, fun s₃ hbefore => ?_⟩
  -- What is checked before is apart from the argument.
  rw [hzip] at hlt hapart
  have hregion : a₀.IsRegion (· < a₀.size) := hf.inRange.isRegion
  have ha₁ : s₁.body.arena.HoldsNodesOf a₀ := holdsNodes_of_walks hregion ha
    (walks_ensureGenericArguments hregion (walks_analyseExpr hregion) (hf.lt_size_of_level hslot)
      receiver? target) hrun
  rw [get_eq_of_checkArgument hf.inRange (fun q hq => hlt q (List.mem_append_left _ hq)) ha₁ hbefore
    (hlt (param, arg) (by simp)) fun q hq => ((List.pairwise_append.mp hapart).2.2 q hq _ List.mem_cons_self).1]
  exact htype.symm

/--
Where the generic arguments of a call were inferred, and the parameters that mention them are
these alone under any number of optionals, the arguments of those parameters meet the
inferred instance in boxes: each keeps its type until it is checked, and then the check
succeeds.  So what the check of all arguments fails at is an argument of another parameter.
-/
theorem checkArguments_of_ensureGenericArguments :
    let c : GenericContext := { env.calleeContext receiver? target with args := types }
    (∀ before param arg after, target.params.zip arguments.args = before ++ (param, arg) :: after →
      param.type.mentionsLocalGenerics = true →
      ∃ actual, (s₁.body.arena.get arg).type? = some actual ∧
        MeetsInBox env arg actual (c.instantiate param.type) ∧
        ∀ s₂, (before.forM (checkArgument c.instantiate)).runIn env s₁ = (.ok (), s₂) →
          (s₂.body.arena.get arg).type? = some actual) ∧
    ∀ e s₂, (checkArguments analyseExpr c.instantiate target arguments).runIn env s₁ = (.error e, s₂) →
      ∃ before param arg after s₃, target.params.zip arguments.args = before ++ (param, arg) :: after ∧
        param.type.mentionsLocalGenerics = false ∧
        (before.forM (checkArgument c.instantiate)).runIn env s₁ = (.ok (), s₃) ∧
        (checkArgument c.instantiate (param, arg)).runIn env s₃ = (.error e, s₂) := by
  intro c
  refine ⟨fun before param arg after hzip hmentions =>
    exists_meetsInBox hf hslot ha harguments hd hmarks htarget hwritten hrun htypes hzip hmentions, ?_⟩
  intro e s₂ hfail
  have hloop : ((target.params.zip arguments.args).forM (checkArgument c.instantiate)).runIn env s₁ =
      (.error e, s₂) := by
    rw [checkArguments_eq, runIn_bind] at hfail
    rcases hchecks : ((target.params.zip arguments.args).forM (checkArgument c.instantiate)).runIn env s₁
      with ⟨e' | ⟨⟩, s'⟩ <;> rw [hchecks] at hfail
    · rw [← (Prod.mk.inj hfail).2, Except.error.inj (Prod.mk.inj hfail).1]
    · cases hfail
  obtain ⟨before, ⟨param, arg⟩, after, s₃, hzip, hbefore, hstep⟩ := exists_of_runIn_forM_error hloop
  refine ⟨before, param, arg, after, s₃, hzip, Bool.eq_false_iff.mpr fun hmentions => ?_, hbefore, hstep⟩
  obtain ⟨actual, -, hmeets, hkept⟩ :=
    exists_meetsInBox hf hslot ha harguments hd hmarks htarget hwritten hrun htypes hzip hmentions
  obtain ⟨t, s', hcomply, -⟩ := hmeets.exists_comply s₃
  have hok : (checkArgument c.instantiate (param, arg)).runIn env s₃ = (.ok (), s') :=
    runIn_discard_ok.mpr ⟨t, (hmeets.runIn_expectType s₃ (hkept s₃ hbefore)).trans hcomply⟩
  rw [hok] at hstep
  cases (Prod.mk.inj hstep).1

end Call

end Analysis

def choosePackage : Package where
  declarations := .shapes
  functions := [
    { name := "choose", generics := [⟨"T", .something⟩],
      params := [⟨"first", .optional (.optional (.localGeneric 0 "T"))⟩, ⟨"times", .int⟩,
        ⟨"second", .localGeneric 0 "T"⟩] },
    { name := "main", params := [⟨"shape", .optional (.object "Shape" [])⟩, ⟨"square", .object "Square" []⟩] }]

/-- `choose(shape, 2, square)` -/
def callChoose : Body where
  arena := { nodes := #[
    { span := ⟨0, 1⟩, kind := .localRef ⟨"shape", ⟨0, 1⟩⟩ none },
    { span := ⟨10, 1⟩, kind := .int 2 },
    { span := ⟨20, 1⟩, kind := .localRef ⟨"square", ⟨20, 1⟩⟩ none },
    { span := ⟨30, 1⟩, kind := .call ⟨"choose", ⟨30, 1⟩⟩ { span := ⟨30, 1⟩, args := [0, 1, 2] } none }] }
  stmts := [.expr 3]

theorem isFresh_callChoose : callChoose.IsFresh := by
  decide

theorem takesVariables_choose : (choosePackage.signature 0).TakesVariables := by
  intro param hparam hmentions
  rcases (by simpa [choosePackage, Package.signature] using hparam) with rfl | rfl | rfl
  · exact ⟨2, 0, "T", rfl, Nat.one_pos⟩
  · cases hmentions
  · exact ⟨0, 0, "T", rfl, Nat.one_pos⟩

/-- A shape is inferred, and the optional shape and the square are taken for it. -/
theorem meetsInBox_choose :
    let env : Environment := { package := choosePackage, function := choosePackage.signature 1 }
    let ensuring := ensureGenericArguments analyseExpr 3 none (choosePackage.signature 0)
    (ensuring.runIn env (.start env.function callChoose [])).1.toOption = some [.object "Shape" []] ∧
      MeetsInBox env 0 (.optional (.object "Shape" []))
        (.optional (.optional (.boxed (.object "Shape" [])))) ∧
      MeetsInBox env 2 (.object "Square" []) (.boxed (.object "Shape" [])) := by
  intro env ensuring
  have hd : env.declarations.IsAcyclic := Declarations.isAcyclic_shapes
  have hmarks : env.declarations.EverySuperclass fun _ => Ty.IsUnmarked :=
    Declarations.everySuperclass_of_mem (d := .shapes)
      (by simp [Declarations.shapes, Ty.Every, Ty.EveryAll, Ty.IsUnmarked])
  have hinherits : ∀ t, env.declarations.InheritsClasses t :=
    Declarations.inheritsClasses_of_superclasses (d := .shapes) (by simp [Declarations.shapes])
  have hargs : (ensuring.runIn env (.start env.function callChoose [])).1.toOption = some [.object "Shape" []] := by
    decide +kernel
  have hnodes : (List.range 3).map (fun x =>
      ((ensuring.runIn env (.start env.function callChoose [])).2.body.arena.get x).type?) =
        [some (.optional (.object "Shape" [])), none, some (.object "Square" [])] := by
    decide +kernel
  rcases hrun : ensuring.runIn env (.start env.function callChoose []) with ⟨_ | types, s₁⟩ <;>
    rw [hrun] at hargs hnodes
  · cases hargs
  obtain rfl : types = [.object "Shape" []] := Option.some.inj hargs
  obtain ⟨hfirst, -, hsecond⟩ : (s₁.body.arena.get 0).type? = some (.optional (.object "Shape" [])) ∧
      (s₁.body.arena.get 1).type? = none ∧ (s₁.body.arena.get 2).type? = some (.object "Square" []) := by
    simpa [List.range_succ] using hnodes
  have harguments : ((AnalysisState.start env.function callChoose []).body.arena.get 3).kind.arguments? =
      some { span := ⟨30, 1⟩, args := [0, 1, 2] } := rfl
  have hmeets := checkArguments_of_ensureGenericArguments isFresh_callChoose.isForest
    (.root List.mem_cons_self) (.refl _) harguments hd hmarks takesVariables_choose rfl hrun ?_
  · obtain ⟨actual, htype, hmeets₀, -⟩ := hmeets.1 [] _ _ _ rfl rfl
    obtain rfl := Option.some.inj (htype.symm.trans hfirst)
    obtain ⟨actual, htype, hmeets₂, -⟩ := hmeets.1 [_, _] _ _ _ rfl rfl
    obtain rfl := Option.some.inj (htype.symm.trans hsecond)
    exact ⟨rfl, hmeets₀, hmeets₂⟩
  · intro q hq hmentions t ht
    have hmem : q = (⟨"first", .optional (.optional (.localGeneric 0 "T"))⟩, 0) ∨ q = (⟨"times", .int⟩, 1) ∨
        q = (⟨"second", .localGeneric 0 "T"⟩, 2) := by
      simpa [choosePackage, Package.signature] using hq
    rcases hmem with rfl | rfl | rfl
    · obtain rfl := Option.some.inj (ht.symm.trans hfirst)
      exact ⟨rfl, hinherits _⟩
    · cases hmentions
    · obtain rfl := Option.some.inj (ht.symm.trans hsecond)
      exact ⟨rfl, hinherits _⟩

def wrapperPackage : Package where
  declarations := .wrappers
  functions := [
    { name := "pair", generics := [⟨"T", .something⟩],
      params := [⟨"a", .localGeneric 0 "T"⟩, ⟨"b", .localGeneric 0 "T"⟩] },
    { name := "main", params := [⟨"wrapper", .object "Wrapper" [.int]⟩, ⟨"number", .int⟩] }]

/-- `pair(wrapper, number)` -/
def callPairOfWrapper : Body where
  arena := { nodes := #[
    { span := ⟨0, 1⟩, kind := .localRef ⟨"wrapper", ⟨0, 1⟩⟩ none },
    { span := ⟨10, 1⟩, kind := .localRef ⟨"number", ⟨10, 1⟩⟩ none },
    { span := ⟨20, 1⟩, kind := .call ⟨"pair", ⟨20, 1⟩⟩ { span := ⟨20, 1⟩, args := [0, 1] } none }] }
  stmts := [.expr 2]

def sharedPackage : Package where
  declarations := .shapes
  functions := [
    { name := "repeat", generics := [⟨"T", .something⟩],
      params := [⟨"times", .int⟩, ⟨"value", .localGeneric 0 "T"⟩] },
    { name := "count", params := [⟨"drawn", .protocol "Drawn"⟩], ret := .int },
    { name := "main", params := [⟨"square", .object "Square" []⟩] }]

/-- `repeat(count(square), square)`, where one node stands for both squares. -/
def callRepeatShared : Body where
  arena := { nodes := #[
    { span := ⟨0, 1⟩, kind := .localRef ⟨"square", ⟨0, 1⟩⟩ none },
    { span := ⟨10, 1⟩, kind := .call ⟨"count", ⟨10, 1⟩⟩ { span := ⟨10, 1⟩, args := [0] } none },
    { span := ⟨20, 1⟩, kind := .call ⟨"repeat", ⟨20, 1⟩⟩ { span := ⟨20, 1⟩, args := [1, 0] } none }] }
  stmts := [.expr 2]

/--
What a wrapper extends without being a class above it is inferred where a wrapper and its content
are given, and the wrapper is refused.  So is an argument that has become another type because
an argument before it contains it.
-/
theorem not_isSubtype_inferred :
    (let env : Environment := { package := wrapperPackage, function := wrapperPackage.signature 1 }
      let target := wrapperPackage.signature 0
      let ensured := (ensureGenericArguments analyseExpr 2 none target).runIn env
        (.start env.function callPairOfWrapper [])
      let view := ({ env.calleeContext none target with args := [.int] } : GenericContext).instantiate
      let types := [Ty.object "Wrapper" [.int], .int]
      env.declarations.IsAcyclic ∧ (env.declarations.EverySuperclass fun _ => Ty.IsUnmarked) ∧
        env.context.WellConstrained ∧ target.TakesVariables ∧
        (∀ t ∈ types, t.mentionsError = false ∧ t.Every Ty.IsMarkedOnce) ∧
        ensured.1.toOption = some [.int] ∧
        ([0, 1].map fun x => (ensured.2.body.arena.get x).type?) = types.map some ∧
        env.declarations.isSubtype env.context (.object "Wrapper" [.int]) (view (.localGeneric 0 "T")) = false ∧
        ((expectType analyseExpr (view (.localGeneric 0 "T")) 0).runIn env ensured.2).1.toOption = none) ∧
    (let env : Environment := { package := sharedPackage, function := sharedPackage.signature 2 }
      let square : Ty := .object "Square" []
      let target := sharedPackage.signature 0
      let ensured := (ensureGenericArguments analyseExpr 2 none target).runIn env
        (.start env.function callRepeatShared [])
      let view := ({ env.calleeContext none target with args := [square] } : GenericContext).instantiate
      let checked := (expectType analyseExpr (view .int) 1).runIn env ensured.2
      ensured.1.toOption = some [square] ∧ (ensured.2.body.arena.get 0).type? = some square ∧
        checked.1.toOption = some .int ∧ (checked.2.body.arena.get 0).type? = some (.protocol "Drawn") ∧
        env.declarations.isSubtype env.context (.protocol "Drawn") (view (.localGeneric 0 "T")) = false ∧
        ((expectType analyseExpr (view (.localGeneric 0 "T")) 0).runIn env checked.2).1.toOption = none) := by
  refine ⟨⟨Declarations.isAcyclic_wrappers, ?_, ?_, ?_, ?_, by decide +kernel, by decide +kernel,
    by decide +kernel, by decide +kernel⟩, by decide +kernel⟩
  · exact Declarations.everySuperclass_of_mem (d := .wrappers)
      (by simp [Declarations.wrappers, Ty.Every, Ty.IsUnmarked])
  · exact GenericContext.wellConstrained_of_mem (by decide) (by decide)
  · intro param hparam _
    rcases (by simpa [wrapperPackage, Package.signature] using hparam) with rfl | rfl
    all_goals exact ⟨0, 0, "T", rfl, Nat.one_pos⟩
  · simp [Ty.mentionsError, Ty.anyMentionsError, Ty.Every, Ty.EveryAll, Ty.IsMarkedOnce]

end Boxlang
