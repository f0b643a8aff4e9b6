import Boxlang.Proofs.Analysis.Walk
import Boxlang.Proofs.Conversion.Compliance
import Boxlang.Proofs.Elaboration.State

/-!
# Analysing one expression

What it means that a step of analysis has typed the expression in a slot
(`AnalysisState.Analysed`), and that making its value meet an expectation keeps it so.
The nodes of such an expression are its own ones, as far as the original arena goes,
and nodes that were moved (`Settled`).  So later edits of other expressions leave it
alone.
-/

namespace Boxlang

open Conversion

/--
An elaborated expression with all nodes that it had in `a₀`, which shares none with
other expressions of `a₀`.
-/
structure Settled (p : Package) (a₀ : Arena) (Γ : Context) (a : Arena) (slot : Slot) : Prop where
  elaborated : Elaborated p a Γ slot
  covers : ∀ x, a₀.Reaches slot x → a.Reaches slot x
  within : ∀ x, a.Reaches slot x → a₀.Reaches slot x ∨ a₀.size ≤ x

namespace Settled

variable {p : Package} {a₀ a b : Arena} {Γ : Context} {slot : Slot} {W : Slot → Prop}

/-- Edits of other expressions leave the nodes of a settled one alone. -/
theorem get_eq_of_edits (h : Settled p a₀ Γ a slot) (hab : Arena.Edits W a b)
    (hW : ∀ x, W x → x < a₀.size) (hle : a₀.size ≤ a.size)
    (hdisj : ∀ x, W x → ¬ a₀.Reaches slot x) : ∀ x, a.Reaches slot x → b.get x = a.get x := by
  intro x hx
  obtain ⟨Δ, hΔ⟩ := h.elaborated.nodeOk_of_reaches hx
  refine hab.get_of_not (fun y hy => Nat.lt_of_lt_of_le (hW y hy) hle) hΔ.lt_size fun hw => ?_
  rcases h.within x hx with hin | hge
  · exact hdisj x hw hin
  · exact Nat.not_lt_of_le hge (hW x hw)

theorem congr (h : Settled p a₀ Γ a slot) (hab : ∀ x, a.Reaches slot x → b.get x = a.get x) :
    Settled p a₀ Γ b slot :=
  ⟨h.elaborated.congr hab, fun x hx => (Arena.reaches_congr hab).mpr (h.covers x hx),
    fun x hx => h.within x ((Arena.reaches_congr hab).mp hx)⟩

theorem mentionsError_eq (h : Settled p a₀ Γ a slot) : (a.typeAt slot).mentionsError = false :=
  h.elaborated.nodeOk.mentionsError_eq

/-- A node that fits its settled operands is settled. -/
theorem node {e : Expr} {t : Ty} (hb : b.get slot = { e with type? := some t })
    (hops : ∀ c ∈ e.kind.operands, Settled p a₀ (Γ.under e.kind t) b c)
    (hform : FormOk p b Γ e.kind t) (ht : t.mentionsError = false)
    (heq : e.kind.operands = (a₀.get slot).kind.operands) : Settled p a₀ Γ b slot := by
  have hkind : (b.get slot).kind = e.kind := by rw [hb]
  have htype : b.typeAt slot = t := Arena.typeAt_of_type? (by rw [hb])
  refine ⟨.intro ⟨by rw [hb, htype], htype ▸ ht, ?_⟩ fun c hc => ?_, fun x hx => ?_,
    fun x hx => ?_⟩
  · rwa [hkind, htype]
  · rw [hkind] at hc ⊢
    rw [htype]
    exact (hops c hc).elaborated
  · rcases Arena.reaches_iff.mp hx with rfl | ⟨c, hc, hreach⟩
    · exact .refl b x
    · rw [← heq] at hc
      exact .head (by rwa [hkind]) ((hops c hc).covers x hreach)
  · rcases Arena.reaches_iff.mp hx with rfl | ⟨c, hc, hreach⟩
    · exact .inl (.refl a₀ x)
    · rw [hkind] at hc
      rcases (hops c hc).within x hreach with hin | hge
      · exact .inl (.head (heq ▸ hc) hin)
      · exact .inr hge

section Convert

variable (h : Settled p a₀ Γ a slot) {op : Conversion} {t : Ty}
include h

theorem get_convert_of_mem : ∀ c ∈ (a.get slot).kind.operands, ∀ x, a.Reaches c x →
    (a.convert slot op t).2.get x = a.get x := by
  intro c hc x hx
  obtain ⟨Δ, hΔ⟩ := h.elaborated.nodeOk_of_reaches (.head hc hx)
  rw [Arena.get_convert a h.elaborated.lt_size hΔ.lt_size, if_neg]
  rintro rfl
  exact h.elaborated.not_reaches_of_mem c hc hx

theorem kind_convert : ((a.convert slot op t).2.get slot).kind = .conversion a.size op := by
  rw [Arena.get_convert a h.elaborated.lt_size h.elaborated.lt_size, if_pos rfl]
  rfl

theorem typeAt_convert : (a.convert slot op t).2.typeAt slot = t := by
  refine Arena.typeAt_of_type? ?_
  rw [Arena.get_convert a h.elaborated.lt_size h.elaborated.lt_size, if_pos rfl]
  rfl

theorem reads_convert (id : VariableId) :
    (a.convert slot op t).2.Reads slot id ↔ a.Reads slot id := by
  have hfresh : (a.convert slot op t).2.Reads a.size id ↔ a.Reads slot id := by
    rw [Arena.reads_iff, Arena.reads_iff, Arena.get_convert_fresh]
    refine or_congr_right (exists_congr fun c => and_congr_right fun hc => ?_)
    exact Arena.reads_congr (h.get_convert_of_mem c hc) id
  rw [Arena.reads_iff, h.kind_convert, ← hfresh]
  simp [ExprKind.operands]

theorem convert (hplain : ¬ (a.get slot).IsConversion)
    (hop : op.IsSound p.declarations (a.typeAt slot) t) (ht : t.mentionsError = false)
    (hle : a₀.size ≤ a.size) : Settled p a₀ Γ (a.convert slot op t).2 slot := by
  have hfresh := Arena.get_convert_fresh a slot op t
  have hmoved : Elaborated p (a.convert slot op t).2 Γ a.size :=
    h.elaborated.moved hfresh h.get_convert_of_mem
  have hform : FormOk p (a.convert slot op t).2 Γ (.conversion a.size op) t := by
    refine .conversion (by rwa [hfresh]) ?_
    rwa [Arena.typeAt_congr hfresh]
  have hkind : ((a.convert slot op t).2.get slot).kind = .conversion a.size op := h.kind_convert
  have htype : (a.convert slot op t).2.typeAt slot = t := h.typeAt_convert
  refine ⟨.intro ⟨?_, by rwa [htype], by rwa [hkind, htype]⟩ fun c hc => ?_, fun x hx => ?_,
    fun x hx => ?_⟩
  · rw [htype, Arena.get_convert a h.elaborated.lt_size h.elaborated.lt_size, if_pos rfl]
    rfl
  · rw [hkind] at hc ⊢
    obtain rfl := List.mem_singleton.mp hc
    exact hmoved
  · rcases Arena.reaches_iff.mp (h.covers x hx) with rfl | ⟨c, hc, hreach⟩
    · exact .refl _ x
    · refine .head (by rw [hkind]; exact List.mem_singleton_self a.size) (.head ?_
        ((Arena.reaches_congr (h.get_convert_of_mem c hc)).mpr hreach))
      rwa [hfresh]
  · rcases Arena.reaches_iff.mp hx with rfl | ⟨c, hc, hreach⟩
    · exact .inl (.refl a₀ x)
    · rw [hkind] at hc
      obtain rfl := List.mem_singleton.mp hc
      rcases Arena.reaches_iff.mp hreach with rfl | ⟨c', hc', hreach'⟩
      · exact .inr hle
      · rw [hfresh] at hc'
        have hin := (Arena.reaches_congr (h.get_convert_of_mem c' hc')).mp hreach'
        exact h.within x (.head hc' hin)

end Convert

end Settled

/-! ### Analysed expressions -/

/-- An environment whose package and function do not mention the error type. -/
structure Environment.ErrorFree (env : Environment) : Prop where
  package : env.package.ErrorFree
  function : env.function.ErrorFree

theorem Environment.ErrorFree.context {env : Environment} (h : env.ErrorFree) :
    env.context.ErrorFree :=
  Signature.ErrorFree.context h.function _

namespace AnalysisState

def withArena (s : AnalysisState) (a : Arena) : AnalysisState :=
  { s with body := { s.body with arena := a } }

@[simp]
theorem arena_withArena (s : AnalysisState) (a : Arena) : (s.withArena a).body.arena = a := rfl

@[simp]
theorem scope_withArena (s : AnalysisState) (a : Arena) : (s.withArena a).scope = s.scope := rfl

/-- The step from `s` to `s'` has typed the expression in a slot as `t`. -/
structure Analysed (p : Package) (a₀ : Arena) (s : AnalysisState) (slot : Slot) (t : Ty)
    (s' : AnalysisState) : Prop where
  progress : s.Progress (a₀.Reaches slot) s'
  valid : s'.Valid a₀
  settled : Settled p a₀ s.readable s'.body.arena slot
  typeAt_eq : s'.body.arena.typeAt slot = t
  notes : s.Notes (s'.body.arena.Reads slot) s'

variable {p : Package} {a₀ : Arena} {s s' : AnalysisState} {slot : Slot} {t t' : Ty}
  {op : Conversion}

/-- Wrapping a node that is not a conversion moves a node that is not one. -/
theorem Valid.convert (hv : s.Valid a₀) (hs : slot < a₀.size)
    (hplain : ¬ (s.body.arena.get slot).IsConversion) :
    (s.withArena (s.body.arena.convert slot op t).2).Valid a₀ := by
  have hle := hv.edits.size_le
  refine hv.progress (W := (· = slot)) (.of_edits (.convert .refl rfl)) (by rintro x rfl; exact hs)
    fun x hx => ?_
  rw [arena_withArena]
  by_cases hlt : x < s.body.arena.size
  · rw [Arena.get_convert _ (Nat.lt_of_lt_of_le hs hle) hlt, if_neg (Nat.ne_of_gt (Nat.lt_of_lt_of_le hs hx))]
    exact hv.plain x hx
  · by_cases heq : x = s.body.arena.size
    · rw [heq, Arena.get_convert_fresh]
      exact hplain
    · rw [Arena.get_of_size_le _ (by rw [Arena.size_convert]; omega)]
      rintro ⟨_, _, hk⟩
      cases hk

namespace Analysed

theorem mentionsError_eq (h : s.Analysed p a₀ slot t s') : t.mentionsError = false :=
  h.typeAt_eq ▸ h.settled.mentionsError_eq

theorem convert (h : s.Analysed p a₀ slot t s') (hs : slot < a₀.size)
    (hplain : ¬ (s'.body.arena.get slot).IsConversion) (hop : op.IsSound p.declarations t t')
    (ht : t'.mentionsError = false) :
    s.Analysed p a₀ slot t' (s'.withArena (s'.body.arena.convert slot op t').2) where
  progress := h.progress.trans (.of_edits (.convert .refl (.refl a₀ slot)))
  valid := h.valid.convert hs hplain
  settled := h.settled.convert hplain (h.typeAt_eq ▸ hop) ht h.valid.edits.size_le
  typeAt_eq := h.settled.typeAt_convert
  notes := (h.notes.of_closures_eq rfl).congr h.settled.reads_convert

end Analysed

end AnalysisState

/-! ### Expectations -/

namespace Analysis

variable {env : Environment} {a₀ : Arena} {s s' : AnalysisState} {slot : Slot} {t t' : Ty}
  {e : Expectation}

theorem runIn_insertConversion (slot : Slot) (op : Conversion) (t : Ty) :
    (insertConversion slot op t).runIn env s =
      (.ok t, s.withArena (s.body.arena.convert slot op t).2) := rfl

theorem runIn_modifyKind (slot : Slot) (f : ExprKind → ExprKind) :
    (modifyKind slot f).runIn env s =
      (.ok (), s.withArena (s.body.arena.modifyKind slot f)) := rfl

/-- What is done so that a value meets an expectation of a type above its own. -/
theorem runIn_comply_ok (hw : env.declarations.Widens env.context t e.type)
    (ht : t.mentionsError = false) (he : e.type.mentionsError = false)
    (hrun : (comply t e slot).runIn env s = (.ok t', s')) :
    e.MetBy env.declarations t' ∧ (t' = t ∧ s' = s ∨
      ∃ op : Conversion, op.IsSound env.declarations t t' ∧
        s' = s.withArena (s.body.arena.convert slot op t').2) := by
  have hsound := isSound_compliance hw ht he
  unfold comply carryOut at hrun
  cases hc : e.compliance t with
  | asIs u =>
      rw [hc] at hrun hsound
      obtain ⟨rfl, rfl⟩ : u = t' ∧ s = s' := by simpa using hrun
      obtain ⟨rfl, hmet⟩ := hsound
      exact ⟨hmet, .inl ⟨rfl, rfl⟩⟩
  | convert op u =>
      rw [hc] at hrun hsound
      dsimp only at hrun
      rw [runIn_insertConversion] at hrun
      obtain ⟨rfl, rfl⟩ : u = t' ∧ _ = s' := by simpa using hrun
      obtain ⟨hop, hmet⟩ := hsound
      exact ⟨hmet, .inr ⟨op, hop, rfl⟩⟩
  | refused =>
      rw [hc] at hrun
      dsimp only at hrun
      rw [runIn_bind, runIn_spanOf] at hrun
      simp at hrun

theorem type?_compliance_of_runIn_comply (hrun : (comply t e slot).runIn env s = (.ok t', s')) :
    (e.compliance t).type? = some t' := by
  unfold comply carryOut at hrun
  cases hc : e.compliance t with
  | asIs u =>
      rw [hc] at hrun
      exact congrArg some (Except.ok.inj (Prod.mk.inj hrun).1)
  | convert op u =>
      rw [hc] at hrun
      dsimp only at hrun
      rw [runIn_insertConversion] at hrun
      exact congrArg some (Except.ok.inj (Prod.mk.inj hrun).1)
  | refused =>
      rw [hc] at hrun
      dsimp only at hrun
      rw [runIn_bind, runIn_spanOf] at hrun
      simp at hrun

theorem runIn_requireSubtype_ok {actual expected : Ty} {span : Span}
    (h : (requireSubtype actual expected span).runIn env s = (.ok (), s')) :
    env.declarations.Widens env.context actual expected ∧ s' = s := by
  unfold requireSubtype at h
  rw [runIn_bind, runIn_read] at h
  dsimp only at h
  split at h
  next hsub =>
    obtain rfl : s = s' := by simpa using h
    exact ⟨Declarations.widens_of_isSubtype hsub, rfl⟩
  next => simp at h

/-- An expression whose value was made to meet an expectation. -/
theorem runIn_expect_ok {visit : Visit} (h : (expect visit e slot).runIn env s = (.ok t, s')) :
    ∃ actual s₁, (visit slot (some e)).runIn env s = (.ok actual, s₁) ∧
      env.declarations.Widens env.context actual e.type ∧
      (comply actual e slot).runIn env s₁ = (.ok t, s') := by
  unfold expect at h
  obtain ⟨actual, s₁, hvisit, h⟩ := runIn_bind_ok.mp h
  rw [runIn_bind, runIn_spanOf] at h
  obtain ⟨⟨⟩, s₂, hsub, h⟩ := runIn_bind_ok.mp h
  obtain ⟨hw, hs⟩ := runIn_requireSubtype_ok hsub
  exact ⟨actual, s₁, hvisit, hw, hs ▸ h⟩

/-- A way of typing expressions that types the one in a slot. -/
structure VisitSpec (env : Environment) (a₀ : Arena) (visit : Visit) (slot : Slot) : Prop where
  analysed : ∀ {s s' : AnalysisState} {e? : Option Expectation} {t : Ty}, s.Valid a₀ →
    a₀.Untouched s.body.arena slot → (∀ e ∈ e?, e.type.mentionsError = false) →
    (visit slot e?).runIn env s = (.ok t, s') →
    s.Analysed env.package a₀ slot t s' ∧ ¬ (s'.body.arena.get slot).IsConversion
  typed : ∀ {s : AnalysisState} {e? : Option Expectation} {t : Ty},
    (s.body.arena.get slot).type? = some t → (visit slot e?).runIn env s = (.ok t, s)

/-- An expression that was typed is made to meet an expectation. -/
theorem runIn_comply_analysed {s₁ : AnalysisState} (h : s.Analysed env.package a₀ slot t s₁)
    (hslot : slot < a₀.size) (hplain : ¬ (s₁.body.arena.get slot).IsConversion)
    (hw : env.declarations.Widens env.context t e.type) (he : e.type.mentionsError = false)
    (hrun : (comply t e slot).runIn env s₁ = (.ok t', s')) :
    s.Analysed env.package a₀ slot t' s' ∧ e.MetBy env.declarations t' := by
  obtain ⟨hmet, ⟨rfl, rfl⟩ | ⟨op, hop, rfl⟩⟩ := runIn_comply_ok hw h.mentionsError_eq he hrun
  · exact ⟨h, hmet⟩
  · exact ⟨h.convert hslot hplain hop hmet.mentionsError_eq, hmet⟩

/-- An expression that is typed and made to meet an expectation. -/
theorem VisitSpec.expect {visit : Visit} (hv : VisitSpec env a₀ visit slot) (hs : s.Valid a₀)
    (hslot : slot < a₀.size) (hu : a₀.Untouched s.body.arena slot)
    (he : e.type.mentionsError = false) (hrun : (expect visit e slot).runIn env s = (.ok t, s')) :
    s.Analysed env.package a₀ slot t s' ∧ e.MetBy env.declarations t := by
  obtain ⟨actual, s₁, hvisit, hw, hcomply⟩ := runIn_expect_ok hrun
  obtain ⟨h, hplain⟩ := hv.analysed hs hu (fun e' he' => by cases he'; exact he) hvisit
  exact runIn_comply_analysed h hslot hplain hw he hcomply

end Analysis

/-! ### Closures -/

def Closure.named (literal : Closure) (params : List Ty) : List (String × Ty) :=
  (literal.params.zip params).map fun q => (q.1.name.name, q.2)

theorem Closure.map_fst_named {literal : Closure} {params : List Ty}
    (hlen : params.length = literal.params.length) :
    (literal.named params).map (·.1) = literal.params.map (·.name.name) := by
  conv_rhs => rw [← List.map_fst_zip hlen.ge, List.map_map]
  rw [named, List.map_map]
  rfl

namespace Analysis

variable {env : Environment} {s s' : AnalysisState} {slot : Slot} {t : Ty} {visit : Visit}

def closureAs (visit : Visit) (slot : Slot) (literal : Closure) (params : List Ty) (ret : Ty) :
    Analysis Ty := do
  modify fun s => { s with scope := s.scope.enterClosure }
  let ids ← (literal.params.zip params).mapM fun (p, t) => declare p.name.name t false
  let body ← attempt (expectType visit ret literal.body)
  let captures ← modifyGet fun s =>
    let (captures, scope) := s.scope.exitClosure
    (captures, { s with scope })
  modifyKind slot (·.withClosureVariables ids captures)
  match body with
  | .ok _ => return .callable params ret
  | .error e => throw e

theorem analyseClosure_eq (slot : Slot) (literal : Closure) : analyseClosure visit slot literal = (do
    let params ← literal.params.mapM (resolveType ·.type)
    let ret ← resolveType literal.ret
    closureAs visit slot literal params ret) := rfl

/-- A closure is annotated with its variables and left, whether its body is fine or not. -/
theorem runIn_closureAs {literal : Closure} {params : List Ty} {ret : Ty} :
    (closureAs visit slot literal params ret).runIn env s =
      let run := (expectType visit ret literal.body).runIn env (s.enter (literal.named params))
      (run.1.map fun _ => .callable params ret,
        run.2.leave.withArena (run.2.body.arena.modifyKind slot (·.withClosureVariables
          (List.range' s.scope.count (literal.params.zip params).length)
          run.2.scope.exitClosure.1))) := by
  unfold closureAs
  rw [runIn_bind, runIn_modify]
  dsimp only
  rw [runIn_bind, runIn_declareParams]
  dsimp only
  rw [runIn_bind, runIn_attempt]
  rcases hbody : (expectType visit ret literal.body).runIn env (s.enter (literal.named params))
    with ⟨result, s₃⟩
  rw [show (expectType visit ret literal.body).runIn env
      { s with
        scope := s.scope.enterClosure.declareAll
          ((literal.params.zip params).map fun p => (p.1.name.name, p.2)) } = (result, s₃)
    from hbody]
  dsimp only
  rw [runIn_bind, runIn_modifyGet]
  dsimp only
  rw [runIn_bind, runIn_modifyKind]
  cases result <;> rfl

theorem runIn_closureAs_ok {literal : Closure} {params : List Ty} {ret : Ty} :
    (closureAs visit slot literal params ret).runIn env s = (.ok t, s') ↔
      ∃ u s₃, (expectType visit ret literal.body).runIn env (s.enter (literal.named params)) = (.ok u, s₃) ∧
        Ty.callable params ret = t ∧
        s₃.leave.withArena (s₃.body.arena.modifyKind slot (·.withClosureVariables
          (List.range' s.scope.count (literal.params.zip params).length) s₃.scope.exitClosure.1)) = s' := by
  rw [runIn_closureAs]
  rcases (expectType visit ret literal.body).runIn env (s.enter (literal.named params))
    with ⟨result, s₃⟩
  cases result with
  | error e => simp [Except.map]
  | ok u => simp [Except.map]

end Analysis

end Boxlang
