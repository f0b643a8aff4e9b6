import Boxlang.Proofs.Absorption.Reading

/-!
# Two runs side by side

An expression is analysed from two states that differ in the types of some names, which
are lost in the second.  `AnalysisState.Beside` is what holds of the two states all the
while: what has been typed in one has in the other, with the same type or without one
where it loses its type, and the second has no report that the first has not.

`Analysis.Follows` says that a step succeeds from the second state wherever one does from
the first; it composes like runs do.
-/

namespace Boxlang

open Analysis

structure Answers (lost : Prop) (t₁ t₂ : Ty) : Prop where
  eq_error : lost → t₂ = .error
  eq : ¬ lost → t₂ = t₁

theorem Answers.congr {p q : Prop} {t₁ t₂ : Ty} (h : Answers p t₁ t₂) (hpq : p ↔ q) : Answers q t₁ t₂ :=
  ⟨fun hq => h.eq_error (hpq.mpr hq), fun hq => h.eq (mt hpq.mp hq)⟩

theorem Answers.same {p : Prop} (h : ¬ p) (t : Ty) : Answers p t t :=
  ⟨fun hp => absurd hp h, fun _ => rfl⟩

theorem Expr.isConversion_iff_of_bare_eq {e e' : Expr} (h : e.kind.bare = e'.kind.bare) :
    e.IsConversion ↔ e'.IsConversion := by
  have hiff (k : ExprKind) : (∃ inner op, k = .conversion inner op) ↔
      ∃ inner op, k.bare = .conversion inner op := by
    cases k <;> simp [ExprKind.bare]
  rw [IsConversion, IsConversion, hiff, hiff e'.kind, h]

theorem Arena.Edits.type?_eq_none {W : Slot → Prop} {a b : Arena} (h : Arena.Edits W a b)
    (hW : ∀ slot, W slot → slot < a.size) {x : Slot} (hx : x < a.size)
    (ht : (b.get x).type? = none) : (a.get x).type? = none := by
  induction h with
  | refl => exact ht
  | @annotate b slot f _ hw hf ih =>
      rw [get_modify] at ht
      split at ht
      next heq =>
        obtain ⟨rfl, -⟩ := heq
        refine ih ?_
        by_contra hne
        have hsome := hf.isSome (Option.ne_none_iff_isSome.mp hne)
        simp [ht] at hsome
      next => exact ih ht
  | @convert b slot op t hb hw ih =>
      rw [get_convert b (Nat.lt_of_lt_of_le (hW slot hw) hb.size_le) (Nat.lt_of_lt_of_le hx hb.size_le)] at ht
      split at ht
      · cases ht
      · exact ih ht

/--
Two states in the analysis of the expressions of `a₀`.  The slots of `L` are looked at in
both, those of `P` lose their type, and the names of `X` have lost it.
-/
structure AnalysisState.Beside (a₀ : Arena) (L P : Slot → Prop) (X : String → Prop)
    (s₁ s₂ : AnalysisState) : Prop where
  edits₁ : Arena.Edits (· < a₀.size) a₀ s₁.body.arena
  edits₂ : Arena.Edits (· < a₀.size) a₀ s₂.body.arena
  types : ∀ x, L x → Option.Rel (Answers (P x)) (s₁.body.arena.get x).type? (s₂.body.arena.get x).type?
  conversions : ∀ x, L x → ¬ P x → (s₂.body.arena.get x).IsConversion → (s₁.body.arena.get x).IsConversion
  defers₁ : s₁.DefersDeclared
  defers₂ : s₂.DefersDeclared
  reading_lost : ∀ name, X name → s₂.reading name = (s₁.reading name).map fun r => (.error, r.2)
  reading_kept : ∀ name, ¬ X name → s₂.reading name = s₁.reading name
  reports : s₂.reports.Sublist s₁.reports

namespace AnalysisState.Beside

variable {a₀ b₁ b₂ : Arena} {L P W : Slot → Prop} {X Y : String → Prop} {s₁ s₂ s₁' s₂' : AnalysisState}
  {slot : Slot} {t t₁ t₂ : Ty} {op : Conversion}

section States

variable (h : Beside a₀ L P X s₁ s₂)
include h

theorem holds₁ : s₁.body.arena.HoldsNodesOf a₀ :=
  (Arena.HoldsNodesOf.refl a₀).edits h.edits₁ fun _ hx => hx

theorem holds₂ : s₂.body.arena.HoldsNodesOf a₀ :=
  (Arena.HoldsNodesOf.refl a₀).edits h.edits₂ fun _ hx => hx

theorem isSome_type? (hL : L slot) :
    (s₁.body.arena.get slot).type?.isSome = (s₂.body.arena.get slot).type?.isSome := by
  have hrel := h.types slot hL
  generalize (s₁.body.arena.get slot).type? = o₁ at hrel ⊢
  generalize (s₂.body.arena.get slot).type? = o₂ at hrel ⊢
  cases hrel <;> rfl

theorem withArena (h₁ : Arena.Edits (· < a₀.size) s₁.body.arena b₁)
    (h₂ : Arena.Edits (· < a₀.size) s₂.body.arena b₂)
    (htypes : ∀ x, L x → Option.Rel (Answers (P x)) (b₁.get x).type? (b₂.get x).type?)
    (hconv : ∀ x, L x → ¬ P x → (b₂.get x).IsConversion → (b₁.get x).IsConversion) :
    Beside a₀ L P X (s₁.withArena b₁) (s₂.withArena b₂) :=
  { h with
    edits₁ := h.edits₁.trans h₁
    edits₂ := h.edits₂.trans h₂
    types := htypes
    conversions := hconv }

theorem modifyKind (hslot : slot < a₀.size) {f₁ f₂ : ExprKind → ExprKind}
    (hf₁ : (f₁ (s₁.body.arena.get slot).kind).bare = (s₁.body.arena.get slot).kind.bare)
    (hf₂ : (f₂ (s₂.body.arena.get slot).kind).bare = (s₂.body.arena.get slot).kind.bare) :
    Beside a₀ L P X (s₁.withArena (s₁.body.arena.modifyKind slot f₁))
      (s₂.withArena (s₂.body.arena.modifyKind slot f₂)) := by
  have htype (a : Arena) (f : ExprKind → ExprKind) (x : Slot) :
      ((a.modifyKind slot f).get x).type? = (a.get x).type? := by
    rw [Arena.modifyKind, Arena.get_modify]
    split
    next heq => rw [heq.1]
    next => rfl
  have hconv (a : Arena) (f : ExprKind → ExprKind)
      (hf : (f (a.get slot).kind).bare = (a.get slot).kind.bare) (x : Slot) :
      ((a.modifyKind slot f).get x).IsConversion ↔ (a.get x).IsConversion := by
    rw [Arena.modifyKind, Arena.get_modify]
    split
    next heq =>
      rw [heq.1]
      exact Expr.isConversion_iff_of_bare_eq hf
    next => rfl
  refine h.withArena (.annotate .refl hslot (.withKind hf₁)) (.annotate .refl hslot (.withKind hf₂))
    (fun x hx => ?_) fun x hL hP hx => ?_
  · rw [htype, htype]
    exact h.types x hx
  · rw [hconv _ _ hf₁]
    exact h.conversions x hL hP ((hconv _ _ hf₂ x).mp hx)

theorem setType (hslot : slot < a₀.size) (ha : Answers (P slot) t₁ t₂) :
    Beside a₀ L P X (s₁.withArena (s₁.body.arena.setType slot t₁))
      (s₂.withArena (s₂.body.arena.setType slot t₂)) := by
  have hget₁ (x : Slot) := Arena.get_modify s₁.body.arena slot x fun e => { e with type? := some t₁ }
  have hget₂ (x : Slot) := Arena.get_modify s₂.body.arena slot x fun e => { e with type? := some t₂ }
  have hlt₁ := Nat.lt_of_lt_of_le hslot h.edits₁.size_le
  have hlt₂ := Nat.lt_of_lt_of_le hslot h.edits₂.size_le
  simp only [hlt₁, hlt₂, and_true] at hget₁ hget₂
  refine h.withArena (.annotate .refl hslot (.withType _ t₁)) (.annotate .refl hslot (.withType _ t₂))
    (fun x hx => ?_) fun x hL hP => ?_
  · rw [Arena.setType, Arena.setType, hget₁, hget₂]
    by_cases heq : x = slot
    · rw [if_pos heq, if_pos heq, heq]
      exact .some ha
    · rw [if_neg heq, if_neg heq]
      exact h.types x hx
  · rw [Arena.setType, Arena.setType, hget₁, hget₂]
    by_cases heq : x = slot
    · rw [if_pos heq, if_pos heq, ← heq]
      exact h.conversions x hL hP
    · rw [if_neg heq, if_neg heq]
      exact h.conversions x hL hP

theorem convert (hL : ∀ x, L x → x < a₀.size) (hslot : slot < a₀.size) (hP : ¬ P slot) :
    Beside a₀ L P X (s₁.withArena (s₁.body.arena.convert slot op t).2)
      (s₂.withArena (s₂.body.arena.convert slot op t).2) := by
  have hle₁ := h.edits₁.size_le
  have hle₂ := h.edits₂.size_le
  have hget₁ (x : Slot) (hx : x < a₀.size) := Arena.get_convert s₁.body.arena
    (Nat.lt_of_lt_of_le hslot hle₁) (Nat.lt_of_lt_of_le hx hle₁) op t
  have hget₂ (x : Slot) (hx : x < a₀.size) := Arena.get_convert s₂.body.arena
    (Nat.lt_of_lt_of_le hslot hle₂) (Nat.lt_of_lt_of_le hx hle₂) op t
  refine h.withArena (.convert .refl hslot) (.convert .refl hslot) (fun x hx => ?_) fun x hx hPx => ?_
  · rw [hget₁ x (hL x hx), hget₂ x (hL x hx)]
    by_cases heq : x = slot
    · rw [if_pos heq, if_pos heq, heq]
      exact .some (.same hP t)
    · rw [if_neg heq, if_neg heq]
      exact h.types x hx
  · rw [hget₁ x (hL x hx), hget₂ x (hL x hx)]
    by_cases heq : x = slot
    · rw [if_pos heq, if_pos heq]
      exact fun _ => ⟨_, _, rfl⟩
    · rw [if_neg heq, if_neg heq]
      exact h.conversions x hx hPx

/-- A typed expression that has lost its type is converted in the first run only. -/
theorem convert_first (hL : ∀ x, L x → x < a₀.size) (hslot : slot < a₀.size) (hLs : L slot) (hP : P slot)
    (ht : (s₁.body.arena.get slot).type?.isSome) :
    Beside a₀ L P X (s₁.withArena (s₁.body.arena.convert slot op t).2) s₂ := by
  have hle := h.edits₁.size_le
  have hget (x : Slot) (hx : x < a₀.size) := Arena.get_convert s₁.body.arena
    (Nat.lt_of_lt_of_le hslot hle) (Nat.lt_of_lt_of_le hx hle) op t
  refine h.withArena (.convert .refl hslot) (.refl : Arena.Edits _ s₂.body.arena s₂.body.arena)
    (fun x hx => ?_) fun x hx hPx => ?_
  · rw [hget x (hL x hx)]
    by_cases heq : x = slot
    · rw [if_pos heq, heq]
      have hrel := h.types slot hLs
      obtain ⟨t₁, ht₁⟩ := Option.isSome_iff_exists.mp ht
      rw [ht₁] at hrel
      generalize (s₂.body.arena.get slot).type? = o₂ at hrel ⊢
      cases hrel with
      | some ha => exact .some ⟨ha.eq_error, fun hn => absurd hP hn⟩
    · rw [if_neg heq]
      exact h.types x hx
  · have hne : x ≠ slot := fun heq => hPx (heq ▸ hP)
    rw [hget x (hL x hx), if_neg hne]
    exact h.conversions x hx hPx

/-- Only the first run goes on, with expressions that are not looked at in the second. -/
theorem progress_first (hL : ∀ x, L x → x < a₀.size) (hW : ∀ x, W x → x < a₀.size)
    (hLW : ∀ x, L x → ¬ W x) (hp : s₁.Progress W s₁') : Beside a₀ L P X s₁' s₂ := by
  have hle := h.edits₁.size_le
  have hget (x : Slot) (hx : L x) : s₁'.body.arena.get x = s₁.body.arena.get x :=
    hp.arena.get_of_not (fun y hy => Nat.lt_of_lt_of_le (hW y hy) hle)
      (Nat.lt_of_lt_of_le (hL x hx) hle) (hLW x hx)
  refine ⟨h.edits₁.trans (hp.arena.mono hW), h.edits₂, fun x hx => ?_, fun x hx hPx => ?_,
    h.defers₁.progress hp, h.defers₂, fun name hX => ?_, fun name hX => ?_, ?_⟩
  · rw [hget x hx]
    exact h.types x hx
  · rw [hget x hx]
    exact h.conversions x hx hPx
  · rw [hp.reading_eq]
    exact h.reading_lost name hX
  · rw [hp.reading_eq]
    exact h.reading_kept name hX
  · exact h.reports.trans hp.reports_prefix.sublist

theorem report (new : List Report) : Beside a₀ L P X { s₁ with reports := s₁.reports ++ new }
    { s₂ with reports := s₂.reports ++ new } :=
  { h with reports := h.reports.append (.refl new) }

theorem resolve (name : String) : Beside a₀ L P X { s₁ with scope := (s₁.scope.resolve name).2 }
    { s₂ with scope := (s₂.scope.resolve name).2 } := by
  have hp (s : AnalysisState) : s.Progress (fun _ => False) { s with scope := (s.scope.resolve name).2 } :=
    .of_scope (Scope.extends_resolve _ _)
  refine { h with
    defers₁ := h.defers₁.progress (hp s₁)
    defers₂ := h.defers₂.progress (hp s₂)
    reading_lost := fun n hn => ?_
    reading_kept := fun n hn => ?_ }
  · rw [(hp s₁).reading_eq, (hp s₂).reading_eq]
    exact h.reading_lost n hn
  · rw [(hp s₁).reading_eq, (hp s₂).reading_eq]
    exact h.reading_kept n hn

theorem enter (params : List (String × Ty)) (hY : ∀ name, Y name ↔ X name ∧ name ∉ params.map (·.1)) :
    Beside a₀ L P Y (s₁.enter params) (s₂.enter params) := by
  refine { h with
    defers₁ := h.defers₁.enter params
    defers₂ := h.defers₂.enter params
    reading_lost := fun name hn => ?_
    reading_kept := fun name hn => ?_ }
  · obtain ⟨hX, hparam⟩ := (hY name).mp hn
    rw [reading_enter h.defers₁, reading_enter h.defers₂, readingUnder_of_not_mem hparam,
      readingUnder_of_not_mem hparam]
    exact h.reading_lost name hX
  · rw [reading_enter h.defers₁, reading_enter h.defers₂]
    by_cases hparam : name ∈ params.map (·.1)
    · exact readingUnder_of_mem hparam _ _
    · rw [readingUnder_of_not_mem hparam, readingUnder_of_not_mem hparam]
      exact h.reading_kept name fun hX => hn ((hY name).mpr ⟨hX, hparam⟩)

/-- The closure is left in both, and names are read as before. -/
theorem leave {params : List (String × Ty)} (h' : Beside a₀ L P Y s₁' s₂')
    (hp₁ : (s₁.enter params).Progress W s₁') (hp₂ : (s₂.enter params).Progress W s₂') :
    Beside a₀ L P X s₁'.leave s₂'.leave := by
  have hq₁ : s₁.Progress W s₁'.leave := hp₁.closure
  have hq₂ : s₂.Progress W s₂'.leave := hp₂.closure
  refine ⟨h'.edits₁, h'.edits₂, h'.types, h'.conversions, h.defers₁.progress hq₁, h.defers₂.progress hq₂,
    fun name hX => ?_, fun name hX => ?_, h'.reports⟩
  · rw [hq₁.reading_eq, hq₂.reading_eq]
    exact h.reading_lost name hX
  · rw [hq₁.reading_eq, hq₂.reading_eq]
    exact h.reading_kept name hX

end States

theorem forget {s : AnalysisState} (hd : s.DefersDeclared) (hP : ∀ x t, (s.body.arena.get x).type? = some t → ¬ P x)
    (id : VariableId) : Beside s.body.arena L P (s.scope.Means · id) s (s.forget id) where
  edits₁ := .refl
  edits₂ := .refl
  types x _ := by
    show Option.Rel _ _ (s.body.arena.get x).type?
    cases ht : (s.body.arena.get x).type? with
    | none => exact .none
    | some t => exact .some (.same (hP x t ht) t)
  conversions _ _ _ hx := hx
  defers₁ := hd
  defers₂ := hd
  reading_lost _ h := reading_forget_of_means h
  reading_kept _ h := reading_forget_of_not_means h
  reports := .refl _

end AnalysisState.Beside

/-! ### Steps that follow each other -/

namespace Analysis

variable {α β γ δ : Type} {env : Environment} {s₁ s₂ : AnalysisState}

/-- Wherever the first step succeeds from the first state, the second does from the second. -/
def Follows (env : Environment) (s₁ s₂ : AnalysisState) (step₁ : Analysis α) (step₂ : Analysis β)
    (post : α → AnalysisState → β → AnalysisState → Prop) : Prop :=
  ∀ a s₁', step₁.runIn env s₁ = (.ok a, s₁') →
    ∃ b s₂', step₂.runIn env s₂ = (.ok b, s₂') ∧ post a s₁' b s₂'

namespace Follows

variable {step₁ : Analysis α} {step₂ : Analysis β} {next₁ : α → Analysis γ} {next₂ : β → Analysis δ}
  {mid post' : α → AnalysisState → β → AnalysisState → Prop}
  {post : γ → AnalysisState → δ → AnalysisState → Prop}

theorem bind (h : Follows env s₁ s₂ step₁ step₂ mid)
    (hnext : ∀ a s₁' b s₂', step₁.runIn env s₁ = (.ok a, s₁') → mid a s₁' b s₂' →
      Follows env s₁' s₂' (next₁ a) (next₂ b) post) :
    Follows env s₁ s₂ (step₁ >>= next₁) (step₂ >>= next₂) post := by
  intro c s₁'' hrun
  obtain ⟨a, s₁', hstep, hrest⟩ := runIn_bind_ok.mp hrun
  obtain ⟨b, s₂', hstep₂, hmid⟩ := h a s₁' hstep
  obtain ⟨d, s₂'', hrest₂, hpost⟩ := hnext a s₁' b s₂' hstep hmid c s₁'' hrest
  exact ⟨d, s₂'', runIn_bind_ok.mpr ⟨b, s₂', hstep₂, hrest₂⟩, hpost⟩

theorem mono (h : Follows env s₁ s₂ step₁ step₂ mid) (hpost : ∀ a s₁' b s₂', mid a s₁' b s₂' → post' a s₁' b s₂') :
    Follows env s₁ s₂ step₁ step₂ post' := by
  intro a s₁' hrun
  obtain ⟨b, s₂', hrun₂, hmid⟩ := h a s₁' hrun
  exact ⟨b, s₂', hrun₂, hpost a s₁' b s₂' hmid⟩

theorem pure {a : α} {b : β} (h : mid a s₁ b s₂) :
    Follows env s₁ s₂ (Pure.pure a : Analysis α) (Pure.pure b : Analysis β) mid := by
  intro a' s₁' hrun
  obtain ⟨rfl, rfl⟩ : a = a' ∧ s₁ = s₁' := by simpa using hrun
  exact ⟨b, s₂, rfl, h⟩

theorem throw (e : SemanticError) : Follows env s₁ s₂ (MonadExcept.throw e : Analysis α) step₂ mid := by
  intro a s₁' hrun
  simp at hrun

theorem throw_bind (e : SemanticError) {next : β → Analysis γ} {step : Analysis δ} :
    Follows env s₁ s₂ ((MonadExcept.throw e : Analysis β) >>= next) step post := by
  intro a s₁' hrun
  rw [runIn_bind] at hrun
  simp at hrun

theorem discard (h : Follows env s₁ s₂ step₁ step₂ mid) {R : AnalysisState → AnalysisState → Prop}
    (hR : ∀ a s₁' b s₂', mid a s₁' b s₂' → R s₁' s₂') :
    Follows env s₁ s₂ (discard step₁) (discard step₂) fun _ s₁' _ s₂' => R s₁' s₂' := by
  intro u s₁' hrun
  obtain ⟨a, hstep⟩ := runIn_discard_ok.mp hrun
  obtain ⟨b, s₂', hstep₂, hmid⟩ := h a s₁' hstep
  exact ⟨(), s₂', runIn_discard_ok.mpr ⟨b, hstep₂⟩, hR a s₁' b s₂' hmid⟩

variable {R : AnalysisState → AnalysisState → Prop}

theorem forM {l : List α} {f : α → Analysis PUnit}
    (h : ∀ a ∈ l, ∀ s₁ s₂, R s₁ s₂ → Follows env s₁ s₂ (f a) (f a) fun _ s₁' _ s₂' => R s₁' s₂')
    (hR : R s₁ s₂) : Follows env s₁ s₂ (l.forM f) (l.forM f) fun _ s₁' _ s₂' => R s₁' s₂' := by
  induction l generalizing s₁ s₂ with
  | nil => exact pure hR
  | cons a l ih =>
      show Follows env s₁ s₂ (f a >>= fun _ => l.forM f) (f a >>= fun _ => l.forM f) _
      refine (h a List.mem_cons_self s₁ s₂ hR).bind fun _ s₁' _ s₂' _ hR' => ?_
      exact ih (fun b hb => h b (List.mem_cons_of_mem a hb)) hR'

/-- A loop gives the same results as another if its steps do. -/
theorem mapM {l : List α} {f : α → Analysis β}
    (h : ∀ a ∈ l, ∀ s₁ s₂, R s₁ s₂ → Follows env s₁ s₂ (f a) (f a) fun b s₁' b' s₂' => b = b' ∧ R s₁' s₂')
    (hR : R s₁ s₂) : Follows env s₁ s₂ (l.mapM f) (l.mapM f) fun bs s₁' bs' s₂' => bs = bs' ∧ R s₁' s₂' := by
  induction l generalizing s₁ s₂ with
  | nil => exact pure ⟨rfl, hR⟩
  | cons a l ih =>
      rw [List.mapM_cons]
      refine (h a List.mem_cons_self s₁ s₂ hR).bind fun b s₁' b' s₂' _ ⟨hb, hR'⟩ => ?_
      refine (ih (fun c hc => h c (List.mem_cons_of_mem a hc)) hR').bind fun bs s₁'' bs' s₂'' _ ⟨hbs, hR''⟩ => ?_
      exact pure ⟨by rw [hb, hbs], hR''⟩

end Follows

/-! ### Steps that read no state -/

/-- A step whose outcome does not depend on the state, which it leaves alone. -/
def IsSteady (env : Environment) (step : Analysis α) : Prop :=
  ∃ r, ∀ s, step.runIn env s = (r, s)

namespace IsSteady

theorem follows {step : Analysis α} (h : IsSteady env step) :
    Follows env s₁ s₂ step step fun a s₁' b s₂' => a = b ∧ s₁ = s₁' ∧ s₂ = s₂' := by
  obtain ⟨r, hr⟩ := h
  intro a s₁' hrun
  obtain ⟨rfl, rfl⟩ : r = .ok a ∧ s₁ = s₁' := by simpa [hr] using hrun
  exact ⟨a, s₂, hr s₂, rfl, rfl, rfl⟩

theorem pure (a : α) : IsSteady env (Pure.pure a : Analysis α) := ⟨.ok a, fun _ => rfl⟩

theorem throw (e : SemanticError) : IsSteady env (MonadExcept.throw e : Analysis α) :=
  ⟨.error e, fun _ => rfl⟩

theorem read : IsSteady env (MonadReader.read : Analysis Environment) := ⟨.ok env, fun _ => rfl⟩

theorem bind {step : Analysis α} {next : α → Analysis β} (h : IsSteady env step)
    (hnext : ∀ a, IsSteady env (next a)) : IsSteady env (step >>= next) := by
  obtain ⟨r, hr⟩ := h
  cases r with
  | error e => exact ⟨.error e, fun s => by rw [runIn_bind, hr]⟩
  | ok a =>
      obtain ⟨r', hr'⟩ := hnext a
      exact ⟨r', fun s => by rw [runIn_bind, hr]; exact hr' s⟩

theorem mapM {l : List α} {f : α → Analysis β} (h : ∀ a, IsSteady env (f a)) :
    IsSteady env (l.mapM f) := by
  induction l with
  | nil => exact pure []
  | cons a l ih =>
      rw [List.mapM_cons]
      exact (h a).bind fun b => ih.bind fun bs => pure (b :: bs)

theorem resolveType (t : WrittenType) : IsSteady env (resolveType t) :=
  ⟨_, fun _ => runIn_resolveType t⟩

theorem requireSubtype (actual expected : Ty) (span : Span) :
    IsSteady env (requireSubtype actual expected span) := by
  refine read.bind fun env' => ?_
  split
  · exact pure _
  · exact throw _

theorem noValueType (e? : Option Expectation) (span : Span) : IsSteady env (noValueType e? span) := by
  unfold Analysis.noValueType
  cases e? with
  | none => exact throw _
  | some e =>
      dsimp only
      split
      · exact pure _
      · exact pure _
      · exact throw _

theorem formType (form : TypeForm) (e? : Option Expectation) (span : Span) :
    IsSteady env (formType form e? span) := by
  unfold Analysis.formType
  cases form with
  | explicit written => exact resolveType written
  | inferred =>
      dsimp only
      split
      · exact pure _
      · exact throw _
  | this =>
      refine read.bind fun env' => ?_
      split
      · exact pure _
      · exact throw _

theorem validateMetability (t : Ty) (span : Span) : IsSteady env (validateMetability t span) := by
  unfold Analysis.validateMetability
  split
  all_goals first | exact throw _ | exact pure _

theorem checkGenericArguments (target : Signature) (receiver? : Option Ty) (arguments : Arguments) :
    IsSteady env (checkGenericArguments target receiver? arguments) := by
  unfold Analysis.checkGenericArguments
  dsimp only
  split
  · exact (throw _).bind fun _ => read.bind fun _ => mapM fun q => (resolveType _).bind fun t =>
      (requireSubtype _ _ _).bind fun _ => pure t
  · exact read.bind fun _ => mapM fun q => (resolveType _).bind fun t =>
      (requireSubtype _ _ _).bind fun _ => pure t

theorem inferredArgument (c : GenericContext) (target : Signature) (span : Span) (generic : GenericParam)
    (candidates : Candidates) : IsSteady env (inferredArgument c target span generic candidates) := by
  unfold Analysis.inferredArgument
  dsimp only
  split
  · exact throw _
  · refine read.bind fun env' => ?_
    split
    · exact pure _
    · exact (throw _).bind fun _ => pure _

end IsSteady

end Analysis

end Boxlang
