import Boxlang.Proofs.Elaboration.Settled

/-!
# Typing operands

The operands of a node are typed one after the other, some of them twice, and the
node itself is annotated in between.  `AnalysisState.Tracks` is what holds all the
while: which operands have been typed, that these are settled, and what was read.
-/

namespace Boxlang

open Conversion Analysis

/--
What holds while the operands of the node in a slot are typed in the context `Γ`:
those of `V` have been, and the node has become `e`.
-/
structure AnalysisState.Tracks (p : Package) (a₀ : Arena) (s₀ : AnalysisState) (Γ : Context)
    (slot : Slot) (V : Slot → Prop) (e : Expr) (s : AnalysisState) : Prop where
  valid₀ : s₀.Valid a₀
  valid : s.Valid a₀
  progress : s₀.Progress (fun x => x = slot ∨ ∃ c, V c ∧ a₀.Reaches c x) s
  mem : ∀ c, V c → c ∈ (a₀.get slot).kind.operands
  get_eq : s.body.arena.get slot = e
  settled : ∀ c, V c → Settled p a₀ Γ s.body.arena c
  notes : s₀.Notes (fun id => ∃ c, V c ∧ s.body.arena.Reads c id) s

namespace AnalysisState.Tracks

variable {p : Package} {a₀ b : Arena} {roots : List Slot} {s₀ s s' : AnalysisState}
  {slot c : Slot} {V V' W : Slot → Prop} {Γ : Context} {e : Expr} {k : Nat} {t t' : Ty} {op : Conversion}

variable (p Γ slot) in
theorem start (hv : s.Valid a₀) :
    Tracks p a₀ s Γ slot (fun _ => False) (s.body.arena.get slot) s where
  valid₀ := hv
  valid := hv
  progress := .refl s
  mem _ h := h.elim
  get_eq := rfl
  settled _ h := h.elim
  notes := (Notes.refl s).congr (by simp)

theorem congr (h : Tracks p a₀ s₀ Γ slot V e s) (heq : ∀ c, V' c ↔ V c) :
    Tracks p a₀ s₀ Γ slot V' e s := by
  obtain rfl : V' = V := funext fun c => propext (heq c)
  exact h

theorem reporting (h : Tracks p a₀ s₀ Γ slot V e s) {new : List Report}
    (hnew : ∀ r ∈ new, r.error.isWarning = true) :
    Tracks p a₀ s₀ Γ slot V e { s with reports := s.reports ++ new } where
  valid₀ := h.valid₀
  valid := { h.valid with }
  progress := h.progress.trans ⟨.refl, rfl, rfl, .refl _, rfl, rfl, new, rfl, hnew⟩
  mem := h.mem
  get_eq := h.get_eq
  settled := h.settled
  notes := h.notes.of_closures_eq rfl

/-- What was typed inside a closure is typed in the context of its body. -/
theorem leave {params : List (String × Ty)} (hs : s.Valid a₀) (hslot : ∀ x, W x → x < a₀.size)
    (hW : ∀ x, (x = slot ∨ ∃ c, V c ∧ a₀.Reaches c x) → W x)
    (h : Tracks p a₀ (s.enter params) Γ slot V e s') : Tracks p a₀ s Γ slot V e s'.leave where
  valid₀ := hs
  valid := hs.progress (h.progress.closure.mono hW) hslot h.valid.plain
  progress := h.progress.closure
  mem := h.mem
  get_eq := h.get_eq
  settled := h.settled
  notes := (h.notes.leave hs).1

section Forest

variable (hf : a₀.IsForest roots) (hk : a₀.Level roots k slot)
  (h : Tracks p a₀ s₀ Γ slot V e s)
include hf hk h

theorem lt_size_of_mem (hc : V c) {x : Slot} (hx : a₀.Reaches c x) : x < a₀.size :=
  (Arena.isRegion_reaches hf.inRange (hf.lt_size_of_level (.child hk (h.mem c hc)))).lt x hx

theorem untouched (hu : a₀.Untouched s₀.body.arena c) (hc : c ∈ (a₀.get slot).kind.operands)
    (hn : ¬ V c) : a₀.Untouched s.body.arena c := by
  intro x hx
  have hle := h.valid₀.edits.size_le
  have hlt : x < a₀.size :=
    (Arena.isRegion_reaches hf.inRange (hf.lt_size_of_level (.child hk hc))).lt x hx
  rw [← hu x hx]
  refine h.progress.arena.get_of_not ?_ (Nat.lt_of_lt_of_le hlt hle) ?_
  · rintro y (rfl | ⟨c', hc', hy⟩)
    · exact Nat.lt_of_lt_of_le (hf.lt_size_of_level hk) hle
    · exact Nat.lt_of_lt_of_le (lt_size_of_mem hf hk h hc' hy) hle
  · rintro (rfl | ⟨c', hc', hy⟩)
    · exact hf.not_reaches_parent hk hc hx
    · exact hn (hf.eq_of_reaches (.child hk hc) (.child hk (h.mem c' hc')) hx hy ▸ hc')

omit hf hk in
/-- Edits outside of typed operands leave them alone. -/
theorem get_eq_of_edits (hab : Arena.Edits W s.body.arena b) (hW : ∀ x, W x → x < a₀.size)
    (hc : V c) (hdisj : ∀ x, W x → ¬ a₀.Reaches c x) :
    ∀ x, s.body.arena.Reaches c x → b.get x = s.body.arena.get x :=
  (h.settled c hc).get_eq_of_edits hab hW h.valid.edits.size_le hdisj

theorem annotate {g : Expr → Expr} (hg : e.Annotated (g e)) :
    Tracks p a₀ s₀ Γ slot V (g e) (s.withArena (s.body.arena.modify slot g)) ∧
      ∀ c, V c → ∀ x, s.body.arena.Reaches c x →
        (s.body.arena.modify slot g).get x = s.body.arena.get x := by
  have hslot := hf.lt_size_of_level hk
  have hsize := Nat.lt_of_lt_of_le hslot h.valid.edits.size_le
  have hedits : Arena.Edits (· = slot) s.body.arena (s.body.arena.modify slot g) :=
    .annotate .refl rfl (by rwa [h.get_eq])
  have hlt : ∀ x, x = slot → x < a₀.size := by
    rintro x rfl
    exact hslot
  have hkeep (c : Slot) (hc : V c) := h.get_eq_of_edits hedits hlt hc (by
    rintro x rfl
    exact hf.not_reaches_parent hk (h.mem c hc))
  have hprogress : s.Progress (· = slot) (s.withArena (s.body.arena.modify slot g)) :=
    .of_edits hedits
  refine ⟨⟨h.valid₀, h.valid.progress hprogress hlt fun x hx => ?_,
    h.progress.trans (hprogress.mono fun x hx => .inl hx), h.mem, ?_,
    fun c hc => (h.settled c hc).congr (hkeep c hc), ?_⟩, hkeep⟩
  · rw [arena_withArena, Arena.get_modify_of_ne _ (Nat.ne_of_gt (Nat.lt_of_lt_of_le hslot hx))]
    exact h.valid.plain x hx
  · rw [arena_withArena, Arena.get_modify_self _ hsize, h.get_eq]
  · refine (h.notes.of_closures_eq rfl).congr fun id => exists_congr fun c => ?_
    exact and_congr_right fun hc => Arena.reads_congr (hkeep c hc) id

theorem extend (hΓ : Γ = s₀.readable) (ha : s.Analysed p a₀ c t s')
    (hc : c ∈ (a₀.get slot).kind.operands) (hn : ¬ V c) :
    Tracks p a₀ s₀ Γ slot (fun x => x = c ∨ V x) e s' ∧
      ∀ c', V c' → s'.body.arena.get c' = s.body.arena.get c' := by
  have hlevel := Arena.Level.child hk hc
  have hlt := (Arena.isRegion_reaches hf.inRange (hf.lt_size_of_level hlevel)).lt
  have hkeep (c' : Slot) (hc' : V c') := h.get_eq_of_edits ha.progress.arena hlt hc'
    fun x hx hx' => hn (hf.eq_of_reaches hlevel (.child hk (h.mem c' hc')) hx hx' ▸ hc')
  have hreadable := h.progress.readable_eq
  refine ⟨⟨h.valid₀, ha.valid, ?_, ?_, ?_, ?_, ?_⟩, fun c' hc' => hkeep c' hc' c' (.refl _ c')⟩
  · refine (h.progress.mono ?_).trans (ha.progress.mono fun x hx => .inr ⟨c, .inl rfl, hx⟩)
    rintro x (rfl | ⟨c', hc', hx⟩)
    · exact .inl rfl
    · exact .inr ⟨c', .inr hc', hx⟩
  · rintro c' (rfl | hc')
    · exact hc
    · exact h.mem c' hc'
  · rw [← h.get_eq]
    have hsize := Nat.lt_of_lt_of_le (hf.lt_size_of_level hk) h.valid.edits.size_le
    exact ha.progress.arena.get_of_not
      (fun x hx => Nat.lt_of_lt_of_le (hlt x hx) h.valid.edits.size_le) hsize
      (hf.not_reaches_parent hk hc)
  · rintro c' (rfl | hc')
    · rw [hΓ, ← hreadable]
      exact ha.settled
    · exact (h.settled c' hc').congr (hkeep c' hc')
  · refine (h.notes.trans h.progress ha.notes).congr fun id => ?_
    constructor
    · rintro ⟨c', rfl | hc', hr⟩
      · exact .inr hr
      · exact .inl ⟨c', hc', (Arena.reads_congr (hkeep c' hc') id).mp hr⟩
    · rintro (⟨c', hc', hr⟩ | hr)
      · exact ⟨c', .inr hc', (Arena.reads_congr (hkeep c' hc') id).mpr hr⟩
      · exact ⟨c, .inl rfl, hr⟩

theorem convert (hc : V c) (hplain : ¬ (s.body.arena.get c).IsConversion)
    (hop : op.IsSound p.declarations (s.body.arena.typeAt c) t) (ht : t.mentionsError = false) :
    Tracks p a₀ s₀ Γ slot V e (s.withArena (s.body.arena.convert c op t).2) ∧
      ∀ c', V c' → c' ≠ c →
        (s.body.arena.convert c op t).2.get c' = s.body.arena.get c' := by
  have hlevel := Arena.Level.child hk (h.mem c hc)
  have hclt := hf.lt_size_of_level hlevel
  have hedits : Arena.Edits (· = c) s.body.arena (s.body.arena.convert c op t).2 :=
    .convert .refl rfl
  have hlt : ∀ x, x = c → x < a₀.size := by
    rintro x rfl
    exact hclt
  have hprogress : s.Progress (· = c) (s.withArena (s.body.arena.convert c op t).2) :=
    .of_edits hedits
  have hkeep (c' : Slot) (hc' : V c') (hne : c' ≠ c) := h.get_eq_of_edits hedits hlt hc' (by
    rintro x rfl hx
    exact hne (hf.eq_of_reaches (.child hk (h.mem c' hc')) hlevel hx (.refl a₀ x)))
  refine ⟨⟨h.valid₀, h.valid.convert hclt hplain, ?_, h.mem, ?_, fun c' hc' => ?_, ?_⟩,
    fun c' hc' hne => hkeep c' hc' hne c' (.refl _ c')⟩
  · refine h.progress.trans (hprogress.mono ?_)
    rintro x rfl
    exact .inr ⟨x, hc, .refl a₀ x⟩
  · have hne : slot ≠ c := by
      rintro rfl
      exact hf.not_reaches_parent hk (h.mem slot hc) (.refl a₀ slot)
    have hslot := Nat.lt_of_lt_of_le (hf.lt_size_of_level hk) h.valid.edits.size_le
    rw [arena_withArena, Arena.get_convert _ (Nat.lt_of_lt_of_le hclt h.valid.edits.size_le) hslot,
      if_neg hne, h.get_eq]
  · by_cases hne : c' = c
    · subst hne
      exact (h.settled c' hc').convert hplain hop ht h.valid.edits.size_le
    · exact (h.settled c' hc').congr (hkeep c' hc' hne)
  · refine (h.notes.of_closures_eq rfl).congr fun id => exists_congr fun c' => ?_
    refine and_congr_right fun hc' => ?_
    by_cases hne : c' = c
    · subst hne
      exact (h.settled c' hc').reads_convert id
    · exact Arena.reads_congr (hkeep c' hc' hne) id

end Forest

/-! ### Typing an operand and making it meet an expectation -/

section Visit

variable {env : Environment} {visit : Visit} {expected : Expectation}
  (hf : a₀.IsForest roots) (hk : a₀.Level roots k slot)
  (h : Tracks env.package a₀ s₀ s₀.readable slot V e s)
include hf hk h

/-- An operand that was typed is made to meet an expectation. -/
theorem comply (hc : V c) (hplain : ¬ (s.body.arena.get c).IsConversion)
    (hw : env.declarations.Widens env.context (s.body.arena.typeAt c) expected.type)
    (he : expected.type.mentionsError = false)
    (hrun : (Analysis.comply (s.body.arena.typeAt c) expected c).runIn env s = (.ok t, s')) :
    Tracks env.package a₀ s₀ s₀.readable slot V e s' ∧ s'.body.arena.typeAt c = t ∧
      expected.MetBy env.declarations t ∧
      ∀ c', V c' → c' ≠ c → s'.body.arena.get c' = s.body.arena.get c' := by
  have hte := (h.settled c hc).mentionsError_eq
  obtain ⟨hmet, ⟨rfl, rfl⟩ | ⟨op, hop, rfl⟩⟩ := runIn_comply_ok hw hte he hrun
  · exact ⟨h, rfl, hmet, fun _ _ _ => rfl⟩
  · obtain ⟨hconv, hkeep⟩ := convert hf hk h hc hplain hop hmet.mentionsError_eq
    exact ⟨hconv, (h.settled c hc).typeAt_convert, hmet, hkeep⟩

theorem expect (hv : VisitSpec env a₀ visit c) (hc : c ∈ (a₀.get slot).kind.operands)
    (hu : a₀.Untouched s₀.body.arena c)
    (hplain : V c → ¬ (s.body.arena.get c).IsConversion)
    (he : expected.type.mentionsError = false)
    (hrun : (Analysis.expect visit expected c).runIn env s = (.ok t, s')) :
    Tracks env.package a₀ s₀ s₀.readable slot (fun x => x = c ∨ V x) e s' ∧ s'.body.arena.typeAt c = t ∧
      expected.MetBy env.declarations t ∧
      ∀ c', V c' → c' ≠ c → s'.body.arena.get c' = s.body.arena.get c' := by
  obtain ⟨actual, s₁, hvisit, hw, hcomply⟩ := runIn_expect_ok hrun
  by_cases hVc : V c
  · have htyped := (h.settled c hVc).elaborated.nodeOk.typed
    rw [hv.typed htyped] at hvisit
    obtain ⟨rfl, rfl⟩ : s.body.arena.typeAt c = actual ∧ s = s₁ := by simpa using hvisit
    obtain ⟨h', rest⟩ := comply hf hk h hVc (hplain hVc) hw he hcomply
    refine ⟨h'.congr fun x => ⟨?_, .inr⟩, rest⟩
    rintro (rfl | hx)
    · exact hVc
    · exact hx
  · have hfresh := untouched hf hk h hu hc hVc
    obtain ⟨ha, hplain'⟩ := hv.analysed h.valid hfresh (fun e' he' => by cases he'; exact he) hvisit
    obtain ⟨h', hkeep⟩ := extend hf hk h rfl ha hc hVc
    rw [← ha.typeAt_eq] at hw hcomply
    obtain ⟨h'', htype, hmet, hkeep'⟩ := comply hf hk h' (.inl rfl) hplain' hw he hcomply
    exact ⟨h'', htype, hmet, fun c' hc' hne => (hkeep' c' (.inr hc') hne).trans (hkeep c' hc')⟩

end Visit

end AnalysisState.Tracks

end Boxlang
