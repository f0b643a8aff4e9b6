import Boxlang.Proofs.Arena.Chain
import Mathlib.Tactic.IntervalCases

/-!
# Arenas that grow and are wrapped

An arena grows by nodes whose operands exist, and nodes are wrapped in their slots by
nodes that refer to nothing but the slot where the old node went (`Arena.Builds`).

Such steps keep the graph of the nodes without cycles, though a wrapper refers to a slot
that did not exist (`Arena.IsDag.builds`).  So the chain of conversions from every slot ends, and
putting one more conversion in a slot makes those chains longer that run through the slot,
and no others (`Arena.isRewritable_of_builds`).
-/

namespace Boxlang

namespace Arena

variable {a b : Arena} {slot x y : Slot} {wrapper : Slot → Span → Expr} {op : Conversion} {t : Ty} {n : Nat}

/-! ### Cycles -/

theorem IsRank.le_of_reaches {rank : Slot → Nat} (h : a.IsRank rank) (hxy : a.Reaches x y) :
    rank y ≤ rank x := by
  induction hxy with
  | refl => exact Nat.le_refl _
  | tail _ hc ih => exact Nat.le_trans (Nat.le_of_lt (h _ _ hc)) ih

open scoped Classical in
noncomputable def reachCount (a : Arena) (slot : Slot) : Nat :=
  ((Finset.range a.size).filter (a.Reaches slot)).card

open scoped Classical in
theorem reachCount_lt (hc : y ∈ (a.get x).kind.operands) (hback : ¬ a.Reaches y x) :
    a.reachCount y < a.reachCount x := by
  refine Finset.card_lt_card ⟨fun z hz => ?_, fun hsub => ?_⟩
  · rw [Finset.mem_filter] at hz ⊢
    exact ⟨hz.1, .head hc hz.2⟩
  · have hself : x ∈ (Finset.range a.size).filter (a.Reaches x) :=
      Finset.mem_filter.mpr ⟨Finset.mem_range.mpr (lt_size_of_mem_operands hc), .refl a x⟩
    exact hback (Finset.mem_filter.mp (hsub hself)).2

/-- There is a rank exactly if no operand of a node leads back to the node. -/
theorem isAcyclic_iff :
    a.IsAcyclic ↔ ∀ slot, ∀ c ∈ (a.get slot).kind.operands, ¬ a.Reaches c slot := by
  constructor
  · rintro ⟨rank, hrank⟩ slot c hc hback
    exact Nat.lt_irrefl _ (Nat.lt_of_lt_of_le (hrank slot c hc) (hrank.le_of_reaches hback))
  · intro h
    exact ⟨a.reachCount, fun slot c hc => reachCount_lt hc (h slot c hc)⟩

/-- All operands exist, and no node can be reached from its own operands. -/
structure IsDag (a : Arena) : Prop where
  inRange : a.InRange
  not_reaches : ∀ slot, ∀ c ∈ (a.get slot).kind.operands, ¬ a.Reaches c slot

theorem isDag_iff : a.IsDag ↔ a.InRange ∧ a.IsAcyclic :=
  ⟨fun h => ⟨h.inRange, isAcyclic_iff.mpr h.not_reaches⟩, fun h => ⟨h.1, isAcyclic_iff.mp h.2⟩⟩

theorem IsDag.isAcyclic (h : a.IsDag) : a.IsAcyclic :=
  (isDag_iff.mp h).2

/-! ### New nodes -/

@[simp]
theorem size_alloc (a : Arena) (span : Span) (kind : ExprKind) :
    (a.alloc span kind).2.size = a.size + 1 := by
  simp [alloc, size]

@[simp]
theorem get_alloc_fresh (a : Arena) (span : Span) (kind : ExprKind) :
    (a.alloc span kind).2.get a.size = { span, kind } := by
  simp [get_eq_getElem?, alloc, size]

theorem get_alloc_of_lt (a : Arena) (h : x < a.size) (span : Span) (kind : ExprKind) :
    (a.alloc span kind).2.get x = a.get x := by
  have h' : x < a.nodes.size := h
  simp [get_eq_getElem?, alloc, Array.getElem?_push, Nat.ne_of_lt h']

section Alloc

variable {span : Span} {kind : ExprKind} (hkind : ∀ c ∈ kind.operands, c < a.size)
include hkind

theorem InRange.alloc (hin : a.InRange) : (a.alloc span kind).2.InRange := by
  intro x hx c hc
  rw [size_alloc] at hx ⊢
  rcases Nat.lt_succ_iff_lt_or_eq.mp hx with hlt | rfl
  · rw [get_alloc_of_lt a hlt] at hc
    exact Nat.lt_succ_of_lt (hin x hlt c hc)
  · rw [get_alloc_fresh] at hc
    exact Nat.lt_succ_of_lt (hkind c hc)

/-- A new node ranks above all nodes that were there. -/
theorem IsAcyclic.alloc (h : a.IsAcyclic) (hin : a.InRange) : (a.alloc span kind).2.IsAcyclic := by
  obtain ⟨rank, hrank, hlt⟩ := h.exists_rank_lt hin
  refine ⟨fun x => if x = a.size then a.size else rank x, fun x c hc => ?_⟩
  have hx : x < a.size + 1 := by simpa using lt_size_of_mem_operands hc
  rcases Nat.lt_succ_iff_lt_or_eq.mp hx with hxa | rfl
  · rw [get_alloc_of_lt a hxa] at hc
    have hca := hin x hxa c hc
    simpa [Nat.ne_of_lt hca, Nat.ne_of_lt hxa] using hrank x c hc
  · rw [get_alloc_fresh] at hc
    have hca := hkind c hc
    simpa [Nat.ne_of_lt hca] using hlt c hca

theorem IsDag.alloc (h : a.IsDag) : (a.alloc span kind).2.IsDag :=
  isDag_iff.mpr ⟨h.inRange.alloc hkind, h.isAcyclic.alloc hkind h.inRange⟩

end Alloc

theorem IsDag.wrap (h : a.IsDag) (hslot : slot < a.size) (hw : a.RefersToMoved slot wrapper) :
    (a.wrap slot wrapper).2.IsDag :=
  isDag_iff.mpr ⟨h.inRange.wrap hslot hw, h.isAcyclic.wrap h.inRange hslot hw⟩

/-! ### Sequences of steps -/

/-- The arenas that adding, wrapping and converting nodes leads to. -/
inductive Builds (a : Arena) : Arena → Prop where
  | refl : Builds a a
  | alloc {b : Arena} {span : Span} {kind : ExprKind} :
      Builds a b → (∀ c ∈ kind.operands, c < b.size) → Builds a (b.alloc span kind).2
  | wrap {b : Arena} {slot : Slot} {wrapper : Slot → Span → Expr} :
      Builds a b → slot < b.size → b.RefersToMoved slot wrapper → Builds a (b.wrap slot wrapper).2
  | convert {b : Arena} {slot : Slot} {op : Conversion} {t : Ty} :
      Builds a b → slot < b.size → Builds a (b.convert slot op t).2

theorem IsDag.builds (ha : a.IsDag) (h : Builds a b) : b.IsDag := by
  induction h with
  | refl => exact ha
  | alloc _ hkind ih => exact ih.alloc hkind
  | wrap _ hslot hw ih => exact ih.wrap hslot hw
  | convert _ hslot ih => exact ih.wrap hslot (refersToMoved_conversion _ _ _ _)

structure MovesNode (a : Arena) (slot : Slot) (wrapper : Slot → Span → Expr) : Prop where
  fresh : (a.wrap slot wrapper).1 = a.size
  size : (a.wrap slot wrapper).2.size = a.size + 1
  moved : (a.wrap slot wrapper).2.get (a.wrap slot wrapper).1 = a.get slot
  wrapped : (a.wrap slot wrapper).2.get slot = wrapper (a.wrap slot wrapper).1 (a.get slot).span
  others : ∀ x < a.size, x ≠ slot → (a.wrap slot wrapper).2.get x = a.get x

theorem movesNode_of_lt (hslot : slot < a.size) (wrapper : Slot → Span → Expr) :
    a.MovesNode slot wrapper where
  fresh := rfl
  size := size_wrap a slot wrapper
  moved := get_wrap_fresh a slot wrapper
  wrapped := get_wrap_self a hslot wrapper
  others _ hx hne := get_wrap_of_ne a hx hne wrapper

/-! ### Lengths of chains -/

/-- The chain of conversions from a slot ends after so many of them, at a node that is none. -/
inductive ChainLength (a : Arena) : Slot → Nat → Prop where
  | here {slot : Slot} : ¬ (a.get slot).IsConversion → ChainLength a slot 0
  | step {slot inner : Slot} {op : Conversion} {n : Nat} :
      (a.get slot).kind = .conversion inner op → ChainLength a inner n → ChainLength a slot (n + 1)

theorem ChainLength.conversionDepthWithin_eq (h : a.ChainLength x n) {steps : Nat} (hsteps : n < steps) :
    a.conversionDepthWithin steps x = n := by
  induction h generalizing steps with
  | @here slot hplain =>
    cases steps with
    | zero => rfl
    | succ steps =>
      unfold conversionDepthWithin
      split
      next inner op hk => exact absurd ⟨inner, op, hk⟩ hplain
      next => rfl
  | @step slot inner op n hk _ ih =>
    obtain ⟨steps, rfl⟩ := Nat.exists_eq_succ_of_ne_zero (Nat.ne_of_gt (Nat.zero_lt_of_lt hsteps))
    simp only [conversionDepthWithin, hk, ih (Nat.lt_of_succ_lt_succ hsteps)]

theorem IsRank.exists_chainLength {rank : Slot → Nat} (h : a.IsRank rank) (slot : Slot) :
    ∃ n ≤ rank slot, a.ChainLength slot n := by
  induction hr : rank slot using Nat.strongRecOn generalizing slot with
  | ind r ih =>
    by_cases hconv : (a.get slot).IsConversion
    · obtain ⟨inner, op, hk⟩ := hconv
      have hlt : rank inner < rank slot := h slot inner (by simp [hk, ExprKind.operands])
      obtain ⟨n, hn, hlength⟩ := ih _ (hr ▸ hlt) inner rfl
      exact ⟨n + 1, by omega, .step hk hlength⟩
    · exact ⟨0, Nat.zero_le _, .here hconv⟩

theorem IsDag.exists_chainLength (h : a.IsDag) (hslot : slot < a.size) :
    ∃ n, a.ChainLength slot n ∧ a.conversionDepth slot = n := by
  obtain ⟨rank, hrank, hlt⟩ := h.isAcyclic.exists_rank_lt h.inRange
  obtain ⟨n, hn, hlength⟩ := hrank.exists_chainLength slot
  exact ⟨n, hlength, hlength.conversionDepthWithin_eq (Nat.lt_of_le_of_lt hn (hlt slot hslot))⟩

theorem ChainLength.unique {m : Nat} (hn : a.ChainLength x n) (hm : a.ChainLength x m) : n = m := by
  have hn' : n < n + m + 1 := by omega
  have hm' : m < n + m + 1 := by omega
  exact (hn.conversionDepthWithin_eq hn').symm.trans (hm.conversionDepthWithin_eq hm')

theorem ChainLength.conversionDepth_eq (h : a.IsDag) (hx : x < a.size) (hn : a.ChainLength x n) :
    a.conversionDepth x = n := by
  obtain ⟨m, hm, heq⟩ := h.exists_chainLength hx
  rw [heq, hm.unique hn]

/-! ### Lengths after a conversion -/

section Convert

variable (h : a.IsDag) (hslot : slot < a.size)
include h hslot

theorem ChainLength.convert_of_not_chain (hx : x < a.size) (hn : a.ChainLength x n)
    (hnot : ¬ a.Chain x slot) : (a.convert slot op t).2.ChainLength x n := by
  have hget {y : Slot} (hy : y < a.size) (hne : ¬ a.Chain y slot) :
      (a.convert slot op t).2.get y = a.get y := by
    rw [get_convert a hslot hy, if_neg]
    rintro rfl
    exact hne (.here y)
  induction hn with
  | @here y hplain => exact .here (hget hx hnot ▸ hplain)
  | @step y inner _ _ hk _ ih =>
    have hinner : inner < a.size := h.inRange y hx inner (by simp [hk, ExprKind.operands])
    exact .step ((congrArg Expr.kind (hget hx hnot)).trans hk) (ih hinner fun hc => hnot (.step hk hc))

/-- The moved node starts the chain that its slot started before. -/
theorem ChainLength.convert_fresh (hn : a.ChainLength slot n) :
    (a.convert slot op t).2.ChainLength a.size n := by
  have hget := get_convert_fresh a slot op t
  cases hn with
  | here hplain => exact .here (hget ▸ hplain)
  | @step _ inner _ _ hk hrest =>
    have hmem : inner ∈ (a.get slot).kind.operands := by simp [hk, ExprKind.operands]
    -- The rest of the chain does not come back to the slot.
    have hnot : ¬ a.Chain inner slot := fun hc => h.not_reaches slot inner hmem hc.reaches
    exact .step ((congrArg Expr.kind hget).trans hk)
      (hrest.convert_of_not_chain h hslot (h.inRange slot hslot inner hmem) hnot)

theorem ChainLength.convert_of_chain (hc : a.Chain x slot) (hx : x < a.size) (hn : a.ChainLength x n) :
    (a.convert slot op t).2.ChainLength x (n + 1) := by
  induction hc generalizing n with
  | here slot =>
    have hself : ((a.convert slot op t).2.get slot).kind = .conversion a.size op := by
      rw [get_convert a hslot hslot, if_pos rfl]
      rfl
    exact .step hself (hn.convert_fresh h hslot)
  | @step x inner slot op' hk hrest ih =>
    have hmem : inner ∈ (a.get x).kind.operands := by simp [hk, ExprKind.operands]
    cases hn with
    | here hplain => exact absurd ⟨inner, op', hk⟩ hplain
    | step hk' hlength =>
      obtain ⟨rfl, -⟩ := ExprKind.conversion.inj (hk.symm.trans hk')
      have hne : x ≠ slot := by
        rintro rfl
        exact h.not_reaches x inner hmem hrest.reaches
      have hkeep : (a.convert slot op t).2.get x = a.get x := by
        rw [get_convert a hslot hx, if_neg hne]
      exact .step ((congrArg Expr.kind hkeep).trans hk) (ih hslot (h.inRange x hx inner hmem) hlength)

end Convert

/--
A conversion put in a slot makes the chains longer by one that run through the slot, and
no others.
-/
structure DeepensChains (a : Arena) (slot : Slot) (op : Conversion) (t : Ty) : Prop where
  through : ∀ x < a.size, a.Chain x slot →
    (a.convert slot op t).2.conversionDepth x = a.conversionDepth x + 1
  beside : ∀ x < a.size, ¬ a.Chain x slot →
    (a.convert slot op t).2.conversionDepth x = a.conversionDepth x
  /-- The moved node keeps the depth that it had in its slot. -/
  moved : (a.convert slot op t).2.conversionDepth a.size = a.conversionDepth slot

theorem IsDag.deepensChains (h : a.IsDag) (hslot : slot < a.size) (op : Conversion) (t : Ty) :
    a.DeepensChains slot op t := by
  have hdag : (a.convert slot op t).2.IsDag := h.wrap hslot (refersToMoved_conversion a slot op t)
  have hlt {x : Slot} (hx : x < a.size) : x < (a.convert slot op t).2.size := by
    simpa using Nat.lt_succ_of_lt hx
  constructor
  · intro x hx hc
    obtain ⟨n, hn, heq⟩ := h.exists_chainLength hx
    rw [heq]
    exact (hn.convert_of_chain h hslot hc hx).conversionDepth_eq hdag (hlt hx)
  · intro x hx hnot
    obtain ⟨n, hn, heq⟩ := h.exists_chainLength hx
    rw [heq]
    exact (hn.convert_of_not_chain h hslot hx hnot).conversionDepth_eq hdag (hlt hx)
  · obtain ⟨n, hn, heq⟩ := h.exists_chainLength hslot
    rw [heq]
    exact (hn.convert_fresh h hslot).conversionDepth_eq hdag (by simp)

structure IsRewritable (a : Arena) : Prop where
  isDag : a.IsDag
  /-- The chain of conversions from every slot ends, and the depth of the slot is its length. -/
  ends : ∀ slot < a.size, ∃ n, a.ChainLength slot n ∧ a.conversionDepth slot = n
  moves : ∀ slot < a.size, ∀ wrapper, a.MovesNode slot wrapper
  deepens : ∀ slot < a.size, ∀ op t, a.DeepensChains slot op t

/-- Arenas stay rewritable while nodes are added, wrapped and converted. -/
theorem isRewritable_of_builds (ha : a.IsDag) (h : Builds a b) : b.IsRewritable where
  isDag := ha.builds h
  ends _ hslot := (ha.builds h).exists_chainLength hslot
  moves _ hslot wrapper := movesNode_of_lt hslot wrapper
  deepens _ hslot op t := (ha.builds h).deepensChains hslot op t

/-- The arena of `4!`. -/
def unwrappedLiteral : Arena where
  nodes := #[{ span := ⟨0, 1⟩, kind := .int 4 }, { span := ⟨0, 2⟩, kind := .unwrap 0 }]

theorem isDag_unwrappedLiteral : unwrappedLiteral.IsDag := by
  refine isDag_iff.mpr ⟨by unfold InRange; decide, id, fun slot c hc => ?_⟩
  have hslot : slot < 2 := lt_size_of_mem_operands hc
  interval_cases slot
  · cases hc
  · obtain rfl := List.mem_singleton.mp hc
    exact Nat.zero_lt_one

/-- The literal is converted, and the whole expression is the operand of another one, which is wrapped. -/
def wrappedOperands : Arena :=
  let wrapped := (unwrappedLiteral.convert 0 .wrapOptional (.optional .int)).2
  let called := (wrapped.alloc ⟨0, 5⟩ (.invoke 1 [])).2
  (called.wrap 3 fun inner span => { span, kind := .unwrap inner }).2

theorem builds_wrappedOperands : Builds unwrappedLiteral wrappedOperands := by
  refine .wrap (.alloc (.convert .refl (by decide)) (by decide)) (by decide) ?_
  simp [RefersToMoved, ExprKind.operands]

/-- A conversion in the slot where the literal went deepens the slot where it was, and not its parent. -/
theorem isRewritable_wrappedOperands :
    unwrappedLiteral.IsDag ∧ Builds unwrappedLiteral wrappedOperands ∧ wrappedOperands.IsDag ∧
      let deeper := (wrappedOperands.convert 2 (.box .int none) (.boxed .int)).2
      wrappedOperands.conversionDepth 0 = 1 ∧ deeper.conversionDepth 0 = 2 ∧
        deeper.conversionDepth 1 = 0 := by
  have h := isRewritable_of_builds isDag_unwrappedLiteral builds_wrappedOperands
  obtain ⟨hthrough, hbeside, -⟩ := h.deepens 2 (by decide) (.box .int none) (.boxed .int)
  have hconversion : (wrappedOperands.get 0).kind = .conversion 2 .wrapOptional := rfl
  have hchain : wrappedOperands.Chain 0 2 := .step hconversion (.here 2)
  have hplain : ¬ wrappedOperands.Chain 1 2 := fun hc =>
    absurd (hc.eq_of_not (by rintro ⟨inner, op, hk⟩; cases hk)) (by decide)
  exact ⟨isDag_unwrappedLiteral, builds_wrappedOperands, h.isDag, rfl,
    hthrough 0 (by decide) hchain, hbeside 1 (by decide) hplain⟩

end Arena

end Boxlang
