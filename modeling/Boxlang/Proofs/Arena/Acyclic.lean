import Boxlang.Proofs.Arena.Edits
import Mathlib.Data.Finset.Card

/-!
# Arenas without cycles

An arena is acyclic where some rank falls from every node to its operands.  The
rank of a slot can then be taken below the size of the arena, so recursion over
expressions ends within as many steps as there are slots.  Edits keep arenas
acyclic: a wrapper ranks right above the node it moved.
-/

namespace Boxlang

namespace Arena

def InRange (a : Arena) : Prop :=
  ∀ slot < a.size, ∀ c ∈ (a.get slot).kind.operands, c < a.size

instance (a : Arena) : Decidable a.InRange :=
  inferInstanceAs (Decidable (∀ slot < a.size, ∀ c ∈ (a.get slot).kind.operands, c < a.size))

/-- A rank that is smaller for operands than for the node they belong to. -/
def IsRank (a : Arena) (rank : Slot → Nat) : Prop :=
  ∀ slot, ∀ c ∈ (a.get slot).kind.operands, rank c < rank slot

def IsAcyclic (a : Arena) : Prop :=
  ∃ rank, a.IsRank rank

variable {a b : Arena} {W : Slot → Prop}

theorem InRange.isRegion (h : a.InRange) : a.IsRegion (· < a.size) :=
  fun slot hs => ⟨hs, h slot hs⟩

/-! ### Ranks below the size -/

def denseRank (a : Arena) (rank : Slot → Nat) (slot : Slot) : Nat :=
  (((Finset.range a.size).image rank).filter (· < rank slot)).card

theorem denseRank_lt_size (rank : Slot → Nat) {slot : Slot} (h : slot < a.size) :
    a.denseRank rank slot < a.size := by
  have hmem : rank slot ∈ (Finset.range a.size).image rank :=
    Finset.mem_image_of_mem rank (Finset.mem_range.mpr h)
  have hssub : ((Finset.range a.size).image rank).filter (· < rank slot) ⊂
      (Finset.range a.size).image rank :=
    Finset.filter_ssubset.mpr ⟨rank slot, hmem, Nat.lt_irrefl _⟩
  calc a.denseRank rank slot < ((Finset.range a.size).image rank).card := Finset.card_lt_card hssub
    _ ≤ (Finset.range a.size).card := Finset.card_image_le
    _ = a.size := Finset.card_range _

theorem denseRank_lt {rank : Slot → Nat} {c slot : Slot} (hc : c < a.size)
    (h : rank c < rank slot) : a.denseRank rank c < a.denseRank rank slot := by
  have hmem : rank c ∈ (Finset.range a.size).image rank :=
    Finset.mem_image_of_mem rank (Finset.mem_range.mpr hc)
  refine Finset.card_lt_card ⟨?_, fun hsub => ?_⟩
  · intro r hr
    rw [Finset.mem_filter] at hr ⊢
    exact ⟨hr.1, Nat.lt_trans hr.2 h⟩
  · have hfilter := hsub (Finset.mem_filter.mpr ⟨hmem, h⟩)
    exact Nat.lt_irrefl _ (Finset.mem_filter.mp hfilter).2

theorem IsAcyclic.exists_rank_lt (h : a.IsAcyclic) (hin : a.InRange) :
    ∃ rank, a.IsRank rank ∧ ∀ slot < a.size, rank slot < a.size := by
  obtain ⟨rank, hrank⟩ := h
  refine ⟨a.denseRank rank, fun slot c hc => ?_, fun slot hs => denseRank_lt_size rank hs⟩
  exact denseRank_lt (hin slot (lt_size_of_mem_operands hc) c hc) (hrank slot c hc)

/-! ### Edits -/

theorem operands_eq_of_annotated {e e' : Expr} (h : e.Annotated e') :
    e'.kind.operands = e.kind.operands :=
  Expr.operands_eq_of_bare_eq h.bare_eq

theorem operands_annotate {slot : Slot} {f : Expr → Expr}
    (hf : (b.get slot).Annotated (f (b.get slot))) (x : Slot) :
    ((b.modify slot f).get x).kind.operands = (b.get x).kind.operands := by
  rw [get_modify]
  split
  next h => rw [operands_eq_of_annotated hf, h.1]
  next => rfl

/-- The wrapper of a node refers to nothing but the fresh slot that the node moves to. -/
def RefersToMoved (a : Arena) (slot : Slot) (wrapper : Slot → Span → Expr) : Prop :=
  ∀ c ∈ (wrapper a.size (a.get slot).span).kind.operands, c = a.size

theorem refersToMoved_conversion (a : Arena) (slot : Slot) (op : Conversion) (t : Ty) :
    a.RefersToMoved slot fun inner span => { span, kind := .conversion inner op, type? := some t } := by
  simp [RefersToMoved, ExprKind.operands]

theorem InRange.wrap (hin : b.InRange) {slot : Slot} (hs : slot < b.size)
    {wrapper : Slot → Span → Expr} (hw : b.RefersToMoved slot wrapper) :
    (b.wrap slot wrapper).2.InRange := by
  intro x hx c hc
  rw [size_wrap] at hx ⊢
  by_cases hfresh : x = b.size
  · subst hfresh
    rw [get_wrap_fresh] at hc
    exact Nat.lt_succ_of_lt (hin slot hs c hc)
  · have hxb : x < b.size := Nat.lt_of_le_of_ne (Nat.le_of_lt_succ hx) hfresh
    rw [get_wrap b hs hxb] at hc
    split at hc
    · exact hw c hc ▸ Nat.lt_succ_self _
    · exact Nat.lt_succ_of_lt (hin x hxb c hc)

theorem InRange.edits (hin : a.InRange) (hab : Edits W a b) (hW : ∀ slot, W slot → slot < a.size) :
    b.InRange := by
  induction hab with
  | refl => exact hin
  | annotate _ _ hf ih =>
      intro x hx c hc
      rw [operands_annotate hf] at hc
      simpa using ih x (by simpa using hx) c hc
  | @convert b slot op t hb hw ih =>
      exact ih.wrap (Nat.lt_of_lt_of_le (hW slot hw) hb.size_le) (b.refersToMoved_conversion slot op t)

/-- The rank after a node was wrapped: room for the moved node below its wrapper. -/
def rankAfterWrap (b : Arena) (rank : Slot → Nat) (slot x : Slot) : Nat :=
  if x = b.size then 2 * rank slot else 2 * rank x + 1

theorem IsRank.wrap {rank : Slot → Nat} (h : b.IsRank rank) (hin : b.InRange) {slot : Slot}
    (hs : slot < b.size) {wrapper : Slot → Span → Expr} (hw : b.RefersToMoved slot wrapper) :
    (b.wrap slot wrapper).2.IsRank (b.rankAfterWrap rank slot) := by
  intro x c hc
  have hx : x < b.size + 1 := by simpa using lt_size_of_mem_operands hc
  unfold rankAfterWrap
  by_cases hfresh : x = b.size
  · subst hfresh
    rw [get_wrap_fresh] at hc
    have hlt := h slot c hc
    have hcb := hin slot hs c hc
    rw [if_neg (Nat.ne_of_lt hcb), if_pos rfl]
    omega
  · have hxb : x < b.size := Nat.lt_of_le_of_ne (Nat.le_of_lt_succ hx) hfresh
    rw [get_wrap b hs hxb] at hc
    split at hc
    next hslot =>
      rw [if_pos (hw c hc), if_neg hfresh, hslot]
      omega
    next =>
      have hlt := h x c hc
      have hcb := hin x hxb c hc
      rw [if_neg (Nat.ne_of_lt hcb), if_neg hfresh]
      omega

theorem IsAcyclic.wrap (h : b.IsAcyclic) (hin : b.InRange) {slot : Slot} (hs : slot < b.size)
    {wrapper : Slot → Span → Expr} (hw : b.RefersToMoved slot wrapper) :
    (b.wrap slot wrapper).2.IsAcyclic := by
  obtain ⟨rank, hrank⟩ := h
  exact ⟨_, hrank.wrap hin hs hw⟩

theorem IsAcyclic.edits (h : a.IsAcyclic) (hin : a.InRange) (hab : Edits W a b)
    (hW : ∀ slot, W slot → slot < a.size) : b.IsAcyclic := by
  induction hab with
  | refl => exact h
  | annotate _ _ hf ih =>
      obtain ⟨rank, hrank⟩ := ih
      refine ⟨rank, fun x c hc => ?_⟩
      rw [operands_annotate hf] at hc
      exact hrank x c hc
  | @convert b slot op t hb hw ih =>
      exact ih.wrap (hin.edits hb hW) (Nat.lt_of_lt_of_le (hW slot hw) hb.size_le)
        (b.refersToMoved_conversion slot op t)

end Arena

end Boxlang
