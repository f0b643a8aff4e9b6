import Boxlang.Proofs.Arena.Acyclic
import Boxlang.Proofs.Arena.Rewriting

/-!
# Arenas as trees

The expression in a slot, unfolded into a tree of nodes without annotations, in
which conversions put in front of fresh slots are left out (`Arena.tree`).  Labels
keep the operand slots, so equal trees have the same nodes in the same places.

Edits of an acyclic arena leave the tree of every original slot as it was.
-/

namespace Boxlang

inductive ExprTree where
  | node (expr : Expr) (operands : List ExprTree)
  deriving Inhabited

namespace Arena

/--
The tree of the expression in a slot, without annotations and without conversions
put in front of slots past the first `n`; `none` where it is deeper than `steps`.
-/
def treeWithin (a : Arena) (n : Nat) : Nat → Slot → Option ExprTree
  | 0, _ => none
  | steps + 1, slot =>
    match a.insertedInner? n slot with
    | some inner => a.treeWithin n steps inner
    | none => ((a.get slot).kind.operands.mapM (a.treeWithin n steps)).map (.node (a.get slot).bare)

def tree (a : Arena) (n : Nat) (slot : Slot) : Option ExprTree :=
  a.treeWithin n a.size slot

section Lists

variable {α β : Type} {f g : α → Option β}

theorem exists_mapM_eq_some {l : List α} (h : ∀ x ∈ l, ∃ y, f x = some y) :
    ∃ ys, l.mapM f = some ys := by
  induction l with
  | nil => exact ⟨[], rfl⟩
  | cons x l ih =>
      obtain ⟨y, hy⟩ := h x List.mem_cons_self
      obtain ⟨ys, hys⟩ := ih fun z hz => h z (List.mem_cons_of_mem x hz)
      exact ⟨y :: ys, by simp [hy, hys]⟩

theorem eq_of_mapM_eq_some {l : List α} {ys zs : List β} (hf : l.mapM f = some ys)
    (hg : l.mapM g = some zs)
    (h : ∀ x ∈ l, ∀ y z, f x = some y → g x = some z → y = z) : ys = zs := by
  induction l generalizing ys zs with
  | nil =>
      obtain rfl : [] = ys := by simpa using hf
      obtain rfl : [] = zs := by simpa using hg
      rfl
  | cons x l ih =>
      rw [List.mapM_cons] at hf hg
      obtain ⟨y, hy, ys', hys, rfl⟩ : ∃ y, f x = some y ∧ ∃ ys', l.mapM f = some ys' ∧
          y :: ys' = ys := by
        simpa [Option.bind_eq_some_iff] using hf
      obtain ⟨z, hz, zs', hzs, rfl⟩ : ∃ z, g x = some z ∧ ∃ zs', l.mapM g = some zs' ∧
          z :: zs' = zs := by
        simpa [Option.bind_eq_some_iff] using hg
      rw [h x List.mem_cons_self y z hy hz,
        ih hys hzs fun w hw => h w (List.mem_cons_of_mem x hw)]

end Lists

/-! ### Trees of acyclic arenas -/

theorem exists_treeWithin {a : Arena} {rank : Slot → Nat} (hrank : a.IsRank rank) (n : Nat)
    {steps : Nat} {slot : Slot} (h : rank slot < steps) :
    ∃ t, a.treeWithin n steps slot = some t := by
  induction steps generalizing slot with
  | zero => exact absurd h (Nat.not_lt_zero _)
  | succ steps ih =>
      unfold treeWithin
      cases hi : a.insertedInner? n slot with
      | some inner =>
          obtain ⟨-, op, hk⟩ := insertedInner?_eq_some.mp hi
          have hlt : rank inner < rank slot := hrank slot inner (by simp [hk, ExprKind.operands])
          exact ih (by omega)
      | none =>
          obtain ⟨ts, hts⟩ := exists_mapM_eq_some (f := a.treeWithin n steps)
            (l := (a.get slot).kind.operands) fun c hc => by
              have hlt := hrank slot c hc
              exact ih (by omega)
          exact ⟨.node (a.get slot).bare ts, by simp [hts]⟩

theorem IsAcyclic.exists_tree {a : Arena} (h : a.IsAcyclic) (hin : a.InRange) (n : Nat)
    {slot : Slot} (hs : slot < a.size) : ∃ t, a.tree n slot = some t := by
  obtain ⟨rank, hrank, hlt⟩ := h.exists_rank_lt hin
  exact exists_treeWithin hrank n (hlt slot hs)

/-! ### Trees after edits -/

theorem Covers.exists_treeWithin {a : Arena} {n : Nat} {x y : Slot} (h : a.Covers n x y)
    {steps : Nat} {t : ExprTree} (ht : a.treeWithin n steps x = some t) :
    ∃ steps', a.treeWithin n steps' y = some t := by
  induction h generalizing steps with
  | here => exact ⟨steps, ht⟩
  | step hi _ ih =>
      cases steps with
      | zero => simp [treeWithin] at ht
      | succ steps =>
          simp only [treeWithin, hi] at ht
          exact ih ht

theorem InRange.insertedInner?_eq_none {a : Arena} (hin : a.InRange) (slot : Slot) :
    a.insertedInner? a.size slot = none := by
  cases hi : a.insertedInner? a.size slot with
  | none => rfl
  | some inner =>
      obtain ⟨hle, op, hk⟩ := insertedInner?_eq_some.mp hi
      have hc : inner ∈ (a.get slot).kind.operands := by simp [hk, ExprKind.operands]
      exact absurd (hin slot (lt_size_of_mem_operands hc) inner hc) (Nat.not_lt_of_le hle)

variable {a₀ a : Arena} {home : Slot → Slot}

theorem Rewrites.treeWithin_eq (h : Rewrites a₀ a home) (hin : a₀.InRange) {m n : Nat}
    {slot : Slot} (hs : slot < a₀.size) {t t' : ExprTree}
    (ht : a₀.treeWithin a₀.size m slot = some t) (ht' : a.treeWithin a₀.size n slot = some t') :
    t = t' := by
  induction m generalizing n slot t t' with
  | zero => simp [treeWithin] at ht
  | succ m ih =>
      obtain ⟨n', hhome⟩ := (h.covers slot hs).exists_treeWithin ht'
      have hbare := h.bare_home slot hs
      have hops := Expr.operands_eq_of_bare_eq hbare
      cases n' with
      | zero => simp [treeWithin] at hhome
      | succ n' =>
          simp only [treeWithin, hin.insertedInner?_eq_none, insertedInner?_congr hbare, hbare,
            hops, Option.map_eq_some_iff] at ht hhome
          obtain ⟨ts, hts, rfl⟩ := ht
          obtain ⟨ts', hts', rfl⟩ := hhome
          rw [eq_of_mapM_eq_some hts hts' fun c hc y z => ih (hin slot hs c hc)]

theorem Edits.tree_eq {W : Slot → Prop} (hab : Edits W a₀ a)
    (hW : ∀ slot, W slot → slot < a₀.size) (hin : a₀.InRange) (hac : a₀.IsAcyclic) {slot : Slot}
    (hs : slot < a₀.size) :
    ∃ t, a₀.tree a₀.size slot = some t ∧ a.tree a₀.size slot = some t := by
  obtain ⟨home, h⟩ := hab.exists_rewrites hW
  obtain ⟨t, ht⟩ := hac.exists_tree hin a₀.size hs
  obtain ⟨t', ht'⟩ := (hac.edits hin hab hW).exists_tree (hin.edits hab hW) a₀.size
    (Nat.lt_of_lt_of_le hs h.size_le)
  exact ⟨t, ht, (h.treeWithin_eq hin hs ht ht') ▸ ht'⟩

end Arena

end Boxlang
