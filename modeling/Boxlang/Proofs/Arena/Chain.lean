import Boxlang.Proofs.Arena.Forest
import Boxlang.Proofs.Arena.Rewriting

/-!
# Chains of conversions

The conversion depth of a slot is the length of the chain of conversions that starts
there.  It depends on nothing but what the nodes of the chain are, so it does not change
where these keep what they are and only others are edited (`Arena.KeepsChains`).

In an arena that comes from another one by edits, the chain of an original slot consists
of fresh slots and slots of the original chain.
-/

namespace Boxlang

/-- Annotations do not make a conversion of a node, and keep one. -/
theorem ExprKind.eq_conversion_of_bare_eq {kind kind' : ExprKind} {inner : Slot} {op : Conversion}
    (h : kind'.bare = kind.bare) (hk : kind = .conversion inner op) : kind' = .conversion inner op := by
  subst hk
  cases kind' with
  | conversion inner' op' => exact h
  | _ => cases h

namespace Arena

/-- The second slot is what the first leads to through conversions. -/
inductive Chain (a : Arena) : Slot → Slot → Prop where
  | here (slot : Slot) : Chain a slot slot
  | step {slot inner target : Slot} {op : Conversion} :
      (a.get slot).kind = .conversion inner op → Chain a inner target → Chain a slot target

variable {a₀ a b c : Arena} {slot x y z : Slot} {args roots : List Slot} {k : Nat}

namespace Chain

theorem reaches (h : a.Chain x y) : a.Reaches x y := by
  induction h with
  | here slot => exact .refl a slot
  | step hk _ ih => exact .head (by simp [hk, ExprKind.operands]) ih

theorem snoc {op : Conversion} (h : a.Chain x y) (hk : (a.get y).kind = .conversion z op) : a.Chain x z := by
  induction h with
  | here slot => exact .step hk (.here z)
  | step hk' _ ih => exact .step hk' (ih hk)

theorem total (hy : a.Chain x y) (hz : a.Chain x z) : a.Chain y z ∨ a.Chain z y := by
  induction hy with
  | here slot => exact .inl hz
  | @step slot inner y op hk hrest ih =>
    cases hz with
    | here => exact .inr (.step hk hrest)
    | step hk' hrest' =>
      rw [hk] at hk'
      obtain ⟨rfl, -⟩ := ExprKind.conversion.inj hk'
      exact ih hrest'

theorem eq_of_not (h : a.Chain x y) (hx : ¬ (a.get x).IsConversion) : y = x := by
  cases h with
  | here => rfl
  | step hk _ => exact absurd ⟨_, _, hk⟩ hx

end Chain

/-! ### Depths -/

theorem conversionDepthWithin_congr (h : ∀ y, a.Chain slot y → (b.get y).kind.bare = (a.get y).kind.bare)
    (n : Nat) : b.conversionDepthWithin n slot = a.conversionDepthWithin n slot := by
  induction n generalizing slot with
  | zero => rfl
  | succ n ih =>
    have hself := h slot (.here slot)
    unfold conversionDepthWithin
    cases hk : (a.get slot).kind with
    | conversion inner op =>
      rw [ExprKind.eq_conversion_of_bare_eq hself hk]
      dsimp only
      rw [ih fun y hy => h y (.step hk hy)]
    | _ =>
      cases hk' : (b.get slot).kind with
      | conversion inner op =>
        have := ExprKind.eq_conversion_of_bare_eq hself.symm hk'
        rw [hk] at this
        cases this
      | _ => rfl

/-- A depth that is counted far enough is counted to the end. -/
theorem IsRank.conversionDepthWithin_eq {rank : Slot → Nat} (hrank : a.IsRank rank) {n m : Nat}
    (hn : rank slot < n) (hm : rank slot < m) :
    a.conversionDepthWithin n slot = a.conversionDepthWithin m slot := by
  induction n generalizing slot m with
  | zero => exact absurd hn (Nat.not_lt_zero _)
  | succ n ih =>
    obtain ⟨m, rfl⟩ := Nat.exists_eq_succ_of_ne_zero (Nat.ne_of_gt (Nat.zero_lt_of_lt hm))
    unfold conversionDepthWithin
    cases hk : (a.get slot).kind with
    | conversion inner op =>
      have hlt : rank inner < rank slot := hrank slot inner (by simp [hk, ExprKind.operands])
      dsimp only
      rw [ih (Nat.lt_of_lt_of_le hlt (Nat.le_of_lt_succ hn)) (Nat.lt_of_lt_of_le hlt (Nat.le_of_lt_succ hm))]
    | _ => rfl

/-- More slots do not make a chain longer whose nodes stay what they are. -/
theorem IsAcyclic.conversionDepth_eq (h : a.IsAcyclic) (hin : a.InRange) (hslot : slot < a.size)
    (hle : a.size ≤ b.size) (hchain : ∀ y, a.Chain slot y → (b.get y).kind.bare = (a.get y).kind.bare) :
    b.conversionDepth slot = a.conversionDepth slot := by
  obtain ⟨rank, hrank, hlt⟩ := h.exists_rank_lt hin
  unfold conversionDepth
  rw [conversionDepthWithin_congr hchain]
  exact hrank.conversionDepthWithin_eq (Nat.lt_of_lt_of_le (hlt slot hslot) hle) (hlt slot hslot)

/-! ### Chains after edits -/

/-- The chain of an original slot goes through fresh slots and through those of the original chain. -/
theorem Rewrites.chain {home : Slot → Slot} (h : Rewrites a₀ a home) (hin : a₀.InRange) (hx : x < a₀.size)
    (hc : a.Chain x y) : a₀.size ≤ y ∨ a₀.Chain x y := by
  -- Every slot of the chain leads on to the node of some slot of the original chain.
  have hcover : ∀ {y z}, a.Chain y z → ∀ w < a₀.size, a₀.Chain x w → a.Covers a₀.size y (home w) →
      (y = w ∨ a₀.size ≤ y) → a₀.size ≤ z ∨ a₀.Chain x z := by
    intro y z hyz
    induction hyz with
    | here y =>
      rintro w - hxw - (rfl | hle)
      · exact .inr hxw
      · exact .inl hle
    | @step y inner z op hk hrest ih =>
      intro w hw hxw hcovers hy
      by_cases hhome : y = home w
      · have hbare : (a₀.get w).kind.bare = (a.get y).kind.bare := by
          rw [hhome]
          exact congrArg Expr.kind (h.bare_home w hw).symm
        have hkw := ExprKind.eq_conversion_of_bare_eq hbare hk
        have hinner : inner < a₀.size := hin w hw inner (by simp [hkw, ExprKind.operands])
        exact ih inner hinner (hxw.snoc hkw) (h.covers inner hinner) (.inl rfl)
      · obtain ⟨inner', hinner, hcovers'⟩ := hcovers.exists_of_ne hhome
        obtain ⟨hle, op', hk'⟩ := insertedInner?_eq_some.mp hinner
        rw [hk] at hk'
        obtain ⟨rfl, -⟩ := ExprKind.conversion.inj hk'
        exact ih w hw hxw hcovers' (.inr hle)
  exact hcover hc x hx (.here x) (h.covers x hx) (.inl rfl)

/-- The slots that are not there in the original arena, or on the chains of its slots `args`. -/
def OnChains (a₀ : Arena) (args : List Slot) (y : Slot) : Prop :=
  a₀.size ≤ y ∨ ∃ arg ∈ args, a₀.Chain arg y

/-- `b` comes from `a` by edits that leave the nodes on the chains of the original slots `args` what they are. -/
structure KeepsChains (a₀ : Arena) (args : List Slot) (a b : Arena) : Prop where
  holds : b.HoldsNodesOf a₀
  size_le : a.size ≤ b.size
  bare_eq : ∀ y < a.size, a₀.OnChains args y → (b.get y).kind.bare = (a.get y).kind.bare

namespace KeepsChains

theorem refl (h : a.HoldsNodesOf a₀) (args : List Slot) : a₀.KeepsChains args a a :=
  ⟨h, Nat.le_refl _, fun _ _ _ => rfl⟩

theorem annotate (h : a₀.KeepsChains args a b) {f : Expr → Expr} (hf : (b.get slot).Annotated (f (b.get slot))) :
    a₀.KeepsChains args a (b.modify slot f) := by
  refine ⟨h.holds.annotate hf, by simpa using h.size_le, fun y hy hon => ?_⟩
  exact (congrArg Expr.kind (Rewrites.bare_modify hf y)).trans (h.bare_eq y hy hon)

/-- Edits elsewhere leave the nodes alone. -/
theorem edits {W : Slot → Prop} (h : a₀.KeepsChains args a b) (hbc : Edits W b c)
    (hW : ∀ x, W x → x < a₀.size)
    (hdisj : ∀ x, W x → ∀ arg ∈ args, ¬ a₀.Chain arg x) : a₀.KeepsChains args a c := by
  refine ⟨h.holds.edits hbc hW, Nat.le_trans h.size_le hbc.size_le, fun y hy hon => ?_⟩
  have hkeep : c.get y = b.get y := by
    refine hbc.get_of_not (fun x hx => Nat.lt_of_lt_of_le (hW x hx) h.holds.size_le)
      (Nat.lt_of_lt_of_le hy h.size_le) fun hw => ?_
    rcases hon with hle | ⟨arg, harg, hchain⟩
    · exact absurd (hW y hw) (Nat.not_lt_of_le hle)
    · exact hdisj y hw arg harg hchain
  rw [hkeep, h.bare_eq y hy hon]

theorem conversionDepth_eq (h : a₀.KeepsChains args a b) (hin : a₀.InRange) (hacyclic : a₀.IsAcyclic)
    (hedits : Edits (· < a₀.size) a₀ a) {arg : Slot} (harg : arg ∈ args) (hlt : arg < a₀.size) :
    b.conversionDepth arg = a.conversionDepth arg := by
  obtain ⟨home, hrewrites⟩ := hedits.exists_rewrites fun _ hx => hx
  have hina : a.InRange := hin.edits hedits fun _ hx => hx
  have harga : arg < a.size := Nat.lt_of_lt_of_le hlt hedits.size_le
  refine (hacyclic.edits hin hedits fun _ hx => hx).conversionDepth_eq hina harga h.size_le fun y hy => ?_
  exact h.bare_eq y (hina.isRegion.of_reaches harga hy.reaches)
    ((hrewrites.chain hin hlt hy).imp_right fun hchain => ⟨arg, harg, hchain⟩)

end KeepsChains

/-! ### Chains of operands -/

section Operands

variable (hf : a₀.IsForest roots) (hslot : a₀.Level roots k slot) (hargs : args ⊆ (a₀.get slot).kind.operands)
include hf hslot hargs

/-- Operands of a node contain nothing of the chains of others. -/
theorem IsForest.not_chain_of_mem (hx : x ∈ (a₀.get slot).kind.operands) (hne : x ∉ args)
    (hxy : a₀.Reaches x y) : ∀ arg ∈ args, ¬ a₀.Chain arg y := by
  intro arg harg hchain
  obtain rfl := hf.eq_of_reaches (.child hslot hx) (.child hslot (hargs harg)) hxy hchain.reaches
  exact hne harg

/-- What stands behind the chain of an operand contains nothing of such chains. -/
theorem IsForest.not_chain_of_chain {arg : Slot} (harg : arg ∈ args) (hx : a₀.Chain arg x)
    (hplain : ¬ (a₀.get x).IsConversion) (hz : z ∈ (a₀.get x).kind.operands) (hzy : a₀.Reaches z y) :
    ∀ arg' ∈ args, ¬ a₀.Chain arg' y := by
  intro arg' harg' hy
  have hxy : a₀.Reaches x y := .head hz hzy
  obtain rfl := hf.eq_of_reaches (.child hslot (hargs harg)) (.child hslot (hargs harg'))
    (hx.reaches.trans hxy) hy.reaches
  obtain ⟨j, -, hlevel⟩ := IsForest.exists_level_of_reaches (.child hslot (hargs harg)) hx.reaches
  have hback : a₀.Chain y x := by
    rcases hx.total hy with hxy | hyx
    · obtain rfl := hxy.eq_of_not hplain
      exact .here y
    · exact hyx
  exact hf.not_reaches_parent hlevel hz (hzy.trans hback.reaches)

end Operands

end Arena

end Boxlang
