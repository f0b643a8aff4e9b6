import Boxlang.Proofs.Arena.Edits

/-!
# Where nodes move

After edits of an arena each of its nodes is in exactly one place, its home: its
own slot, or a fresh one that its slot leads to through conversions that were put
in front of it.  Everything else in the new arena is such a conversion.

A conversion that was put in refers to a fresh slot, one past the original arena,
while the operands of original nodes are original slots.
-/

namespace Boxlang

namespace Arena

/-- The operand of a conversion that stands in front of a slot past the first `n`. -/
def insertedInner? (a : Arena) (n : Nat) (slot : Slot) : Option Slot :=
  match (a.get slot).kind with
  | .conversion inner _ => if n ≤ inner then some inner else none
  | _ => none

theorem insertedInner?_eq_some {a : Arena} {n : Nat} {slot inner : Slot} :
    a.insertedInner? n slot = some inner ↔
      n ≤ inner ∧ ∃ op, (a.get slot).kind = .conversion inner op := by
  unfold insertedInner?
  cases (a.get slot).kind with
  | conversion i op =>
      by_cases h : n ≤ i
      · simp only [h, if_true, Option.some.injEq, ExprKind.conversion.injEq]
        constructor
        · rintro rfl
          exact ⟨h, op, rfl, rfl⟩
        · rintro ⟨-, _, rfl, -⟩
          rfl
      · simp only [h, if_false, reduceCtorEq, ExprKind.conversion.injEq, false_iff]
        rintro ⟨hle, _, rfl, -⟩
        exact h hle
  | _ => simp

/-- Whether there is such a conversion in a slot does not depend on annotations. -/
theorem insertedInner?_congr {a b : Arena} {n : Nat} {x y : Slot}
    (h : (a.get x).bare = (b.get y).bare) : a.insertedInner? n x = b.insertedInner? n y := by
  have hk : (a.get x).kind.bare = (b.get y).kind.bare := congrArg Expr.kind h
  unfold insertedInner?
  cases hx : (a.get x).kind <;> cases hy : (b.get y).kind <;> simp_all [ExprKind.bare]

/-- The second slot is what the first leads to through conversions in front of fresh slots. -/
inductive Covers (a : Arena) (n : Nat) : Slot → Slot → Prop where
  | here (slot : Slot) : Covers a n slot slot
  | step {slot inner target : Slot} :
      a.insertedInner? n slot = some inner → Covers a n inner target → Covers a n slot target

/-- `a` is `a₀` with conversions put in, where the node of each slot of `a₀` is at `home`. -/
structure Rewrites (a₀ a : Arena) (home : Slot → Slot) : Prop where
  size_le : a₀.size ≤ a.size
  home_lt : ∀ slot < a₀.size, home slot < a.size
  home_inj : ∀ x < a₀.size, ∀ y < a₀.size, home x = home y → x = y
  bare_home : ∀ slot < a₀.size, (a.get (home slot)).bare = (a₀.get slot).bare
  covers : ∀ slot < a₀.size, a.Covers a₀.size slot (home slot)
  isInserted : ∀ x < a.size, (∀ slot < a₀.size, home slot ≠ x) →
    (a.insertedInner? a₀.size x).isSome ∧ (a.get x).type?.isSome
  home_eq_or : ∀ slot < a₀.size, home slot = slot ∨ a₀.size ≤ home slot

namespace Covers

variable {a b : Arena} {n : Nat} {x y : Slot}

theorem exists_of_ne (h : a.Covers n x y) (hne : x ≠ y) :
    ∃ inner, a.insertedInner? n x = some inner ∧ a.Covers n inner y := by
  cases h with
  | here => exact absurd rfl hne
  | step hi hrest => exact ⟨_, hi, hrest⟩

/-- A chain that starts past the first `n` slots stays there, so only those slots matter for it. -/
theorem congr_of_le (h : a.Covers n x y) (hx : n ≤ x)
    (hab : ∀ z, n ≤ z → ∀ i, a.insertedInner? n z = some i → b.insertedInner? n z = some i) :
    b.Covers n x y := by
  induction h with
  | here slot => exact .here slot
  | step hi _ ih => exact .step (hab _ hx _ hi) (ih (insertedInner?_eq_some.mp hi).1)

/-- A chain looks only at its first slot and at fresh slots. -/
theorem congr (h : a.Covers n x y)
    (hx : ∀ i, a.insertedInner? n x = some i → b.insertedInner? n x = some i)
    (hab : ∀ z, n ≤ z → ∀ i, a.insertedInner? n z = some i → b.insertedInner? n z = some i) :
    b.Covers n x y := by
  cases h with
  | here => exact .here x
  | step hi hrest =>
      exact .step (hx _ hi) (hrest.congr_of_le (insertedInner?_eq_some.mp hi).1 hab)

end Covers

namespace Rewrites

variable {a₀ a : Arena} {home : Slot → Slot}

theorem refl (a : Arena) : a.Rewrites a id where
  size_le := Nat.le_refl _
  home_lt _ h := h
  home_inj _ _ _ _ h := h
  bare_home _ _ := rfl
  covers slot _ := .here slot
  isInserted x hx hne := absurd rfl (hne x hx)
  home_eq_or _ _ := .inl rfl

theorem bare_modify {slot : Slot} {f : Expr → Expr} (hf : (a.get slot).Annotated (f (a.get slot)))
    (x : Slot) : ((a.modify slot f).get x).bare = (a.get x).bare := by
  rw [get_modify]
  split
  next h => rw [hf.bare_eq, h.1]
  next => rfl

theorem annotate (h : Rewrites a₀ a home) {slot : Slot} {f : Expr → Expr}
    (hf : (a.get slot).Annotated (f (a.get slot))) : Rewrites a₀ (a.modify slot f) home where
  size_le := by simpa using h.size_le
  home_lt x hx := by simpa using h.home_lt x hx
  home_inj := h.home_inj
  bare_home x hx := (bare_modify hf _).trans (h.bare_home x hx)
  covers x hx := by
    refine (h.covers x hx).congr (fun i hi => ?_) fun z _ i hi => ?_
    all_goals rwa [insertedInner?_congr (bare_modify hf _)]
  isInserted x hx hne := by
    rw [insertedInner?_congr (bare_modify hf x)]
    obtain ⟨hinner, htype⟩ := h.isInserted x (by simpa using hx) hne
    refine ⟨hinner, ?_⟩
    rw [get_modify]
    split
    next hc => exact hf.isSome (hc.1 ▸ htype)
    next => exact htype
  home_eq_or := h.home_eq_or

section Convert

theorem insertedInner?_convert_fresh (a : Arena) (n : Nat) (slot : Slot) (op : Conversion) (t : Ty) :
    (a.convert slot op t).2.insertedInner? n a.size = a.insertedInner? n slot := by
  unfold insertedInner?
  rw [get_convert_fresh]

variable (h : Rewrites a₀ a home) {slot : Slot} (hs : slot < a₀.size) (op : Conversion) (t : Ty)
include h hs

theorem insertedInner?_convert_self :
    (a.convert slot op t).2.insertedInner? a₀.size slot = some a.size := by
  have hsa : slot < a.size := Nat.lt_of_lt_of_le hs h.size_le
  rw [insertedInner?_eq_some]
  refine ⟨h.size_le, op, ?_⟩
  rw [get_convert a hsa hsa, if_pos rfl]
  rfl

theorem insertedInner?_convert_of_ne {x : Slot} (hx : x < a.size) (hne : x ≠ slot) :
    (a.convert slot op t).2.insertedInner? a₀.size x = a.insertedInner? a₀.size x := by
  have hsa : slot < a.size := Nat.lt_of_lt_of_le hs h.size_le
  unfold insertedInner?
  rw [get_convert a hsa hx, if_neg hne]

theorem insertedInner?_convert_of_le {z i : Slot} (hz : a₀.size ≤ z)
    (hi : a.insertedInner? a₀.size z = some i) :
    (a.convert slot op t).2.insertedInner? a₀.size z = some i := by
  obtain ⟨-, op', hk⟩ := insertedInner?_eq_some.mp hi
  have hza : z < a.size := lt_size_of_mem_operands (c := i) (by simp [hk, ExprKind.operands])
  rw [h.insertedInner?_convert_of_ne hs op t hza (Nat.ne_of_gt (Nat.lt_of_lt_of_le hs hz)), hi]

theorem eq_of_home_eq {x : Slot} (hx : x < a₀.size) (hhome : home x = slot) : x = slot := by
  rcases h.home_eq_or x hx with heq | hle
  · exact heq.symm.trans hhome
  · exact absurd (hhome ▸ hle) (Nat.not_le_of_lt hs)

theorem covers_convert_self :
    (a.convert slot op t).2.Covers a₀.size slot
      (if home slot = slot then a.size else home slot) := by
  refine .step (h.insertedInner?_convert_self hs op t) ?_
  by_cases hhome : home slot = slot
  · rw [if_pos hhome]
    exact .here _
  · rw [if_neg hhome]
    obtain ⟨inner, hi, hrest⟩ := (h.covers slot hs).exists_of_ne (Ne.symm hhome)
    refine .step (by rw [insertedInner?_convert_fresh, hi]) ?_
    exact hrest.congr_of_le (insertedInner?_eq_some.mp hi).1
      fun z hz i hi => h.insertedInner?_convert_of_le hs op t hz hi

/-- A conversion of a slot takes the node there, wherever it belongs, to the fresh slot. -/
theorem convert :
    Rewrites a₀ (a.convert slot op t).2 fun x => if home x = slot then a.size else home x := by
  have hsa : slot < a.size := Nat.lt_of_lt_of_le hs h.size_le
  refine ⟨?_, ?_, ?_, ?_, ?_, ?_, ?_⟩
  · simpa using Nat.le_succ_of_le h.size_le
  · intro x hx
    rw [size_convert]
    split
    · exact Nat.lt_succ_self _
    · exact Nat.lt_succ_of_lt (h.home_lt x hx)
  · intro x hx y hy heq
    split at heq <;> split at heq
    next hxs hys => rw [h.eq_of_home_eq hs hx hxs, h.eq_of_home_eq hs hy hys]
    next => exact absurd heq.symm (Nat.ne_of_lt (h.home_lt y hy))
    next => exact absurd heq (Nat.ne_of_lt (h.home_lt x hx))
    next => exact h.home_inj x hx y hy heq
  · intro x hx
    split
    next hxs => rw [get_convert_fresh, ← h.bare_home x hx, hxs]
    next hxs => rw [get_convert a hsa (h.home_lt x hx), if_neg hxs, h.bare_home x hx]
  · intro x hx
    by_cases hxs : x = slot
    · subst hxs
      exact h.covers_convert_self hx op t
    · rw [if_neg fun heq => hxs (h.eq_of_home_eq hs hx heq)]
      refine (h.covers x hx).congr (fun i hi => ?_) fun z hz i hi =>
        h.insertedInner?_convert_of_le hs op t hz hi
      rwa [h.insertedInner?_convert_of_ne hs op t (Nat.lt_of_lt_of_le hx h.size_le) hxs]
  · intro x hx hne
    rw [size_convert] at hx
    by_cases hxs : x = slot
    · rw [hxs, h.insertedInner?_convert_self hs op t, get_convert a hsa hsa, if_pos rfl]
      exact ⟨rfl, rfl⟩
    · by_cases hlast : x = a.size
      · have hslot : ∀ y < a₀.size, home y ≠ slot := fun y hy heq =>
          hne y hy (by rw [if_pos heq, hlast])
        rw [hlast, insertedInner?_convert_fresh, get_convert_fresh]
        exact h.isInserted slot hsa hslot
      · have hxa : x < a.size := Nat.lt_of_le_of_ne (Nat.le_of_lt_succ hx) hlast
        have hold : ∀ y < a₀.size, home y ≠ x := by
          intro y hy heq
          refine hne y hy ?_
          rw [if_neg (heq ▸ hxs), heq]
        rw [h.insertedInner?_convert_of_ne hs op t hxa hxs, get_convert a hsa hxa, if_neg hxs]
        exact h.isInserted x hxa hold
  · intro x hx
    split
    · exact .inr h.size_le
    · exact h.home_eq_or x hx

end Convert

end Rewrites

/-- Edits of an arena put conversions in and move nodes behind them, and do nothing else. -/
theorem Edits.exists_rewrites {W : Slot → Prop} {a₀ a : Arena} (hab : Edits W a₀ a)
    (hW : ∀ slot, W slot → slot < a₀.size) : ∃ home, Rewrites a₀ a home := by
  induction hab with
  | refl => exact ⟨id, .refl _⟩
  | annotate _ _ hf ih =>
      obtain ⟨home, h⟩ := ih
      exact ⟨home, h.annotate hf⟩
  | convert _ hw ih =>
      obtain ⟨home, h⟩ := ih
      exact ⟨_, h.convert (hW _ hw) _ _⟩

end Arena

end Boxlang
