import Boxlang.Arena

/-!
# Edits of an arena

Two things happen to an arena while it is analysed: a node is annotated, and a
node is wrapped in a conversion.  `Edits W a b` says that `b` comes from `a` by
such steps in the slots of `W`.

`bare` forgets what annotations add to a node.  Wherever an arena comes from `a₀`
by edits in slots of `a₀`, every slot of `a₀` still holds its node up to
annotations, or a typed conversion (`Arena.HoldsNodesOf`).
-/

namespace Boxlang

/-! ### Nodes without annotations -/

def ClosureParam.bare (p : ClosureParam) : ClosureParam :=
  { p with id? := none }

namespace ExprKind

def bare : ExprKind → ExprKind
  | .localRef name _ => .localRef name none
  | .call function arguments _ => .call function { arguments with resolved := [] } none
  | .methodCall receiver method arguments _ =>
    .methodCall receiver method { arguments with resolved := [] } none
  | .closure literal =>
    .closure { literal with params := literal.params.map ClosureParam.bare, captures := [] }
  | k => k

@[simp]
theorem operands_bare (k : ExprKind) : k.bare.operands = k.operands := by
  cases k <;> rfl

@[simp]
theorem bare_withVariable (k : ExprKind) (id : VariableId) : (k.withVariable id).bare = k.bare := by
  cases k <;> rfl

@[simp]
theorem bare_withTarget (k : ExprKind) (id : FunctionId) : (k.withTarget id).bare = k.bare := by
  cases k <;> rfl

@[simp]
theorem bare_withGenericArguments (k : ExprKind) (types : List Ty) :
    (k.withGenericArguments types).bare = k.bare := by
  cases k <;> rfl

theorem bare_withClosureVariables (k : ExprKind) (params captures : List VariableId)
    (h : ∀ literal, k = .closure literal → params.length = literal.params.length) :
    (k.withClosureVariables params captures).bare = k.bare := by
  cases k with
  | closure literal =>
      have hlen : literal.params.length ≤ params.length := Nat.le_of_eq (h literal rfl).symm
      simp only [withClosureVariables, bare, List.map_zipWith, ClosureParam.bare]
      congr 2
      have hzip : ∀ (ps : List ClosureParam) (ids : List VariableId), ps.length ≤ ids.length →
          List.zipWith (fun p _ => { p with id? := none }) ps ids = ps.map ClosureParam.bare := by
        intro ps
        induction ps with
        | nil => simp
        | cons p ps ih =>
            intro ids hle
            cases ids with
            | nil => simp at hle
            | cons id ids => simpa [ClosureParam.bare] using ih ids (by simpa using hle)
      exact hzip literal.params params hlen
  | _ => rfl

end ExprKind

namespace Expr

def bare (e : Expr) : Expr :=
  { e with kind := e.kind.bare, type? := none }

def IsConversion (e : Expr) : Prop :=
  ∃ inner op, e.kind = .conversion inner op

instance (e : Expr) : Decidable e.IsConversion :=
  decidable_of_iff (e.kind matches .conversion ..) (by unfold IsConversion; cases e.kind <;> simp)

theorem kind_bare (e : Expr) : e.bare.kind = e.kind.bare := rfl

theorem operands_eq_of_bare_eq {e e' : Expr} (h : e.bare = e'.bare) :
    e.kind.operands = e'.kind.operands := by
  have hk : e.kind.bare = e'.kind.bare := congrArg Expr.kind h
  rw [← ExprKind.operands_bare, hk, ExprKind.operands_bare]

/-- A change of a node that only adds annotations and takes no type away. -/
structure Annotated (e e' : Expr) : Prop where
  bare_eq : e'.bare = e.bare
  isSome : e.type?.isSome → e'.type?.isSome

theorem Annotated.withKind {e : Expr} {f : ExprKind → ExprKind} (h : (f e.kind).bare = e.kind.bare) :
    e.Annotated { e with kind := f e.kind } :=
  ⟨by simp [bare, h], id⟩

theorem Annotated.withType (e : Expr) (t : Ty) : e.Annotated { e with type? := some t } :=
  ⟨rfl, fun _ => rfl⟩

end Expr

namespace Arena

/-! ### Reading after an edit -/

theorem get_of_size_le (a : Arena) {slot : Slot} (h : a.size ≤ slot) :
    a.get slot = { span := ⟨0, 0⟩, kind := .noValue } := by
  have h' : a.nodes.size ≤ slot := h
  simp [get_eq_getElem?, h']

theorem lt_size_of_mem_operands {a : Arena} {slot c : Slot} (h : c ∈ (a.get slot).kind.operands) :
    slot < a.size := by
  rcases Nat.lt_or_ge slot a.size with hlt | hge
  · exact hlt
  · rw [get_of_size_le a hge] at h
    simp [ExprKind.operands] at h

theorem get_modify (a : Arena) (slot x : Slot) (f : Expr → Expr) :
    (a.modify slot f).get x = if x = slot ∧ slot < a.size then f (a.get slot) else a.get x := by
  by_cases hx : x = slot
  · subst hx
    by_cases hlt : x < a.size
    · simp [get_modify_self a hlt, hlt]
    · have hle := Nat.le_of_not_lt hlt
      rw [get_of_size_le _ (by simpa using hle), get_of_size_le a hle]
      simp [hlt]
  · simp [get_modify_of_ne a hx, hx]

@[simp]
theorem size_convert (a : Arena) (slot : Slot) (op : Conversion) (t : Ty) :
    (a.convert slot op t).2.size = a.size + 1 :=
  size_wrap a slot _

theorem get_wrap (a : Arena) {slot x : Slot} (h : slot < a.size) (hx : x < a.size)
    (wrapper : Slot → Span → Expr) :
    (a.wrap slot wrapper).2.get x = if x = slot then wrapper a.size (a.get slot).span else a.get x := by
  by_cases hs : x = slot
  · subst hs
    rw [get_wrap_self a h, if_pos rfl]
  · rw [get_wrap_of_ne a hx hs, if_neg hs]

/-- The node that `convert` leaves in its slot. -/
def conversionAt (a : Arena) (slot : Slot) (op : Conversion) (t : Ty) : Expr where
  span := (a.get slot).span
  kind := .conversion a.size op
  type? := some t

theorem get_convert (a : Arena) {slot x : Slot} (h : slot < a.size) (hx : x < a.size)
    (op : Conversion) (t : Ty) :
    (a.convert slot op t).2.get x = if x = slot then a.conversionAt slot op t else a.get x :=
  get_wrap a h hx _

@[simp]
theorem get_convert_fresh (a : Arena) (slot : Slot) (op : Conversion) (t : Ty) :
    (a.convert slot op t).2.get a.size = a.get slot :=
  get_wrap_fresh a slot _

theorem get_convert_cases (a : Arena) {slot : Slot} (h : slot < a.size) (op : Conversion) (t : Ty)
    (x : Slot) : x = slot ∧ (a.convert slot op t).2.get x = a.conversionAt slot op t ∨
      x = a.size ∧ (a.convert slot op t).2.get x = a.get slot ∨
      x ≠ slot ∧ (a.convert slot op t).2.get x = a.get x := by
  rcases Nat.lt_trichotomy x a.size with hx | rfl | hx
  · rw [get_convert a h hx]
    split
    next heq => exact .inl ⟨heq, rfl⟩
    next hne => exact .inr (.inr ⟨hne, rfl⟩)
  · exact .inr (.inl ⟨rfl, get_convert_fresh a slot op t⟩)
  · refine .inr (.inr ⟨Nat.ne_of_gt (Nat.lt_trans h hx), ?_⟩)
    rw [get_of_size_le _ (by simpa using Nat.succ_le_of_lt hx), get_of_size_le _ (Nat.le_of_lt hx)]

/-! ### Sequences of edits -/

/-- The arenas that annotating and converting nodes in the slots of `W` leads to. -/
inductive Edits (W : Slot → Prop) (a : Arena) : Arena → Prop where
  | refl : Edits W a a
  | annotate {b : Arena} {slot : Slot} {f : Expr → Expr} :
      Edits W a b → W slot → (b.get slot).Annotated (f (b.get slot)) →
      Edits W a (b.modify slot f)
  | convert {b : Arena} {slot : Slot} {op : Conversion} {t : Ty} :
      Edits W a b → W slot → Edits W a (b.convert slot op t).2

namespace Edits

variable {W V : Slot → Prop} {a b c : Arena}

theorem trans (hab : Edits W a b) (hbc : Edits W b c) : Edits W a c := by
  induction hbc with
  | refl => exact hab
  | annotate _ hw hf ih => exact ih.annotate hw hf
  | convert _ hw ih => exact ih.convert hw

theorem mono (hab : Edits W a b) (h : ∀ slot, W slot → V slot) : Edits V a b := by
  induction hab with
  | refl => exact .refl
  | annotate _ hw hf ih => exact ih.annotate (h _ hw) hf
  | convert _ hw ih => exact ih.convert (h _ hw)

theorem size_le (hab : Edits W a b) : a.size ≤ b.size := by
  induction hab with
  | refl => exact Nat.le_refl _
  | annotate _ _ _ ih => simpa using ih
  | convert _ _ ih =>
      rw [size_convert]
      exact Nat.le_succ_of_le ih

theorem get_of_not (hab : Edits W a b) (hW : ∀ slot, W slot → slot < a.size) {x : Slot}
    (hx : x < a.size) (hn : ¬ W x) : b.get x = a.get x := by
  induction hab with
  | refl => rfl
  | @annotate b slot f _ hw _ ih =>
      have hne : x ≠ slot := fun h => hn (h ▸ hw)
      rw [get_modify_of_ne b hne, ih]
  | @convert b slot op t hb hw ih =>
      have hne : x ≠ slot := fun h => hn (h ▸ hw)
      have hs : slot < b.size := Nat.lt_of_lt_of_le (hW slot hw) hb.size_le
      have hxb : x < b.size := Nat.lt_of_lt_of_le hx hb.size_le
      rw [get_convert b hs hxb, if_neg hne, ih]

end Edits

/-! ### The nodes of an arena after edits -/

/--
Every slot of `a₀` holds in `a` what it held in `a₀`, up to annotations, or a
conversion that has a type.
-/
structure HoldsNodesOf (a a₀ : Arena) : Prop where
  size_le : a₀.size ≤ a.size
  holds : ∀ slot < a₀.size, (a.get slot).bare = (a₀.get slot).bare ∨
    (a.get slot).type?.isSome ∧ (a.get slot).IsConversion

namespace HoldsNodesOf

variable {a a₀ b : Arena} {W : Slot → Prop}

theorem refl (a : Arena) : a.HoldsNodesOf a :=
  ⟨Nat.le_refl _, fun _ _ => .inl rfl⟩

/-- What is not typed yet has its node up to annotations. -/
theorem bare_eq (h : a.HoldsNodesOf a₀) {slot : Slot} (hs : slot < a₀.size)
    (ht : (a.get slot).type? = none) : (a.get slot).bare = (a₀.get slot).bare := by
  rcases h.holds slot hs with hb | ⟨hsome, _⟩
  · exact hb
  · simp [ht] at hsome

theorem annotate (h : a.HoldsNodesOf a₀) {slot : Slot} {f : Expr → Expr}
    (hf : (a.get slot).Annotated (f (a.get slot))) : (a.modify slot f).HoldsNodesOf a₀ := by
  refine ⟨by simpa using h.size_le, fun x hx => ?_⟩
  rw [get_modify]
  split
  next hc =>
    obtain ⟨rfl, -⟩ := hc
    rcases h.holds x hx with hb | ⟨hsome, inner, op, hk⟩
    · exact .inl (hf.bare_eq.trans hb)
    · refine .inr ⟨hf.isSome hsome, inner, op, ?_⟩
      have hbare : (f (a.get x)).kind.bare = .conversion inner op := by
        have := congrArg Expr.kind hf.bare_eq
        simpa [Expr.kind_bare, hk, ExprKind.bare] using this
      cases hfk : (f (a.get x)).kind <;> simp_all [ExprKind.bare]
  next => exact h.holds x hx

theorem convert (h : a.HoldsNodesOf a₀) {slot : Slot} (hs : slot < a₀.size) (op : Conversion)
    (t : Ty) : (a.convert slot op t).2.HoldsNodesOf a₀ := by
  refine ⟨by simpa using Nat.le_succ_of_le h.size_le, fun x hx => ?_⟩
  have hsa : slot < a.size := Nat.lt_of_lt_of_le hs h.size_le
  rw [get_convert a hsa (Nat.lt_of_lt_of_le hx h.size_le)]
  split
  next => exact .inr ⟨rfl, _, _, rfl⟩
  next => exact h.holds x hx

theorem edits (h : a.HoldsNodesOf a₀) (hab : Edits W a b) (hW : ∀ slot, W slot → slot < a₀.size) :
    b.HoldsNodesOf a₀ := by
  induction hab with
  | refl => exact h
  | annotate _ _ hf ih => exact ih.annotate hf
  | convert _ hw ih => exact ih.convert (hW _ hw) _ _

end HoldsNodesOf

/-! ### Regions -/

/-- Slots of an arena among which are all operands of their nodes. -/
def IsRegion (a : Arena) (W : Slot → Prop) : Prop :=
  ∀ slot, W slot → slot < a.size ∧ ∀ c ∈ (a.get slot).kind.operands, W c

theorem IsRegion.lt {a : Arena} {W : Slot → Prop} (h : a.IsRegion W) :
    ∀ slot, W slot → slot < a.size :=
  fun slot hw => (h slot hw).1

end Arena

end Boxlang
