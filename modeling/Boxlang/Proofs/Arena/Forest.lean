import Boxlang.Body
import Boxlang.Proofs.Arena.Acyclic
import Mathlib.Logic.Relation

/-!
# Fresh bodies

In a fresh body nothing is typed or converted, and every slot is referred to
exactly once, by a node or by a statement.  So what can be reached from statements
is a forest: every node is in one level below its root, expressions of one level
share no nodes, and no expression is deeper than the arena has slots.
-/

namespace Boxlang

namespace Arena

def Reaches (a : Arena) : Slot → Slot → Prop :=
  Relation.ReflTransGen fun slot c => c ∈ (a.get slot).kind.operands

def Untouched (a₀ a : Arena) (slot : Slot) : Prop :=
  ∀ x, a₀.Reaches slot x → a.get x = a₀.get x

/-- Slots that refer to each other, and are referred to by roots, at most once. -/
structure IsForest (a : Arena) (roots : List Slot) : Prop where
  inRange : a.InRange
  roots_lt : ∀ r ∈ roots, r < a.size
  roots_nodup : roots.Nodup
  operands_nodup : ∀ slot, (a.get slot).kind.operands.Nodup
  eq_of_mem : ∀ s t c, c ∈ (a.get s).kind.operands → c ∈ (a.get t).kind.operands → s = t
  root_ne : ∀ r ∈ roots, ∀ s, r ∉ (a.get s).kind.operands

/-- The slots so many nodes below a root. -/
inductive Level (a : Arena) (roots : List Slot) : Nat → Slot → Prop where
  | root {r : Slot} : r ∈ roots → Level a roots 0 r
  | child {k : Nat} {slot c : Slot} : Level a roots k slot → c ∈ (a.get slot).kind.operands →
      Level a roots (k + 1) c

variable {a : Arena} {roots : List Slot} {slot c c' x : Slot} {k j : Nat}

theorem Reaches.refl (a : Arena) (slot : Slot) : a.Reaches slot slot :=
  Relation.ReflTransGen.refl

theorem Reaches.head (hc : c ∈ (a.get slot).kind.operands) (h : a.Reaches c x) :
    a.Reaches slot x :=
  Relation.ReflTransGen.head hc h

theorem reaches_iff : a.Reaches slot x ↔
    x = slot ∨ ∃ c ∈ (a.get slot).kind.operands, a.Reaches c x := by
  constructor
  · intro h
    rcases Relation.ReflTransGen.cases_head h with heq | ⟨c, hc, hx⟩
    · exact .inl heq.symm
    · exact .inr ⟨c, hc, hx⟩
  · rintro (rfl | ⟨c, hc, hx⟩)
    · exact .refl a x
    · exact .head hc hx

theorem IsRegion.of_reaches {W : Slot → Prop} (hW : a.IsRegion W) (hs : W slot)
    (h : a.Reaches slot x) : W x := by
  induction h with
  | refl => exact hs
  | tail _ hc ih => exact (hW _ ih).2 _ hc

theorem isRegion_reaches (hin : a.InRange) (hs : slot < a.size) : a.IsRegion (a.Reaches slot) := by
  intro x hx
  refine ⟨hin.isRegion.of_reaches hs hx, fun c hc => ?_⟩
  exact Relation.ReflTransGen.tail hx hc

theorem isRegion_reaches_any (hin : a.InRange) {l : List Slot} (hl : ∀ c ∈ l, c < a.size) :
    a.IsRegion fun x => ∃ c ∈ l, a.Reaches c x := by
  rintro x ⟨c, hc, hx⟩
  obtain ⟨hlt, hops⟩ := isRegion_reaches hin (hl c hc) x hx
  exact ⟨hlt, fun y hy => ⟨c, hc, hops y hy⟩⟩

/-- Arenas that agree on the nodes of an expression have it contain the same nodes. -/
theorem Reaches.congr {b : Arena} (h : a.Reaches slot x)
    (hab : ∀ y, a.Reaches slot y → b.get y = a.get y) : b.Reaches slot x := by
  induction h with
  | refl => exact .refl b slot
  | tail hy hc ih => exact Relation.ReflTransGen.tail ih (by rwa [hab _ hy])

namespace IsForest

variable (h : a.IsForest roots)
include h

theorem lt_size_of_level (hx : a.Level roots k x) : x < a.size := by
  cases hx with
  | root hr => exact h.roots_lt x hr
  | child _ hc => exact h.inRange _ (lt_size_of_mem_operands hc) x hc

theorem level_unique (hk : a.Level roots k x) (hj : a.Level roots j x) : k = j := by
  induction hk generalizing j with
  | root hr =>
      cases hj with
      | root _ => rfl
      | child _ hc => exact absurd hc (h.root_ne _ hr _)
  | child _ hc ih =>
      cases hj with
      | root hr => exact absurd hc (h.root_ne _ hr _)
      | child hs hc' =>
          obtain rfl := h.eq_of_mem _ _ _ hc hc'
          rw [ih hs]

omit h in
theorem exists_level_le (hx : a.Level roots k x) : ∀ i ≤ k, ∃ y, a.Level roots i y := by
  induction hx with
  | root hr =>
      intro i hi
      obtain rfl : i = 0 := by omega
      exact ⟨_, .root hr⟩
  | @child k slot c hs hc ih =>
      intro i hi
      by_cases hik : i ≤ k
      · exact ih i hik
      · obtain rfl : i = k + 1 := by omega
        exact ⟨_, .child hs hc⟩

theorem level_lt_size (hx : a.Level roots k x) : k < a.size := by
  choose! f hf using exists_level_le hx
  have hmap : ∀ i ∈ Finset.range (k + 1), f i ∈ Finset.range a.size := by
    intro i hi
    exact Finset.mem_range.mpr (h.lt_size_of_level (hf i (by simpa [Nat.lt_succ_iff] using hi)))
  have hinj : Set.InjOn f (Finset.range (k + 1)) := by
    intro i hi i' hi' heq
    have hfi := hf i (by simpa [Nat.lt_succ_iff] using hi)
    have hfi' := hf i' (by simpa [Nat.lt_succ_iff] using hi')
    exact h.level_unique hfi (heq ▸ hfi')
  have hcard : k + 1 ≤ a.size := by simpa using Finset.card_le_card_of_injOn f hmap hinj
  exact hcard

omit h in
theorem exists_level_of_reaches (hs : a.Level roots k slot) (hx : a.Reaches slot x) :
    ∃ j, k ≤ j ∧ a.Level roots j x := by
  induction hx with
  | refl => exact ⟨k, Nat.le_refl k, hs⟩
  | tail _ hc ih =>
      obtain ⟨j, hj, hy⟩ := ih
      exact ⟨j + 1, Nat.le_succ_of_le hj, .child hy hc⟩

theorem eq_of_reaches (hc : a.Level roots k c) (hc' : a.Level roots k c')
    (hx : a.Reaches c x) (hx' : a.Reaches c' x) : c = c' := by
  induction hx with
  | refl =>
      cases hx' with
      | refl => rfl
      | tail hy hchild =>
          obtain ⟨j, hj, hlevel⟩ := exists_level_of_reaches hc' hy
          have := h.level_unique hc (.child hlevel hchild)
          omega
  | tail hy hchild ih =>
      cases hx' with
      | refl =>
          obtain ⟨j, hj, hlevel⟩ := exists_level_of_reaches hc hy
          have := h.level_unique hc' (.child hlevel hchild)
          omega
      | tail hy' hchild' =>
          obtain rfl := h.eq_of_mem _ _ _ hchild hchild'
          exact ih hy'

theorem not_reaches_parent (hs : a.Level roots k slot) (hc : c ∈ (a.get slot).kind.operands) :
    ¬ a.Reaches c slot := by
  intro hreach
  obtain ⟨j, hj, hlevel⟩ := exists_level_of_reaches (.child hs hc) hreach
  have := h.level_unique hs hlevel
  omega

end IsForest

end Arena

/-! ### Fresh bodies -/

namespace Body

structure InRange (body : Body) : Prop where
  arena : body.arena.InRange
  stmts : ∀ stmt ∈ body.stmts, ∀ slot ∈ stmt.slots, slot < body.arena.size

def references (body : Body) : List Slot :=
  body.stmts.flatMap Stmt.slots ++ body.arena.nodes.toList.flatMap fun e => e.kind.operands

/-- A body as it is before analysis, in which every slot is referred to exactly once. -/
structure IsFresh (body : Body) : Prop where
  inRange : body.InRange
  untyped : ∀ slot < body.arena.size, (body.arena.get slot).type? = none
  unconverted : ∀ slot < body.arena.size, ¬ (body.arena.get slot).IsConversion
  count_references : ∀ slot < body.arena.size, body.references.count slot = 1

variable {body : Body}

instance : Decidable body.InRange :=
  decidable_of_iff
    (body.arena.InRange ∧ ∀ stmt ∈ body.stmts, ∀ slot ∈ stmt.slots, slot < body.arena.size)
    ⟨fun ⟨harena, hstmts⟩ => ⟨harena, hstmts⟩, fun ⟨harena, hstmts⟩ => ⟨harena, hstmts⟩⟩

instance : Decidable body.IsFresh :=
  decidable_of_iff
    (body.InRange ∧ ∀ slot < body.arena.size, (body.arena.get slot).type? = none ∧
      ¬ (body.arena.get slot).IsConversion ∧ body.references.count slot = 1)
    ⟨fun ⟨hin, h⟩ => ⟨hin, fun slot hs => (h slot hs).1, fun slot hs => (h slot hs).2.1,
        fun slot hs => (h slot hs).2.2⟩,
      fun h => ⟨h.inRange, fun slot hs =>
        ⟨h.untyped slot hs, h.unconverted slot hs, h.count_references slot hs⟩⟩⟩

theorem getElem?_nodes {a : Arena} {slot : Slot} (h : slot < a.size) :
    a.nodes.toList[slot]? = some (a.get slot) := by
  have h' : slot < a.nodes.size := h
  simp [Arena.get_eq_getElem?, h']

theorem InRange.lt_of_mem_references (h : body.InRange) {slot : Slot}
    (hs : slot ∈ body.references) : slot < body.arena.size := by
  rcases List.mem_append.mp hs with hstmt | hnode
  · obtain ⟨stmt, hmem, hslot⟩ := List.mem_flatMap.mp hstmt
    exact h.stmts stmt hmem slot hslot
  · obtain ⟨e, he, hslot⟩ := List.mem_flatMap.mp hnode
    obtain ⟨i, hi⟩ := List.mem_iff_getElem?.mp he
    have hlt : i < body.arena.size := by
      have := (List.getElem?_eq_some_iff.mp hi).1
      simpa [Arena.size] using this
    obtain rfl : body.arena.get i = e := by simpa [getElem?_nodes hlt] using hi
    exact h.arena i hlt slot hslot

theorem IsFresh.type?_eq_none (h : body.IsFresh) (slot : Slot) : (body.arena.get slot).type? = none := by
  rcases Nat.lt_or_ge slot body.arena.size with hlt | hge
  · exact h.untyped slot hlt
  · rw [Arena.get_of_size_le _ hge]

theorem IsFresh.not_isConversion (h : body.IsFresh) (slot : Slot) : ¬ (body.arena.get slot).IsConversion := by
  rcases Nat.lt_or_ge slot body.arena.size with hlt | hge
  · exact h.unconverted slot hlt
  · rw [Arena.get_of_size_le _ hge]
    rintro ⟨inner, op, hkind⟩
    cases hkind

theorem IsFresh.nodup_references (h : body.IsFresh) : body.references.Nodup := by
  refine List.nodup_iff_count_le_one.mpr fun slot => ?_
  by_cases hmem : slot ∈ body.references
  · exact (h.count_references slot (h.inRange.lt_of_mem_references hmem)).le
  · rw [List.count_eq_zero_of_not_mem hmem]
    exact Nat.zero_le _

theorem IsFresh.isForest (h : body.IsFresh) :
    body.arena.IsForest (body.stmts.flatMap Stmt.slots) := by
  obtain ⟨hroots, hnodes, hdisjoint⟩ := List.nodup_append.mp h.nodup_references
  obtain ⟨hops, hpairs⟩ := List.nodup_flatMap.mp hnodes
  have hmem (s : Slot) (hs : s < body.arena.size) : body.arena.get s ∈ body.arena.nodes.toList :=
    List.mem_of_getElem? (getElem?_nodes hs)
  refine ⟨h.inRange.arena, ?_, hroots, ?_, ?_, ?_⟩
  · intro r hr
    exact h.inRange.lt_of_mem_references (List.mem_append_left _ hr)
  · intro s
    by_cases hs : s < body.arena.size
    · exact hops _ (hmem s hs)
    · rw [Arena.get_of_size_le _ (Nat.le_of_not_lt hs)]
      exact List.nodup_nil
  · intro s t c hs ht
    have hslt := Arena.lt_size_of_mem_operands hs
    have htlt := Arena.lt_size_of_mem_operands ht
    have hne (i j : Slot) (hij : i < j) (hj : j < body.arena.size)
        (hi : c ∈ (body.arena.get i).kind.operands) :
        c ∉ (body.arena.get j).kind.operands := by
      have hi' := getElem?_nodes (Nat.lt_trans hij hj)
      have hj' := getElem?_nodes hj
      rw [List.getElem?_eq_some_iff] at hi' hj'
      obtain ⟨hil, hie⟩ := hi'
      obtain ⟨hjl, hje⟩ := hj'
      have hpair := List.pairwise_iff_getElem.mp hpairs i j hil hjl hij
      rw [hie, hje] at hpair
      exact hpair hi
    rcases Nat.lt_trichotomy s t with hlt | rfl | hgt
    · exact absurd ht (hne s t hlt htlt hs)
    · rfl
    · exact absurd hs (hne t s hgt hslt ht)
  · intro r hr s hs
    have hnode : r ∈ body.arena.nodes.toList.flatMap fun e => e.kind.operands :=
      List.mem_flatMap.mpr ⟨_, hmem s (Arena.lt_size_of_mem_operands hs), hs⟩
    exact hdisjoint r hr r hnode rfl

end Body

end Boxlang
