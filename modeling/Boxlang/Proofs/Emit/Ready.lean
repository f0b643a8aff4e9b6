import Boxlang.Emit.Basic
import Boxlang.Proofs.Elaboration.Judgement

/-!
# Expressions that can be generated

An elaborated expression can be generated exactly if the variables it reads are
bound and none of its closures captures a variable of type nothing (`Emit.Ready`):
the context of a closure has no place for values of type void, so nothing is bound
where the body of the closure reads such a variable.
-/

namespace Boxlang

namespace Arena

def IsWithin (a : Arena) : Nat → Slot → Prop
  | 0, _ => False
  | n + 1, slot => ∀ c ∈ (a.get slot).kind.operands, a.IsWithin n c

/-- Whether some node of an expression reads a variable as one of type `t`. -/
def ReadsAs (a : Arena) (slot : Slot) (id : VariableId) (t : Ty) : Prop :=
  ∃ x name, a.Reaches slot x ∧ (a.get x).kind = .localRef name (some id) ∧ a.typeAt x = t

def CapturesNothing (a : Arena) (slot : Slot) : Prop :=
  ∃ y literal, a.Reaches slot y ∧ (a.get y).kind = .closure literal ∧
    ∃ id ∈ literal.captures, a.ReadsAs literal.body id .nothing

variable {a : Arena} {slot : Slot} {id : VariableId} {t : Ty}

theorem IsWithin.mono {n m : Nat} (h : a.IsWithin n slot) (hle : n ≤ m) : a.IsWithin m slot := by
  induction n generalizing m slot with
  | zero => exact h.elim
  | succ n ih =>
      obtain ⟨m, rfl⟩ := Nat.exists_eq_succ_of_ne_zero (Nat.ne_of_gt (Nat.lt_of_lt_of_le n.succ_pos hle))
      exact fun c hc => ih (h c hc) (Nat.le_of_succ_le_succ hle)

theorem ReadsAs.reads (h : a.ReadsAs slot id t) : a.Reads slot id := by
  obtain ⟨x, name, hx, hk, -⟩ := h
  exact ⟨x, name, hx, hk⟩

theorem Reads.exists_readsAs (h : a.Reads slot id) : ∃ t, a.ReadsAs slot id t := by
  obtain ⟨x, name, hx, hk⟩ := h
  exact ⟨_, x, name, hx, hk, rfl⟩

theorem readsAs_iff : a.ReadsAs slot id t ↔
    (∃ name, (a.get slot).kind = .localRef name (some id)) ∧ a.typeAt slot = t ∨
      ∃ c ∈ (a.get slot).kind.operands, a.ReadsAs c id t := by
  constructor
  · rintro ⟨x, name, hx, hk, ht⟩
    rcases reaches_iff.mp hx with rfl | ⟨c, hc, hreach⟩
    · exact .inl ⟨⟨name, hk⟩, ht⟩
    · exact .inr ⟨c, hc, x, name, hreach, hk, ht⟩
  · rintro (⟨⟨name, hk⟩, ht⟩ | ⟨c, hc, x, name, hreach, hk, ht⟩)
    · exact ⟨slot, name, .refl a slot, hk, ht⟩
    · exact ⟨x, name, .head hc hreach, hk, ht⟩

theorem capturesNothing_iff : a.CapturesNothing slot ↔
    (∃ literal, (a.get slot).kind = .closure literal ∧
      ∃ id ∈ literal.captures, a.ReadsAs literal.body id .nothing) ∨
      ∃ c ∈ (a.get slot).kind.operands, a.CapturesNothing c := by
  constructor
  · rintro ⟨y, literal, hy, hcaptures⟩
    rcases reaches_iff.mp hy with rfl | ⟨c, hc, hreach⟩
    · exact .inl ⟨literal, hcaptures⟩
    · exact .inr ⟨c, hc, y, literal, hreach, hcaptures⟩
  · rintro (⟨literal, hcaptures⟩ | ⟨c, hc, y, literal, hreach, hcaptures⟩)
    · exact ⟨slot, literal, .refl a slot, hcaptures⟩
    · exact ⟨y, literal, .head hc hreach, hcaptures⟩

end Arena

/-! ### Depth and contexts of elaborated expressions -/

theorem Context.under_of_ne {Γ : Context} {kind : ExprKind} {t : Ty}
    (h : ∀ literal, kind ≠ .closure literal) : Γ.under kind t = Γ := by
  unfold Context.under
  split
  next literal _ _ => exact absurd rfl (h literal)
  next => rfl

namespace Elaborated

variable {p : Package} {a : Arena} {Γ : Context} {slot : Slot}

/-- The nodes of an elaborated expression, all different from those of its operands. -/
theorem isWithin_card (h : Elaborated p a Γ slot) :
    ∀ s : Finset Slot, (∀ x, a.Reaches slot x → x ∈ s) → a.IsWithin s.card slot := by
  induction h with
  | @intro Γ slot hnode hops ih =>
      intro s hs
      have hmem : slot ∈ s := hs slot (.refl a slot)
      have hself : Elaborated p a Γ slot := .intro hnode hops
      have hle : (s.erase slot).card + 1 ≤ s.card := by rw [Finset.card_erase_add_one hmem]
      refine Arena.IsWithin.mono (n := (s.erase slot).card + 1) (fun c hc => ?_) hle
      refine ih c hc _ fun x hx => Finset.mem_erase.mpr ⟨?_, hs x (.head hc hx)⟩
      rintro rfl
      exact hself.not_reaches_of_mem c hc hx

theorem isWithin_size (h : Elaborated p a Γ slot) : a.IsWithin a.size slot := by
  have hwithin := h.isWithin_card (Finset.range a.size) fun x hx => by
    obtain ⟨Δ, hΔ⟩ := h.nodeOk_of_reaches hx
    exact Finset.mem_range.mpr hΔ.lt_size
  rwa [Finset.card_range] at hwithin

theorem context_of_readsAs (h : Elaborated p a Γ slot) {id : VariableId} {t : Ty}
    (hread : a.ReadsAs slot id t) (hid : ∃ u, Γ id u) : Γ id t := by
  induction h with
  | @intro Γ slot hnode _ ih =>
      rcases Arena.readsAs_iff.mp hread with ⟨⟨name, hk⟩, rfl⟩ | ⟨c, hc, hread⟩
      · have hform := hnode.form
        rw [hk] at hform
        cases hform with
        | localRef h => exact h
      · have hform := hnode.form
        have hop := ih c hc hread
        cases hk : (a.get slot).kind with
        | closure literal =>
            rw [hk] at hform hop
            generalize a.typeAt slot = u at hform hop
            cases hform with
            | @closure _ ids params ret hids _ _ hfresh _ _ _ _ =>
                obtain ⟨u, hu⟩ := hid
                rcases hop ⟨u, .inr hu⟩ with hparam | hΓ
                · rw [filterMap_id?_of_map hids] at hparam
                  exact absurd hu (hfresh id (List.of_mem_zip hparam).1 u)
                · exact hΓ
        | _ =>
            rw [hk, Context.under_of_ne (by simp)] at hop
            exact hop hid

end Elaborated

/-! ### Bindings that suffice -/

namespace Emit

/-- Variables of the context that an expression reads are bound to values of the types it reads. -/
def Agrees (d : Declarations) (a : Arena) (Γ : Context) (slot : Slot)
    (bindings : Slots LocalVariable) : Prop :=
  ∀ id t b, a.ReadsAs slot id t → (∃ u, Γ id u) → bindings.get? id = some b →
    b.value.type = d.llvmType t

/-- Variables of the context that an expression reads are bound, and no closure captures nothing. -/
structure Ready (a : Arena) (Γ : Context) (slot : Slot) (bindings : Slots LocalVariable) : Prop where
  bound : ∀ id, a.Reads slot id → (∃ u, Γ id u) → (bindings.get? id).isSome = true
  not_captures : ¬ a.CapturesNothing slot

variable {d : Declarations} {a : Arena} {Γ : Context} {slot c : Slot}
  {bindings : Slots LocalVariable}

theorem Agrees.operand (h : Agrees d a Γ slot bindings)
    (hc : c ∈ (a.get slot).kind.operands) : Agrees d a Γ c bindings :=
  fun id t b hread => h id t b (Arena.readsAs_iff.mpr (.inr ⟨c, hc, hread⟩))

theorem ready_iff_operands (hclosure : ∀ literal, (a.get slot).kind ≠ .closure literal)
    (href : ∀ name id, (a.get slot).kind ≠ .localRef name (some id)) :
    Ready a Γ slot bindings ↔ ∀ c ∈ (a.get slot).kind.operands, Ready a Γ c bindings := by
  constructor
  · intro h c hc
    refine ⟨fun id hread => h.bound id (Arena.reads_iff.mpr (.inr ⟨c, hc, hread⟩)), fun hcap => ?_⟩
    exact h.not_captures (Arena.capturesNothing_iff.mpr (.inr ⟨c, hc, hcap⟩))
  · intro h
    refine ⟨fun id hread hid => ?_, fun hcap => ?_⟩
    · rcases Arena.reads_iff.mp hread with ⟨name, hk⟩ | ⟨c, hc, hread⟩
      · exact absurd hk (href name id)
      · exact (h c hc).bound id hread hid
    · rcases Arena.capturesNothing_iff.mp hcap with ⟨literal, hk, -⟩ | ⟨c, hc, hcap⟩
      · exact absurd hk (hclosure literal)
      · exact (h c hc).not_captures hcap

theorem ready_closure_iff {literal : Closure} (hk : (a.get slot).kind = .closure literal)
    (hcaptures : ∀ id, id ∈ literal.captures ↔ (∃ t, Γ id t) ∧ a.Reads literal.body id) :
    Ready a Γ slot bindings ↔
      (∀ id ∈ literal.captures, (bindings.get? id).isSome = true) ∧
        (∀ id ∈ literal.captures, ¬ a.ReadsAs literal.body id .nothing) ∧
        ¬ a.CapturesNothing literal.body := by
  have hreads (id : VariableId) : a.Reads slot id ↔ a.Reads literal.body id := by
    rw [Arena.reads_iff]
    simp [hk, ExprKind.operands]
  have hcap : a.CapturesNothing slot ↔
      (∃ id ∈ literal.captures, a.ReadsAs literal.body id .nothing) ∨
        a.CapturesNothing literal.body := by
    rw [Arena.capturesNothing_iff]
    simp [hk, ExprKind.operands]
  constructor
  · rintro ⟨hbound, hnot⟩
    rw [hcap, not_or] at hnot
    refine ⟨fun id hid => ?_, fun id hid hread => hnot.1 ⟨id, hid, hread⟩, hnot.2⟩
    obtain ⟨ht, hread⟩ := (hcaptures id).mp hid
    exact hbound id ((hreads id).mpr hread) ht
  · rintro ⟨hbound, hnothing, hbody⟩
    refine ⟨fun id hread hid => ?_, fun h => ?_⟩
    · exact hbound id ((hcaptures id).mpr ⟨hid, (hreads id).mp hread⟩)
    · rcases hcap.mp h with ⟨id, hid, hread⟩ | h
      · exact hnothing id hid hread
      · exact hbody h

end Emit

end Boxlang
