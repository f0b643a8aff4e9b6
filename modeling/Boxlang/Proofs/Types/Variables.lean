import Boxlang.Proofs.Types.Substitution

/-!
# Variables of types

A substitution only matters at the variables that occur in a type: two substitutions
give the same instance of a type where they agree on these (`subst_congr`), and, if the
type carries no storage marks that could be normalised away, only there
(`subst_eq_subst_iff`).
-/

namespace Boxlang

namespace Ty

variable {owner locals owner' locals' : Nat → Option Ty}

def ReplacedAlike (owner locals owner' locals' : Nat → Option Ty) : Ty → Prop
  | .generic i n => (owner i).getD (.generic i n) = (owner' i).getD (.generic i n)
  | .localGeneric i n => (locals i).getD (.localGeneric i n) = (locals' i).getD (.localGeneric i n)
  | _ => True

mutual

theorem subst_congr : ∀ t : Ty, t.Every (ReplacedAlike owner locals owner' locals') →
    t.subst owner locals = t.subst owner' locals'
  | .generic _ _, h | .localGeneric _ _, h => h
  | .object _ args, h | .value _ args, h => by simp only [subst, substAll_congr args h.2]
  | .callable params ret, h => by
      simp only [subst, substAll_congr params h.2.1, subst_congr ret h.2.2]
  | .optional inner, h | .typeValue inner, h | .boxed inner, h => by
      simp only [subst, subst_congr inner h.2]
  | .error, _ | .nothing, _ | .int, _ | .real, _ | .bool, _ | .byte, _ | .symbol, _ => rfl
  | .something, _ | .enum _, _ | .protocol _, _ => rfl

theorem substAll_congr : ∀ ts : List Ty, EveryAll (ReplacedAlike owner locals owner' locals') ts →
    substAll owner locals ts = substAll owner' locals' ts
  | [], _ => rfl
  | t :: ts, h => by simp only [substAll, subst_congr t h.1, substAll_congr ts h.2]

end

mutual

theorem every_of_subst_eq : ∀ t : Ty, t.Every IsUnmarked →
    t.subst owner locals = t.subst owner' locals' → t.Every (ReplacedAlike owner locals owner' locals')
  | .generic _ _, _, h | .localGeneric _ _, _, h => h
  | .object _ args, hu, h => ⟨trivial, everyAll_of_substAll_eq args hu.2 (Ty.object.inj h).2⟩
  | .value _ args, hu, h => ⟨trivial, everyAll_of_substAll_eq args hu.2 (Ty.value.inj h).2⟩
  | .callable params ret, hu, h =>
      ⟨trivial, everyAll_of_substAll_eq params hu.2.1 (Ty.callable.inj h).1,
        every_of_subst_eq ret hu.2.2 (Ty.callable.inj h).2⟩
  | .optional inner, hu, h => ⟨trivial, every_of_subst_eq inner hu.2 (Ty.optional.inj h)⟩
  | .typeValue inner, hu, h => ⟨trivial, every_of_subst_eq inner hu.2 (Ty.typeValue.inj h)⟩
  | .error, _, _ | .nothing, _, _ | .int, _, _ | .real, _, _ | .bool, _, _ | .byte, _, _ => trivial
  | .symbol, _, _ | .something, _, _ | .enum _, _, _ | .protocol _, _, _ => trivial

theorem everyAll_of_substAll_eq : ∀ ts : List Ty, EveryAll IsUnmarked ts →
    substAll owner locals ts = substAll owner' locals' ts →
    EveryAll (ReplacedAlike owner locals owner' locals') ts
  | [], _, _ => trivial
  | t :: ts, hu, h =>
      ⟨every_of_subst_eq t hu.1 (List.cons.inj h).1, everyAll_of_substAll_eq ts hu.2 (List.cons.inj h).2⟩

end

/-- Unmarked types have the same instance exactly if their variables are replaced alike. -/
theorem subst_eq_subst_iff {t : Ty} (hu : t.Every IsUnmarked) :
    t.subst owner locals = t.subst owner' locals' ↔
      t.Every (ReplacedAlike owner locals owner' locals') :=
  ⟨every_of_subst_eq t hu, subst_congr t⟩

mutual

theorem Every.mono {p q : Ty → Prop} (h : ∀ t, p t → q t) : ∀ {t : Ty}, t.Every p → t.Every q
  | .object _ _, ht | .value _ _, ht => ⟨h _ ht.1, EveryAll.mono h ht.2⟩
  | .callable _ _, ht => ⟨h _ ht.1, EveryAll.mono h ht.2.1, Every.mono h ht.2.2⟩
  | .optional _, ht | .typeValue _, ht | .boxed _, ht => ⟨h _ ht.1, Every.mono h ht.2⟩
  | .error, ht | .nothing, ht | .int, ht | .real, ht | .bool, ht | .byte, ht | .symbol, ht => h _ ht
  | .something, ht | .enum _, ht | .protocol _, ht | .generic _ _, ht | .localGeneric _ _, ht => h _ ht

theorem EveryAll.mono {p q : Ty → Prop} (h : ∀ t, p t → q t) :
    ∀ {ts : List Ty}, EveryAll p ts → EveryAll q ts
  | [], _ => trivial
  | _ :: _, hts => ⟨Every.mono h hts.1, EveryAll.mono h hts.2⟩

end

end Ty

end Boxlang
