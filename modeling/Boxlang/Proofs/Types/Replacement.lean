import Boxlang.Proofs.Types.Components
import Boxlang.Proofs.Types.Variables

/-!
# Replacing variables

`Ty.Replaced` says what it means to replace all variables of a type at the same time: one
rule for each shape, and what a variable is replaced by is left as it is, even where it
mentions variables itself.

`instantiate` puts the arguments in boxes and `upperBound` does not, and both normalise the
storage marks that they meet.  Without the marks they are the same: the replacement of the
variables by the arguments, which does not depend on where the marks are forgotten
(`GenericContext.erased_instantiate_eq_upperBound`).
-/

namespace Boxlang

namespace Ty

variable {owner locals : Nat → Option Ty} {t u : Ty}

mutual

/--
The second type is the first one with a type in place of every variable.  There is no rule for
storage marks, and a variable that is not to be replaced has none either.
-/
inductive Replaced (owner locals : Nat → Option Ty) : Ty → Ty → Prop where
  | generic {i : Nat} {n : String} {u : Ty} : owner i = some u → Replaced owner locals (.generic i n) u
  | localGeneric {i : Nat} {n : String} {u : Ty} :
      locals i = some u → Replaced owner locals (.localGeneric i n) u
  | object {name : String} {args us : List Ty} :
      ReplacedAll owner locals args us → Replaced owner locals (.object name args) (.object name us)
  | value {name : String} {args us : List Ty} :
      ReplacedAll owner locals args us → Replaced owner locals (.value name args) (.value name us)
  | callable {params us : List Ty} {ret u : Ty} :
      ReplacedAll owner locals params us → Replaced owner locals ret u →
      Replaced owner locals (.callable params ret) (.callable us u)
  | optional {t u : Ty} : Replaced owner locals t u → Replaced owner locals (.optional t) (.optional u)
  | typeValue {t u : Ty} : Replaced owner locals t u → Replaced owner locals (.typeValue t) (.typeValue u)
  | enum (name : String) : Replaced owner locals (.enum name) (.enum name)
  | protocol (name : String) : Replaced owner locals (.protocol name) (.protocol name)
  | error : Replaced owner locals .error .error
  | nothing : Replaced owner locals .nothing .nothing
  | int : Replaced owner locals .int .int
  | real : Replaced owner locals .real .real
  | bool : Replaced owner locals .bool .bool
  | byte : Replaced owner locals .byte .byte
  | symbol : Replaced owner locals .symbol .symbol
  | something : Replaced owner locals .something .something

/-- The types of the second list are those of the first one with all variables replaced. -/
inductive ReplacedAll (owner locals : Nat → Option Ty) : List Ty → List Ty → Prop where
  | nil : ReplacedAll owner locals [] []
  | cons {t u : Ty} {ts us : List Ty} :
      Replaced owner locals t u → ReplacedAll owner locals ts us →
      ReplacedAll owner locals (t :: ts) (u :: us)

end

mutual

theorem Replaced.eq_subst : ∀ {t u : Ty}, Replaced owner locals t u → u = t.subst owner locals
  | _, _, .generic h | _, _, .localGeneric h => by simp [subst, h]
  | _, _, .object h | _, _, .value h => by rw [subst, h.eq_substAll]
  | _, _, .callable hparams hret => by rw [subst, hparams.eq_substAll, hret.eq_subst]
  | _, _, .optional h | _, _, .typeValue h => by rw [subst, h.eq_subst]
  | _, _, .enum _ | _, _, .protocol _ | _, _, .error | _, _, .nothing | _, _, .int => rfl
  | _, _, .real | _, _, .bool | _, _, .byte | _, _, .symbol | _, _, .something => rfl

theorem ReplacedAll.eq_substAll :
    ∀ {ts us : List Ty}, ReplacedAll owner locals ts us → us = substAll owner locals ts
  | _, _, .nil => rfl
  | _, _, .cons h hs => by rw [substAll, h.eq_subst, hs.eq_substAll]

end

def IsReplaced (owner locals : Nat → Option Ty) : Ty → Prop
  | .generic i _ => (owner i).isSome
  | .localGeneric i _ => (locals i).isSome
  | _ => True

mutual

theorem replaced_subst : ∀ t : Ty, t.Every IsUnmarked → t.Every (IsReplaced owner locals) →
    Replaced owner locals t (t.subst owner locals)
  | .generic i n, _, h => by
      obtain ⟨u, hu⟩ := Option.isSome_iff_exists.mp h
      simpa [subst, hu] using Replaced.generic hu
  | .localGeneric i n, _, h => by
      obtain ⟨u, hu⟩ := Option.isSome_iff_exists.mp h
      simpa [subst, hu] using Replaced.localGeneric hu
  | .object _ args, hu, h => .object (replacedAll_substAll args hu.2 h.2)
  | .value _ args, hu, h => .value (replacedAll_substAll args hu.2 h.2)
  | .callable params ret, hu, h =>
      .callable (replacedAll_substAll params hu.2.1 h.2.1) (replaced_subst ret hu.2.2 h.2.2)
  | .optional inner, hu, h => .optional (replaced_subst inner hu.2 h.2)
  | .typeValue inner, hu, h => .typeValue (replaced_subst inner hu.2 h.2)
  | .boxed _, hu, _ => hu.1.elim
  | .enum name, _, _ => .enum name
  | .protocol name, _, _ => .protocol name
  | .error, _, _ => .error
  | .nothing, _, _ => .nothing
  | .int, _, _ => .int
  | .real, _, _ => .real
  | .bool, _, _ => .bool
  | .byte, _, _ => .byte
  | .symbol, _, _ => .symbol
  | .something, _, _ => .something

theorem replacedAll_substAll : ∀ ts : List Ty, EveryAll IsUnmarked ts →
    EveryAll (IsReplaced owner locals) ts → ReplacedAll owner locals ts (substAll owner locals ts)
  | [], _, _ => .nil
  | t :: ts, hu, h => .cons (replaced_subst t hu.1 h.1) (replacedAll_substAll ts hu.2 h.2)

end

theorem replaced_iff (hu : t.Every IsUnmarked) (h : t.Every (IsReplaced owner locals)) :
    Replaced owner locals t u ↔ u = t.subst owner locals :=
  ⟨Replaced.eq_subst, fun heq => heq ▸ replaced_subst t hu h⟩

theorem IsUnmarked.erased : ∀ {t : Ty}, t.IsUnmarked → t.erased.IsUnmarked
  | .object _ _, h | .value _ _, h | .callable _ _, h | .optional _, h | .typeValue _, h => h
  | .error, h | .nothing, h | .int, h | .real, h | .bool, h | .byte, h | .symbol, h => h
  | .something, h | .enum _, h | .protocol _, h | .generic _ _, h | .localGeneric _ _, h => h

end Ty

namespace GenericContext

variable {c : GenericContext} {t u : Ty} {i : Nat}

/-! ### Arguments without storage marks -/

def erased (c : GenericContext) : GenericContext where
  owner := c.owner.map Ty.erased
  ownerConstraints := c.ownerConstraints.map Ty.erased
  args := c.args.map Ty.erased
  constraints := c.constraints.map Ty.erased

/-- What the owner's variables are replaced by, without storage marks. -/
def erasedOwnerArg? (c : GenericContext) (i : Nat) : Option Ty :=
  (c.ownerArg? i).map Ty.erased

/-- What the function's own variables are replaced by, without storage marks. -/
def erasedArg? (c : GenericContext) (i : Nat) : Option Ty :=
  c.args[i]?.map Ty.erased

/-- The arguments that are known stay the same, up to their marks. -/
theorem ownerArg?_erased (h : c.ownerArg? i = some u) : c.erased.ownerArg? i = some u.erased := by
  obtain ⟨owner, name, args, howner, hu, hi⟩ := ownerArg?_eq_some_iff.mp h
  have hunboxed : owner.erased.unboxed = owner.unboxed.erased := by
    rw [Ty.unboxed_erased, Ty.erased_unboxed]
  refine ownerArg?_eq_some_iff.mpr
    ⟨owner.erased, name, args.map Ty.erased, by simp [erased, howner], ?_, by simp [hi]⟩
  rw [hunboxed]
  rcases hu with hu | hu
  · exact .inl (by rw [hu, Ty.erased, Ty.erasedAll_eq_map])
  · exact .inr (by rw [hu, Ty.erased, Ty.erasedAll_eq_map])

@[simp]
theorem getElem?_args_erased (c : GenericContext) (i : Nat) : c.erased.args[i]? = c.erasedArg? i := by
  simp [erased, erasedArg?]

/-! ### Types whose variables have arguments -/

/-- The type has no storage mark at the top, and if it is a variable, it has an argument. -/
def IsKnown (c : GenericContext) (t : Ty) : Prop :=
  t.IsUnmarked ∧ c.HasArg t

theorem every_isKnown_erased (h : t.Every c.HasArg) : t.erased.Every c.IsKnown := by
  refine Ty.every_erased (fun u hu hmark => ⟨hmark.erased, ?_⟩) t h
  cases u <;> first | exact hu | exact hmark.elim

/-- Two substitutions agree on a type without marks if they agree on the arguments. -/
theorem subst_erased_congr (h : t.Every c.HasArg) {owner locals : Nat → Option Ty}
    (howner : ∀ i u, c.ownerArg? i = some u → owner i = some u.erased)
    (hlocals : ∀ i u, c.args[i]? = some u → locals i = some u.erased) :
    t.erased.subst owner locals = t.erased.subst c.erasedOwnerArg? c.erasedArg? := by
  refine Ty.subst_congr _ ((every_isKnown_erased h).mono fun u hu => ?_)
  cases u with
  | generic i n =>
    obtain ⟨v, hv⟩ := Option.isSome_iff_exists.mp hu.2
    simp [Ty.ReplacedAlike, erasedOwnerArg?, hv, howner i v hv]
  | localGeneric i n =>
    have hv := List.getElem?_eq_getElem hu.2
    simp only [Ty.ReplacedAlike, erasedArg?, hv, hlocals i _ hv, Option.map_some]
  | _ => trivial

theorem erased_instantiate (c : GenericContext) (t : Ty) :
    (c.instantiate t).erased = t.erased.subst c.erasedOwnerArg? c.erasedArg? := by
  have herased : Ty.erased ∘ Ty.inBox = Ty.erased := funext Ty.erased_inBox
  simp only [instantiate, Ty.erased_subst, Option.map_map, herased]
  rfl

/-- Where all arguments are known, no constraint is used. -/
theorem erased_upperBound (h : t.Every c.HasArg) :
    (c.upperBound t).erased = t.erased.subst c.erasedOwnerArg? c.erasedArg? := by
  rw [upperBound, Ty.erased_subst]
  exact subst_erased_congr h (fun i u hu => by simp [hu]) fun i u hu => by simp [hu]

theorem upperBound_erased (h : t.Every c.HasArg) :
    c.erased.upperBound t.erased = t.erased.subst c.erasedOwnerArg? c.erasedArg? :=
  subst_erased_congr h (fun i u hu => by simp [ownerArg?_erased hu]) fun i u hu => by
    simp [erasedArg?, hu]

theorem erased_instantiate_erased (h : t.Every c.HasArg) :
    (c.erased.instantiate t.erased).erased = t.erased.subst c.erasedOwnerArg? c.erasedArg? := by
  rw [erased_instantiate, Ty.erased_erased]
  exact subst_erased_congr h
    (fun i u hu => by simp [erasedOwnerArg?, ownerArg?_erased hu, Ty.erased_erased])
    fun i u hu => by simp [erasedArg?, erased, hu, Ty.erased_erased]

theorem replaced_erased_iff (h : t.Every c.HasArg) :
    Ty.Replaced c.erasedOwnerArg? c.erasedArg? t.erased u ↔
      u = t.erased.subst c.erasedOwnerArg? c.erasedArg? := by
  have hknown := every_isKnown_erased h
  refine Ty.replaced_iff (hknown.mono fun _ hu => hu.1) (hknown.mono fun v hv => ?_)
  cases v with
  | generic i n => simpa [Ty.IsReplaced, erasedOwnerArg?, HasArg] using hv.2
  | localGeneric i n => simpa [Ty.IsReplaced, erasedArg?, HasArg] using hv.2
  | _ => trivial

/--
Up to storage marks, a type with its variables replaced in either way is the type with all
variables replaced by the arguments at once, and it makes no difference whether the marks of the
type and of the context are forgotten before or afterwards.
-/
theorem erased_instantiate_eq_upperBound (h : t.Every c.HasArg) :
    (c.instantiate t).erased = (c.upperBound t).erased ∧
      (∀ u, Ty.Replaced c.erasedOwnerArg? c.erasedArg? t.erased u ↔ u = (c.instantiate t).erased) ∧
      (c.erased.instantiate t.erased).erased = (c.instantiate t).erased ∧
      c.erased.upperBound t.erased = (c.upperBound t).erased := by
  rw [erased_instantiate, erased_upperBound h, upperBound_erased h, erased_instantiate_erased h]
  exact ⟨rfl, fun u => replaced_erased_iff h, rfl, rfl⟩

def boxedOwner : GenericContext where
  owner := some (.boxed (.object "Map" [.boxed (.optional (.boxed .int)), .generic 0 "K", .error]))
  args := [.error, .callable [.boxed .real] (.localGeneric 0 "T")]

def nestedVariables : Ty :=
  .callable [.object "List" [.boxed (.generic 0 "K")], .optional (.generic 1 "V"), .generic 2 "W"]
    (.value "Pair" [.boxed (.localGeneric 0 "T"), .typeValue (.boxed (.localGeneric 1 "U"))])

theorem erased_instantiate_nestedVariables :
    nestedVariables.Every boxedOwner.HasArg ∧
      (boxedOwner.instantiate nestedVariables).erased = (boxedOwner.upperBound nestedVariables).erased ∧
      (boxedOwner.upperBound nestedVariables).erased =
        .callable [.object "List" [.optional .int], .optional (.generic 0 "K"), .error]
          (.value "Pair" [.error, .typeValue (.callable [.real] (.localGeneric 0 "T"))]) := by
  have h : nestedVariables.Every boxedOwner.HasArg := by
    simp [nestedVariables, Ty.Every, Ty.EveryAll, HasArg, boxedOwner, ownerArg?, Ty.unboxed]
  exact ⟨h, (erased_instantiate_eq_upperBound h).1, by decide⟩

end GenericContext

end Boxlang
