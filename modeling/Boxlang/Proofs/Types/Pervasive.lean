import Boxlang.Package
import Boxlang.Proofs.Types.Ancestors
import Boxlang.Proofs.Types.Components
import Boxlang.Proofs.Types.Substitution
import Boxlang.Storage
import Boxlang.WrittenType.Resolve
import Mathlib.Tactic.SplitIfs

/-!
# Properties of all parts of a type

A property is pervasive if a type has it where its parts have it and the name at its
head, if there is one, is a permitted one.  Of storage marks it is only required that they
may be taken away, and put on where they carry information.  Where the types and names that
are declared are so, all types that are computed from them have the property: by changing
storage, by substitution, by walking superclasses, by inference, or by resolving what was
written.
-/

namespace Boxlang

namespace Ty

/--
The property of types holds of every type of which it holds part by part, where names
are permitted by `named`.  Whether it holds of the error type is left open, and whether it
holds of types with marks that `inBox` does not make.
-/
structure Pervasive (named : String → Prop) (q : Ty → Prop) : Prop where
  atom : ∀ t ∈ [Ty.nothing, .int, .real, .bool, .byte, .symbol, .something], q t
  object : ∀ {n args}, q (.object n args) ↔ named n ∧ ∀ t ∈ args, q t
  value : ∀ {n args}, q (.value n args) ↔ named n ∧ ∀ t ∈ args, q t
  enum : ∀ {n}, q (.enum n) ↔ named n
  protocol : ∀ {n}, q (.protocol n) ↔ named n
  generic : ∀ {i n}, q (.generic i n) ↔ named n
  localGeneric : ∀ {i n}, q (.localGeneric i n) ↔ named n
  callable : ∀ {params ret}, q (.callable params ret) ↔ (∀ t ∈ params, q t) ∧ q ret
  optional : ∀ {inner}, q (.optional inner) ↔ q inner
  typeValue : ∀ {inner}, q (.typeValue inner) ↔ q inner
  boxed : ∀ {inner}, q (.boxed inner) → q inner
  inBox : ∀ {t}, q t → q t.inBox

theorem pervasive_true : Pervasive (fun _ => True) fun _ => True := by
  constructor <;> simp

namespace Pervasive

variable {named : String → Prop} {q : Ty → Prop} (hq : Pervasive named q) {t u : Ty}
include hq

theorem something : q .something :=
  hq.atom _ (by simp)

theorem descends : Descends q := by
  intro t ht u hu
  cases t with
  | object name args => exact (hq.object.mp ht).2 u hu
  | value name args => exact (hq.value.mp ht).2 u hu
  | callable params ret =>
      obtain ⟨hparams, hret⟩ := hq.callable.mp ht
      rcases List.mem_cons.mp hu with rfl | hu
      · exact hret
      · exact hparams u hu
  | optional inner =>
      obtain rfl := List.mem_singleton.mp hu
      exact hq.optional.mp ht
  | typeValue inner =>
      obtain rfl := List.mem_singleton.mp hu
      exact hq.typeValue.mp ht
  | boxed inner =>
      obtain rfl := List.mem_singleton.mp hu
      exact hq.boxed ht
  | _ => cases hu

/-! ### Storage marks -/

theorem unboxed (h : q t) : q t.unboxed := by
  cases t with
  | boxed inner => exact hq.boxed h
  | _ => exact h

theorem of_unboxed (h : q t) (hu : t.unboxed = u) : q u :=
  hu ▸ hq.unboxed h

omit hq in
mutual

theorem erased (hq : Pervasive named q) : ∀ {t : Ty}, q t → q t.erased
  | .error, h | .nothing, h | .int, h | .real, h | .bool, h | .byte, h | .symbol, h => h
  | .something, h | .enum _, h | .protocol _, h | .generic _ _, h | .localGeneric _ _, h => h
  | .object _ args, h => by
      obtain ⟨hn, hargs⟩ := hq.object.mp h
      exact hq.object.mpr ⟨hn, forall_mem_erasedAll hq args hargs⟩
  | .value _ args, h => by
      obtain ⟨hn, hargs⟩ := hq.value.mp h
      exact hq.value.mpr ⟨hn, forall_mem_erasedAll hq args hargs⟩
  | .callable params ret, h => by
      obtain ⟨hparams, hret⟩ := hq.callable.mp h
      exact hq.callable.mpr ⟨forall_mem_erasedAll hq params hparams, erased hq hret⟩
  | .optional inner, h => hq.optional.mpr (erased hq (hq.optional.mp h))
  | .typeValue inner, h => hq.typeValue.mpr (erased hq (hq.typeValue.mp h))
  | .boxed inner, h => by
      rw [Ty.erased]
      exact erased hq (hq.boxed h)

theorem forall_mem_erasedAll (hq : Pervasive named q) :
    ∀ ts : List Ty, (∀ t ∈ ts, q t) → ∀ t ∈ erasedAll ts, q t
  | [], _ => by simp [erasedAll]
  | t :: ts, h => by
      obtain ⟨ht, hts⟩ := List.forall_mem_cons.mp h
      exact List.forall_mem_cons.mpr ⟨erased hq ht, forall_mem_erasedAll hq ts hts⟩

end

theorem heldIn (s : Storage) (h : q t) : q (t.heldIn s) := by
  cases s with
  | simple => exact hq.unboxed h
  | box =>
      unfold Ty.heldIn
      dsimp only
      split
      · exact h
      · exact hq.inBox h
  | simpleOptional =>
      have hu : q t.unboxed := hq.unboxed h
      unfold Ty.heldIn
      dsimp only
      split
      next heq => rwa [heq] at hu
      next => exact hq.optional.mpr hu

/-! ### Parts -/

theorem of_optionalInner? (h : q t) (hu : t.optionalInner? = some u) : q u := by
  unfold optionalInner? at hu
  split at hu
  next heq =>
    cases hu
    exact hq.optional.mp (hq.of_unboxed h heq)
  next => cases hu

theorem of_protocolName? {name : String} (h : q t) (hn : t.protocolName? = some name) :
    named name := by
  unfold protocolName? at hn
  split at hn
  next heq =>
    cases hn
    exact hq.protocol.mp (hq.of_unboxed h heq)
  next => cases hn

/-! ### Substitution -/

omit hq in
mutual

theorem subst (hq : Pervasive named q) {owner locals : Nat → Option Ty}
    (ho : ∀ i u, owner i = some u → q u) (hl : ∀ i u, locals i = some u → q u) :
    ∀ t : Ty, q t → q (t.subst owner locals)
  | .error, h | .nothing, h | .int, h | .real, h | .bool, h | .byte, h | .symbol, h => h
  | .something, h | .enum _, h | .protocol _, h => h
  | .generic i n, h => by
      cases hi : owner i with
      | none => simpa [Ty.subst, hi] using h
      | some u => simpa [Ty.subst, hi] using ho i u hi
  | .localGeneric i n, h => by
      cases hi : locals i with
      | none => simpa [Ty.subst, hi] using h
      | some u => simpa [Ty.subst, hi] using hl i u hi
  | .object _ args, h => by
      obtain ⟨hn, hargs⟩ := hq.object.mp h
      exact hq.object.mpr ⟨hn, substAll hq ho hl args hargs⟩
  | .value _ args, h => by
      obtain ⟨hn, hargs⟩ := hq.value.mp h
      exact hq.value.mpr ⟨hn, substAll hq ho hl args hargs⟩
  | .callable params ret, h => by
      obtain ⟨hparams, hret⟩ := hq.callable.mp h
      exact hq.callable.mpr ⟨substAll hq ho hl params hparams, subst hq ho hl ret hret⟩
  | .optional inner, h => hq.optional.mpr (subst hq ho hl inner (hq.optional.mp h))
  | .typeValue inner, h => hq.typeValue.mpr (subst hq ho hl inner (hq.typeValue.mp h))
  | .boxed inner, h => hq.inBox (subst hq ho hl inner (hq.boxed h))

theorem substAll (hq : Pervasive named q) {owner locals : Nat → Option Ty}
    (ho : ∀ i u, owner i = some u → q u) (hl : ∀ i u, locals i = some u → q u) :
    ∀ ts : List Ty, (∀ t ∈ ts, q t) → ∀ t ∈ Ty.substAll owner locals ts, q t
  | [], _ => by simp [Ty.substAll]
  | t :: ts, h => by
      obtain ⟨ht, hts⟩ := List.forall_mem_cons.mp h
      exact List.forall_mem_cons.mpr ⟨subst hq ho hl t ht, substAll hq ho hl ts hts⟩

end

end Pervasive

end Ty

/-! ### Contexts -/

structure GenericContext.AllTypes (q : Ty → Prop) (c : GenericContext) : Prop where
  owner : ∀ t, c.owner = some t → q t
  ownerConstraints : ∀ t ∈ c.ownerConstraints, q t
  args : ∀ t ∈ c.args, q t
  constraints : ∀ t ∈ c.constraints, q t

namespace GenericContext.AllTypes

variable {named : String → Prop} {q : Ty → Prop} {c : GenericContext}

theorem ownerArg? (hq : Ty.Pervasive named q) (h : c.AllTypes q) {i : Nat} {t : Ty}
    (ht : c.ownerArg? i = some t) : q t := by
  obtain ⟨owner, args, howner, hmem, name, hu⟩ := exists_of_ownerArg? ht
  rcases hu with hu | hu
  · exact (hq.object.mp (hq.of_unboxed (h.owner owner howner) hu)).2 t hmem
  · exact (hq.value.mp (hq.of_unboxed (h.owner owner howner) hu)).2 t hmem

theorem getD_something (hq : Ty.Pervasive named q) {ts : List Ty} (h : ∀ t ∈ ts, q t) (i : Nat) :
    q (ts.getD i .something) := by
  rw [List.getD_eq_getElem?_getD]
  cases hi : ts[i]? with
  | none => exact hq.something
  | some t => exact h t (List.mem_of_getElem? hi)

theorem instantiate (hq : Ty.Pervasive named q) (h : c.AllTypes q) {t : Ty} (ht : q t) :
    q (c.instantiate t) := by
  refine hq.subst (fun i u hu => ?_) (fun i u hu => ?_) t ht
  · obtain ⟨v, hv, rfl⟩ := Option.map_eq_some_iff.mp hu
    exact hq.inBox (h.ownerArg? hq hv)
  · obtain ⟨v, hv, rfl⟩ := Option.map_eq_some_iff.mp hu
    exact hq.inBox (h.args v (List.mem_of_getElem? hv))

theorem upperBound (hq : Ty.Pervasive named q) (h : c.AllTypes q) {t : Ty} (ht : q t) :
    q (c.upperBound t) := by
  refine hq.subst (fun i u hu => ?_) (fun i u hu => ?_) t ht
  · obtain rfl := Option.some.inj hu
    cases hv : c.ownerArg? i with
    | none => exact getD_something hq h.ownerConstraints i
    | some v => exact h.ownerArg? hq hv
  · obtain rfl := Option.some.inj hu
    cases hv : c.args[i]? with
    | none => exact getD_something hq h.constraints i
    | some v => exact h.args v (List.mem_of_getElem? hv)

end GenericContext.AllTypes

/-! ### Declarations -/

structure Declarations.Named (named : String → Prop) (d : Declarations) : Prop where
  classes : ∀ e ∈ d.classes, named e.1 ∧ ∀ n ∈ e.2.protocols ++ e.2.generics, named n
  values : ∀ e ∈ d.values, named e.1 ∧ ∀ n ∈ e.2.protocols ++ e.2.generics, named n
  enums : ∀ e ∈ d.enums, named e.1 ∧ ∀ n ∈ e.2.protocols, named n
  protocols : ∀ n ∈ d.protocols, named n
  conformances : ∀ e ∈ d.conformances, named e.2

structure Declarations.Mentions (named : String → Prop) (q : Ty → Prop) (d : Declarations) : Prop
    extends Declarations.Named named d where
  superclasses : ∀ e ∈ d.classes, ∀ t ∈ e.2.superclass, q t

namespace Declarations

theorem mem_of_lookup {α : Type} {table : List (String × α)} {name : String} {a : α}
    (h : table.lookup name = some a) : (name, a) ∈ table := by
  obtain ⟨before, after, rfl, -⟩ := List.lookup_eq_some_iff.mp h
  simp

variable {named : String → Prop} {q : Ty → Prop} {d : Declarations}

namespace Named

variable (h : d.Named named)
include h

theorem of_mem_classProtocols {t : Ty} {name : String} (hn : name ∈ d.classProtocols t) :
    named name := by
  unfold classProtocols at hn
  split at hn
  next n args =>
    cases hdecl : d.class? n with
    | none => simp [hdecl] at hn
    | some decl =>
        rw [hdecl] at hn
        exact (h.classes (n, decl) (mem_of_lookup hdecl)).2 name (List.mem_append_left _ hn)
  next => cases hn

theorem of_mem_protocolsOf {t : Ty} {name : String} (hn : name ∈ d.protocolsOf t) : named name := by
  unfold protocolsOf at hn
  split at hn
  case h_1 =>
    obtain ⟨u, -, hu⟩ := List.mem_flatMap.mp hn
    exact h.of_mem_classProtocols hu
  case h_2 n args =>
    cases hdecl : d.value? n with
    | none => simp [hdecl] at hn
    | some decl =>
        rw [hdecl] at hn
        exact (h.values (n, decl) (mem_of_lookup hdecl)).2 name (List.mem_append_left _ hn)
  case h_3 n =>
    cases hdecl : d.enum? n with
    | none => simp [hdecl] at hn
    | some decl =>
        rw [hdecl] at hn
        exact (h.enums (n, decl) (mem_of_lookup hdecl)).2 name hn
  case h_9 => cases hn
  all_goals
    obtain ⟨⟨primitive, n⟩, hmem, heq⟩ := List.mem_filterMap.mp hn
    obtain ⟨-, rfl⟩ : _ ∧ n = name := by simpa using heq
    exact h.conformances (primitive, n) hmem

theorem of_mem_genericsOf {t : Ty} {name : String} (hn : name ∈ d.genericsOf t) : named name := by
  unfold genericsOf at hn
  split at hn
  case h_1 n args =>
    cases hdecl : d.class? n with
    | none => simp [hdecl] at hn
    | some decl =>
        rw [hdecl] at hn
        exact (h.classes (n, decl) (mem_of_lookup hdecl)).2 name (List.mem_append_right _ hn)
  case h_2 n args =>
    cases hdecl : d.value? n with
    | none => simp [hdecl] at hn
    | some decl =>
        rw [hdecl] at hn
        exact (h.values (n, decl) (mem_of_lookup hdecl)).2 name (List.mem_append_right _ hn)
  case h_3 => cases hn

theorem of_type? (hq : Ty.Pervasive named q) {name : String} {t : Ty} (ht : d.type? name = some t) :
    q t := by
  unfold type? at ht
  split_ifs at ht with hclass hvalue henum hprotocol
  · obtain ⟨decl, hdecl⟩ := Option.isSome_iff_exists.mp hclass
    have hn := (h.classes (name, decl) (mem_of_lookup hdecl)).1
    cases ht
    exact hq.object.mpr ⟨hn, by simp⟩
  · obtain ⟨decl, hdecl⟩ := Option.isSome_iff_exists.mp hvalue
    have hn := (h.values (name, decl) (mem_of_lookup hdecl)).1
    cases ht
    exact hq.value.mpr ⟨hn, by simp⟩
  · obtain ⟨decl, hdecl⟩ := Option.isSome_iff_exists.mp henum
    have hn := (h.enums (name, decl) (mem_of_lookup hdecl)).1
    cases ht
    exact hq.enum.mpr hn
  · have hn := h.protocols name (by simpa [hasProtocol] using hprotocol)
    cases ht
    exact hq.protocol.mpr hn

end Named

namespace Mentions

variable (h : d.Mentions named q)
include h

theorem superclass? (hq : Ty.Pervasive named q) {t s : Ty} (ht : q t)
    (hs : d.superclass? t = some s) : q s := by
  obtain ⟨name, args, decl, u, rfl, hdecl, hsuper, rfl⟩ := Extends.exists_superclass hs
  refine hq.subst (fun i v hv => ?_) (by simp) u
    (h.superclasses (name, decl) (mem_of_class? hdecl) u hsuper)
  exact (hq.object.mp ht).2 v (List.mem_of_getElem? hv)

theorem nominalJoin (hq : Ty.Pervasive named q) (c : GenericContext) {a b : Ty} (ha : q a) :
    q (d.nominalJoin c a b) := by
  unfold Declarations.nominalJoin
  split
  next ancestor hfound =>
    rw [findAncestor?_eq_find?] at hfound
    exact forall_mem_ancestorsWithin (h.superclass? hq) id ha ancestor
      (List.mem_of_find?_eq_some hfound)
  next =>
    split
    next name hname =>
      exact hq.protocol.mpr (h.toNamed.of_mem_protocolsOf (List.mem_of_find?_eq_some hname))
    next => exact hq.something

theorem commonErased? (hq : Ty.Pervasive named q) (c : GenericContext) (a b : Ty) :
    ∀ t, q a → q b → d.commonErased? c a b = some t → q t := by
  fun_induction d.commonErased? c a b <;> intro t ha hb ht
  case case4 x y _ _ _ ih =>
      obtain ⟨u, hu, rfl⟩ := Option.map_eq_some_iff.mp ht
      exact hq.optional.mpr (ih u (hq.optional.mp ha) (hq.optional.mp hb) hu)
  case case5 x y _ _ _ _ ih =>
      obtain ⟨u, hu, rfl⟩ := Option.map_eq_some_iff.mp ht
      exact hq.optional.mpr (ih u (hq.optional.mp ha) hb hu)
  case case6 x y _ _ _ _ ih =>
      obtain ⟨u, hu, rfl⟩ := Option.map_eq_some_iff.mp ht
      exact hq.optional.mpr (ih u (hq.optional.mp hb) ha hu)
  case case7 x y _ _ _ ih =>
      obtain ⟨u, hu, rfl⟩ := Option.map_eq_some_iff.mp ht
      exact hq.typeValue.mpr (ih u (hq.typeValue.mp ha) (hq.typeValue.mp hb) hu)
  case case12 =>
      cases ht
      exact h.nominalJoin hq c ha
  all_goals
    cases ht
    try assumption

theorem commonSupertype? (hq : Ty.Pervasive named q) (c : GenericContext) {a b t : Ty} (ha : q a)
    (hb : q b) (ht : d.commonSupertype? c a b = some t) : q t :=
  h.commonErased? hq c a.erased b.erased t (hq.erased ha) (hq.erased hb) ht

end Mentions

end Declarations

/-! ### Inference -/

namespace Candidates

variable {named : String → Prop} {q : Ty → Prop} {d : Declarations} {c : GenericContext}

theorem yields_add_of_pervasive (hq : Ty.Pervasive named q) (hd : d.Mentions named q)
    {candidates : Candidates} {t : Ty} (h : candidates.Yields q) (ht : q t) :
    (candidates.add d c t).Yields q := by
  intro u hu
  cases candidates with
  | unseen =>
      cases hu
      exact hq.erased ht
  | common v =>
      simp only [add] at hu
      split at hu
      next wider hwider =>
        cases hu
        exact hd.commonSupertype? hq c (h v rfl) (hq.erased ht) hwider
      next => cases hu
  | conflict v w => cases hu

end Candidates

/-! ### Signatures -/

namespace Signature

variable {named : String → Prop} {q : Ty → Prop} {f : Signature} {d : Declarations}

/-- The names of generic parameters are permitted, and all types have the property. -/
structure Mentions (named : String → Prop) (q : Ty → Prop) (f : Signature) : Prop where
  generics : ∀ g ∈ f.generics, named g.name
  constraints : ∀ g ∈ f.generics, q g.constraint
  owner : ∀ t ∈ f.owner?, q t
  params : ∀ param ∈ f.params, q param.type
  ret : q f.ret

theorem eq_something_of_mem_context {t : Ty} (h : t ∈ (f.context d).ownerConstraints) :
    t = .something := by
  unfold context at h
  dsimp only at h
  split at h
  next owner _ =>
    obtain ⟨-, -, rfl⟩ := List.mem_map.mp h
    rfl
  next => cases h

theorem Mentions.context (hq : Ty.Pervasive named q) (h : f.Mentions named q) (d : Declarations) :
    (f.context d).AllTypes q where
  owner := h.owner
  ownerConstraints t ht := eq_something_of_mem_context ht ▸ hq.something
  args t ht := by simp [Signature.context] at ht
  constraints t ht := by
    obtain ⟨g, hg, rfl⟩ := List.mem_map.mp ht
    exact h.constraints g hg

theorem exists_of_bind_eq_ok {ε α β : Type} {r : Except ε α} {f : α → Except ε β} {b : β}
    (h : (r >>= f) = .ok b) : ∃ a, r = .ok a ∧ f a = .ok b := by
  cases r with
  | error e => cases h
  | ok a => exact ⟨a, rfl, h⟩

/-! ### Written types -/

theorem named?_of_named (hq : Ty.Pervasive named q) (hd : d.Named named)
    (hf : ∀ g ∈ f.generics, named g.name) {name : String} {args : List Ty} {t : Ty}
    (h : f.named? d name args = some t) (ha : ∀ u ∈ args, q u) : q t := by
  unfold named? at h
  split at h
  next u hu =>
    obtain rfl := Option.some.inj h
    refine hq.atom u ?_
    unfold Ty.builtin? at hu
    split at hu <;> cases hu <;> simp
  next =>
    split at h
    next i hi =>
      obtain rfl := Option.some.inj h
      obtain ⟨hlt, hname, -⟩ := List.findIdx?_eq_some_iff_getElem.mp hi
      obtain ⟨g, hg, heq⟩ := List.mem_map.mp (List.getElem_mem hlt)
      obtain rfl : g.name = name := heq.trans (by simpa using hname)
      exact hq.localGeneric.mpr (hf g hg)
    next =>
      split at h
      next i hi =>
        obtain rfl := Option.some.inj h
        obtain ⟨hlt, hname, -⟩ := List.findIdx?_eq_some_iff_getElem.mp hi
        have hmem : name ∈ f.ownerGenerics d := by
          have hget : (f.ownerGenerics d)[i] = name := by simpa using hname
          exact hget ▸ List.getElem_mem hlt
        unfold ownerGenerics at hmem
        split at hmem
        · exact hq.generic.mpr (hd.of_mem_genericsOf hmem)
        · cases hmem
      next =>
        obtain ⟨u, hu, rfl⟩ := Option.map_eq_some_iff.mp h
        have hqu := hd.of_type? hq hu
        split
        next => exact hq.object.mpr ⟨(hq.object.mp hqu).1, ha⟩
        next => exact hq.value.mpr ⟨(hq.value.mp hqu).1, ha⟩
        next => exact hqu

mutual

/-- Where all names are permitted ones, what is written denotes types with the property. -/
theorem of_resolve (hq : Ty.Pervasive named q) (hd : d.Named named)
    (hf : ∀ g ∈ f.generics, named g.name) :
    ∀ (w : WrittenType) (t : Ty), f.resolve d w = .ok t → q t
  | .optional _ inner, t, h => by
      rw [resolve] at h
      obtain ⟨u, hu, h⟩ := exists_of_bind_eq_ok h
      cases h
      exact hq.optional.mpr (of_resolve hq hd hf inner u hu)
  | .callable _ params ret, t, h => by
      rw [resolve] at h
      obtain ⟨ps, hps, h⟩ := exists_of_bind_eq_ok h
      obtain ⟨r, hr, h⟩ := exists_of_bind_eq_ok h
      cases h
      exact hq.callable.mpr ⟨of_resolveAll hq hd hf params ps hps, of_resolve hq hd hf ret r hr⟩
  | .named span name args, t, h => by
      rw [resolve] at h
      obtain ⟨ts, hts, h⟩ := exists_of_bind_eq_ok h
      split at h
      next u hu =>
        cases h
        exact named?_of_named hq hd hf hu (of_resolveAll hq hd hf args ts hts)
      next => cases h

theorem of_resolveAll (hq : Ty.Pervasive named q) (hd : d.Named named)
    (hf : ∀ g ∈ f.generics, named g.name) :
    ∀ (ws : List WrittenType) (ts : List Ty), f.resolveAll d ws = .ok ts → ∀ t ∈ ts, q t
  | [], ts, h => by
      cases h
      simp
  | w :: ws, ts, h => by
      rw [resolveAll] at h
      obtain ⟨u, hu, h⟩ := exists_of_bind_eq_ok h
      obtain ⟨us, hus, h⟩ := exists_of_bind_eq_ok h
      cases h
      exact List.forall_mem_cons.mpr ⟨of_resolve hq hd hf w u hu, of_resolveAll hq hd hf ws us hus⟩

end

end Signature

end Boxlang
