import Boxlang.Proofs.Subtyping.Nearest

/-!
# Least common supertypes

The common supertype of two types need not be the least type above both
(`Declarations.LeastJoin`): of several shared protocols it is the first one of the first
type, callables and variables are joined to the top, and only classes climb to their
ancestors.

Where it is least for all that is under the optionals and type values of two types and of a
third one (`Declarations.Agree`), it is least for their common supertype and the third one as
well (`Declarations.Agree.of_commonErased?`).  The case that matters is that of two classes with a
common ancestor: what is above the ancestor and a third type is above the class and the third
type, and the walks from both meet it at the same place.
-/

namespace Boxlang

namespace Ty

def layers : Ty → List Ty
  | .optional t => .optional t :: layers t
  | .typeValue t => .typeValue t :: layers t
  | t => [t]

theorem mem_layers_self (t : Ty) : t ∈ t.layers := by
  cases t <;> simp [layers]

theorem mem_layers_optional (t : Ty) : t ∈ (optional t).layers :=
  List.mem_cons_of_mem _ t.mem_layers_self

theorem mem_layers_typeValue (t : Ty) : t ∈ (typeValue t).layers :=
  List.mem_cons_of_mem _ t.mem_layers_self

theorem mem_layers_trans {s t u : Ty} (hs : s ∈ t.layers) (ht : t ∈ u.layers) : s ∈ u.layers := by
  fun_induction layers u with
  | case1 u ih | case2 u ih =>
      rcases List.mem_cons.mp ht with rfl | ht
      · exact hs
      · exact List.mem_cons_of_mem _ (ih ht)
  | case3 u hopt htype =>
      obtain rfl := List.mem_singleton.mp ht
      rwa [layers.eq_3 t hopt htype] at hs

/-- Classes, protocols and the top: what types that are not comparable are joined to. -/
inductive IsNominal : Ty → Prop where
  | object (name : String) (args : List Ty) : IsNominal (.object name args)
  | protocol (name : String) : IsNominal (.protocol name)
  | something : IsNominal .something

theorem IsNominal.belowTop {t : Ty} (h : t.IsNominal) : t.belowTop = true := by
  cases h <;> rfl

theorem IsNominal.eq_of_mem_layers {s t : Ty} (h : t.IsNominal) (hs : s ∈ t.layers) : s = t := by
  cases h <;> simpa [layers] using hs

/-- No storage marks, and no error type among the parts that are compared. -/
structure IsRegular (t : Ty) : Prop where
  erased_eq : t.erased = t
  error_notMem : .error ∉ t.parts

theorem IsRegular.ne_error {t : Ty} (h : t.IsRegular) : t ≠ .error :=
  fun heq => h.error_notMem (heq ▸ mem_parts_self t)

theorem IsRegular.of_optional {t : Ty} (h : (Ty.optional t).IsRegular) : t.IsRegular where
  erased_eq := Ty.optional.inj h.erased_eq
  error_notMem := List.not_mem_of_not_mem_cons h.error_notMem

theorem IsRegular.of_typeValue {t : Ty} (h : (Ty.typeValue t).IsRegular) : t.IsRegular where
  erased_eq := Ty.typeValue.inj h.erased_eq
  error_notMem := List.not_mem_of_not_mem_cons h.error_notMem

theorem ne_optional_of_belowTop {t : Ty} (h : t.belowTop = true) (u : Ty) : t ≠ .optional u := by
  rintro rfl
  cases h

end Ty

namespace Declarations

variable {d : Declarations} {c : GenericContext} {a b e r s t u v w x y z : Ty}

theorem IsJoinable.isRegular (h : d.IsJoinable t) : t.IsRegular :=
  ⟨h.erased_eq, h.error_notMem⟩

theorem IsJoinable.of_mem_layers (h : d.IsJoinable t) (hs : s ∈ t.layers) : d.IsJoinable s := by
  fun_induction Ty.layers t with
  | case1 t ih =>
      rcases List.mem_cons.mp hs with rfl | hs
      · exact h
      · exact ih (IsJoinable.optional_iff.mp h) hs
  | case2 t ih =>
      rcases List.mem_cons.mp hs with rfl | hs
      · exact h
      · exact ih (IsJoinable.typeValue_iff.mp h) hs
  | case3 t => exact List.mem_singleton.mp hs ▸ h

/-! ### What is above a type -/

/-- Above a class are classes, protocols and the top, optionals apart. -/
theorem Below.isNominal_of_object {name : String} {args : List Ty} (h : d.Below c (.object name args) v)
    (hv : v ≠ .error) (hopt : ∀ x, v ≠ .optional x) : v.IsNominal := by
  cases below_iff.mp h with
  | errorRight => exact (hv rfl).elim
  | refl | ancestor => exact .object _ _
  | top => exact .something
  | toOptional => exact (hopt _ rfl).elim
  | byConstraint hbound => cases hbound
  | conforms => exact .protocol _

theorem Below.cases_of_protocol {name : String} (h : d.Below c (.protocol name) v) (hv : v ≠ .error)
    (hopt : ∀ x, v ≠ .optional x) : v = .protocol name ∨ v = .something := by
  cases below_iff.mp h with
  | errorRight => exact (hv rfl).elim
  | refl => exact .inl rfl
  | top => exact .inr rfl
  | toOptional => exact (hopt _ rfl).elim
  | byConstraint hbound => cases hbound
  | conforms hconf => simp [conformsTo, protocolsOf] at hconf

/-- Above the top is the top only, optionals apart. -/
theorem Below.eq_something (h : d.Below c .something v) (hv : v ≠ .error) (hopt : ∀ x, v ≠ .optional x) :
    v = .something := by
  cases below_iff.mp h with
  | errorRight => exact (hv rfl).elim
  | refl | top => rfl
  | toOptional => exact (hopt _ rfl).elim
  | byConstraint hbound => cases hbound
  | conforms hconf => simp [conformsTo, protocolsOf] at hconf

theorem Below.cases_of_typeValue (h : d.Below c (.typeValue t) v) (hv : v ≠ .error)
    (hopt : ∀ x, v ≠ .optional x) : ∃ u, v = .typeValue u ∧ d.Below c t u := by
  cases below_iff.mp h with
  | errorRight => exact (hv rfl).elim
  | refl => exact ⟨t, rfl, .refl t⟩
  | top htop => cases htop
  | toOptional => exact (hopt _ rfl).elim
  | byConstraint hbound => cases hbound
  | conforms hconf => cases (belowTop_of_conformsTo (c := c) hconf).1
  | typeValue hinner => exact ⟨_, rfl, hinner⟩

theorem conformsTo_of_below {name name' : String} {args : List Ty}
    (h : d.Below c (.object name args) (.protocol name')) :
    d.conformsTo (.object name args) name' = true := by
  cases below_iff.mp h with
  | byConstraint hbound => cases hbound
  | conforms hconf => exact hconf

/-! ### What types are joined to -/

inductive JoinedTo (d : Declarations) (c : GenericContext) (a b : Ty) : Ty → Prop where
  | ancestor {name : String} {args : List Ty} :
      d.findAncestor? a (d.isSubtypeErased c b) = some (.object name args) →
      JoinedTo d c a b (.object name args)
  | protocol {name : String} : (∀ s ∈ d.ancestors a, ¬ d.Below c b s) → d.conformsTo a name = true →
      d.conformsTo b name = true → JoinedTo d c a b (.protocol name)
  | something : (∀ s ∈ d.ancestors a, ¬ d.Below c b s) →
      (∀ name, d.conformsTo a name = true → d.conformsTo b name = false) → JoinedTo d c a b .something

theorem joinedTo_nominalJoin (ha : d.InheritsClasses a) : d.JoinedTo c a b (d.nominalJoin c a b) := by
  unfold nominalJoin
  split
  next ancestor hfound =>
    have hfind := hfound
    rw [findAncestor?_eq_find?] at hfind
    have hmem := List.mem_of_find?_eq_some hfind
    obtain ⟨name, args, rfl⟩ := exists_object_of_mem_ancestors hmem
    obtain ⟨name', args', rfl⟩ := ha.exists_object hmem
    exact .ancestor hfound
  next hfound =>
    have hnone (s : Ty) (hs : s ∈ d.ancestors a) : ¬ d.Below c b s := by
      rw [findAncestor?_eq_find?, List.find?_eq_none] at hfound
      exact fun hbelow => hfound s hs (isSubtypeErased_iff.mpr hbelow)
    split
    next name hname =>
      exact .protocol hnone (List.contains_iff_mem.mpr (List.mem_of_find?_eq_some hname))
        (List.find?_some hname)
    next hname =>
      refine .something hnone fun name hconf => ?_
      have hno := List.find?_eq_none.mp hname name (List.contains_iff_mem.mp hconf)
      exact Bool.eq_false_iff.mpr hno

theorem JoinedTo.isNominal (h : d.JoinedTo c a b r) : r.IsNominal := by
  cases h with
  | ancestor => exact .object _ _
  | protocol => exact .protocol _
  | something => exact .something

theorem below_something_nominalJoin (ha : d.InheritsClasses a) :
    d.Below c (d.nominalJoin c a b) .something :=
  below_iff.mpr (.top (joinedTo_nominalJoin ha).isNominal.belowTop)

/-- What two types below the top are joined to is one of them, or the answer for types not comparable. -/
theorem cases_of_commonErased? (hat : a.belowTop = true) (hbt : b.belowTop = true)
    (h : d.commonErased? c a b = some r) :
    d.Below c a b ∧ r = b ∨ d.Below c b a ∧ r = a ∨ r = d.nominalJoin c a b := by
  by_cases hab : d.Below c a b
  · rw [commonErased?_of_below hab] at h
    exact .inl ⟨hab, (Option.some.inj h).symm⟩
  by_cases hba : d.Below c b a
  · rw [commonErased?_of_above hab hba] at h
    exact .inr (.inl ⟨hba, (Option.some.inj h).symm⟩)
  · rw [commonErased?_of_not_below hat hbt hab hba] at h
    exact .inr (.inr (Option.some.inj h).symm)

/-! ### Least common supertypes -/

/-- The common supertype of two types is below every type that is above both. -/
def LeastJoin (d : Declarations) (c : GenericContext) (a b : Ty) : Prop :=
  ∀ v : Ty, v.IsRegular → d.Below c a v → d.Below c b v →
    ∃ r, d.commonErased? c a b = some r ∧ d.Below c r v

/-- The common supertype is least whichever of the two types is the first. -/
def LeastJoins (d : Declarations) (c : GenericContext) (a b : Ty) : Prop :=
  d.LeastJoin c a b ∧ d.LeastJoin c b a

theorem LeastJoin.of_below (h : d.Below c a b) : d.LeastJoin c a b :=
  fun _ _ _ hbv => ⟨b, commonErased?_of_below h, hbv⟩

theorem LeastJoin.of_above (h : d.Below c b a) : d.LeastJoin c a b := by
  intro v _ hav hbv
  by_cases hab : d.Below c a b
  · exact ⟨b, commonErased?_of_below hab, hbv⟩
  · exact ⟨a, commonErased?_of_above hab h, hav⟩

theorem LeastJoins.of_below (h : d.Below c a b) : d.LeastJoins c a b :=
  ⟨.of_below h, .of_above h⟩

theorem LeastJoins.symm (h : d.LeastJoins c a b) : d.LeastJoins c b a :=
  ⟨h.2, h.1⟩

/-- Where comparable types are out of the way, common supertypes need only be least for those that are not. -/
theorem LeastJoin.of_not_below (h : ¬ d.Below c a b → ¬ d.Below c b a → d.LeastJoin c a b) :
    d.LeastJoin c a b := by
  by_cases hab : d.Below c a b
  · exact .of_below hab
  by_cases hba : d.Below c b a
  · exact .of_above hba
  · exact h hab hba

theorem commonErased?_optional (hab : ¬ d.Below c (.optional a) (.optional b))
    (hba : ¬ d.Below c (.optional b) (.optional a)) :
    d.commonErased? c (.optional a) (.optional b) = (d.commonErased? c a b).map .optional := by
  rw [commonErased?.eq_def]
  simp [Ty.isError, isSubtypeErased_iff, hab, hba]

theorem commonErased?_optional_left (hb : ∀ x, b ≠ .optional x) (hab : ¬ d.Below c (.optional a) b)
    (hba : ¬ d.Below c b (.optional a)) :
    d.commonErased? c (.optional a) b = (d.commonErased? c a b).map .optional := by
  rw [commonErased?.eq_def]
  cases b with
  | optional x => exact (hb x rfl).elim
  | _ => simp [Ty.isError, isSubtypeErased_iff, hab, hba]

/-- The type under the optional comes first, whichever side it is on. -/
theorem commonErased?_optional_right (hb : ∀ x, b ≠ .optional x) (hab : ¬ d.Below c (.optional a) b)
    (hba : ¬ d.Below c b (.optional a)) :
    d.commonErased? c b (.optional a) = (d.commonErased? c a b).map .optional := by
  have hbe : b ≠ .error := fun heq => hba (heq ▸ below_iff.mpr (.errorLeft _))
  rw [commonErased?.eq_def]
  cases b with
  | optional x => exact (hb x rfl).elim
  | error => exact (hbe rfl).elim
  | _ => simp [Ty.isError, isSubtypeErased_iff, hab, hba]

theorem commonErased?_typeValue (hab : ¬ d.Below c (.typeValue a) (.typeValue b))
    (hba : ¬ d.Below c (.typeValue b) (.typeValue a)) :
    d.commonErased? c (.typeValue a) (.typeValue b) = (d.commonErased? c a b).map .typeValue := by
  rw [commonErased?.eq_def]
  simp [Ty.isError, isSubtypeErased_iff, hab, hba]

theorem commonErased?_typeValue_left (hopt : ∀ x, b ≠ .optional x) (htype : ∀ x, b ≠ .typeValue x)
    (hab : ¬ d.Below c (.typeValue a) b) (hba : ¬ d.Below c b (.typeValue a)) :
    d.commonErased? c (.typeValue a) b = none := by
  rw [commonErased?.eq_def]
  cases b with
  | optional x => exact (hopt x rfl).elim
  | typeValue x => exact (htype x rfl).elim
  | _ => simp [Ty.isError, isSubtypeErased_iff, hab, hba]

theorem LeastJoin.optional (h : d.LeastJoin c a b) : d.LeastJoin c (.optional a) (.optional b) := by
  refine .of_not_below fun hab hba v hv hav hbv => ?_
  obtain ⟨v, rfl⟩ := (below_iff.mp hav).exists_optional hv.ne_error
  rw [below_optional_iff] at hav hbv
  obtain ⟨r, hr, hrv⟩ := h v hv.of_optional hav hbv
  exact ⟨.optional r, by rw [commonErased?_optional hab hba, hr]; rfl, below_optional_iff.mpr hrv⟩

theorem LeastJoins.optional (h : d.LeastJoins c a b) : d.LeastJoins c (.optional a) (.optional b) :=
  ⟨h.1.optional, h.2.optional⟩

theorem LeastJoins.optional_left (hb : ∀ x, b ≠ .optional x) (h : d.LeastJoin c a b) :
    d.LeastJoins c (.optional a) b := by
  -- Both orders lead to the same common supertype.
  have hleast (v : Ty) (hv : v.IsRegular) (hav : d.Below c (.optional a) v) (hbv : d.Below c b v) :
      ∃ r, (d.commonErased? c a b).map Ty.optional = some r ∧ d.Below c r v := by
    obtain ⟨v, rfl⟩ := (below_iff.mp hav).exists_optional hv.ne_error
    obtain ⟨r, hr, hrv⟩ := h v hv.of_optional (below_optional_iff.mp hav) (hbv.of_optional hb)
    exact ⟨.optional r, by rw [hr]; rfl, below_optional_iff.mpr hrv⟩
  constructor
  · refine .of_not_below fun hab hba v hv hav hbv => ?_
    rw [commonErased?_optional_left hb hab hba]
    exact hleast v hv hav hbv
  · refine .of_not_below fun hba hab v hv hbv hav => ?_
    rw [commonErased?_optional_right hb hab hba]
    exact hleast v hv hav hbv

theorem LeastJoin.of_bare (ha : ∀ x, a ≠ .optional x) (hb : ∀ x, b ≠ .optional x)
    (h : ∀ v : Ty, v.IsRegular → (∀ x, v ≠ .optional x) → d.Below c a v → d.Below c b v →
      ∃ r, d.commonErased? c a b = some r ∧ d.Below c r v) : d.LeastJoin c a b := by
  intro v hv hav hbv
  induction v using Ty.layers.induct with
  | case1 v ih =>
      obtain ⟨r, hr, hrv⟩ := ih hv.of_optional (hav.of_optional ha) (hbv.of_optional hb)
      exact ⟨r, hr, hrv.toOptional⟩
  | case2 v => exact h _ hv (by simp) hav hbv
  | case3 v hopt => exact h _ hv hopt hav hbv

theorem LeastJoin.typeValue (h : d.LeastJoin c a b) : d.LeastJoin c (.typeValue a) (.typeValue b) := by
  refine .of_not_below fun hab hba => .of_bare (by simp) (by simp) fun v hv hopt hav hbv => ?_
  obtain ⟨u, rfl, hau⟩ := hav.cases_of_typeValue hv.ne_error hopt
  obtain ⟨_, heq, hbu⟩ := hbv.cases_of_typeValue hv.ne_error hopt
  obtain rfl := Ty.typeValue.inj heq
  obtain ⟨r, hr, hrv⟩ := h u hv.of_typeValue hau hbu
  exact ⟨.typeValue r, by rw [commonErased?_typeValue hab hba, hr]; rfl, below_iff.mpr (.typeValue hrv)⟩

/-- Two classes have a least common supertype if the nearest class above has the protocols they share. -/
theorem LeastJoin.of_isNearest {name name' : String} {args args' : List Ty}
    (hjoin : d.commonErased? c (.object name args) (.object name' args') = some r)
    (hr : d.IsNearest c [.object name args, .object name' args'] r)
    (herased : (Ty.object name args).erased = .object name args)
    (herased' : (Ty.object name' args').erased = .object name' args')
    (hshared : ∀ p, d.conformsTo (.object name args) p = true → d.conformsTo (.object name' args') p = true →
      d.conformsTo r p = true) : d.LeastJoin c (.object name args) (.object name' args') := by
  refine .of_bare (by simp) (by simp) fun v hv hopt hav hbv => ⟨r, hjoin, ?_⟩
  cases hav.isNominal_of_object hv.ne_error hopt with
  | object m us =>
      have hleast := hr.least (.object m us) ⟨m, us, hv.erased_eq⟩
      rw [hv.erased_eq] at hleast
      exact hleast (by simp [herased, herased', hav, hbv])
  | protocol p => exact below_iff.mpr (.conforms (hshared p (conformsTo_of_below hav) (conformsTo_of_below hbv)))
  | something =>
      obtain ⟨m, us, rfl⟩ := hr.isObject
      exact below_iff.mpr (.top rfl)

/-! ### Inheriting least common supertypes -/

theorem isRegular_something : Ty.something.IsRegular := ⟨rfl, by simp [Ty.parts]⟩

/-- What is above a class, a protocol or the top is one of these, optionals apart. -/
theorem Below.isNominal (h : d.Below c t v) (ht : t.IsNominal) (hv : v ≠ .error)
    (hopt : ∀ x, v ≠ .optional x) : v.IsNominal := by
  cases ht with
  | object => exact h.isNominal_of_object hv hopt
  | protocol name =>
      rcases h.cases_of_protocol hv hopt with rfl | rfl
      · exact .protocol name
      · exact .something
  | something => exact h.eq_something hv hopt ▸ .something

/-- No type is above a class, a protocol or the top and above a type that is not below the top. -/
theorem LeastJoins.of_not_belowTop (ht : t.IsNominal) (hopt : ∀ x, w ≠ .optional x)
    (hwt : w.belowTop ≠ true) : d.LeastJoins c t w := by
  have hbare := Ty.ne_optional_of_belowTop ht.belowTop
  have hno (v : Ty) (hv : v.IsRegular) (hvopt : ∀ x, v ≠ .optional x) (htv : d.Below c t v)
      (hwv : d.Below c w v) : False :=
    hwt ((below_iff.mp hwv).belowTop (htv.isNominal ht hv.ne_error hvopt).belowTop hv.ne_error)
  exact ⟨.of_bare hbare hopt fun v hv hvopt htv hwv => (hno v hv hvopt htv hwv).elim,
    .of_bare hopt hbare fun v hv hvopt hwv htv => (hno v hv hvopt htv hwv).elim⟩

/-- Apart from the types below it, only the top is above a protocol and another type. -/
theorem LeastJoins.protocol {name : String} (hwt : w.belowTop = true) (hw : d.InheritsClasses w) :
    d.LeastJoins c (.protocol name) w := by
  have hbare := Ty.ne_optional_of_belowTop hwt
  have heq (v : Ty) (hv : v.IsRegular) (hopt : ∀ x, v ≠ .optional x) (hpv : d.Below c (.protocol name) v)
      (hwv : d.Below c w v) (hwp : ¬ d.Below c w (.protocol name)) : v = .something := by
    rcases hpv.cases_of_protocol hv.ne_error hopt with rfl | rfl
    · exact (hwp hwv).elim
    · rfl
  have hp : d.InheritsClasses (.protocol name) := (IsJoinable.protocol name).inherits
  constructor
  · refine .of_not_below fun hpw hwp => .of_bare (by simp) hbare fun v hv hopt hpv hwv => ?_
    obtain rfl := heq v hv hopt hpv hwv hwp
    exact ⟨_, commonErased?_of_not_below rfl hwt hpw hwp, below_something_nominalJoin hp⟩
  · refine .of_not_below fun hwp hpw => .of_bare hbare (by simp) fun v hv hopt hwv hpv => ?_
    obtain rfl := heq v hv hopt hpv hwv hwp
    exact ⟨_, commonErased?_of_not_below hwt rfl hwp hpw, below_something_nominalJoin hw⟩

/-- A class above `x` and above a type that is not below the ancestor `s` of `x` is an ancestor of `s`. -/
theorem mem_ancestors_of_below (hd : d.IsAcyclic) {name name' : String} {args args' : List Ty}
    (hs : .object name args ∈ d.ancestors x) (hx : d.Below c x (.object name' args'))
    (hw : d.Below c w (.object name' args')) (hws : ¬ d.Below c w (.object name args)) :
    .object name' args' ∈ d.ancestors (.object name args) := by
  obtain ⟨m, us, rfl⟩ := exists_object_of_mem_ancestors hs
  rw [hd.mem_ancestors_iff] at hs ⊢
  have hunique : Relator.RightUnique d.Extends := fun _ _ _ h h' => Option.some.inj (h.symm.trans h')
  have hchain := (below_object_iff hd).mp hx
  rcases hs.to_reflTransGen.total_of_right_unique hunique hchain with hup | hdown
  · rcases Relation.reflTransGen_iff_eq_or_transGen.mp hup with heq | htrans
    · exact (hws (heq ▸ hw)).elim
    · exact htrans
  · have hdown : d.Below c (.object name' args') (.object name args) := (below_object_iff hd).mpr hdown
    exact (hws (hw.trans_of_parts hd (by simp [Ty.parts]) hdown)).elim

/--
What `a` and `b` are joined to by name is below what is above both, if some `r` below all of
that is a class only as an ancestor of `a`, and a protocol only as one shared by both.
-/
theorem JoinedTo.below_of_least (hd : d.IsAcyclic) (h : d.JoinedTo c a b s) (hs : s.IsRegular)
    (hr : r.IsNominal)
    (hleast : ∀ v : Ty, v.IsRegular → d.Below c a v → d.Below c b v → d.Below c r v)
    (hancestor : ∀ name args, r = .object name args → r ∈ d.ancestors a ∧ d.Below c b r)
    (hprotocol : ∀ name, r = .protocol name → d.Below c a r → d.Below c b r →
      d.conformsTo a name = true ∧ d.conformsTo b name = true)
    (hv : v.IsRegular) (hopt : ∀ x, v ≠ .optional x) (hav : d.Below c a v) (hbv : d.Below c b v) :
    d.Below c s v := by
  have hrv := hleast v hv hav hbv
  cases h with
  | @ancestor name args hfound =>
      have hfind := hfound
      rw [findAncestor?_eq_find?] at hfind
      have hmem := List.mem_of_find?_eq_some hfind
      have has : d.Below c a (.object name args) := by
        obtain ⟨m, us, rfl⟩ := exists_object_of_mem_ancestors hmem
        exact below_iff.mpr (.ancestor hmem)
      have hrs := hleast _ hs has (isSubtypeErased_iff.mp (List.find?_some hfind))
      cases hr with
      | object m us =>
          obtain ⟨hra, hbr⟩ := hancestor m us rfl
          have hchain := reflTransGen_of_findAncestor? hfound hra (isSubtypeErased_iff.mpr hbr)
          exact ((below_object_iff hd).mpr hchain).trans_of_parts hd (by simp [Ty.parts]) hrv
      | protocol m => rcases hrs.cases_of_protocol (by simp) (by simp) with heq | heq <;> cases heq
      | something => cases hrs.eq_something (by simp) (by simp)
  | @protocol name hnone ha hb =>
      have hrs := hleast _ hs (below_iff.mpr (.conforms ha)) (below_iff.mpr (.conforms hb))
      cases hr with
      | object m us =>
          obtain ⟨hra, hbr⟩ := hancestor m us rfl
          exact (hnone _ hra hbr).elim
      | protocol m =>
          rcases hrs.cases_of_protocol (by simp) (by simp) with heq | heq
          · exact heq ▸ hrv
          · cases heq
      | something => cases hrs.eq_something (by simp) (by simp)
  | something hnone hno =>
      cases hr with
      | object m us =>
          obtain ⟨hra, hbr⟩ := hancestor m us rfl
          exact (hnone _ hra hbr).elim
      | protocol m =>
          rcases hrv.cases_of_protocol hv.ne_error hopt with rfl | rfl
          · obtain ⟨ha, hb⟩ := hprotocol m rfl hav hbv
            simp [hno m ha] at hb
          · exact .refl _
      | something => exact hrv

theorem conformsTo_of_commonErased? {name : String} (ha : d.InheritsClasses a) (hat : a.belowTop = true)
    (hbt : b.belowTop = true) (hna : a ≠ .protocol name) (hnb : b ≠ .protocol name)
    (h : d.commonErased? c a b = some (.protocol name)) :
    d.conformsTo a name = true ∧ d.conformsTo b name = true := by
  rcases cases_of_commonErased? hat hbt h with ⟨-, heq⟩ | ⟨-, heq⟩ | heq
  · exact (hnb heq.symm).elim
  · exact (hna heq.symm).elim
  · have hjoined : d.JoinedTo c a b (.protocol name) := heq ▸ joinedTo_nominalJoin ha
    cases hjoined with
    | protocol _ hconfa hconfb => exact ⟨hconfa, hconfb⟩

theorem mem_ancestors_of_commonErased? {name : String} {args : List Ty} (ha : d.InheritsClasses a)
    (hat : a.belowTop = true) (hbt : b.belowTop = true) (hna : a ≠ .object name args)
    (hab : ¬ d.Below c a b) (h : d.commonErased? c a b = some (.object name args)) :
    .object name args ∈ d.ancestors a := by
  rcases cases_of_commonErased? hat hbt h with ⟨hbelow, -⟩ | ⟨-, heq⟩ | heq
  · exact (hab hbelow).elim
  · exact (hna heq.symm).elim
  · have hjoined : d.JoinedTo c a b (.object name args) := heq ▸ joinedTo_nominalJoin ha
    cases hjoined with
    | ancestor hfound =>
        rw [findAncestor?_eq_find?] at hfound
        exact List.mem_of_find?_eq_some hfound

theorem Below.isNominal_of_something {name : String} {args : List Ty}
    (h : d.Below c (.object name args) r) (hr : r.IsRegular) (htop : d.Below c r .something) :
    r.IsNominal := by
  refine h.isNominal_of_object hr.ne_error ?_
  rintro x rfl
  obtain ⟨y, heq⟩ := (below_iff.mp htop).exists_optional (by simp)
  cases heq

/--
What is least above a class and another type is below all that is above an ancestor of the
class and that type.  It is not the first of two types here, as either may come first.
-/
theorem exists_least_of_ancestor (hd : d.IsAcyclic) {name : String} {args : List Ty} {join : Option Ty}
    (hwt : w.belowTop = true) (hs : .object name args ∈ d.ancestors x)
    (habove : ∀ r, join = some r → r.IsRegular ∧ d.Below c x r ∧ d.Below c w r)
    (h : ∀ v : Ty, v.IsRegular → d.Below c x v → d.Below c w v → ∃ r, join = some r ∧ d.Below c r v) :
    ∃ r, join = some r ∧ d.Below c x r ∧ d.Below c w r ∧ r.IsNominal ∧
      ∀ v : Ty, v.IsRegular → d.Below c (.object name args) v → d.Below c w v → d.Below c r v := by
  obtain ⟨m, us, rfl⟩ := exists_object_of_mem_ancestors hs
  obtain ⟨r, hr, hrtop⟩ :=
    h .something isRegular_something (below_iff.mpr (.top rfl)) (below_iff.mpr (.top hwt))
  obtain ⟨hplain, hxr, hwr⟩ := habove r hr
  refine ⟨r, hr, hxr, hwr, hxr.isNominal_of_something hplain hrtop, fun v hv hsv hwv => ?_⟩
  have hxs : d.Below c (.object m us) (.object name args) := below_iff.mpr (.ancestor hs)
  obtain ⟨r', hr', hrv⟩ := h v hv (hxs.trans_of_parts hd (by simp [Ty.parts]) hsv) hwv
  exact Option.some.inj (hr.symm.trans hr') ▸ hrv

theorem LeastJoins.typeValue_of_below (hd : d.IsAcyclic) (hx : d.IsJoinable x) (hu : d.IsJoinable u)
    (hw : d.IsJoinable w) (hopt : ∀ t, w ≠ .optional t) (hxu : d.Below c x u) (h : d.LeastJoin c (.typeValue x) w)
    (htype : ∀ t, w = .typeValue t → d.LeastJoins c u t) : d.LeastJoins c (.typeValue u) w := by
  by_cases hwtype : ∃ t, w = .typeValue t
  · obtain ⟨t, rfl⟩ := hwtype
    exact ⟨(htype t rfl).1.typeValue, (htype t rfl).2.typeValue⟩
  have hne (t : Ty) (heq : w = .typeValue t) : False := hwtype ⟨t, heq⟩
  have hbelow : d.Below c (.typeValue x) (.typeValue u) := below_iff.mpr (.typeValue hxu)
  have hplain : .error ∉ (Ty.typeValue u).parts := (IsJoinable.typeValue_iff.mpr hu).error_notMem
  -- A type above both would be above `w` and the lower type value, which have no common supertype.
  have hno (v : Ty) (hv : v.IsRegular) (huv : d.Below c (.typeValue u) v) (hwv : d.Below c w v)
      (hwu : ¬ d.Below c w (.typeValue u)) : False := by
    obtain ⟨r, hr, -⟩ := h v hv (hbelow.trans_of_parts hd hplain huv) hwv
    rw [commonErased?_typeValue_left hopt hne] at hr
    · cases hr
    · intro hxw
      obtain ⟨t, heq, -⟩ := hxw.cases_of_typeValue hw.isRegular.ne_error hopt
      exact hne t heq
    · intro hwx
      have hplain : .error ∉ (Ty.typeValue x).parts := (IsJoinable.typeValue_iff.mpr hx).error_notMem
      exact hwu (hwx.trans_of_parts hd hplain hbelow)
  exact ⟨.of_not_below fun _ hwu v hv huv hwv => (hno v hv huv hwv hwu).elim,
    .of_not_below fun hwu _ v hv hwv huv => (hno v hv huv hwv hwu).elim⟩

/-- An optional has least common supertypes with what all layers of a type have with the type under it. -/
theorem LeastJoins.optional_of_layers (h : ∀ z ∈ w.layers, d.LeastJoins c t z) :
    d.LeastJoins c (.optional t) w := by
  cases w with
  | optional w => exact (h w w.mem_layers_optional).optional
  | _ => exact .optional_left (by simp) (h _ (Ty.mem_layers_self _)).1

/-- A type that is not optional only needs least common supertypes with such types. -/
theorem LeastJoins.of_bare_layers (ht : ∀ x, t ≠ .optional x)
    (h : ∀ z ∈ w.layers, (∀ x, z ≠ .optional x) → d.LeastJoins c t z) : d.LeastJoins c t w := by
  induction w using Ty.layers.induct with
  | case1 w ih =>
      have hw := ih fun z hz => h z (List.mem_cons_of_mem _ hz)
      exact (LeastJoins.optional_left ht hw.2).symm
  | case2 w => exact h _ (Ty.mem_layers_self _) (by simp)
  | case3 w hopt => exact h _ (Ty.mem_layers_self _) hopt

/-- Common supertypes are least for all that is under the optionals and type values of two types. -/
def Agree (d : Declarations) (c : GenericContext) (a b : Ty) : Prop :=
  ∀ x ∈ a.layers, ∀ y ∈ b.layers, d.LeastJoins c x y

theorem Agree.leastJoins (h : d.Agree c a b) : d.LeastJoins c a b :=
  h a (Ty.mem_layers_self a) b (Ty.mem_layers_self b)

theorem Agree.of_mem_layers (h : d.Agree c a b) (hx : x ∈ a.layers) : d.Agree c x b :=
  fun _ hy => h _ (Ty.mem_layers_trans hy hx)

theorem Agree.optional (h : d.Agree c a b) : d.Agree c (.optional a) b := by
  intro x hx y hy
  rcases List.mem_cons.mp hx with rfl | hx
  · exact .optional_of_layers fun z hz => h a a.mem_layers_self z (Ty.mem_layers_trans hz hy)
  · exact h x hx y hy

section

variable (hd : d.IsAcyclic) (hmarks : d.EverySuperclass fun _ => Ty.IsUnmarked)
include hd hmarks

section

variable {name : String} {args : List Ty} (hx : d.IsJoinable x) (hw : d.IsJoinable w)
  (hwt : w.belowTop = true) (hs : .object name args ∈ d.ancestors x)
include hx hw hwt hs

/-- A common supertype that is least for a class is least for the ancestors of that class. -/
theorem LeastJoin.ancestor_left (h : d.LeastJoin c x w) : d.LeastJoin c (.object name args) w := by
  refine .of_not_below fun hsw hws => .of_bare (by simp) (Ty.ne_optional_of_belowTop hwt)
    fun v hv hopt hsv hwv => ⟨_, commonErased?_of_not_below rfl hwt hsw hws, ?_⟩
  have hsj := hx.of_mem_ancestors hd hmarks hs
  obtain ⟨r, hr, hxr, hwr, hshape, hleast⟩ := exists_least_of_ancestor hd hwt hs
    (fun r hr => ⟨(hx.commonErased? hd hmarks _ _ r hw hr).isRegular,
      below_of_commonErased? _ _ r hx.inherits hw.inherits hr⟩) h
  refine (joinedTo_nominalJoin hsj.inherits).below_of_least hd (hsj.nominalJoin hd hmarks).isRegular
    hshape hleast ?_ ?_ hv hopt hsv hwv
  · rintro m us rfl
    exact ⟨mem_ancestors_of_below hd hs hxr hwr hws, hwr⟩
  · rintro m rfl hsr -
    obtain ⟨_, _, rfl⟩ := exists_object_of_mem_ancestors hs
    have hne : w ≠ .protocol m := fun heq => hsw (heq ▸ hsr)
    exact ⟨conformsTo_of_below hsr,
      (conformsTo_of_commonErased? hx.inherits rfl hwt (by simp) hne hr).2⟩

theorem LeastJoin.ancestor_right (h : d.LeastJoin c w x) : d.LeastJoin c w (.object name args) := by
  refine .of_not_below fun hws hsw => .of_bare (Ty.ne_optional_of_belowTop hwt) (by simp)
    fun v hv hopt hwv hsv => ⟨_, commonErased?_of_not_below hwt rfl hws hsw, ?_⟩
  have hsj := hx.of_mem_ancestors hd hmarks hs
  obtain ⟨r, hr, hxr, hwr, hshape, hleast⟩ := exists_least_of_ancestor hd hwt hs
    (fun r hr => ⟨(hw.commonErased? hd hmarks _ _ r hx hr).isRegular,
      (below_of_commonErased? _ _ r hw.inherits hx.inherits hr).symm⟩)
    (fun v hv hxv hwv => h v hv hwv hxv)
  obtain ⟨m, us, rfl⟩ := exists_object_of_mem_ancestors hs
  refine (joinedTo_nominalJoin hw.inherits).below_of_least hd (hw.nominalJoin hd hmarks).isRegular
    hshape (fun v hv hwv hsv => hleast v hv hsv hwv) ?_ ?_ hv hopt hwv hsv
  · rintro m' us' rfl
    have hsr : d.Below c (.object name args) (.object m' us') :=
      below_iff.mpr (.ancestor (mem_ancestors_of_below hd hs hxr hwr hws))
    have hne : w ≠ .object m' us' := fun heq => hsw (heq ▸ hsr)
    have hwx (hwx : d.Below c w (.object m us)) : False :=
      hws (hwx.trans_of_parts hd (by simp [Ty.parts]) (below_iff.mpr (.ancestor hs)))
    exact ⟨mem_ancestors_of_commonErased? hw.inherits hwt rfl hne hwx hr, hsr⟩
  · rintro m' rfl - hsr
    have hne : w ≠ .protocol m' := fun heq => hsw (heq ▸ hsr)
    exact ⟨(conformsTo_of_commonErased? hw.inherits hwt rfl hne (by simp) hr).1,
      conformsTo_of_below hsr⟩

end

/-- What two types are joined to by name has least common supertypes with what the first has. -/
theorem LeastJoins.of_joinedTo (hz : d.JoinedTo c x y z) (hx : d.IsJoinable x) (hw : d.IsJoinable w)
    (hopt : ∀ u, w ≠ .optional u) (h : d.LeastJoins c x w) : d.LeastJoins c z w := by
  by_cases hwt : w.belowTop = true
  · cases hz with
    | ancestor hfound =>
        rw [findAncestor?_eq_find?] at hfound
        have hs := List.mem_of_find?_eq_some hfound
        exact ⟨h.1.ancestor_left hd hmarks hx hw hwt hs, h.2.ancestor_right hd hmarks hx hw hwt hs⟩
    | protocol => exact .protocol hwt hw.inherits
    | something => exact (LeastJoins.of_below (below_iff.mpr (.top hwt))).symm
  · exact .of_not_belowTop hz.isNominal hopt hwt

theorem Agree.of_commonErased? (a b : Ty) : ∀ u, d.IsJoinable a → d.IsJoinable b → d.IsJoinable w →
    d.commonErased? c a b = some u → d.Agree c a w → d.Agree c b w → d.Agree c u w := by
  fun_induction d.commonErased? c a b <;> intro u ha hb hw hjoin haw hbw
  case case1 a b herror =>
      obtain rfl : a = .error := by simpa [Ty.isError] using herror
      exact (ha.isRegular.ne_error rfl).elim
  case case2 =>
      cases hjoin
      exact hbw
  case case3 =>
      cases hjoin
      exact haw
  case case4 x y _ _ _ ih =>
      obtain ⟨u, hu, rfl⟩ := Option.map_eq_some_iff.mp hjoin
      exact (ih u (IsJoinable.optional_iff.mp ha) (IsJoinable.optional_iff.mp hb) hw hu
        (haw.of_mem_layers x.mem_layers_optional) (hbw.of_mem_layers y.mem_layers_optional)).optional
  case case5 x y _ _ _ _ ih =>
      obtain ⟨u, hu, rfl⟩ := Option.map_eq_some_iff.mp hjoin
      exact (ih u (IsJoinable.optional_iff.mp ha) hb hw hu
        (haw.of_mem_layers x.mem_layers_optional) hbw).optional
  case case6 x y _ _ _ _ ih =>
      obtain ⟨u, hu, rfl⟩ := Option.map_eq_some_iff.mp hjoin
      exact (ih u (IsJoinable.optional_iff.mp hb) ha hw hu
        (hbw.of_mem_layers y.mem_layers_optional) haw).optional
  case case7 x y _ _ _ ih =>
      obtain ⟨u, hu, rfl⟩ := Option.map_eq_some_iff.mp hjoin
      have hx := IsJoinable.typeValue_iff.mp ha
      have hy := IsJoinable.typeValue_iff.mp hb
      have hxu := (below_of_commonErased? x y u hx.inherits hy.inherits hu).1
      have huw := ih u hx hy hw hu (haw.of_mem_layers x.mem_layers_typeValue)
        (hbw.of_mem_layers y.mem_layers_typeValue)
      intro p hp q hq
      rcases List.mem_cons.mp hp with rfl | hp
      · refine .of_bare_layers (by simp) fun z hz hopt => ?_
        have hz := Ty.mem_layers_trans hz hq
        refine .typeValue_of_below hd hx (hx.commonErased? hd hmarks x y u hy hu) (hw.of_mem_layers hz) hopt
          hxu (haw _ (Ty.mem_layers_self _) z hz).1 ?_
        rintro t rfl
        exact huw u u.mem_layers_self t (Ty.mem_layers_trans t.mem_layers_typeValue hz)
      · exact huw p hp q hq
  case case12 x y _ _ _ _ _ _ _ _ _ _ _ =>
      cases hjoin
      have hjoined : d.JoinedTo c x y (d.nominalJoin c x y) := joinedTo_nominalJoin ha.inherits
      intro p hp q hq
      obtain rfl : p = d.nominalJoin c x y := hjoined.isNominal.eq_of_mem_layers hp
      refine .of_bare_layers (Ty.ne_optional_of_belowTop hjoined.isNominal.belowTop) fun z hz hopt => ?_
      have hz := Ty.mem_layers_trans hz hq
      exact .of_joinedTo hd hmarks hjoined ha (hw.of_mem_layers hz) hopt (haw x x.mem_layers_self z hz)
  all_goals cases hjoin

end

/-- The common supertype of two types, in whatever storage, is below every type above both. -/
def HasLeastJoin (d : Declarations) (c : GenericContext) (a b : Ty) : Prop :=
  ∀ v : Ty, .error ∉ v.erased.parts → d.isSubtype c a v = true → d.isSubtype c b v = true →
    ∃ r, d.commonSupertype? c a b = some r ∧ d.isSubtype c r v = true

theorem HasLeastJoin.leastJoin (hd : d.IsAcyclic) (hmarks : d.EverySuperclass fun _ => Ty.IsUnmarked)
    (ha : d.IsJoinable a) (hb : d.IsJoinable b) (h : d.HasLeastJoin c a b) : d.LeastJoin c a b := by
  intro v hv hav hbv
  simp only [HasLeastJoin, isSubtype_iff, commonSupertype?, ha.erased_eq, hb.erased_eq] at h
  obtain ⟨r, hr, hrv⟩ := h v (hv.erased_eq.symm ▸ hv.error_notMem) (hv.erased_eq.symm ▸ hav)
    (hv.erased_eq.symm ▸ hbv)
  have hrj := ha.commonErased? hd hmarks a b r hb hr
  rw [hrj.erased_eq, hv.erased_eq] at hrv
  exact ⟨r, hr, hrv⟩

theorem LeastJoin.hasLeastJoin (hd : d.IsAcyclic) (hmarks : d.EverySuperclass fun _ => Ty.IsUnmarked)
    (ha : d.IsJoinable a) (hb : d.IsJoinable b) (h : d.LeastJoin c a b) : d.HasLeastJoin c a b := by
  intro v hv hav hbv
  rw [isSubtype_iff] at hav hbv
  rw [ha.erased_eq] at hav
  rw [hb.erased_eq] at hbv
  obtain ⟨r, hr, hrv⟩ := h v.erased ⟨Ty.erased_erased v, hv⟩ hav hbv
  refine ⟨r, by rw [commonSupertype?, ha.erased_eq, hb.erased_eq, hr], ?_⟩
  rwa [isSubtype_iff, (ha.commonErased? hd hmarks a b r hb hr).erased_eq]

end Declarations

end Boxlang
