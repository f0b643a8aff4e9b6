import Boxlang.Proofs.Subtyping.Rules
import Boxlang.Proofs.Types.Ancestors
import Boxlang.Proofs.Types.ErrorFree

/-!
# Subtyping is a partial order

In an acyclic class hierarchy subtyping is transitive through every type that does
not mention the error type, whatever the constraints of variables are
(`Declarations.Below.trans`); arguments of classes may mention it, as they are not
compared (`Declarations.Below.trans_of_parts`).  Where no variable's constraint leads back to the
variable, two types that are below each other are the same (`Declarations.Below.antisymm`).
-/

namespace Boxlang

namespace Ty

mutual

theorem error_notMem_parts : ∀ {t : Ty}, t.mentionsError = false → .error ∉ t.parts
  | .callable params ret, h => by
      simp only [mentionsError, Bool.or_eq_false_iff] at h
      simp [parts, error_notMem_partsAll h.1, error_notMem_parts h.2]
  | .optional inner, h | .typeValue inner, h => by
      rw [mentionsError] at h
      simp [parts, error_notMem_parts h]
  | .boxed _, _ | .object _ _, _ | .value _ _, _ => by simp [parts]
  | .nothing, _ | .int, _ | .real, _ | .bool, _ | .byte, _ | .symbol, _ => by simp [parts]
  | .something, _ | .enum _, _ | .protocol _, _ | .generic _ _, _ | .localGeneric _ _, _ => by
      simp [parts]

theorem error_notMem_partsAll : ∀ {ts : List Ty}, anyMentionsError ts = false → .error ∉ partsAll ts
  | [], _ => by simp [partsAll]
  | t :: ts, h => by
      simp only [anyMentionsError, Bool.or_eq_false_iff] at h
      simp [partsAll, error_notMem_parts h.1, error_notMem_partsAll h.2]

end

end Ty

namespace GenericContext

/-- The variable `s` is constrained by `t`, in whatever storage. -/
def Leads (c : GenericContext) (s t : Ty) : Prop :=
  (c.constraint? s).map Ty.erased = some t

/-- Constraints that do not mention the error type and never lead back to their variable. -/
structure WellConstrained (c : GenericContext) : Prop where
  errorFree {v bound : Ty} : c.constraint? v = some bound → bound.mentionsError = false
  acyclic (v : Ty) : ¬ Relation.TransGen c.Leads v v

variable {c : GenericContext}

theorem leads_of_constraint? {v bound : Ty} (h : c.constraint? v = some bound) :
    c.Leads v bound.erased := by
  rw [Leads, h]
  rfl

theorem erased_of_isSome_constraint? {v : Ty} (h : (c.constraint? v).isSome) : v.erased = v := by
  cases v with
  | generic | localGeneric => rfl
  | _ => cases h

theorem leads_of_isSome_constraint? {v w : Ty} (h : c.constraint? v = some w)
    (hw : (c.constraint? w).isSome) : c.Leads v w :=
  erased_of_isSome_constraint? hw ▸ leads_of_constraint? h

/-- Constraints of a lower rank than their variables never lead back to a variable. -/
theorem not_transGen_of_rank (rank : Ty → Nat)
    (h : ∀ v bound, c.constraint? v = some bound → rank bound.erased < rank v) (v : Ty) :
    ¬ Relation.TransGen c.Leads v v := by
  have hstep {s t : Ty} (hst : c.Leads s t) : rank t < rank s := by
    obtain ⟨bound, hbound, rfl⟩ := Option.map_eq_some_iff.mp hst
    exact h s bound hbound
  have hlt {s t : Ty} (hst : Relation.TransGen c.Leads s t) : rank t < rank s := by
    induction hst with
    | single hst => exact hstep hst
    | tail _ hst ih => exact Nat.lt_trans (hstep hst) ih
  exact fun hv => Nat.lt_irrefl _ (hlt hv)

theorem wellConstrained_of_mem (herr : ∀ t ∈ c.constraints ++ c.ownerConstraints, t.mentionsError = false)
    (hvar : ∀ t ∈ c.constraints ++ c.ownerConstraints, c.constraint? t.erased = none) :
    c.WellConstrained where
  errorFree h := by
    rcases mem_of_constraint? h with rfl | hmem
    · rfl
    · exact herr _ (List.mem_append.mpr hmem)
  acyclic := by
    refine not_transGen_of_rank (fun t => if c.constraint? t = none then 0 else 1) fun v bound h => ?_
    have hbound : c.constraint? bound.erased = none := by
      rcases mem_of_constraint? h with rfl | hmem
      · rfl
      · exact hvar _ (List.mem_append.mpr hmem)
    simp [h, hbound]

end GenericContext

namespace Declarations

variable {d : Declarations} {c : GenericContext} {a b e : Ty} {n m : Nat}

/-! ### Transitivity -/

theorem conformsTo_object_iff {name protocol : String} {args : List Ty} :
    d.conformsTo (.object name args) protocol = true ↔
      ∃ s ∈ d.lineage (.object name args), protocol ∈ d.classProtocols s := by
  simp [conformsTo, protocolsOf]

theorem conformsTo_of_mem_ancestors (hd : d.IsAcyclic) {name name' protocol : String}
    {args args' : List Ty} (hmem : .object name' args' ∈ d.ancestors (.object name args))
    (h : d.conformsTo (.object name' args') protocol = true) :
    d.conformsTo (.object name args) protocol = true := by
  obtain ⟨s, hs, hp⟩ := conformsTo_object_iff.mp h
  refine conformsTo_object_iff.mpr ⟨s, List.mem_cons_of_mem _ ?_, hp⟩
  rcases List.mem_cons.mp hs with rfl | hs
  · exact hmem
  · rw [hd.mem_ancestors_iff] at hmem hs ⊢
    exact hmem.trans hs

theorem Below.of_constraint {bound : Ty} (hbound : c.constraint? a = some bound) (hne : bound ≠ a)
    (htop : b ≠ .something) (hopt : ∀ x, b ≠ .optional x) (h : d.Below c bound b) :
    d.Below c a b :=
  below_iff.mpr (.byConstraint hbound hne htop hopt h)

theorem forall_mem_zip_comp {R R' S : Ty → Ty → Prop} {xs ys zs : List Ty}
    (hxy : xs.length = ys.length) (hyz : ys.length = zs.length)
    (hR : ∀ q ∈ xs.zip ys, R q.1 q.2) (hR' : ∀ q ∈ ys.zip zs, R' q.1 q.2)
    (hS : ∀ x y z, y ∈ ys → R x y → R' y z → S x z) : ∀ q ∈ xs.zip zs, S q.1 q.2 := by
  intro q hq
  obtain ⟨i, hi, rfl⟩ := List.getElem_of_mem hq
  have hx : i < xs.length := by simp at hi; omega
  have hxy' := hR _ (List.getElem_mem (l := xs.zip ys) (n := i) (by simp; omega))
  have hyz' := hR' _ (List.getElem_mem (l := ys.zip zs) (n := i) (by simp; omega))
  simp only [List.getElem_zip] at hxy' hyz' ⊢
  exact hS _ _ _ (List.getElem_mem _) hxy' hyz'

/--
Two comparisons compose at a type without the error type among its parts.  The induction
is on the nested steps of both, as callables compare their parameters the other way.
-/
theorem below_of_isSubtypeWithin (hd : d.IsAcyclic) {n m : Nat} {a b e : Ty}
    (hb : .error ∉ b.parts) (hab : d.isSubtypeWithin c n a b = true)
    (hbe : d.isSubtypeWithin c m b e = true) : d.Below c a e := by
  induction hk : n + m using Nat.strongRecOn generalizing n m a b e with
  | ind k ih =>
      subst hk
      obtain _ | n := n
      · simp at hab
      obtain _ | m := m
      · simp at hbe
      have hab' := isSubtypeWithin_succ_iff.mp hab
      have hne (h : b = .error) : False := hb (h ▸ Ty.mem_parts_self b)
      cases isSubtypeWithin_succ_iff.mp hbe with
      | errorLeft => exact (hne rfl).elim
      | errorRight => exact below_iff.mpr (.errorRight a)
      | refl => exact ⟨_, hab⟩
      | top htop => exact below_iff.mpr (.top (hab'.belowTop htop hne))
      | toOptional hopt h =>
          refine below_iff.mpr (.toOptional (fun x hx => ?_) (ih _ (by omega) hb hab h rfl))
          subst hx
          obtain ⟨y, hy⟩ := hab'.exists_optional hne
          exact hopt y hy
      | optional h =>
          replace hb := List.not_mem_of_not_mem_cons hb
          cases hab' with
          | errorLeft => exact below_iff.mpr (.errorLeft _)
          | refl => exact ⟨_, hbe⟩
          | optional h' => exact below_iff.mpr (.optional (ih _ (by omega) hb h' h rfl))
          | toOptional hopt h' => exact below_iff.mpr (.toOptional hopt (ih _ (by omega) hb h' h rfl))
          | byConstraint _ _ _ hopt => exact (hopt _ rfl).elim
      | byConstraint hvar _ htop hopt =>
          cases hab' with
          | errorLeft => exact below_iff.mpr (.errorLeft _)
          | refl => exact ⟨_, hbe⟩
          | byConstraint hbound hne' _ _ h' =>
              exact .of_constraint hbound hne' htop hopt (ih _ (by omega) hb h' hbe rfl)
          | _ => cases hvar
      | ancestor hmem =>
          cases hab' with
          | errorLeft => exact below_iff.mpr (.errorLeft _)
          | refl => exact ⟨_, hbe⟩
          | byConstraint hbound hne' _ _ h' =>
              exact .of_constraint hbound hne' (by simp) (by simp) (ih _ (by omega) hb h' hbe rfl)
          | ancestor hmem' =>
              rw [hd.mem_ancestors_iff] at hmem hmem'
              exact below_iff.mpr (.ancestor (hd.mem_ancestors_iff.mpr (hmem'.trans hmem)))
      | conforms hconf =>
          cases hab' with
          | errorLeft => exact below_iff.mpr (.errorLeft _)
          | refl => exact ⟨_, hbe⟩
          | byConstraint hbound hne' _ _ h' =>
              exact .of_constraint hbound hne' (by simp) (by simp) (ih _ (by omega) hb h' hbe rfl)
          | ancestor hmem =>
              exact below_iff.mpr (.conforms (conformsTo_of_mem_ancestors hd hmem hconf))
          | errorRight | top | optional | toOptional | conforms | callable | typeValue =>
              simp [conformsTo, protocolsOf] at hconf
      | callable hlen hparams hret =>
          cases hab' with
          | errorLeft => exact below_iff.mpr (.errorLeft _)
          | refl => exact ⟨_, hbe⟩
          | byConstraint hbound hne' _ _ h' =>
              exact .of_constraint hbound hne' (by simp) (by simp) (ih _ (by omega) hb h' hbe rfl)
          | callable hlen' hparams' hret' =>
              simp only [Ty.parts, List.mem_cons, List.mem_append, not_or, Ty.mem_partsAll,
                not_exists, not_and] at hb
              refine below_iff.mpr (.callable (hlen'.trans hlen) ?_ (ih _ (by omega) hb.2.2 hret' hret rfl))
              exact forall_mem_zip_comp hlen.symm hlen'.symm hparams hparams'
                fun x y z hy hxy hyz => ih _ (by omega) (hb.2.1 y hy) hxy hyz rfl
      | typeValue h =>
          cases hab' with
          | errorLeft => exact below_iff.mpr (.errorLeft _)
          | refl => exact ⟨_, hbe⟩
          | byConstraint hbound hne' _ _ h' =>
              exact .of_constraint hbound hne' (by simp) (by simp) (ih _ (by omega) hb h' hbe rfl)
          | typeValue h' =>
              replace hb := List.not_mem_of_not_mem_cons hb
              exact below_iff.mpr (.typeValue (ih _ (by omega) hb h' h rfl))

theorem Below.trans_of_parts (hd : d.IsAcyclic) (hb : .error ∉ b.parts) (hab : d.Below c a b)
    (hbe : d.Below c b e) : d.Below c a e :=
  below_of_isSubtypeWithin hd hb hab.choose_spec hbe.choose_spec

theorem Below.trans (hd : d.IsAcyclic) (hb : b.mentionsError = false) (hab : d.Below c a b)
    (hbe : d.Below c b e) : d.Below c a e :=
  hab.trans_of_parts hd (Ty.error_notMem_parts hb) hbe

/-! ### Antisymmetry -/

theorem leads_of_below (hc : c.WellConstrained) (ha : a ≠ .error) (hb : (c.constraint? b).isSome)
    (h : d.Below c a b) : (c.constraint? a).isSome ∧ Relation.ReflTransGen c.Leads a b := by
  obtain ⟨n, hn⟩ := h
  induction n generalizing a with
  | zero => simp at hn
  | succ n ih =>
      cases isSubtypeWithin_succ_iff.mp hn with
      | errorLeft => exact (ha rfl).elim
      | refl => exact ⟨hb, .refl⟩
      | byConstraint hbound _ _ _ h =>
          obtain ⟨hvar, hleads⟩ := ih (Ty.ne_error_of_mentionsError (hc.errorFree hbound)) h
          exact ⟨by simp [hbound], .head (GenericContext.leads_of_isSome_constraint? hbound hvar) hleads⟩
      | _ => cases hb

theorem Below.antisymm_of_parts (hd : d.IsAcyclic) (hc : c.WellConstrained) (ha : .error ∉ a.parts)
    (hb : .error ∉ b.parts) (hab : d.Below c a b) (hba : d.Below c b a) : a = b := by
  obtain ⟨n, hn⟩ := hab
  -- The steps of one comparison carry the induction: parameters swap the types and its direction.
  induction n generalizing a b with
  | zero => simp at hn
  | succ n ih =>
      have hae (h : a = .error) : False := ha (h ▸ Ty.mem_parts_self a)
      have hbe (h : b = .error) : False := hb (h ▸ Ty.mem_parts_self b)
      have hba' := below_iff.mp hba
      cases isSubtypeWithin_succ_iff.mp hn with
      | errorLeft => exact (hae rfl).elim
      | errorRight => exact (hbe rfl).elim
      | refl => rfl
      | top htop =>
          cases hba' with
          | errorRight => exact (hae rfl).elim
          | refl => rfl
          | top => rfl
          | toOptional => cases htop
          | byConstraint hbound => cases hbound
          | conforms hconf => simp [conformsTo, protocolsOf] at hconf
      | optional h =>
          replace ha := List.not_mem_of_not_mem_cons ha
          replace hb := List.not_mem_of_not_mem_cons hb
          cases hba' with
          | refl => rfl
          | optional h' => rw [ih ha hb h' h]
          | toOptional hopt => exact (hopt _ rfl).elim
          | byConstraint hbound => cases hbound
      | toOptional hopt =>
          obtain ⟨x, rfl⟩ := hba'.exists_optional hae
          exact (hopt x rfl).elim
      | @byConstraint _ bound _ hbound _ _ _ h =>
          have hback : d.Below c bound a := .trans_of_parts hd hb ⟨n, h⟩ hba
          obtain ⟨hvar, hleads⟩ :=
            leads_of_below hc (Ty.ne_error_of_mentionsError (hc.errorFree hbound)) (by simp [hbound]) hback
          have hstep := GenericContext.leads_of_isSome_constraint? hbound hvar
          exact (hc.acyclic a (.head' hstep hleads)).elim
      | ancestor hmem =>
          cases hba' with
          | refl => rfl
          | ancestor hmem' =>
              rw [hd.mem_ancestors_iff] at hmem hmem'
              exact (hd.not_transGen_self _ (hmem.trans hmem')).elim
          | byConstraint hbound => cases hbound
      | conforms hconf =>
          cases hba' with
          | errorRight => exact (hae rfl).elim
          | refl => rfl
          | top => simp [conformsTo, protocolsOf] at hconf
          | toOptional => cases (belowTop_of_conformsTo (c := c) hconf).1
          | byConstraint hbound => cases hbound
          | conforms hconf' => simp [conformsTo, protocolsOf] at hconf'
      | @callable params params' ret ret' hlen hparams hret =>
          simp only [Ty.parts, List.mem_cons, List.mem_append, not_or, Ty.mem_partsAll, not_exists,
            not_and] at ha hb
          cases hba' with
          | refl => rfl
          | callable _ hparams' hret' =>
              have hparam (i : Nat) (h : i < params.length) (h' : i < params'.length) :
                  params[i] = params'[i] := by
                have hle := hparams _ (List.getElem_mem (l := params'.zip params) (n := i) (by simp; omega))
                have hge := hparams' _ (List.getElem_mem (l := params.zip params') (n := i) (by simp; omega))
                simp only [List.getElem_zip] at hle hge
                exact (ih (hb.2.1 _ (List.getElem_mem h')) (ha.2.1 _ (List.getElem_mem h)) hge hle).symm
              rw [List.ext_getElem hlen hparam, ih ha.2.2 hb.2.2 hret' hret]
          | byConstraint hbound => cases hbound
      | typeValue h =>
          replace ha := List.not_mem_of_not_mem_cons ha
          replace hb := List.not_mem_of_not_mem_cons hb
          cases hba' with
          | refl => rfl
          | typeValue h' => rw [ih ha hb h' h]
          | byConstraint hbound => cases hbound

theorem Below.antisymm (hd : d.IsAcyclic) (hc : c.WellConstrained) (ha : a.mentionsError = false)
    (hb : b.mentionsError = false) (hab : d.Below c a b) (hba : d.Below c b a) : a = b :=
  hab.antisymm_of_parts hd hc (Ty.error_notMem_parts ha) (Ty.error_notMem_parts hb) hba

/-! ### The order -/

/--
Subtyping is a partial order up to storage marks: reflexive, transitive and
antisymmetric on the types that do not mention the error type.
-/
theorem isSubtype_isPartialOrder (hd : d.IsAcyclic) (hc : c.WellConstrained) (a b e : Ty)
    (ha : a.mentionsError = false) (hb : b.mentionsError = false) :
    d.isSubtype c a a = true ∧
      (d.isSubtype c a b = true → d.isSubtype c b e = true → d.isSubtype c a e = true) ∧
      (d.isSubtype c a b = true → d.isSubtype c b a = true → a.erased = b.erased) := by
  simp only [isSubtype_iff]
  refine ⟨below_iff.mpr (.refl _), Below.trans hd (by simpa using hb), Below.antisymm hd hc ?_ ?_⟩
  · simpa using ha
  · simpa using hb

def shapes : Declarations where
  classes := [("Shape", { protocols := ["Drawn"] }), ("Square", { superclass := some (.object "Shape" []) })]
  protocols := ["Drawn"]

def constrainedTwice : GenericContext where
  constraints := [.localGeneric 1 "U", .object "Square" []]

theorem isAcyclic_shapes : shapes.IsAcyclic :=
  isAcyclic_of_rank (fun name => if name = "Square" then 1 else 0) (by simp [shapes])

def constraintsAhead : Ty → Nat
  | .localGeneric 0 _ => 2
  | .localGeneric _ _ | .generic _ _ => 1
  | _ => 0

theorem wellConstrained_constrainedTwice : constrainedTwice.WellConstrained where
  errorFree h := by
    rcases GenericContext.mem_of_constraint? h with rfl | hmem | hmem
    · rfl
    · exact Ty.anyMentionsError_eq_false.mp (by decide) _ hmem
    · exact Ty.anyMentionsError_eq_false.mp (by decide) _ hmem
  acyclic := by
    refine GenericContext.not_transGen_of_rank constraintsAhead fun v bound h => ?_
    cases v with
    | localGeneric i name =>
        obtain rfl := Option.some.inj h
        rcases i with _ | _ | i
        · exact Nat.lt_succ_self 1
        · exact Nat.one_pos
        · exact Nat.one_pos
    | generic i name =>
        obtain rfl := Option.some.inj h
        exact Nat.one_pos
    | _ => cases h

/-- Both comparisons go through both constraints, and through a parameter and a result. -/
theorem isSubtype_callable_shapes :
    let t := Ty.localGeneric 0 "T"
    let a := Ty.callable [.protocol "Drawn"] t
    let b := Ty.callable [.object "Shape" []] (.optional (.localGeneric 1 "U"))
    let e := Ty.callable [t] (.optional (.protocol "Drawn"))
    shapes.IsAcyclic ∧ constrainedTwice.WellConstrained ∧
      shapes.isSubtype constrainedTwice a b = true ∧ shapes.isSubtype constrainedTwice b e = true ∧
      shapes.isSubtype constrainedTwice a e = true := by
  intro t a b e
  have h := isSubtype_isPartialOrder isAcyclic_shapes wellConstrained_constrainedTwice a b e rfl rfl
  have hab : shapes.isSubtype constrainedTwice a b = true := by decide +kernel
  have hbe : shapes.isSubtype constrainedTwice b e = true := by decide +kernel
  exact ⟨isAcyclic_shapes, wellConstrained_constrainedTwice, hab, hbe, h.2.1 hab hbe⟩

end Declarations

end Boxlang
