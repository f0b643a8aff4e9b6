import Boxlang.Proofs.Elaboration.Convention
import Boxlang.Proofs.Types.Walk

/-!
# What compliance comes to

A value below the expected type is refused only where its type is a generic variable
or an optional of one (`isVariable_of_compliance_eq_refused`).  Any other value ends
up in the storage that is asked for and below the expected type, and there it stays:
decided again, it is taken as it is (`compliance_final`).
-/

namespace Boxlang

variable {d : Declarations} {c : GenericContext} {e : Expectation} {actual t : Ty} {name : String}

namespace Ty

theorem unboxed_of_protocolName? (h : t.protocolName? = some name) : t.unboxed = .protocol name := by
  unfold protocolName? at h
  split at h
  next hu => rw [hu, Option.some.inj h]
  next => cases h

theorem isCallable_inBox (t : Ty) : t.inBox.isCallable = t.isCallable := by
  rw [isCallable, isCallable, unboxed_inBox]

/-- Marks below the top do not change whether a type is simple. -/
theorem storage_of_storage_erased (hb : ∀ u, t ≠ .boxed u) (h : t.erased.storage = .simple) :
    t.storage = .simple := by
  cases t with
  | boxed u => exact (hb u rfl).elim
  | optional u => exact (storage_optional_ne_simple u.erased h).elim
  | _ => simp_all [erased, storage]

end Ty

namespace Expectation

/-- Only a type that is asked for, or one that is preferred to be simple, keeps a value out of a box. -/
theorem target_of_ne_box (h : e.target actual ≠ .box) :
    e.target actual = e.type.storage ∨ e.target actual = actual.erased.storage := by
  unfold target at h ⊢
  cases hp : e.policy with
  | declared => exact .inl rfl
  | forced => simp [hp] at h
  | preferSimple => exact .inr rfl

/-- A value keeps its target where its type permits just that storage. -/
theorem target_eq_of_storage_erased (h : t.erased.storage = e.target actual) :
    e.target t = e.target actual := by
  unfold target at h ⊢
  cases hp : e.policy with
  | declared | forced => rfl
  | preferSimple => simpa [hp] using h

theorem target_eq_of_erased_eq (h : t.erased = actual.erased) : e.target t = e.target actual := by
  unfold target
  rw [h]

end Expectation

/-! ### Final types -/

/-- A value of type `t`, which was analysed as `actual`, meets the expectation as it is. -/
structure Expectation.Final (d : Declarations) (c : GenericContext) (e : Expectation)
    (actual t : Ty) : Prop where
  widens : d.Widens c t e.type
  target_eq : e.target t = e.target actual
  storage_eq : t.storage = e.target actual
  needsAdapter_eq : e.needsAdapter t = false
  protocol : ∀ name, e.type.protocolName? = some name → t.storage = .box → t.unboxed = .protocol name

theorem Expectation.Final.compliance_eq (h : e.Final d c actual t) : e.compliance t = .asIs t := by
  unfold compliance
  split
  next => rfl
  next =>
    rw [h.needsAdapter_eq, if_neg Bool.false_ne_true]
    have hs : e.target t = t.storage := h.target_eq.trans h.storage_eq.symm
    unfold storageCompliance
    rw [hs]
    cases hstorage : t.storage with
    | simple | simpleOptional => rfl
    | box =>
        show e.boxToBox t = .asIs t
        unfold boxToBox
        split
        next => rfl
        next name hname =>
          rw [h.protocol name hname hstorage, Ty.unboxed_of_protocolName? hname, if_pos rfl]

section Final

variable (hw : d.Widens c actual e.type)

theorem final_protocol (hname : e.type.protocolName? = some name) (ht : e.target actual = .box) :
    e.Final d c actual (.protocol name) where
  widens := by
    refine Declarations.widens_of_erased_eq ?_
    rw [← Ty.erased_unboxed e.type, Ty.unboxed_of_protocolName? hname]
  target_eq := Expectation.target_eq_of_storage_erased ht.symm
  storage_eq := ht.symm
  needsAdapter_eq := by simp [Expectation.needsAdapter, Ty.isCallable, Ty.unboxed]
  protocol name' hname' _ := by
    rw [hname] at hname'
    rw [Option.some.inj hname']
    rfl

/-- The expected callable, where both types are callables. -/
theorem final_adapted (h : e.needsAdapter actual = true) : e.Final d c actual e.type := by
  obtain ⟨⟨hac, hec⟩, -⟩ : (actual.isCallable = true ∧ e.type.isCallable = true) ∧
      representationsDiffer actual e.type = true := by
    simpa [Expectation.needsAdapter] using h
  have hboxes {u : Ty} (hu : u.isCallable = true) : u.storage = .box ∧ u.erased.storage = .box := by
    obtain ⟨params, ret, hu⟩ := Ty.exists_callable_of_isCallable hu
    refine ⟨Ty.storage_of_unboxed_callable hu, ?_⟩
    rw [← Ty.erased_unboxed, hu]
    rfl
  have htarget : e.target actual = .box := by
    unfold Expectation.target
    cases e.policy with
    | declared => exact (hboxes hec).1
    | forced => rfl
    | preferSimple => exact (hboxes hac).2
  exact {
    widens := Declarations.widens_of_erased_eq rfl
    target_eq := Expectation.target_eq_of_storage_erased ((hboxes hec).2.trans htarget.symm)
    storage_eq := (hboxes hec).1.trans htarget.symm
    needsAdapter_eq := by simp [Expectation.needsAdapter, representationsDiffer_self]
    protocol := fun name hname _ => Ty.unboxed_of_protocolName? hname }

include hw

/-- A type with the same marks apart from the ones at the top, held as is asked for. -/
theorem final_of_erased_eq (herased : t.erased = actual.erased) (hs : t.storage = e.target actual)
    (hneeds : e.needsAdapter t = false)
    (hprotocol : ∀ name, e.type.protocolName? = some name → t.storage = .box →
      t.unboxed = .protocol name) : e.Final d c actual t where
  widens := by
    rw [Declarations.widens_iff, herased]
    exact hw
  target_eq := Expectation.target_eq_of_erased_eq herased
  storage_eq := hs
  needsAdapter_eq := hneeds
  protocol := hprotocol

/-- As `final_of_erased_eq`, for a type that is not held in a box. -/
theorem final_of_ne_box (herased : t.erased = actual.erased) (hs : t.storage = e.target actual)
    (hbox : t.storage ≠ .box) : e.Final d c actual t := by
  refine final_of_erased_eq hw herased hs ?_ fun _ _ h => (hbox h).elim
  simp [Expectation.needsAdapter, Ty.isCallable_of_storage_ne_box hbox]

theorem final_optional (herased : t.erased = actual.erased) (hopt : ∀ x, actual.erased ≠ .optional x)
    (hs : t.storage = .simple) (ht : e.target actual = .simpleOptional) :
    e.Final d c actual (.optional t) := by
  have hstorage := Ty.storage_optional_of_simple hs
  have hbox : (Ty.optional t).storage ≠ .box := by simp [hstorage]
  refine ⟨?_, ?_, hstorage.trans ht.symm, ?_, fun _ _ h => (hbox h).elim⟩
  · have hne : e.target actual ≠ .box := by simp [ht]
    rcases Expectation.target_of_ne_box hne with h | h
    · obtain ⟨u, hu, -⟩ := Ty.exists_optional_of_storage (h.symm.trans ht)
      rw [Declarations.widens_iff, hu, Ty.erased] at hw
      rw [Declarations.widens_iff, hu, Ty.erased, Ty.erased, herased, Declarations.below_optional_iff]
      exact hw.of_optional hopt
    · obtain ⟨u, hu, -⟩ := Ty.exists_optional_of_storage (h.symm.trans ht)
      exact (hopt u hu).elim
  · refine Expectation.target_eq_of_storage_erased ?_
    rw [ht, Ty.erased]
    exact Ty.storage_optional_of_simple (Ty.storage_erased_of_simple hs)
  · simp [Expectation.needsAdapter, Ty.isCallable_of_storage_ne_box hbox]

theorem final_boxToBox (hs : actual.storage = .box) (ht : e.target actual = .box)
    (hneeds : e.needsAdapter actual = false) (h : (e.boxToBox actual).type? = some t) :
    e.Final d c actual t := by
  unfold Expectation.boxToBox at h
  split at h
  next hnone =>
    obtain rfl := Option.some.inj h
    refine final_of_erased_eq hw rfl (hs.trans ht.symm) hneeds fun name hname => ?_
    rw [hnone] at hname
    cases hname
  next name hname =>
    split at h
    next heq =>
      obtain rfl := Option.some.inj h
      refine final_of_erased_eq hw rfl (hs.trans ht.symm) hneeds fun name' hname' _ => ?_
      rw [heq, Ty.unboxed_of_protocolName? hname']
    next =>
      obtain rfl := Option.some.inj h
      exact final_protocol hname ht

theorem final_boxToSimple (ht : e.target actual = .simple)
    (h : (e.boxToSimple actual).type? = some t) : e.Final d c actual t := by
  unfold Expectation.boxToSimple at h
  split at h
  next hsimple =>
    obtain rfl := Option.some.inj h
    exact final_of_ne_box hw (Ty.erased_unboxed actual) (hsimple.trans ht.symm) (by simp [hsimple])
  next => cases h

theorem final_boxToSimpleOptional (ht : e.target actual = .simpleOptional)
    (h : (e.boxToSimpleOptional actual).type? = some t) : e.Final d c actual t := by
  unfold Expectation.boxToSimpleOptional at h
  split at h
  next inner hinner =>
    split at h
    next hsimple =>
      obtain rfl := Option.some.inj h
      have hstorage := Ty.storage_optional_of_simple hsimple
      refine final_of_ne_box hw ?_ (hstorage.trans ht.symm) (by simp [hstorage])
      rw [← hinner, Ty.erased_erased]
    next => cases h
  next hopt =>
    split at h
    next hsimple =>
      obtain rfl := Option.some.inj h
      exact final_optional hw (Ty.erased_erased actual) hopt hsimple ht
    next => cases h

theorem final_heldIn_box (hs : actual.storage ≠ .box) (hbox : (actual.heldIn .box).storage = .box)
    (ht : e.target actual = .box) (hname : e.type.protocolName? = none) :
    e.Final d c actual (actual.heldIn .box) := by
  have hheld : actual.heldIn .box = actual.inBox := by rw [Ty.heldIn, if_neg hs]
  refine final_of_erased_eq hw ?_ (hbox.trans ht.symm) ?_ fun name h => ?_
  · rw [hheld, Ty.erased_inBox]
  · rw [Expectation.needsAdapter, hheld, Ty.isCallable_inBox, Ty.isCallable_of_storage_ne_box hs]
    rfl
  · rw [hname] at h
    cases h

theorem final_simpleToBox (hs : actual.storage = .simple) (hae : actual ≠ .error)
    (ht : e.target actual = .box) (h : (e.simpleToBox actual).type? = some t) :
    e.Final d c actual t := by
  unfold Expectation.simpleToBox at h
  split at h
  next name hname =>
    obtain rfl := Option.some.inj h
    exact final_protocol hname ht
  next hname =>
    obtain rfl := Option.some.inj h
    exact final_heldIn_box hw (by simp [hs]) (Ty.storage_heldIn_box hae) ht hname

theorem protocolName?_eq_none (hs : actual.storage = .simpleOptional) : e.type.protocolName? = none := by
  rw [Option.eq_none_iff_forall_not_mem]
  intro name hname
  obtain ⟨u, rfl, -⟩ := Ty.exists_optional_of_storage hs
  have herased : e.type.erased = .protocol name := by
    rw [← Ty.erased_unboxed, Ty.unboxed_of_protocolName? hname]
    rfl
  rw [Declarations.widens_iff, herased, Ty.erased] at hw
  obtain ⟨y, hy⟩ := (Declarations.below_iff.mp hw).exists_optional nofun
  cases hy

theorem final_storageCompliance (hae : actual ≠ .error) (hneeds : e.needsAdapter actual = false)
    (h : (e.storageCompliance actual).type? = some t) : e.Final d c actual t := by
  unfold Expectation.storageCompliance at h
  cases hs : actual.storage <;> cases ht : e.target actual <;> rw [hs, ht] at h
  case box.box => exact final_boxToBox hw hs ht hneeds h
  case box.simple => exact final_boxToSimple hw ht h
  case box.simpleOptional => exact final_boxToSimpleOptional hw ht h
  case simple.box => exact final_simpleToBox hw hs hae ht h
  case simpleOptional.box =>
      obtain rfl := Option.some.inj h
      exact final_heldIn_box hw (by simp [hs]) (Ty.storage_heldIn_box hae) ht
        (protocolName?_eq_none hw hs)
  case simple.simpleOptional =>
      obtain rfl := Option.some.inj h
      exact final_optional hw rfl (Ty.erased_ne_optional_of_simple hs) hs ht
  case simpleOptional.simple => cases h
  case simple.simple | simpleOptional.simpleOptional =>
      obtain rfl := Option.some.inj h
      exact final_of_ne_box hw rfl (hs.trans ht.symm) (by simp [hs])

/-- Apart from errors, a value that is not refused ends up as is asked for. -/
theorem final_compliance (herror : (actual.isError || e.type.isError) = false)
    (h : (e.compliance actual).type? = some t) : e.Final d c actual t := by
  have hae : actual ≠ .error := by
    rintro rfl
    cases herror
  unfold Expectation.compliance at h
  rw [herror, if_neg Bool.false_ne_true] at h
  split at h
  next hneeds =>
    obtain rfl := Option.some.inj h
    exact final_adapted hneeds
  next hneeds => exact final_storageCompliance hw hae (by simpa using hneeds) h

/-- What a value ends up as is below the expected type, and decided again it is taken as it is. -/
theorem compliance_final (h : (e.compliance actual).type? = some t) :
    d.Widens c t e.type ∧ e.compliance t = .asIs t := by
  by_cases herror : (actual.isError || e.type.isError) = true
  · have heq : e.compliance actual = .asIs actual := by rw [Expectation.compliance, if_pos herror]
    rw [heq] at h
    obtain rfl := Option.some.inj h
    exact ⟨hw, heq⟩
  · have hfinal := final_compliance hw (by simpa using herror) h
    exact ⟨hfinal.widens, hfinal.compliance_eq⟩

end Final

/-- Whether a value that is taken as it is has the given type. -/
def Compliance.Keeps (actual : Ty) : Compliance → Prop
  | .asIs t => t = actual
  | .convert _ _ | .refused => True

theorem keeps_storageCompliance : (e.storageCompliance actual).Keeps actual := by
  unfold Expectation.storageCompliance Expectation.boxToBox Expectation.boxToSimple
    Expectation.boxToSimpleOptional Expectation.simpleToBox
  repeat' split
  all_goals first | rfl | trivial

/-- A value that is taken as it is keeps its type. -/
theorem eq_of_compliance_eq_asIs (h : e.compliance actual = .asIs t) : t = actual := by
  have hkeeps : (e.compliance actual).Keeps actual := by
    unfold Expectation.compliance
    split
    · rfl
    · split
      · trivial
      · exact keeps_storageCompliance
  rwa [h] at hkeeps

/-! ### Refused values -/

theorem isVariable_of_below {a b : Ty} (h : d.Below c a b) (hb : b.storage = .simple)
    (hbe : b ≠ .error) (ha : a.storage ≠ .simple) : a.IsVariable := by
  cases Declarations.below_iff.mp h with
  | errorLeft => exact (ha rfl).elim
  | errorRight => exact (hbe rfl).elim
  | refl => exact (ha hb).elim
  | top | conforms | callable => cases hb
  | optional | toOptional => exact (Ty.storage_optional_ne_simple _ hb).elim
  | byConstraint hbound =>
      cases a with
      | generic | localGeneric => trivial
      | _ => cases hbound
  | ancestor | typeValue => exact (ha rfl).elim

theorem boxToBox_ne_refused : e.boxToBox actual ≠ .refused := by
  unfold Expectation.boxToBox
  split
  · nofun
  · split <;> nofun

theorem simpleToBox_ne_refused : e.simpleToBox actual ≠ .refused := by
  unfold Expectation.simpleToBox
  split <;> nofun

section Refused

variable (hw : d.Widens c actual e.type) (he : e.type.mentionsError = false)
include hw he

theorem isVariable_of_boxToSimple (hmarked : actual.IsMarkedOnce) (ht : e.target actual = .simple)
    (h : e.boxToSimple actual = .refused) : actual.erased.IsVariable := by
  have hne : actual.erased.storage ≠ .simple := by
    intro hs
    rw [← Ty.erased_unboxed] at hs
    have hu := Ty.storage_of_storage_erased (fun u => Ty.not_boxed_of_isMarkedOnce hmarked) hs
    rw [Expectation.boxToSimple, if_pos hu] at h
    cases h
  have hbox : e.target actual ≠ .box := by simp [ht]
  rcases Expectation.target_of_ne_box hbox with hd | hd
  · refine isVariable_of_below hw (Ty.storage_erased_of_simple (hd.symm.trans ht)) ?_ hne
    exact Ty.ne_error_of_mentionsError (by simpa using he)
  · exact (hne (hd.symm.trans ht)).elim

theorem isVariable_of_boxToSimpleOptional (ht : e.target actual = .simpleOptional)
    (h : e.boxToSimpleOptional actual = .refused) :
    actual.erased.IsVariable ∨ ∃ v, actual.erased = .optional v ∧ v.IsVariable := by
  -- Only the declared type can ask for a simple optional that the value is not.
  have hexpected (hne : actual.erased.storage ≠ .simpleOptional) :
      ∃ u, e.type.erased = .optional u ∧ u.storage = .simple ∧ u ≠ .error := by
    have hbox : e.target actual ≠ .box := by simp [ht]
    rcases Expectation.target_of_ne_box hbox with hd | hd
    · obtain ⟨u, hu, hsimple⟩ := Ty.exists_optional_of_storage (hd.symm.trans ht)
      refine ⟨u.erased, by rw [hu, Ty.erased], Ty.storage_erased_of_simple hsimple, ?_⟩
      exact Ty.ne_error_of_mentionsError (by simpa [hu, Ty.mentionsError] using he)
    · exact (hne (hd.symm.trans ht)).elim
  rw [Declarations.widens_iff] at hw
  unfold Expectation.boxToSimpleOptional at h
  split at h
  next inner hinner =>
    split at h
    next => cases h
    next hne =>
      obtain ⟨u, hu, hsimple, hue⟩ := hexpected fun hs => by
        rw [hinner] at hs
        obtain ⟨v, hv, hsimple⟩ := Ty.exists_optional_of_storage hs
        exact hne (Ty.optional.inj hv ▸ hsimple)
      rw [hinner, hu, Declarations.below_optional_iff] at hw
      exact .inr ⟨inner, hinner, isVariable_of_below hw hsimple hue hne⟩
  next hopt =>
    split at h
    next => cases h
    next hne =>
      obtain ⟨u, hu, hsimple, hue⟩ := hexpected fun hs => by
        obtain ⟨v, hv, -⟩ := Ty.exists_optional_of_storage hs
        exact hopt v hv
      rw [hu] at hw
      exact .inl (isVariable_of_below (hw.of_optional hopt) hsimple hue hne)

theorem target_ne_simple (hs : actual.storage = .simpleOptional) : e.target actual ≠ .simple := by
  intro ht
  have herased := storage_erased_of_ne_box (t := actual) (by simp [hs])
  have hbox : e.target actual ≠ .box := by simp [ht]
  rcases Expectation.target_of_ne_box hbox with hd | hd
  · obtain ⟨u, rfl, -⟩ := Ty.exists_optional_of_storage hs
    obtain ⟨y, hy⟩ := (Declarations.below_iff.mp hw).exists_optional
      (Ty.ne_error_of_mentionsError (by simpa using he))
    exact Ty.erased_ne_optional_of_simple (hd.symm.trans ht) y hy
  · rw [herased, hs, ht] at hd
    cases hd

theorem isVariable_of_compliance_eq_refused (hmarked : actual.IsMarkedOnce)
    (h : e.compliance actual = .refused) :
    actual.erased.IsVariable ∨ ∃ v, actual.erased = .optional v ∧ v.IsVariable := by
  unfold Expectation.compliance at h
  split at h
  next => cases h
  next =>
    split at h
    next => cases h
    next =>
      unfold Expectation.storageCompliance at h
      cases hs : actual.storage <;> cases ht : e.target actual <;> rw [hs, ht] at h
      case box.box => exact (boxToBox_ne_refused h).elim
      case box.simple => exact .inl (isVariable_of_boxToSimple hw he hmarked ht h)
      case box.simpleOptional => exact isVariable_of_boxToSimpleOptional hw he ht h
      case simple.box => exact (simpleToBox_ne_refused h).elim
      case simpleOptional.simple => exact (target_ne_simple hw he hs ht).elim
      all_goals cases h

end Refused

end Boxlang
