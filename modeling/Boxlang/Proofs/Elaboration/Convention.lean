import Boxlang.Proofs.Elaboration.Settled
import Boxlang.Proofs.Subtyping.Rules

/-!
# Calling conventions

A callable is invoked the way its type says, also where it was unwrapped from
optionals before.  `Ty.core` is the type below all optionals and storage marks.

A value that meets an expectation of another convention is adapted only if both types
are callables themselves.  Under an optional a callable is passed on as it is, so its
convention is the expected one only if it was to begin with.
-/

namespace Boxlang

namespace Ty

variable {t ret : Ty} {params : List Ty}

/-- The type without the optionals and storage marks around it. -/
def core : Ty → Ty
  | .boxed t | .optional t => core t
  | t => t

theorem core_unboxed (t : Ty) : t.unboxed.core = t.core := by
  cases t <;> rfl

theorem core_inBox (t : Ty) : t.inBox.core = t.core := by
  cases t <;> rfl

theorem core_heldIn_box (t : Ty) : (t.heldIn .box).core = t.core := by
  unfold heldIn
  dsimp only
  split
  · rfl
  · exact core_inBox t

theorem core_erased : ∀ t : Ty, t.erased.core = t.core.erased
  | .boxed t => by
      rw [erased, core]
      exact core_erased t
  | .optional t => by
      rw [erased, core, core]
      exact core_erased t
  | .error | .nothing | .int | .real | .bool | .byte | .symbol | .something => rfl
  | .enum _ | .protocol _ | .generic _ _ | .localGeneric _ _ | .object _ _ | .value _ _ => rfl
  | .callable _ _ | .typeValue _ => rfl

theorem core_of_unboxed_callable (h : t.unboxed = .callable params ret) : t.core = .callable params ret := by
  rw [← core_unboxed, h]
  rfl

theorem core_ne_callable (h : t.storage ≠ .box) : t.core ≠ .callable params ret := by
  have hsimple {u : Ty} (hu : u.storage = .simple) : u.core ≠ .callable params ret := by
    cases u with
    | optional v => exact (storage_optional_ne_simple v hu).elim
    | boxed | callable => cases hu
    | _ => exact nofun
  cases hs : t.storage with
  | box => exact (h hs).elim
  | simple => exact hsimple hs
  | simpleOptional =>
      obtain ⟨u, rfl, hu⟩ := exists_optional_of_storage hs
      exact hsimple (u := u) hu

end Ty

/-! ### Differences -/

variable {a b t ret ret' : Ty} {params params' : List Ty} {e : Expectation}

theorem representationsDiffer_core (ha : a.isCallable = true) (hb : b.isCallable = true) :
    representationsDiffer a.core b.core = representationsDiffer a b := by
  obtain ⟨params, ret, ha⟩ := Ty.exists_callable_of_isCallable ha
  obtain ⟨params', ret', hb⟩ := Ty.exists_callable_of_isCallable hb
  rw [Ty.core_of_unboxed_callable ha, Ty.core_of_unboxed_callable hb, representationsDiffer_callable ha hb]
  exact representationsDiffer_callable rfl rfl

/-! ### Compliance -/

/-- Bringing a value into some storage changes nothing about a callable. -/
theorem eq_of_storageCompliance (h : (e.storageCompliance a).type? = some t)
    (ht : t.core = .callable params ret) : t = a := by
  have hno {u : Ty} (hu : u.storage ≠ .box) : u.core ≠ .callable params ret := Ty.core_ne_callable hu
  unfold Expectation.storageCompliance at h
  cases hs : a.storage <;> cases htarget : e.target a <;> rw [hs, htarget] at h
  case box.box =>
    replace h : (e.boxToBox a).type? = some t := h
    unfold Expectation.boxToBox at h
    split at h
    next => exact (Option.some.inj h).symm
    next =>
      split at h <;> obtain rfl := Option.some.inj h
      · rfl
      · cases ht
  case box.simple =>
    replace h : (e.boxToSimple a).type? = some t := h
    unfold Expectation.boxToSimple at h
    split at h
    next hu =>
      obtain rfl := Option.some.inj h
      exact (hno (by simp [hu]) ht).elim
    next => cases h
  case box.simpleOptional =>
    replace h : (e.boxToSimpleOptional a).type? = some t := h
    unfold Expectation.boxToSimpleOptional at h
    split at h <;> split at h
    all_goals try cases h
    all_goals
      next hu => exact (hno (by simp [Ty.storage_optional_of_simple hu]) ht).elim
  case simple.box =>
    replace h : (e.simpleToBox a).type? = some t := h
    unfold Expectation.simpleToBox at h
    split at h <;> obtain rfl := Option.some.inj h
    · cases ht
    · rw [Ty.core_heldIn_box] at ht
      exact (hno (by simp [hs]) ht).elim
  case simpleOptional.box =>
    obtain rfl := Option.some.inj h
    rw [Ty.core_heldIn_box] at ht
    exact (hno (by simp [hs]) ht).elim
  case simple.simpleOptional =>
    obtain rfl := Option.some.inj h
    exact (hno (u := a) (by simp [hs]) ht).elim
  case simpleOptional.simple => cases h
  case simple.simple => exact (Option.some.inj h).symm
  case simpleOptional.simpleOptional => exact (Option.some.inj h).symm

theorem eq_of_compliance (h : (e.compliance a).type? = some t) (ht : t.core = .callable params ret) :
    e.needsAdapter a = true ∧ t = e.type ∨ e.needsAdapter a = false ∧ t = a := by
  unfold Expectation.compliance at h
  split at h
  next herr =>
    obtain rfl := Option.some.inj h
    refine .inr ⟨?_, rfl⟩
    simp only [Bool.or_eq_true, Ty.isError, beq_iff_eq] at herr
    rcases herr with rfl | herr
    · rfl
    · simp [Expectation.needsAdapter, herr, Ty.isCallable, Ty.unboxed]
  next =>
    split at h
    next hneeds => exact .inl ⟨hneeds, (Option.some.inj h).symm⟩
    next hneeds => exact .inr ⟨by simpa using hneeds, eq_of_storageCompliance h ht⟩

theorem Declarations.length_eq_of_below {d : Declarations} {c : GenericContext} (h : d.Below c a b)
    (ha : a.core = .callable params ret) (hb : b.core = .callable params' ret') :
    params.length = params'.length := by
  obtain ⟨n, hn⟩ := h
  induction n generalizing a b with
  | zero => simp at hn
  | succ n ih =>
      cases isSubtypeWithin_succ_iff.mp hn with
      | refl =>
          obtain ⟨rfl, -⟩ : params = params' ∧ ret = ret' := by simpa [ha] using hb
          rfl
      | optional h =>
          rw [Ty.core] at ha hb
          exact ih ha hb h
      | toOptional _ h =>
          rw [Ty.core] at hb
          exact ih ha hb h
      | callable hlen =>
          cases ha
          cases hb
          exact hlen
      | byConstraint hbound =>
          cases a with
          | generic | localGeneric => cases ha
          | _ => cases hbound
      | errorLeft | ancestor | typeValue => cases ha
      | errorRight | top | conforms => cases hb

namespace Analysis

variable {env : Environment} {s s' : AnalysisState} {slot : Slot}

/--
What a callable meets an expectation as.  It is held in the convention that the
expected type is invoked in exactly if both types are callables themselves, so that an
adapter can be made, or the convention was the same before; then all parameters and
the result are held alike.
-/
theorem representationsDiffer_core_of_comply {a : Ty}
    (hsub : env.declarations.isSubtype env.context a e.type = true)
    (hrun : (comply a e slot).runIn env s = (.ok t, s'))
    (ht : t.core = .callable params ret) (he : e.type.core = .callable params' ret') :
    (representationsDiffer t.core e.type.core = false ↔
      a.isCallable = true ∧ e.type.isCallable = true ∨ representationsDiffer a.core e.type.core = false) ∧
    params.length = params'.length ∧
    (representationsDiffer t.core e.type.core = false →
      (∀ q ∈ params.zip params', q.1.storage = q.2.storage) ∧ ret.storage = ret'.storage) := by
  have hlen : params.length = params'.length := by
    rcases eq_of_compliance (type?_compliance_of_runIn_comply hrun) ht with ⟨-, rfl⟩ | ⟨-, rfl⟩
    · obtain ⟨rfl, -⟩ : params = params' ∧ ret = ret' := by simpa [ht] using he
      rfl
    · have hcore {u r : Ty} {ps : List Ty} (hu : u.core = .callable ps r) :
          u.erased.core = .callable (ps.map Ty.erased) r.erased := by
        rw [Ty.core_erased, hu, Ty.erased, Ty.erasedAll_eq_map]
      have h := Declarations.length_eq_of_below (Declarations.isSubtype_iff.mp hsub) (hcore ht) (hcore he)
      simpa using h
  refine ⟨?_, hlen, fun hsame => ?_⟩
  · rcases eq_of_compliance (type?_compliance_of_runIn_comply hrun) ht with ⟨hneeds, rfl⟩ | ⟨hneeds, rfl⟩
    · simp only [Expectation.needsAdapter, Bool.and_eq_true] at hneeds
      exact iff_of_true (representationsDiffer_self _) (.inl hneeds.1)
    · refine ⟨.inr, ?_⟩
      rintro (⟨hac, hec⟩ | hsame)
      · rw [representationsDiffer_core hac hec]
        simpa [Expectation.needsAdapter, hac, hec] using hneeds
      · exact hsame
  · rw [ht, he, representationsDiffer_callable rfl rfl, decide_eq_true hlen, Bool.true_and,
      Bool.or_eq_false_iff, List.any_eq_false] at hsame
    refine ⟨fun q hq => ?_, storage_eq_of_representationsDiffer hsame.2⟩
    exact storage_eq_of_representationsDiffer (by simpa using hsame.1 q hq)

def simpleCallable : Ty := .callable [.int] .int

def boxCallable : Ty := .callable [.boxed .int] (.boxed .int)

def emptyEnvironment : Environment where
  package := {}
  function := { name := "main" }

def emptyState : AnalysisState :=
  .start { name := "main" } {} []

theorem representationsDiffer_simpleCallable : representationsDiffer simpleCallable boxCallable = true := by
  have h : representationsDiffer .int (.boxed .int) = true := by
    rw [representationsDiffer]
    rfl
  rw [simpleCallable, boxCallable, representationsDiffer_callable rfl rfl]
  simp [h]

/-- An adapter is invoked as the expected callable. -/
theorem representationsDiffer_core_adapted :
    emptyEnvironment.declarations.isSubtype emptyEnvironment.context simpleCallable boxCallable = true ∧
      ∃ s', (comply simpleCallable { type := boxCallable } 0).runIn emptyEnvironment emptyState =
          (.ok boxCallable, s') ∧
        representationsDiffer simpleCallable.core boxCallable.core = true ∧
        representationsDiffer boxCallable.core boxCallable.core = false := by
  have hsub : emptyEnvironment.declarations.isSubtype emptyEnvironment.context simpleCallable boxCallable =
      true := by decide +kernel
  have hcompliance : ({ type := boxCallable } : Expectation).compliance simpleCallable =
      .convert (callableAdapter simpleCallable boxCallable) boxCallable := by
    have hneeds : ({ type := boxCallable } : Expectation).needsAdapter simpleCallable = true :=
      (Bool.true_and _).trans representationsDiffer_simpleCallable
    unfold Expectation.compliance
    rw [hneeds]
    rfl
  have hrun : (comply simpleCallable { type := boxCallable } 0).runIn emptyEnvironment emptyState =
      (.ok boxCallable, emptyState.withArena
        (emptyState.body.arena.convert 0 (callableAdapter simpleCallable boxCallable) boxCallable).2) := by
    rw [comply, hcompliance]
    rfl
  have h := representationsDiffer_core_of_comply hsub hrun rfl rfl
  exact ⟨hsub, _, hrun, representationsDiffer_simpleCallable, h.1.mpr (.inl ⟨rfl, rfl⟩)⟩

/-- Where an optional is expected, the callable is passed on in its own convention. -/
theorem representationsDiffer_core_optional :
    emptyEnvironment.declarations.isSubtype emptyEnvironment.context simpleCallable
        (.optional boxCallable) = true ∧
      simpleCallable.mentionsError = false ∧
      (comply simpleCallable { type := .optional boxCallable } 0).runIn emptyEnvironment emptyState =
        (.ok simpleCallable, emptyState) ∧
      simpleCallable.core.isCallable = true ∧ (Ty.optional boxCallable).core.isCallable = true ∧
      representationsDiffer simpleCallable.core (Ty.optional boxCallable).core = true :=
  ⟨by decide +kernel, rfl, rfl, rfl, rfl, representationsDiffer_simpleCallable⟩

end Analysis

end Boxlang
