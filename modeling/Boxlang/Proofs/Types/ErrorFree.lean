import Boxlang.Expr
import Boxlang.Package
import Boxlang.Proofs.Types.Ancestors
import Boxlang.Proofs.Types.Pervasive
import Boxlang.Storage
import Boxlang.WrittenType.Resolve
import Mathlib.Tactic.SplitIfs

/-!
# Types that mention no error

The error type stands in for the type of something that was wrong.  Where the
declarations of a package mention it nowhere, no type that is computed from them
does: not by changing storage, by substitution, by walking superclasses, by
inference, or by resolving what was written.
-/

namespace Boxlang

namespace Ty

mutual

def mentionsError : Ty → Bool
  | .error => true
  | .object _ args | .value _ args => anyMentionsError args
  | .callable params ret => anyMentionsError params || mentionsError ret
  | .optional inner | .typeValue inner | .boxed inner => mentionsError inner
  | _ => false

def anyMentionsError : List Ty → Bool
  | [] => false
  | t :: ts => mentionsError t || anyMentionsError ts

end

theorem anyMentionsError_eq_false {ts : List Ty} :
    anyMentionsError ts = false ↔ ∀ t ∈ ts, t.mentionsError = false := by
  induction ts with
  | nil => simp [anyMentionsError]
  | cons t ts ih => simp [anyMentionsError, ih]

theorem ne_error_of_mentionsError {t : Ty} (h : t.mentionsError = false) : t ≠ .error := by
  rintro rfl
  simp [mentionsError] at h

theorem isError_eq_false {t : Ty} (h : t.mentionsError = false) : t.isError = false := by
  simpa [isError] using ne_error_of_mentionsError h

/-! ### Storage marks -/

@[simp]
theorem mentionsError_inBox (t : Ty) : t.inBox.mentionsError = t.mentionsError := by
  cases t <;> simp [inBox, mentionsError]

/-- Where no part of a type is the error type, the type does not mention it. -/
theorem pervasive_mentionsError : Pervasive (fun _ => True) (·.mentionsError = false) := by
  constructor <;> simp [mentionsError, anyMentionsError_eq_false]

@[simp]
theorem mentionsError_unboxed (t : Ty) : t.unboxed.mentionsError = t.mentionsError := by
  cases t <;> simp [unboxed, mentionsError]

mutual

theorem mentionsError_erased : ∀ t : Ty, t.erased.mentionsError = t.mentionsError
  | .error | .nothing | .int | .real | .bool | .byte | .symbol | .something => by simp [erased]
  | .enum _ | .protocol _ | .generic _ _ | .localGeneric _ _ => by simp [erased]
  | .object _ args | .value _ args => by
      simp [erased, mentionsError, anyMentionsError_erasedAll args]
  | .callable params ret => by
      simp [erased, mentionsError, anyMentionsError_erasedAll params, mentionsError_erased ret]
  | .optional inner | .typeValue inner | .boxed inner => by
      simp [erased, mentionsError, mentionsError_erased inner]

theorem anyMentionsError_erasedAll :
    ∀ ts : List Ty, anyMentionsError (erasedAll ts) = anyMentionsError ts
  | [] => rfl
  | t :: ts => by
      simp [erasedAll, anyMentionsError, mentionsError_erased t, anyMentionsError_erasedAll ts]

end

attribute [simp] mentionsError_erased

theorem mentionsError_heldIn {t : Ty} (s : Storage) (h : t.mentionsError = false) :
    (t.heldIn s).mentionsError = false :=
  pervasive_mentionsError.heldIn s h

/-! ### Parts -/

theorem mentionsError_optionalInner? {t u : Ty} (h : t.mentionsError = false)
    (hu : t.optionalInner? = some u) : u.mentionsError = false :=
  pervasive_mentionsError.of_optionalInner? h hu

theorem mentionsError_of_unboxed_callable {t ret : Ty} {params : List Ty}
    (h : t.mentionsError = false) (ht : t.unboxed = .callable params ret) :
    (∀ p ∈ params, p.mentionsError = false) ∧ ret.mentionsError = false :=
  pervasive_mentionsError.callable.mp (pervasive_mentionsError.of_unboxed h ht)

theorem descends_mentionsError : Descends (·.mentionsError = false) :=
  pervasive_mentionsError.descends

/-! ### Substitution -/

theorem mentionsError_subst {owner locals : Nat → Option Ty}
    (ho : ∀ i u, owner i = some u → u.mentionsError = false)
    (hl : ∀ i u, locals i = some u → u.mentionsError = false) (t : Ty)
    (h : t.mentionsError = false) : (t.subst owner locals).mentionsError = false :=
  pervasive_mentionsError.subst ho hl t h

end Ty

/-! ### Contexts -/

/-- A context none of whose types mentions the error type. -/
structure GenericContext.ErrorFree (c : GenericContext) : Prop where
  owner : ∀ t, c.owner = some t → t.mentionsError = false
  ownerConstraints : ∀ t ∈ c.ownerConstraints, t.mentionsError = false
  args : ∀ t ∈ c.args, t.mentionsError = false
  constraints : ∀ t ∈ c.constraints, t.mentionsError = false

namespace GenericContext.ErrorFree

variable {c : GenericContext}

theorem allTypes (h : c.ErrorFree) : c.AllTypes (·.mentionsError = false) :=
  ⟨h.owner, h.ownerConstraints, h.args, h.constraints⟩

theorem ownerArg? (h : c.ErrorFree) {i : Nat} {t : Ty} (ht : c.ownerArg? i = some t) :
    t.mentionsError = false :=
  h.allTypes.ownerArg? Ty.pervasive_mentionsError ht

theorem ownerArg?_ne_error (h : c.ErrorFree) (i : Nat) : c.ownerArg? i ≠ some .error :=
  fun hi => Ty.ne_error_of_mentionsError (h.ownerArg? hi) rfl

theorem error_notMem_args (h : c.ErrorFree) : .error ∉ c.args :=
  fun hmem => Ty.ne_error_of_mentionsError (h.args _ hmem) rfl

theorem instantiate (h : c.ErrorFree) {t : Ty} (ht : t.mentionsError = false) :
    (c.instantiate t).mentionsError = false :=
  h.allTypes.instantiate Ty.pervasive_mentionsError ht

theorem upperBound (h : c.ErrorFree) {t : Ty} (ht : t.mentionsError = false) :
    (c.upperBound t).mentionsError = false :=
  h.allTypes.upperBound Ty.pervasive_mentionsError ht

end GenericContext.ErrorFree

/-! ### Declarations -/

namespace Declarations

def ErrorFree (d : Declarations) : Prop :=
  ∀ name decl t, (name, decl) ∈ d.classes → decl.superclass = some t → t.mentionsError = false

instance (d : Declarations) : Decidable d.ErrorFree :=
  decidable_of_iff (∀ q ∈ d.classes, ∀ t ∈ q.2.superclass, t.mentionsError = false)
    ⟨fun h name decl t hmem hsuper => h (name, decl) hmem t hsuper,
      fun h q hq t ht => h q.1 q.2 t hq ht⟩

theorem named_true (d : Declarations) : d.Named fun _ => True := by
  constructor <;> simp

namespace ErrorFree

variable {d : Declarations}

theorem mentions (h : d.ErrorFree) : d.Mentions (fun _ => True) (·.mentionsError = false) where
  toNamed := d.named_true
  superclasses e he t ht := h e.1 e.2 t he ht

theorem superclass? (h : d.ErrorFree) {t s : Ty} (ht : t.mentionsError = false)
    (hs : d.superclass? t = some s) : s.mentionsError = false :=
  h.mentions.superclass? Ty.pervasive_mentionsError ht hs

theorem commonSupertype? (h : d.ErrorFree) (c : GenericContext) {a b t : Ty}
    (ha : a.mentionsError = false) (hb : b.mentionsError = false)
    (ht : d.commonSupertype? c a b = some t) : t.mentionsError = false :=
  h.mentions.commonSupertype? Ty.pervasive_mentionsError c ha hb ht

end ErrorFree

end Declarations

/-! ### Inference -/

namespace Candidates

def ErrorFree : Candidates → Prop
  | .common t => t.mentionsError = false
  | .unseen | .conflict _ _ => True

variable {d : Declarations} {c : GenericContext}

theorem ErrorFree.result {candidates : Candidates} (h : candidates.ErrorFree) {t : Ty}
    (ht : candidates.result = .ok t) : t.mentionsError = false := by
  cases candidates with
  | common u =>
      cases ht
      exact h
  | _ => cases ht

theorem errorFree_add (hd : d.ErrorFree) {candidates : Candidates} (h : candidates.ErrorFree)
    {t : Ty} (ht : t.mentionsError = false) : (candidates.add d c t).ErrorFree := by
  cases candidates with
  | unseen => simpa [add, ErrorFree] using ht
  | common u =>
      simp only [add]
      split
      next wider hw => exact hd.commonSupertype? c h (by simpa using ht) hw
      next => trivial
  | conflict u v => trivial

theorem errorFree_collect (hd : d.ErrorFree) (declared actual : Ty) (all : List Candidates)
    (ha : actual.mentionsError = false) (h : ∀ candidates ∈ all, candidates.ErrorFree) :
    ∀ candidates ∈ collect d c declared actual all, candidates.ErrorFree :=
  forall_mem_collect Ty.descends_mentionsError (fun _ _ hc ht => errorFree_add hd hc ht) declared
    actual all ha h

end Candidates

/-! ### Written types -/

namespace Signature

theorem mentionsError_resolve (f : Signature) (d : Declarations) (w : WrittenType) (t : Ty)
    (h : f.resolve d w = .ok t) : t.mentionsError = false :=
  of_resolve Ty.pervasive_mentionsError d.named_true (fun _ _ => trivial) w t h

/-- A signature none of whose types mentions the error type. -/
structure ErrorFree (f : Signature) : Prop where
  owner : ∀ t, f.owner? = some t → t.mentionsError = false
  constraints : ∀ g ∈ f.generics, g.constraint.mentionsError = false
  params : ∀ param ∈ f.params, param.type.mentionsError = false
  ret : f.ret.mentionsError = false

instance (f : Signature) : Decidable f.ErrorFree :=
  decidable_of_iff
    ((∀ t ∈ f.owner?, t.mentionsError = false) ∧
      (∀ g ∈ f.generics, g.constraint.mentionsError = false) ∧
      (∀ param ∈ f.params, param.type.mentionsError = false) ∧ f.ret.mentionsError = false)
    ⟨fun ⟨howner, hconstraints, hparams, hret⟩ => ⟨howner, hconstraints, hparams, hret⟩,
      fun ⟨howner, hconstraints, hparams, hret⟩ => ⟨howner, hconstraints, hparams, hret⟩⟩

theorem ErrorFree.mentions {f : Signature} (h : f.ErrorFree) :
    f.Mentions (fun _ => True) (·.mentionsError = false) :=
  ⟨fun _ _ => trivial, h.constraints, h.owner, h.params, h.ret⟩

theorem ErrorFree.context {f : Signature} (h : f.ErrorFree) (d : Declarations) :
    (f.context d).ErrorFree where
  owner := h.owner
  ownerConstraints t ht := by
    rw [eq_something_of_mem_context ht]
    rfl
  args t ht := by simp [Signature.context] at ht
  constraints t ht := by
    obtain ⟨g, hg, rfl⟩ := List.mem_map.mp ht
    exact h.constraints g hg

end Signature

/-! ### Packages -/

namespace Package

/-- A package whose superclasses, constraints and signatures mention the error type nowhere. -/
structure ErrorFree (p : Package) : Prop where
  declarations : p.declarations.ErrorFree
  functions : ∀ f ∈ p.functions, f.ErrorFree

instance (p : Package) : Decidable p.ErrorFree :=
  decidable_of_iff (p.declarations.ErrorFree ∧ ∀ f ∈ p.functions, f.ErrorFree)
    ⟨fun ⟨hdeclarations, hfunctions⟩ => ⟨hdeclarations, hfunctions⟩,
      fun ⟨hdeclarations, hfunctions⟩ => ⟨hdeclarations, hfunctions⟩⟩

theorem signature_mem (p : Package) {id : FunctionId} (hid : id < p.functions.length) :
    p.signature id ∈ p.functions := by
  have hget : p.signature id = p.functions[id] := by
    simp [signature, List.getD_eq_getElem?_getD, hid]
  exact hget ▸ List.getElem_mem hid

theorem ErrorFree.signature {p : Package} (h : p.ErrorFree) {id : FunctionId}
    (hid : id < p.functions.length) : (p.signature id).ErrorFree :=
  h.functions _ (p.signature_mem hid)

theorem lt_of_findLast? {p : Package} {test : Signature → Bool} {id : Nat}
    (h : p.findLast? test = some id) : id < p.functions.length := by
  obtain ⟨⟨f, i⟩, hfound, rfl⟩ := Option.map_eq_some_iff.mp h
  have hmem := List.mem_reverse.mp (List.mem_of_find?_eq_some hfound)
  have := List.snd_lt_of_mem_zipIdx hmem
  omega

theorem lt_of_function? {p : Package} {name : String} {id : Nat}
    (h : p.function? name = some id) : id < p.functions.length :=
  lt_of_findLast? h

theorem lt_of_ownMethod? {p : Package} {name : String} {t : Ty} {id : Nat}
    (h : p.ownMethod? name t = some id) : id < p.functions.length := by
  obtain ⟨owner, -, h⟩ := Option.bind_eq_some_iff.mp h
  exact lt_of_findLast? h

theorem lt_of_method? {p : Package} {name : String} {t : Ty} {id : Nat}
    (h : p.method? t name = some id) : id < p.functions.length := by
  unfold Package.method? at h
  rw [Option.orElse_eq_orElse, Option.orElse_eq_or] at h
  rcases Option.or_eq_some_iff.mp h with hown | ⟨-, hinherited⟩
  · exact lt_of_ownMethod? hown
  · rw [Declarations.findSomeAncestor?_eq_findSome?] at hinherited
    obtain ⟨s, -, hs⟩ := List.exists_of_findSome?_eq_some hinherited
    exact lt_of_ownMethod? hs

end Package

end Boxlang
