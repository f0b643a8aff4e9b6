import Boxlang.Proofs.Conversion.Compliance
import Boxlang.Proofs.Conversion.Optional
import Boxlang.Proofs.Types.Pervasive

/-!
# What conversions mention

The types and protocols in a conversion come from the two types that it is computed
from.  So a pervasive property of these is one of all types in the conversion, at every
depth of adapters and of the callables that are adapted, and of the type of the value that
it gives.
-/

namespace Boxlang

namespace Conversion

inductive Each (P : Conversion → Prop) : Conversion → Prop where
  | intro {op : Conversion} : P op → (∀ entry ∈ op.entries, Each P entry) → Each P op

def Mentions (named : String → Prop) (q : Ty → Prop) : Conversion → Prop
  | .box t protocol => q t ∧ ∀ name ∈ protocol, named name
  | .boxOptional t | .unbox t | .unboxOptional t => q t
  | .rebox protocol => named protocol
  | .adaptCallable source target _ _ => q source ∧ q target
  | .wrapOptional | .unwrapOptional | .unwrapBoxOptional => True

theorem mentions_true (op : Conversion) : op.Mentions (fun _ => True) fun _ => True := by
  cases op <;> simp [Mentions]

theorem Each.self {P : Conversion → Prop} {op : Conversion} (h : op.Each P) : P op := by
  cases h with
  | intro hp _ => exact hp

theorem Each.of_entries_eq_nil {P : Conversion → Prop} {op : Conversion} (h : P op)
    (hentries : op.entries = []) : op.Each P :=
  .intro h (by simp [hentries])

end Conversion

def Compliance.Mentions (named : String → Prop) (q : Ty → Prop) : Compliance → Prop
  | .asIs t => q t
  | .convert op t => q t ∧ op.Each (Conversion.Mentions named q)
  | .refused => True

open Conversion

variable {named : String → Prop} {q : Ty → Prop} (hq : Ty.Pervasive named q)
include hq

/-- The step between two types mentions nothing but what is mentioned in them. -/
theorem each_of_conversionBetween? {a b : Ty} {op : Conversion} (ha : q a) (hb : q b)
    (hop : conversionBetween? a b = some op) : op.Each (Mentions named q) := by
  induction hn : a.size + b.size using Nat.strongRecOn generalizing a b op with
  | ind n ih =>
      have hcases := hop
      rw [conversionBetween?] at hcases
      split at hcases
      case h_1 | h_2 => cases hcases
      case h_3 | h_4 =>
          cases hcases
          exact .of_entries_eq_nil trivial rfl
      case h_5 =>
          cases hcases
          exact .of_entries_eq_nil ⟨ha, fun name hname => hq.of_protocolName? hb hname⟩ rfl
      case h_6 =>
          cases hcases
          refine .of_entries_eq_nil (show q (a.optionalInner?.getD a) from ?_) rfl
          cases hinner : a.optionalInner? with
          | none => exact ha
          | some inner => exact hq.of_optionalInner? ha hinner
      case h_7 | h_8 =>
          cases hcases
          exact .of_entries_eq_nil (hq.unboxed hb) rfl
      case h_9 hs ht =>
          split at hcases
          next name hname =>
            split at hcases
            next => cases hcases
            next =>
              cases hcases
              exact .of_entries_eq_nil (hq.protocol.mp (hq.of_unboxed hb hname)) rfl
          next =>
            split at hcases
            next hdiffer =>
              obtain ⟨params, r, params', r', hau, hbu, -⟩ :=
                exists_callable_of_representationsDiffer hdiffer hs ht
              have hsize := Ty.size_unboxed_le a
              have hsize' := Ty.size_unboxed_le b
              rw [hau] at hsize
              rw [hbu] at hsize'
              simp only [Ty.size] at hsize hsize'
              obtain ⟨hparams, hr⟩ := hq.callable.mp (hq.of_unboxed ha hau)
              obtain ⟨hparams', hr'⟩ := hq.callable.mp (hq.of_unboxed hb hbu)
              obtain rfl := Option.some.inj hcases
              rw [callableAdapter_eq hau hbu]
              refine .intro ⟨ha, hb⟩ fun entry hentry => ?_
              obtain ⟨e, hmem, rfl⟩ := List.mem_filterMap.mp hentry
              rcases List.mem_append.mp hmem with hmem | hmem
              · obtain ⟨p, hp, hstep⟩ := List.mem_map.mp hmem
                obtain ⟨hp1, hp2⟩ := List.of_mem_zip hp
                have h1 := Ty.size_le_of_mem hp1
                have h2 := Ty.size_le_of_mem hp2
                exact ih _ (by omega) (hparams' _ hp1) (hparams _ hp2) hstep rfl
              · exact ih _ (by omega) hr hr' (List.mem_singleton.mp hmem).symm rfl
            next => cases hcases
          next => cases hcases

section Compliance

variable {e : Expectation} {actual : Ty} (ha : q actual) (he : q e.type)
include ha he

theorem mentions_storageCompliance : (e.storageCompliance actual).Mentions named q := by
  have herased : q actual.erased := hq.erased ha
  have hstep {op : Conversion} {t : Ty} (ht : q t) (hop : op.Mentions named q)
      (hentries : op.entries = []) : (Compliance.convert op t).Mentions named q :=
    ⟨ht, .of_entries_eq_nil hop hentries⟩
  unfold Expectation.storageCompliance
  split
  case h_1 =>
    unfold Expectation.boxToBox
    split
    next => exact ha
    next name hname =>
      have hn := hq.of_protocolName? he hname
      split
      next => exact ha
      next => exact hstep (hq.protocol.mpr hn) hn rfl
  case h_2 =>
    unfold Expectation.boxToSimple
    have hu : q actual.unboxed := hq.unboxed ha
    split
    next => exact hstep hu hu rfl
    next => trivial
  case h_3 =>
    unfold Expectation.boxToSimpleOptional
    split
    next inner hinner =>
      have ho : q (.optional inner) := hinner ▸ herased
      split
      next => exact hstep ho ho rfl
      next => trivial
    next =>
      have ho : q (.optional actual.erased) := hq.optional.mpr herased
      split
      next => exact hstep ho ho rfl
      next => trivial
  case h_4 =>
    unfold Expectation.simpleToBox
    split
    next name hname =>
      have hn := hq.of_protocolName? he hname
      exact hstep (hq.protocol.mpr hn) ⟨ha, by simpa using hn⟩ rfl
    next => exact hstep (hq.heldIn .box ha) ⟨ha, by simp⟩ rfl
  case h_5 =>
    refine hstep (hq.heldIn .box ha) (show q (actual.optionalInner?.getD actual) from ?_) rfl
    cases hinner : actual.optionalInner? with
    | none => exact ha
    | some inner => exact hq.of_optionalInner? ha hinner
  case h_6 => exact hstep (hq.optional.mpr ha) trivial rfl
  case h_7 => trivial
  case h_8 | h_9 => exact ha

/-- What is decided for a value mentions nothing but what its type and the expected one mention. -/
theorem mentions_compliance : (e.compliance actual).Mentions named q := by
  unfold Expectation.compliance
  split
  next => exact ha
  next =>
    split
    next hneeds =>
      exact ⟨he, each_of_conversionBetween? hq ha he (conversionBetween?_of_needsAdapter hneeds)⟩
    next => exact mentions_storageCompliance hq ha he

end Compliance

end Boxlang
