import Boxlang.Proofs.Symbols.Names
import Boxlang.Proofs.Types.Pervasive
import Boxlang.Ty.Text

/-!
# Names of types

The written form of a type is made of the names in it and of punctuation without dots.
So where all these names are plain, the written form is a plain name, too.
-/

namespace Boxlang

namespace IsPlainName

theorem append {a b : String} (ha : IsPlainName a) (hb : IsPlainName b) : IsPlainName (a ++ b) := by
  refine ⟨by simp [ha.1, hb.1], fun c hc => ?_⟩
  rw [String.toList_append, List.head?_append] at hc
  rcases Option.or_eq_some_iff.mp hc with hc | ⟨-, hc⟩
  · exact ha.2 c hc
  · exact hb.2 c hc

theorem commaSeparated {parts : List String} (h : ∀ s ∈ parts, IsPlainName s) :
    IsPlainName (", ".intercalate parts) := by
  induction parts with
  | nil => exact ⟨by simp, by simp⟩
  | cons s parts ih =>
    obtain ⟨hs, hparts⟩ := List.forall_mem_cons.mp h
    cases parts with
    | nil => simpa using hs
    | cons s' parts =>
      rw [String.intercalate_cons_cons]
      exact (hs.append (by decide)).append (ih hparts)

end IsPlainName

namespace Ty

def name? : Ty → Option String
  | .object name _ | .value name _ | .enum name | .protocol name => some name
  | .generic _ name | .localGeneric _ name => some name
  | _ => none

def MentionsOnly (named : String → Prop) (t : Ty) : Prop :=
  t.Every fun u => ∀ name ∈ u.name?, named name

theorem MentionsOnly.inBox {named : String → Prop} {t : Ty} (h : t.MentionsOnly named) :
    t.inBox.MentionsOnly named := by
  cases t with
  | error | boxed inner => exact h
  | _ => exact ⟨nofun, h⟩

theorem pervasive_mentionsOnly (named : String → Prop) : Pervasive named (MentionsOnly named) := by
  constructor
  case inBox => exact .inBox
  all_goals simp [MentionsOnly, Every, name?, everyAll_iff]

abbrev IsPlain (t : Ty) : Prop :=
  t.MentionsOnly IsPlainName

theorem pervasive_isPlain : Pervasive IsPlainName IsPlain :=
  pervasive_mentionsOnly IsPlainName

mutual

theorem isPlainName_text : ∀ t : Ty, t.IsPlain → IsPlainName t.text
  | .error, _ | .nothing, _ | .int, _ | .real, _ | .bool, _ | .byte, _ | .symbol, _
  | .something, _ => by decide
  | .enum name, h | .protocol name, h | .generic _ name, h | .localGeneric _ name, h => h name rfl
  | .object name [], h | .value name [], h => h.1 name rfl
  | .object name (t :: ts), h | .value name (t :: ts), h => by
    have hargs := isPlainName_textAll (t :: ts) (everyAll_iff.mp h.2)
    exact (((h.1 name rfl).append (by decide)).append (.commaSeparated hargs)).append (by decide)
  | .callable params ret, h => by
    have hparams := isPlainName_textAll params (everyAll_iff.mp h.2.1)
    have hopen := IsPlainName.append (a := "(") (by decide) (.commaSeparated hparams)
    exact (hopen.append (by decide)).append (isPlainName_text ret h.2.2)
  | .optional inner, h => .append (by decide) (isPlainName_text inner h.2)
  | .typeValue inner, h => .append (.append (by decide) (isPlainName_text inner h.2)) (by decide)
  | .boxed inner, h => isPlainName_text inner h.2

theorem isPlainName_textAll :
    ∀ ts : List Ty, (∀ t ∈ ts, t.IsPlain) → ∀ s ∈ textAll ts, IsPlainName s
  | [], _ => by simp [textAll]
  | t :: ts, h =>
    List.forall_mem_cons.mpr ⟨isPlainName_text t (h t List.mem_cons_self),
      isPlainName_textAll ts fun u hu => h u (List.mem_cons_of_mem t hu)⟩

end

end Ty

end Boxlang
