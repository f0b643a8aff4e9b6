import Boxlang.Emit.Package
import Std.Data.String.ToNat

/-!
# Names of symbols

Symbols are named by what they stand for, with dots between the parts of a name.  Where
the names in a package contain no dot and do not start with a digit, as is the case for
identifiers, a name can be read back by its parts from the end (`Symbol.path`), so no
two symbols of a module share a name, nor a written form.
-/

namespace Boxlang

open Llvm (Global)

def IsPlainName (name : String) : Prop :=
  '.' ∉ name.toList ∧ ∀ c ∈ name.toList.head?, c.isDigit = false

instance : DecidablePred IsPlainName := fun name =>
  @instDecidableAnd _ _ inferInstance (Option.decidableForallMem name.toList.head?)

/-! ### Parts of a name -/

def nameParts (name : String) : List (List Char) :=
  (name.toList.splitOn '.').reverse

theorem nameParts_of_notMem {name : String} (h : '.' ∉ name.toList) :
    nameParts name = [name.toList] := by
  rw [nameParts, List.splitOn_eq_singleton h, List.reverse_singleton]

theorem nameParts_append (a b : String) :
    nameParts (a ++ "." ++ b) = nameParts b ++ nameParts a := by
  have htoList : (a ++ "." ++ b).toList = a.toList ++ '.' :: b.toList := by simp
  rw [nameParts, htoList, List.splitOn_append_cons_self, List.reverse_append, nameParts, nameParts]

theorem nameParts_inj {a b : String} : nameParts a = nameParts b ↔ a = b := by
  refine ⟨fun h => ?_, fun h => h ▸ rfl⟩
  have hsplit : a.toList.splitOn '.' = b.toList.splitOn '.' := List.reverse_inj.mp h
  have hjoin := congrArg (List.intercalate ['.']) hsplit
  rw [List.intercalate_splitOn, List.intercalate_splitOn] at hjoin
  exact String.toList_inj.mp hjoin

theorem isDigit_of_mem_repr {n : Nat} {c : Char} (h : c ∈ n.repr.toList) : c.isDigit = true := by
  rw [Nat.repr_eq_ofList_toDigits, String.toList_ofList] at h
  exact Nat.isDigit_of_mem_toDigits (by decide) (by decide) h

theorem dot_notMem_repr (n : Nat) : '.' ∉ n.repr.toList :=
  fun h => absurd (isDigit_of_mem_repr h) (by decide)

theorem IsPlainName.toList_ne_repr {name : String} (h : IsPlainName name) (n : Nat) :
    name.toList ≠ n.repr.toList := by
  intro heq
  have hne : n.repr.toList ≠ [] := by
    rw [Nat.repr_eq_ofList_toDigits, String.toList_ofList]
    exact Nat.toDigits_ne_nil
  obtain ⟨c, rest, hrepr⟩ := List.exists_cons_of_ne_nil hne
  have hdigit := isDigit_of_mem_repr (n := n) (c := c) (by simp [hrepr])
  rw [h.2 c (by simp [heq, hrepr])] at hdigit
  cases hdigit

namespace Emit

inductive Symbol where
  /-- A function of the package, by its qualified name, or of the run-time library. -/
  | function (name : String)
  | closure (enclosing : String) (number : Nat)
  | adapter (number : Nat)
  | string (index : Nat)
  | box (index : Nat)
  /-- The meta of a type. -/
  | type (name : String)
  | protocol (name : String)
  | conformance (type protocol : String)
  /-- The written name of a type or protocol. -/
  | written (name : String)

namespace Symbol

def global : Symbol → Global
  | .function x => ⟨x⟩
  | .closure enclosing n => ⟨s!"{enclosing}.closure.{n}"⟩
  | .adapter n => ⟨s!"ember.adapter.{n}"⟩
  | .string i => stringGlobal i
  | .box i => boxGlobal i
  | .type x => metaGlobal x
  | .protocol x => protocolGlobal x
  | .conformance t x => conformanceGlobal t x
  | .written x => nameGlobal x

def number? : Symbol → Option Nat
  | .closure _ n | .adapter n | .string n | .box n => some n
  | .function _ | .type _ | .protocol _ | .conformance _ _ | .written _ => none

/--
The names in a symbol do not look like something else: they are plain names, and the name
of a function has not as many parts as those of constants.
-/
def IsWellNamed : Symbol → Prop
  | .function x => ∃ last parts, nameParts x = last.toList :: parts ∧ IsPlainName last ∧
      parts.length ≠ 2 ∧ parts.length ≠ 3
  | .closure _ _ | .adapter _ | .string _ | .box _ => True
  | .type x | .protocol x | .written x => IsPlainName x
  | .conformance t x => IsPlainName t ∧ IsPlainName x

def path : Symbol → List (List Char)
  | .function x => nameParts x
  | .closure enclosing n => n.repr.toList :: "closure".toList :: nameParts enclosing
  | .adapter n => [n.repr.toList, "adapter".toList, "ember".toList]
  | .string i => [i.repr.toList, "str".toList, []]
  | .box i => [i.repr.toList, "box".toList, []]
  | .type x => [x.toList, "meta".toList, "ember".toList]
  | .protocol x => [x.toList, "protocol".toList, "ember".toList]
  | .conformance t x => [x.toList, t.toList, "conformance".toList, "ember".toList]
  | .written x => [x.toList, "name".toList, "ember".toList]

theorem nameParts_three {a b x : String} (ha : '.' ∉ a.toList) (hb : '.' ∉ b.toList)
    (hx : '.' ∉ x.toList) :
    nameParts (a ++ "." ++ b ++ "." ++ x) = [x.toList, b.toList, a.toList] := by
  rw [nameParts_append, nameParts_append, nameParts_of_notMem ha, nameParts_of_notMem hb,
    nameParts_of_notMem hx]
  rfl

variable {s s' : Symbol}

theorem nameParts_global (h : s.IsWellNamed) : nameParts s.global.name = s.path := by
  have ember : '.' ∉ "ember".toList := by decide
  cases s with
  | function x => rfl
  | closure e n =>
    have heq : s!"{e}.closure.{n}" = e ++ "." ++ "closure" ++ "." ++ n.repr := by
      simp only [← String.toList_inj, String.append_assoc]
      rfl
    show nameParts s!"{e}.closure.{n}" = _
    rw [heq, nameParts_append, nameParts_append, nameParts_of_notMem (dot_notMem_repr n),
      nameParts_of_notMem (by decide)]
    rfl
  | adapter n => exact nameParts_three (a := "ember") (b := "adapter") ember (by decide) (dot_notMem_repr n)
  | string i =>
    exact nameParts_three (a := "") (b := "str") (by decide) (by decide) (dot_notMem_repr i)
  | box i =>
    exact nameParts_three (a := "") (b := "box") (by decide) (by decide) (dot_notMem_repr i)
  | type x => exact nameParts_three (a := "ember") (b := "meta") ember (by decide) h.1
  | protocol x => exact nameParts_three (a := "ember") (b := "protocol") ember (by decide) h.1
  | conformance t x =>
    show nameParts ("ember" ++ "." ++ "conformance" ++ "." ++ t ++ "." ++ x) = _
    rw [nameParts_append, nameParts_three ember (by decide) h.1.1, nameParts_of_notMem h.2.1]
    rfl
  | written x => exact nameParts_three (a := "ember") (b := "name") ember (by decide) h.1

theorem path_of_number? {n : Nat} (hn : s.number? = some n) :
    ∃ rest, s.path = n.repr.toList :: rest := by
  cases s <;> cases hn <;> exact ⟨_, rfl⟩

theorem path_of_number?_eq_none (h : s.IsWellNamed) (hn : s.number? = none) :
    ∃ x rest, s.path = x.toList :: rest ∧ IsPlainName x := by
  cases s with
  | function x =>
    obtain ⟨last, parts, hparts, hlast, -⟩ := h
    exact ⟨last, parts, hparts, hlast⟩
  | type x => exact ⟨x, _, rfl, h⟩
  | protocol x => exact ⟨x, _, rfl, h⟩
  | conformance t x => exact ⟨x, _, rfl, h.2⟩
  | written x => exact ⟨x, _, rfl, h⟩
  | _ => cases hn

theorem number?_eq_of_path_eq (h : s.IsWellNamed) (h' : s'.IsWellNamed) (heq : s.path = s'.path) :
    s.number? = s'.number? := by
  have hmixed {u u' : Symbol} {n : Nat} (hu' : u'.IsWellNamed) (heq : u.path = u'.path)
      (hn : u.number? = some n) : u'.number? ≠ none := by
    intro hn'
    obtain ⟨rest, hpath⟩ := path_of_number? hn
    obtain ⟨x, rest', hpath', hx⟩ := path_of_number?_eq_none hu' hn'
    rw [hpath, hpath'] at heq
    exact hx.toList_ne_repr n (List.cons.inj heq).1.symm
  cases hn : s.number? with
  | none =>
    cases hn' : s'.number? with
    | none => rfl
    | some n' => exact absurd hn (hmixed h heq.symm hn')
  | some n =>
    cases hn' : s'.number? with
    | none => exact absurd hn' (hmixed h' heq hn)
    | some n' =>
      obtain ⟨rest, hpath⟩ := path_of_number? hn
      obtain ⟨rest', hpath'⟩ := path_of_number? hn'
      rw [hpath, hpath'] at heq
      rw [Nat.repr_injective (String.toList_inj.mp (List.cons.inj heq).1)]

theorem exists_function_of_path_eq {x : String} (h : (function x).IsWellNamed)
    (hn : s.number? = none) (heq : nameParts x = s.path) : ∃ y, s = .function y := by
  obtain ⟨last, parts, hparts, -, htwo, hthree⟩ := h
  have hlength := congrArg List.length (hparts.symm.trans heq)
  cases s with
  | function y => exact ⟨y, rfl⟩
  | type y => exact absurd (Nat.succ.inj hlength) htwo
  | protocol y => exact absurd (Nat.succ.inj hlength) htwo
  | conformance t y => exact absurd (Nat.succ.inj hlength) hthree
  | written y => exact absurd (Nat.succ.inj hlength) htwo
  | _ => cases hn

theorem eq_of_path_eq (h : s.IsWellNamed) (h' : s'.IsWellNamed) (heq : s.path = s'.path) :
    s = s' := by
  have hnumber := number?_eq_of_path_eq h h' heq
  by_cases hs : ∃ x, s = .function x
  · obtain ⟨x, rfl⟩ := hs
    obtain ⟨y, rfl⟩ := exists_function_of_path_eq h hnumber.symm heq
    rw [nameParts_inj.mp heq]
  · have hs' : ¬ ∃ y, s' = .function y := by
      rintro ⟨y, rfl⟩
      exact hs (exists_function_of_path_eq h' hnumber heq.symm)
    -- The fixed parts of a name tell the other symbols apart.
    cases s <;> cases s' <;> simp [number?, path, nameParts_inj, String.toList_inj] at *
    all_goals simp only [heq, hnumber, and_self]

theorem eq_of_global_eq (h : s.IsWellNamed) (h' : s'.IsWellNamed) (heq : s.global = s'.global) :
    s = s' :=
  eq_of_path_eq h h' (by rw [← nameParts_global h, heq, nameParts_global h'])

end Symbol

end Emit

/-! ### Written forms -/

namespace Llvm.Global

theorem quotedChar_cases (c : Char) :
    (c = '"' ∧ quotedChar c = ['\\', '2', '2']) ∨ (c = '\\' ∧ quotedChar c = ['\\', '5', 'C']) ∨
      (c ≠ '\\' ∧ quotedChar c = [c]) := by
  unfold quotedChar
  split
  next h => exact .inl ⟨h, rfl⟩
  next =>
    split
    next h => exact .inr (.inl ⟨h, rfl⟩)
    next h => exact .inr (.inr ⟨h, rfl⟩)

theorem flatMap_quotedChar_injective :
    ∀ {l l' : List Char}, l.flatMap quotedChar = l'.flatMap quotedChar → l = l'
  | [], [], _ => rfl
  | [], c :: l', h => by
    rcases quotedChar_cases c with ⟨-, hc⟩ | ⟨-, hc⟩ | ⟨-, hc⟩ <;> simp [hc] at h
  | c :: l, [], h => by
    rcases quotedChar_cases c with ⟨-, hc⟩ | ⟨-, hc⟩ | ⟨-, hc⟩ <;> simp [hc] at h
  | c :: l, c' :: l', h => by
    have hcons : c = c' ∧ l.flatMap quotedChar = l'.flatMap quotedChar := by
      rw [List.flatMap_cons, List.flatMap_cons] at h
      rcases quotedChar_cases c with ⟨hc, heq⟩ | ⟨hc, heq⟩ | ⟨hc, heq⟩ <;>
        rcases quotedChar_cases c' with ⟨hc', heq'⟩ | ⟨hc', heq'⟩ | ⟨hc', heq'⟩ <;>
        rw [heq, heq'] at h <;> grind
    rw [hcons.1, flatMap_quotedChar_injective hcons.2]

theorem toList_text (g : Global) : g.text.toList = '@' ::
    if isBare g.name.toList then g.name.toList
    else '"' :: (g.name.toList.flatMap quotedChar ++ ['"']) := by
  unfold text
  dsimp only
  split <;> simp

theorem not_isBare_quote (l : List Char) : isBare ('"' :: l) = false := by
  simp [isBare, isBareChar]

/-- Different symbols are written differently. -/
theorem text_injective : Function.Injective text := by
  intro ⟨a⟩ ⟨b⟩ h
  have htoList := congrArg String.toList h
  rw [toList_text, toList_text, List.cons_inj_right] at htoList
  suffices a.toList = b.toList by rw [String.toList_inj.mp this]
  split at htoList
  next ha =>
    split at htoList
    next => exact htoList
    next => rw [htoList, not_isBare_quote] at ha; cases ha
  next =>
    split at htoList
    next hb => rw [← htoList, not_isBare_quote] at hb; cases hb
    next => exact flatMap_quotedChar_injective (List.append_cancel_right (List.cons.inj htoList).2)

end Llvm.Global

end Boxlang
