import Boxlang.Proofs.Emit.Run
import Boxlang.Proofs.Symbols.References

/-!
# Constants of strings

The constant of a string is a literal between quotes, in which a backslash and two hexadecimal
digits stand for a byte and every other character for itself.  Read that way it denotes the bytes of
the string and a zero byte, and it is declared with as many elements (`stringLine_defines`).
A string keeps its constant while a module grows, so two strings share one exactly if they are equal
(`Interned.text_eq_iff`).
-/

namespace Boxlang

namespace Llvm

/-! ### Reading literals -/

def hexValue? (c : Char) : Option Nat :=
  if '0' ≤ c ∧ c ≤ '9' then some (c.toNat - 48)
  else if 'A' ≤ c ∧ c ≤ 'F' then some (c.toNat - 55)
  else if 'a' ≤ c ∧ c ≤ 'f' then some (c.toNat - 87)
  else none

def hexPair? (a b : Char) : Option UInt8 := do
  return UInt8.ofNat (16 * (← hexValue? a) + (← hexValue? b))

/--
The bytes that the characters between the quotes of a literal denote: a backslash followed by two
hexadecimal digits is that byte, any other character is itself.
-/
def literalBytes : List Char → List UInt8
  | [] => []
  | '\\' :: a :: b :: rest =>
    match hexPair? a b with
    | some byte => byte :: literalBytes rest
    | none => 92 :: literalBytes (a :: b :: rest)
  | c :: rest => String.utf8EncodeChar c ++ literalBytes rest

theorem forall_byte {P : UInt8 → Prop} (h : ∀ n < 256, P (UInt8.ofNat n)) (b : UInt8) : P b := by
  simpa using h b.toNat b.toNat_lt

theorem hexPair?_hexDigit : ∀ b : UInt8,
    hexPair? (hexDigit (b.toNat / 16)) (hexDigit (b.toNat % 16)) = some b :=
  forall_byte (by decide +kernel)

theorem utf8EncodeChar_of_isPlainByte : ∀ b : UInt8, isPlainByte b = true →
    Char.ofNat b.toNat ≠ '\\' ∧ String.utf8EncodeChar (Char.ofNat b.toNat) = [b] :=
  forall_byte (by decide +kernel)

theorem literalBytes_cons {c : Char} (hc : c ≠ '\\') (rest : List Char) :
    literalBytes (c :: rest) = String.utf8EncodeChar c ++ literalBytes rest := by
  rw [literalBytes.eq_def]
  split
  next heq => cases heq
  next heq => exact (hc (List.cons.inj heq).1).elim
  next heq =>
    obtain ⟨rfl, rfl⟩ := List.cons.inj heq
    rfl

/-- A written byte is read as that byte, whatever stands after it. -/
theorem literalBytes_constantByte_append (b : UInt8) (rest : List Char) :
    literalBytes (constantByte b ++ rest) = b :: literalBytes rest := by
  unfold constantByte
  split
  next hplain =>
    obtain ⟨hne, hencode⟩ := utf8EncodeChar_of_isPlainByte b hplain
    rw [List.singleton_append, literalBytes_cons hne, hencode, List.singleton_append]
  next => simp [hexByte, literalBytes, hexPair?_hexDigit]

theorem literalBytes_constantText_append (bytes : List UInt8) (rest : List Char) :
    literalBytes (constantText bytes ++ rest) = bytes ++ literalBytes rest := by
  induction bytes with
  | nil => rfl
  | cons b bytes ih =>
      rw [constantText, List.flatMap_cons, List.append_assoc, literalBytes_constantByte_append]
      exact congrArg (b :: ·) ih

theorem quote_notMem_constantByte : ∀ b : UInt8, '"' ∉ constantByte b :=
  forall_byte (by decide +kernel)

/-- No written byte ends the literal. -/
theorem quote_notMem_constantText (bytes : List UInt8) : '"' ∉ constantText bytes := by
  simp [constantText, quote_notMem_constantByte]

/--
The line defines the symbol as an array of as many bytes as are given, by a literal that
ends at its second quote and denotes these bytes.
-/
def DefinesBytes (line : String) (symbol : Global) (bytes : List UInt8) : Prop :=
  ∃ literal : List Char, '"' ∉ literal ∧ literalBytes literal = bytes ∧
    line = symbol.text ++ " = private unnamed_addr constant [" ++ toString bytes.length ++ " x i8] c\""
      ++ String.ofList literal ++ "\""

end Llvm

open Llvm

def constantBytes (value : String) : List UInt8 :=
  value.toUTF8.toList ++ [0]

theorem byteArray_toList_loop (bytes : ByteArray) (i : Nat) (read : List UInt8) :
    ByteArray.toList.loop bytes i read = read.reverse ++ bytes.data.toList.drop i := by
  fun_induction ByteArray.toList.loop bytes i read with
  | case1 i read h ih =>
      have hi : i < bytes.data.toList.length := by simpa using h
      rw [ih, List.drop_eq_getElem_cons hi, List.reverse_cons, List.append_assoc]
      simp [ByteArray.get!, h]
  | case2 i read h => simpa using h

theorem length_constantBytes (value : String) : (constantBytes value).length = value.utf8ByteSize + 1 := by
  have hsize : value.toUTF8.toList.length = value.utf8ByteSize := by
    rw [ByteArray.toList, byteArray_toList_loop]
    simp [String.toUTF8]
  rw [constantBytes, List.length_append, hsize, List.length_singleton]

namespace Emit

theorem stringLine_defines (symbol : Global) (value : String) :
    DefinesBytes (stringLine symbol value) symbol (constantBytes value) := by
  refine ⟨constantText value.toUTF8.toList ++ ['\\', '0', '0'], ?_, ?_, ?_⟩
  · simp [quote_notMem_constantText]
  · rw [literalBytes_constantText_append]
    rfl
  · rw [stringLine, length_constantBytes, String.ofList_append]
    simp only [String.append_assoc]
    rfl

/-! ### Sharing constants -/

def Interned (s : ModuleState) (value : String) (symbol : Global) : Prop :=
  ∃ i, s.strings.findIdx? (· == value) = some i ∧ symbol = stringGlobal i

variable {s s' : ModuleState} {a b value : String} {x y : Global}

theorem stringGlobal_text_inj {i j : Nat} : (stringGlobal i).text = (stringGlobal j).text ↔ i = j := by
  refine ⟨fun h => ?_, fun h => h ▸ rfl⟩
  have hnumber : Symbol.string i = .string j :=
    Symbol.eq_of_global_eq trivial trivial (Global.text_injective h)
  exact Symbol.string.inj hnumber

theorem interned_internString (s : ModuleState) (value : String) :
    Interned ((internString value).run s).2 value ((internString value).run s).1 := by
  rw [run_internString]
  split
  next i hi => exact ⟨i, hi, rfl⟩
  next hnone =>
    refine ⟨s.strings.length, ?_, rfl⟩
    simp [List.findIdx?_append, hnone]

/-- Symbols of strings stay while more is referred to. -/
theorem Interned.within (h : Interned s value x) (hs : s.Within s') : Interned s' value x := by
  obtain ⟨i, hi, rfl⟩ := h
  obtain ⟨more, hmore⟩ := hs.strings
  exact ⟨i, by rw [← hmore, List.findIdx?_append, hi]; rfl, rfl⟩

theorem Interned.getElem?_eq (h : Interned s value x) : ∃ i, s.strings[i]? = some value ∧ x = stringGlobal i := by
  obtain ⟨i, hi, rfl⟩ := h
  obtain ⟨hlt, heq, -⟩ := List.findIdx?_eq_some_iff_getElem.mp hi
  exact ⟨i, by rw [List.getElem?_eq_getElem hlt, eq_of_beq heq], rfl⟩

/-- Two strings of a module have one symbol exactly if they are equal. -/
theorem Interned.text_eq_iff (ha : Interned s a x) (hb : Interned s b y) : x.text = y.text ↔ a = b := by
  constructor
  · intro h
    obtain ⟨i, hi, rfl⟩ := ha.getElem?_eq
    obtain ⟨j, hj, rfl⟩ := hb.getElem?_eq
    obtain rfl := stringGlobal_text_inj.mp h
    exact Option.some.inj (hi.symm.trans hj)
  · rintro rfl
    obtain ⟨i, hi, rfl⟩ := ha
    obtain ⟨j, hj, rfl⟩ := hb
    rw [Option.some.inj (hi.symm.trans hj)]

theorem Interned.line_mem (h : Interned s value x) : stringLine x value ∈ s.constantLines := by
  obtain ⟨i, hi, rfl⟩ := h.getElem?_eq
  have hmem : (value, i) ∈ s.strings.zipIdx := List.mem_zipIdx_iff_getElem?.mpr hi
  unfold ModuleState.constantLines
  simp only [List.mem_append, List.mem_map]
  exact .inl (.inl (.inl (.inl (.inl ⟨_, hmem, rfl⟩))))

/-- The module has a constant of that symbol, which denotes the string. -/
theorem Interned.exists_line (h : Interned s value x) :
    ∃ line ∈ s.constantLines, DefinesBytes line x (constantBytes value) :=
  ⟨_, h.line_mem, stringLine_defines x value⟩

theorem within_mapM_internString (values : List String) (s : ModuleState) :
    s.Within ((values.mapM internString).run s).2 := by
  induction values generalizing s with
  | nil => exact .refl s
  | cons value values ih =>
      rw [List.mapM_cons]
      exact (within_internString s value).trans (ih _)

theorem forall₂_interned (values : List String) (s : ModuleState) :
    List.Forall₂ (Interned ((values.mapM internString).run s).2) values
      ((values.mapM internString).run s).1 := by
  induction values generalizing s with
  | nil => exact .nil
  | cons value values ih =>
      rw [List.mapM_cons]
      exact .cons ((interned_internString s value).within (within_mapM_internString values _)) (ih _)

/-! ### String literals -/

/-- A string literal is made at run time, from its constant and the number of its bytes. -/
theorem runIn_genString (env : FunctionEnv) (w : World) (value : String) :
    (genString value).runIn env w =
      (.ok ⟨.ptr, .register w.function.nextRegister⟩,
        { function := { w.function with
            body := w.function.body ++ [.call w.function.nextRegister .ptr (runtime "ember_string_new")
              [.pointer (.global ((internString value).run w.refs).1), ⟨.int 64, .int value.utf8ByteSize⟩]]
            nextRegister := w.function.nextRegister + 1 }
          refs := ((internString value).run w.refs).2 }) :=
  rfl

/--
The constant of a string denotes its bytes and a zero byte, in an array of that length.  A string
literal passes such a constant, with one less than its length.  Strings that are interned, whatever
else is referred to in between, have constants in the module, and share one exactly if they are equal.
-/
theorem stringConstants_denote :
    (∀ symbol value, DefinesBytes (stringLine symbol value) symbol (constantBytes value)) ∧
    (∀ (env : FunctionEnv) (w : World) (value : String), ∃ x v w', (genString value).runIn env w = (.ok v, w') ∧
      w'.function.body = w.function.body ++ [.call w.function.nextRegister .ptr (runtime "ember_string_new")
        [.pointer (.global x), ⟨.int 64, .int ((constantBytes value).length - 1 : Nat)⟩]] ∧
      v = ⟨.ptr, .register w.function.nextRegister⟩ ∧
      ∀ s, w'.refs.Within s → ∃ line ∈ s.constantLines, DefinesBytes line x (constantBytes value)) ∧
    (∀ (s s' : ModuleState) (a b : String), ((internString a).run s).2.Within s' →
      (((internString a).run s).1.text = ((internString b).run s').1.text ↔ a = b)) ∧
    ∀ (s : ModuleState) (values : List String),
      let r := (values.mapM internString).run s
      r.1.length = values.length ∧ ∀ p ∈ values.zip r.1,
        (∃ line ∈ r.2.constantLines, DefinesBytes line p.2 (constantBytes p.1)) ∧
          ∀ q ∈ values.zip r.1, (p.2.text = q.2.text ↔ p.1 = q.1) := by
  refine ⟨stringLine_defines, fun env w value => ?_, fun s s' a b hs => ?_, fun s values => ?_⟩
  · refine ⟨((internString value).run w.refs).1, _, _, runIn_genString env w value, ?_, rfl, fun s hs => ?_⟩
    · rw [length_constantBytes, Nat.add_sub_cancel]
    · exact ((interned_internString w.refs value).within hs).exists_line
  · have ha := (interned_internString s a).within (hs.trans (within_internString s' b))
    exact ha.text_eq_iff (interned_internString s' b)
  · obtain ⟨hlength, hinterned⟩ := List.forall₂_iff_zip.mp (forall₂_interned values s)
    refine ⟨hlength.symm, fun p hp => ⟨(hinterned hp).exists_line, fun q hq => ?_⟩⟩
    exact (hinterned hp).text_eq_iff (hinterned hq)

/-- A literal digit after an escaped byte, a backslash before digits, a quote and a zero byte. -/
example : constantText (constantBytes "é1\\41\"\x00") = "\\C3\\A91\\5C41\\22\\00\\00".toList := by
  decide +kernel

end Emit

end Boxlang
