import Boxlang.Layout.Box
import Boxlang.Layout.Optional
import Boxlang.Storage

/-!
# Values read back from their images

`SimpleValue.IsOf` says which values a type has.  The words of a value of a type are
read back as that value, whether they stand alone, in a box or in an optional.  Where
an optional has no flag, it is because one word is the image of no value: the null
reference, a number past the code points, or a word that no case index fills.
-/

namespace Boxlang

namespace SimpleValue

inductive IsOf : SimpleValue → Ty → Prop
  | int (value : Int64) : IsOf (.int value) .int
  | real (bits : UInt64) : IsOf (.real bits) .real
  | bool (value : Bool) : IsOf (.bool value) .bool
  | byte (value : UInt8) : IsOf (.byte value) .byte
  | symbol (value : Char) : IsOf (.symbol value) .symbol
  | enum (case : UInt32) (name : String) : IsOf (.enum case) (.enum name)
  | object (address : Address) (name : String) (args : List Ty) :
    IsOf (.reference address) (.object name args)
  | typeValue (address : Address) (inner : Ty) : IsOf (.reference address) (.typeValue inner)
  | value (words : List UInt64) (name : String) (args : List Ty) :
    IsOf (.aggregate words) (.value name args)

variable {v : SimpleValue} {t : Ty}

/-- The simple types are those that have values, the error type and `Nothing`. -/
theorem exists_isOf_iff : (∃ v, IsOf v t) ↔ t.storage = .simple ∧ t ≠ .nothing ∧ t ≠ .error := by
  constructor
  · rintro ⟨v, h⟩
    cases h <;> simp [Ty.storage]
  · rintro ⟨hs, hn, he⟩
    cases t with
    | int => exact ⟨_, .int 0⟩
    | real => exact ⟨_, .real 0⟩
    | bool => exact ⟨_, .bool false⟩
    | byte => exact ⟨_, .byte 0⟩
    | symbol => exact ⟨_, .symbol 'a'⟩
    | enum name => exact ⟨_, .enum 0 name⟩
    | object name args => exact ⟨_, .object ⟨1, by decide⟩ name args⟩
    | typeValue inner => exact ⟨_, .typeValue ⟨1, by decide⟩ inner⟩
    | value name args => exact ⟨_, .value [] name args⟩
    | nothing => exact absurd rfl hn
    | error => exact absurd rfl he
    | optional inner => simp only [Ty.storage] at hs; split at hs <;> cases hs
    | _ => cases hs

/-! ### Words -/

theorem ofWord?_symbol (c : Char) : ofWord? .symbol c.val.toUInt64 = .ok (.symbol c) := by
  have h : c.val.toUInt64.toNat.isValidChar := by
    rw [UInt32.toNat_toUInt64]
    exact c.valid
  rw [ofWord?, dif_pos h]
  congr 2

theorem ofWord?_reference (address : Address) : Address.ofWord? address.word = some address := by
  rw [Address.ofWord?, dif_pos address.word_ne_zero]

/-- The words of a value of a type are read back as that value. -/
theorem ofWords?_toWords (h : v.IsOf t.unboxed) : ofWords? t v.toWords = .ok v := by
  unfold ofWords?
  generalize t.unboxed = u at h
  cases h with
  | int value => simp [toWords, ofWord?]
  | real bits => simp [toWords, ofWord?]
  | bool value => cases value <;> simp [toWords, ofWord?]
  | byte value => simpa [toWords, ofWord?] using value.toNat_lt
  | symbol value => exact ofWord?_symbol value
  | enum case name => simpa [toWords, ofWord?] using case.toNat_lt
  | object address name args => simp [toWords, ofWord?, ofWord?_reference]
  | typeValue address inner => simp [toWords, ofWord?, ofWord?_reference]
  | value words name args => simp [toWords]

theorem exists_toWords_eq {word : UInt64} (h : v.IsOf t.unboxed)
    (hn : (OptionalLayout.ofType t).niche? = some word) : ∃ w, v.toWords = [w] ∧ w ≠ word := by
  unfold OptionalLayout.ofType at hn
  generalize t.unboxed = u at h hn
  cases h with
  | int | real | bool | byte | value => cases hn
  | symbol value =>
    obtain rfl : OptionalLayout.symbolSentinel.toUInt64 = word := Option.some.inj hn
    refine ⟨_, rfl, fun he => ?_⟩
    -- The sentinel is the first number that no character has.
    have hlt : value.val.toNat < 0x110000 := by
      have := value.valid
      unfold UInt32.isValidChar Nat.isValidChar at this
      omega
    have heq : value.val.toNat = 0x110000 := congrArg UInt64.toNat he
    omega
  | enum case name =>
    obtain rfl : OptionalLayout.enumSentinel.toUInt64 = word := Option.some.inj hn
    refine ⟨_, rfl, fun he => ?_⟩
    -- The upper half of the sentinel is not zero.
    have hlt : case.toNat < 2 ^ 32 := case.toNat_lt
    have heq : case.toNat = 2 ^ 64 - 1 := congrArg UInt64.toNat he
    omega
  | object address name args | typeValue address inner =>
    obtain rfl : 0 = word := Option.some.inj hn
    exact ⟨_, rfl, address.word_ne_zero⟩

end SimpleValue

/-! ### Boxes -/

namespace BoxImage

variable {v : SimpleValue} {t : Ty}

theorem take_padded {words : List UInt64} (h : words.length ≤ boxValueWords) :
    (padded words).toList.take words.length = words := by
  apply List.ext_getElem
  · simp [h]
  · intro i hi hj
    simp [padded, List.getElem?_eq_getElem hj]

theorem hasValue_encode (tag : Address) (v : SimpleValue) : (encode tag v).hasValue = true := by
  unfold encode hasValue
  split <;> simpa using tag.word_ne_zero

theorem outOfLine_encode (tag : Address) (v : SimpleValue) :
    (encode tag v).outOfLine = if boxValueWords < v.toWords.length then some v.toWords else none := by
  unfold encode
  by_cases hw : v.toWords.length ≤ boxValueWords
  · simp [hw]
  · simp [hw, Nat.lt_of_not_le hw]

theorem decode_empty (t : Ty) (width : Nat) : empty.decode t width = .ok none := rfl

/-- A box holds the value that was put in it. -/
theorem decode_encode (h : v.IsOf t.unboxed) (tag : Address) :
    (encode tag v).decode t v.toWords.length = .ok (some v) := by
  rw [decode, if_pos (hasValue_encode tag v), outOfLine_encode]
  by_cases hw : boxValueWords < v.toWords.length
  · simp [hw, SimpleValue.ofWords?_toWords h, Except.map]
  · have hle : v.toWords.length ≤ boxValueWords := by omega
    have htake := take_padded hle
    simp [hw, hle, encode, htake, SimpleValue.ofWords?_toWords h, Except.map]

def ofOptional (tag : Address) : Option SimpleValue → BoxImage
  | some v => encode tag v
  | none => empty

end BoxImage

/-! ### Optionals -/

namespace OptionalImage

variable {v : SimpleValue} {t : Ty}

/-- The images of a value and of none are both optionals, and are read back as what they are of. -/
theorem exists_encode? (h : v.IsOf t.unboxed) :
    ∃ present absent,
      encode? (.ofType t) (some v) v.toWords.length = .ok present ∧
      encode? (.ofType t) none v.toWords.length = .ok absent ∧
      present.decode? t (.ofType t) = .ok (some v) ∧
      absent.decode? t (.ofType t) = .ok none := by
  have hv := SimpleValue.ofWords?_toWords h
  cases hn : (OptionalLayout.ofType t).niche? with
  | none =>
    refine ⟨.flagged true v.toWords, .flagged false (List.replicate v.toWords.length 0), ?_⟩
    simp [encode?, decode?, hn, hv, Except.map]
  | some word =>
    obtain ⟨w, hw, hne⟩ := SimpleValue.exists_toWords_eq h hn
    refine ⟨.niche w, .niche word, ?_⟩
    rw [hw] at hv
    simp [encode?, decode?, hn, hw, hne, hv, Except.map]

/-- The image got from another by reading the optional value, putting it in a box and back. -/
def throughBox? (image : OptionalImage) (t : Ty) (layout : OptionalLayout) (width : Nat)
    (tag : Address) : Except LayoutError OptionalImage := do
  let v? ← image.decode? t layout
  let held? ← (BoxImage.ofOptional tag v?).decode t width
  encode? layout held? width

theorem throughBox?_eq {image : OptionalImage} {layout : OptionalLayout} {width : Nat}
    {tag : Address} {v? : Option SimpleValue} (hi : image.decode? t layout = .ok v?)
    (hb : (BoxImage.ofOptional tag v?).decode t width = .ok v?) :
    image.throughBox? t layout width tag = encode? layout v? width := by
  simp only [throughBox?, hi, hb, bind, Except.bind]

/--
A simple value is read back from its box and from its optional.  It is out of line
just where the box has no room for it, the image of a value is not the image of
none, and an optional that goes through a box is the same image again.
-/
theorem roundTrips_of_isOf (h : v.IsOf t.unboxed) (tag : Address) :
    (BoxImage.encode tag v).decode t v.toWords.length = .ok (some v) ∧
    (BoxImage.encode tag v).outOfLine =
      (if boxValueWords < v.toWords.length then some v.toWords else none) ∧
    ∃ present absent,
      encode? (.ofType t) (some v) v.toWords.length = .ok present ∧
      encode? (.ofType t) none v.toWords.length = .ok absent ∧
      present.decode? t (.ofType t) = .ok (some v) ∧
      absent.decode? t (.ofType t) = .ok none ∧
      present ≠ absent ∧
      present.throughBox? t (.ofType t) v.toWords.length tag = .ok present ∧
      absent.throughBox? t (.ofType t) v.toWords.length tag = .ok absent := by
  obtain ⟨present, absent, hp, ha, hdp, hda⟩ := exists_encode? h
  refine ⟨BoxImage.decode_encode h tag, BoxImage.outOfLine_encode tag v,
    present, absent, hp, ha, hdp, hda, ?_, ?_, ?_⟩
  · rintro rfl
    rw [hdp] at hda
    cases hda
  · exact (throughBox?_eq hdp (BoxImage.decode_encode h tag)).trans hp
  · exact (throughBox?_eq hda (BoxImage.decode_empty t _)).trans ha

/-- The last case that a case index can number is not taken for the sentinel. -/
theorem roundTrips_lastCase :
    let v := SimpleValue.enum 0xffffffff
    let t := Ty.boxed (.enum "Color")
    v.IsOf t.unboxed ∧ (BoxImage.encode ⟨8, by decide⟩ v).decode t 1 = .ok (some v) ∧
      ∃ present absent,
        encode? (.ofType t) (some v) 1 = .ok present ∧ encode? (.ofType t) none 1 = .ok absent ∧
        present ≠ absent ∧ present.throughBox? t (.ofType t) 1 ⟨8, by decide⟩ = .ok present := by
  intro v t
  have hv : v.IsOf t.unboxed := .enum _ _
  obtain ⟨hb, -, present, absent, hp, ha, -, -, hne, ht, -⟩ := roundTrips_of_isOf hv ⟨8, by decide⟩
  exact ⟨hv, hb, present, absent, hp, ha, hne, ht⟩

end OptionalImage

end Boxlang
