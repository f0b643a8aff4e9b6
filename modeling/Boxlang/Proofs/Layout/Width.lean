import Boxlang.Proofs.Layout.RoundTrip

/-!
# The words a box is read from

Words are read as a value of a type exactly if they are the words of one, so reading
never invents or drops a word.  How wide a value is that a box is read as is therefore
decided by the words it is read from: of the inline words these are as many as were
asked for, while the words outside the box are taken as they are, whatever their number.
-/

namespace Boxlang

namespace SimpleValue

variable {v : SimpleValue} {t : Ty} {word : UInt64} {words : List UInt64}

theorem ok_of_guard {α : Type} {c : Prop} [Decidable c] {a b : α} {e : LayoutError}
    (h : (if c then Except.ok a else .error e) = .ok b) : c ∧ a = b := by
  by_cases hc : c
  · rw [if_pos hc] at h
    exact ⟨hc, Except.ok.inj h⟩
  · rw [if_neg hc] at h
    cases h

theorem reference_of_ofWord? {e : LayoutError}
    (h : (match Address.ofWord? word with
      | some address => Except.ok (reference address)
      | none => .error e) = .ok v) : ∃ address : Address, v = .reference address ∧ address.word = word := by
  unfold Address.ofWord? at h
  by_cases hw : word ≠ 0
  · rw [dif_pos hw] at h
    exact ⟨⟨word, hw⟩, (Except.ok.inj h).symm, rfl⟩
  · rw [dif_neg hw] at h
    cases h

/-- What a single word is read as is a value of the type, which is stored as that word. -/
theorem isOf_of_ofWord? (h : ofWord? t word = .ok v) : v.IsOf t ∧ v.toWords = [word] := by
  cases t with
  | int =>
    obtain rfl := Except.ok.inj h
    exact ⟨.int _, by simp [toWords]⟩
  | real =>
    obtain rfl := Except.ok.inj h
    exact ⟨.real _, rfl⟩
  | bool =>
    simp only [ofWord?] at h
    by_cases hz : word = 0
    · rw [if_pos hz] at h
      obtain rfl := Except.ok.inj h
      exact ⟨.bool _, by simp [toWords, hz]⟩
    · rw [if_neg hz] at h
      obtain ⟨ho, rfl⟩ := ok_of_guard h
      exact ⟨.bool _, by simp [toWords, ho]⟩
  | byte =>
    obtain ⟨hw, rfl⟩ := ok_of_guard h
    have hn : word.toUInt8.toUInt64 = word := by
      apply UInt64.toNat_inj.mp
      simpa using Nat.mod_eq_of_lt hw
    exact ⟨.byte _, by rw [toWords, hn]⟩
  | symbol =>
    rw [ofWord?] at h
    by_cases hw : word.toNat.isValidChar
    · rw [dif_pos hw] at h
      obtain rfl := Except.ok.inj h
      have hn : (Char.ofNatAux word.toNat hw).val.toUInt64 = word := by
        apply UInt64.toNat_inj.mp
        rw [UInt32.toNat_toUInt64]
        rfl
      exact ⟨.symbol _, by rw [toWords, hn]⟩
    · rw [dif_neg hw] at h
      cases h
  | enum name =>
    obtain ⟨hw, rfl⟩ := ok_of_guard h
    have hn : word.toUInt32.toUInt64 = word := by
      apply UInt64.toNat_inj.mp
      simpa using Nat.mod_eq_of_lt hw
    exact ⟨.enum _ name, by rw [toWords, hn]⟩
  | object name args =>
    obtain ⟨address, rfl, rfl⟩ := reference_of_ofWord? h
    exact ⟨.object address name args, rfl⟩
  | typeValue inner =>
    obtain ⟨address, rfl, rfl⟩ := reference_of_ofWord? h
    exact ⟨.typeValue address inner, rfl⟩
  | _ => cases h

/-- Words are read as a value of a type exactly if they are its words. -/
theorem ofWords?_eq_ok_iff : ofWords? t words = .ok v ↔ v.IsOf t.unboxed ∧ v.toWords = words := by
  constructor
  · intro h
    unfold ofWords? at h
    split at h
    · next name args hu =>
      obtain rfl := Except.ok.inj h
      rw [hu]
      exact ⟨.value _ name args, rfl⟩
    · next word _ => exact isOf_of_ofWord? h
    · cases h
  · rintro ⟨hv, rfl⟩
    exact ofWords?_toWords hv

end SimpleValue

namespace BoxImage

variable {image : BoxImage} {v : SimpleValue} {t : Ty} {width : Nat} {words : List UInt64}

/-- The words that a value of the given width is read from; there are none if it has no room. -/
def readFrom? (image : BoxImage) (width : Nat) : Option (List UInt64) :=
  match image.outOfLine with
  | some words => some words
  | none => if width ≤ boxValueWords then some (image.words.toList.take width) else none

theorem readFrom?_eq_some_iff : image.readFrom? width = some words ↔
    image.outOfLine = some words ∨
      image.outOfLine = none ∧ words.length = width ∧ words <+: image.words.toList := by
  unfold readFrom?
  cases ho : image.outOfLine with
  | some outside => simp
  | none =>
    have hlen : image.words.toList.length = boxValueWords := by simp
    constructor
    · intro h
      by_cases hw : width ≤ boxValueWords
      · rw [if_pos hw] at h
        obtain rfl := Option.some.inj h
        refine .inr ⟨rfl, ?_, List.take_prefix ..⟩
        rw [List.length_take]
        omega
      · rw [if_neg hw] at h
        cases h
    · rintro (h | ⟨-, rfl, hp⟩)
      · cases h
      · have hw : words.length ≤ boxValueWords := hlen ▸ hp.length_le
        rw [if_pos hw, ← List.prefix_iff_eq_take.mp hp]

theorem readFrom?_eq_none_iff : image.readFrom? width = none ↔
    image.outOfLine = none ∧ boxValueWords < width := by
  unfold readFrom?
  cases image.outOfLine with
  | some outside => simp
  | none => simp

theorem decode_of_readFrom? (hv : image.hasValue = true) (hr : image.readFrom? width = some words) :
    image.decode t width = (SimpleValue.ofWords? t words).map some := by
  unfold readFrom? at hr
  rw [decode, if_pos hv]
  cases ho : image.outOfLine with
  | some outside =>
    rw [ho] at hr
    obtain rfl := Option.some.inj hr
    rfl
  | none =>
    simp only [ho] at hr ⊢
    by_cases hw : width ≤ boxValueWords
    · rw [if_pos hw] at hr ⊢
      obtain rfl := Option.some.inj hr
      rfl
    · rw [if_neg hw] at hr
      cases hr

theorem decode_of_readFrom?_eq_none (hv : image.hasValue = true)
    (hr : image.readFrom? width = none) :
    image.decode t width = .error (.widthMismatch t.text width boxValueWords) := by
  obtain ⟨ho, hw⟩ := readFrom?_eq_none_iff.mp hr
  simp only [decode, if_pos hv, ho, if_neg (Nat.not_le_of_lt hw)]

theorem decode_of_not_hasValue (hv : image.hasValue = false) : image.decode t width = .ok none := by
  simp [decode, hv]

theorem decode_eq_ok_some_iff : image.decode t width = .ok (some v) ↔
    image.hasValue = true ∧ v.IsOf t.unboxed ∧ image.readFrom? width = some v.toWords := by
  cases hv : image.hasValue with
  | false => simp [decode_of_not_hasValue hv]
  | true =>
    cases hr : image.readFrom? width with
    | none => simp [decode_of_readFrom?_eq_none hv hr]
    | some words =>
      have hmap : (SimpleValue.ofWords? t words).map some = .ok (some v) ↔
          SimpleValue.ofWords? t words = .ok v := by
        cases SimpleValue.ofWords? t words <;> simp [Except.map]
      rw [decode_of_readFrom? hv hr, hmap, SimpleValue.ofWords?_eq_ok_iff, Option.some_inj]
      simp [eq_comm]

theorem decode_eq_ok_none_iff : image.decode t width = .ok none ↔ image.hasValue = false := by
  cases hv : image.hasValue with
  | false => simp [decode_of_not_hasValue hv]
  | true =>
    cases hr : image.readFrom? width with
    | none => simp [decode_of_readFrom?_eq_none hv hr]
    | some words =>
      rw [decode_of_readFrom? hv hr]
      cases SimpleValue.ofWords? t words <;> simp [Except.map]

/--
A box that has a value is read as one of the type or refused.  It is read exactly as the
value whose words are those outside the box, all of them, or as many inline words as were
asked for; more than there are inline are refused.  So what is read is as wide as was asked
for exactly if the words outside the box, if there are any, are that many.
-/
theorem decode_width (image : BoxImage) (t : Ty) (width : Nat) :
    (∀ v, image.decode t width = .ok (some v) ↔
      image.hasValue = true ∧ v.IsOf t.unboxed ∧
        (image.outOfLine = some v.toWords ∨
          image.outOfLine = none ∧ v.toWords.length = width ∧ v.toWords <+: image.words.toList)) ∧
    (∀ v, image.decode t width = .ok (some v) →
      (v.toWords.length = width ↔ ∀ words ∈ image.outOfLine, words.length = width)) ∧
    (image.decode t width = .ok none ↔ image.hasValue = false) ∧
    (image.hasValue = true → image.outOfLine = none → boxValueWords < width →
      image.decode t width = .error (.widthMismatch t.text width boxValueWords)) := by
  refine ⟨fun v => ?_, fun v h => ?_, decode_eq_ok_none_iff, fun hv ho hw => ?_⟩
  · rw [decode_eq_ok_some_iff, readFrom?_eq_some_iff]
  · obtain ⟨-, -, hr⟩ := decode_eq_ok_some_iff.mp h
    obtain ho | ⟨ho, hw, -⟩ := readFrom?_eq_some_iff.mp hr
    · simp [ho]
    · simp [ho, hw]
  · apply decode_of_readFrom?_eq_none hv
    exact readFrom?_eq_none_iff.mpr ⟨ho, hw⟩

/-- Two words outside a box are read as a value that is five words wide. -/
theorem decode_two_of_five :
    let image : BoxImage := { tag := 8, words := padded [], outOfLine := some [1, 2] }
    let t := Ty.value "Blob" []
    image.decode t 5 = .ok (some (.aggregate [1, 2])) ∧
      (SimpleValue.aggregate [1, 2]).toWords.length ≠ 5 :=
  ⟨rfl, by decide⟩

end BoxImage

end Boxlang
