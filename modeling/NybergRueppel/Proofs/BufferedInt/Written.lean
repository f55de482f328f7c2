import NybergRueppel.BufferedInt.Written
import NybergRueppel.Proofs.BufferedInt.Normal
import NybergRueppel.Proofs.FixedNat.Written

/-!
Reading takes exactly the numerals with an optional minus sign, and the written form of a buffered
integer is read back as a number of the same value. Its room counts only the digits, so that the
former room has to be asked for.
-/
namespace NybergRueppel.BufferedInt

open Hexadecimal

theorem splitSign_of_head?_ne {t : List Char} (h : t.head? ≠ some '-') :
    splitSign t = (.plus, t) := by
  unfold splitSign
  split
  · exact absurd rfl h
  · rfl

/-- The sign of what was written is split off again. -/
theorem splitSign_signText (a : BufferedInt) {cs : List Char} {value : Nat} (h : Writes cs value) :
    splitSign (a.signText ++ cs) = (a.sign, cs) := by
  obtain ⟨sign, size, buffer⟩ := a
  cases sign with
  | minus => rfl
  | plus =>
      apply splitSign_of_head?_ne
      intro hMinus
      obtain ⟨v, hv⟩ := h.digitValue?_eq (List.mem_of_head? hMinus)
      exact (of_digitValue?_eq_some hv).2.2.1 rfl

/-- What is read after the sign are the limbs of the digits. -/
theorem ofHex_eq_ok_iff {text : String} {a : BufferedInt} {sign : Sign} {rest : List Char}
    (hSplit : splitSign (Text.trim text.toList) = (sign, rest)) :
    ofHex text = .ok a ↔ withoutMark rest ≠ [] ∧
      ∃ xs, limbsOfDigits (withoutMark rest) = .ok xs ∧ ofSignedLimbs sign xs = a := by
  rw [ofHex, hSplit]
  dsimp only
  split <;> rename_i hDigits
  · rw [hDigits]
    exact iff_of_false (fun h => by cases h) fun h => h.1 rfl
  · cases limbsOfDigits (withoutMark rest) with
    | error c => exact iff_of_false (fun h => by cases h) (by rintro ⟨-, xs, h, -⟩; cases h)
    | ok xs =>
        constructor
        · rintro ⟨⟩
          exact ⟨hDigits, xs, rfl, rfl⟩
        · rintro ⟨-, ys, ⟨⟩, rfl⟩
          rfl

theorem isNormal_of_ofHex_eq {text : String} {a : BufferedInt} (h : ofHex text = .ok a) :
    a.IsNormal := by
  obtain ⟨-, xs, -, rfl⟩ := (ofHex_eq_ok_iff rfl).mp h
  exact isNormal_ofSignedLimbs _ xs

/-- A text is read as a number exactly if what follows the sign is a numeral for its magnitude. -/
theorem exists_ofHex_eq_iff_of_splitSign {text : String} {sign : Sign} {rest : List Char}
    (hSplit : splitSign (Text.trim text.toList) = (sign, rest)) (v : Int) :
    (∃ a, ofHex text = .ok a ∧ a.toInt = v) ↔
      ∃ value, Numeral rest value ∧ v = sign.apply value := by
  simp only [ofHex_eq_ok_iff hSplit, numeral_iff_limbsOfDigits]
  constructor
  · rintro ⟨_, ⟨hDigits, xs, hRead, rfl⟩, rfl⟩
    exact ⟨_, ⟨hDigits, xs, hRead, rfl⟩, toInt_ofSignedLimbs sign xs⟩
  · rintro ⟨_, ⟨hDigits, xs, hRead, rfl⟩, rfl⟩
    exact ⟨_, ⟨hDigits, xs, hRead, rfl⟩, toInt_ofSignedLimbs sign xs⟩

/-- The numbers that are read are those of the numerals with an optional minus sign. -/
theorem exists_ofHex_eq_iff {text : String} {v : Int} :
    (∃ a, ofHex text = .ok a ∧ a.toInt = v) ↔ SignedNumeral (Text.trim text.toList) v := by
  by_cases hMinus : (Text.trim text.toList).head? = some '-'
  · obtain ⟨rest, hRest⟩ := List.head?_eq_some_iff.mp hMinus
    have hSplit : splitSign (Text.trim text.toList) = (.minus, rest) := by
      rw [hRest]
      rfl
    rw [exists_ofHex_eq_iff_of_splitSign hSplit, hRest]
    constructor
    · rintro ⟨value, hNumeral, rfl⟩
      exact .negative hNumeral
    · intro h
      cases h with
      | unsigned h => exact absurd rfl h.head?_ne
      | negative h => exact ⟨_, h, rfl⟩
  · rw [exists_ofHex_eq_iff_of_splitSign (splitSign_of_head?_ne hMinus)]
    generalize Text.trim text.toList = t at hMinus
    constructor
    · rintro ⟨value, hNumeral, rfl⟩
      exact .unsigned hNumeral
    · intro h
      cases h with
      | unsigned h => exact ⟨_, h, rfl⟩
      | negative h => exact absurd rfl hMinus

/-- Without a minus sign, the fixed-width reader takes what the other does, as far as it fits. -/
theorem ofHex?_eq_bind_ofHex {text : String} (n : Nat)
    (h : (Text.trim text.toList).head? ≠ some '-') :
    FixedNat.ofHex? n text = (ofHex text).toOption.bind (·.toFixed? n) := by
  apply Option.ext
  intro v
  have hOption (a : BufferedInt) : (ofHex text).toOption = some a ↔ ofHex text = .ok a := by
    cases ofHex text <;> simp [Except.toOption]
  rw [FixedNat.ofHex?_eq_some_iff, isNumeral_iff, numeral_iff_limbsOfDigits,
    Option.bind_eq_some_iff]
  simp only [hOption, ofHex_eq_ok_iff (splitSign_of_head?_ne h), toFixed?_eq_some_iff]
  constructor
  · rintro ⟨hDigits, xs, hRead, hValue⟩
    exact ⟨_, ⟨hDigits, xs, hRead, rfl⟩, (magnitude_ofSignedLimbs .plus xs).trans hValue⟩
  · rintro ⟨_, ⟨hDigits, xs, hRead, rfl⟩, hValue⟩
    exact ⟨hDigits, xs, hRead, (magnitude_ofSignedLimbs .plus xs).symm.trans hValue⟩

theorem numeral_digits (a : BufferedInt) : Numeral a.digits a.magnitude := by
  have hWrites : Writes a.digits a.magnitude := writes_limbs .upper a.limbs
  rw [numeral_iff, hWrites.withoutMark_eq]
  exact ⟨limbs_ne_nil .upper a.limbs, hWrites⟩

theorem numeral_marked_digits (a : BufferedInt) : Numeral ('0' :: 'x' :: a.digits) a.magnitude := by
  have hMark : ['0', 'x'] ∈ marks := by decide
  exact .marked hMark (limbs_ne_nil .upper a.limbs) (denotes_iff.mpr (writes_limbs .upper a.limbs))

/-- A numeral for the magnitude is one for the number behind its sign. -/
theorem signedNumeral_signText (a : BufferedInt) {cs : List Char} (h : Numeral cs a.magnitude) :
    SignedNumeral (a.signText ++ cs) a.toInt := by
  obtain ⟨sign, size, buffer⟩ := a
  cases sign with
  | plus => exact .unsigned h
  | minus => exact .negative h

/-- Any numeral for a normal number is read as the same number. -/
theorem IsNormal.exists_ofHex_eq {a : BufferedInt} (ha : a.IsNormal) {cs : List Char}
    (h : Numeral cs a.magnitude) :
    ∃ b, ofHex (String.ofList (a.signText ++ cs)) = .ok b ∧ b.sameNumber a = true := by
  have hSigned := a.signedNumeral_signText h
  obtain ⟨b, hRead, hValue⟩ := exists_ofHex_eq_iff.mpr <| by
    rw [String.toList_ofList, hSigned.trim_eq]
    exact hSigned
  exact ⟨b, hRead, ((isNormal_of_ofHex_eq hRead).sameNumber_iff ha).mpr hValue⟩

/-- A normal number is read back without the zeros above it. -/
theorem ofHex_toHex {a : BufferedInt} (h : a.IsNormal) :
    ∃ b, ofHex a.toHex = .ok b ∧ b.withMinRoom a.room = a := by
  have hWrites : Writes a.digits (Limbs.toNat a.limbs) := writes_limbs .upper a.limbs
  obtain ⟨xs, hRead, hValue, hLength⟩ := hWrites.limbsOfDigits_eq
  have hSigned := a.signedNumeral_signText a.numeral_digits
  have hSplit : splitSign (Text.trim a.toHex.toList) = (a.sign, a.digits) := by
    rw [toHex, String.toList_ofList, hSigned.trim_eq, splitSign_signText a hWrites]
  refine ⟨ofSignedLimbs a.sign xs, ?_, ?_⟩
  · rw [ofHex_eq_ok_iff hSplit, hWrites.withoutMark_eq]
    exact ⟨limbs_ne_nil .upper a.limbs, xs, hRead, rfl⟩
  · have hNormal := isNormal_ofSignedLimbs a.sign xs
    have hMagnitude : (ofSignedLimbs a.sign xs).magnitude = a.magnitude :=
      (magnitude_ofSignedLimbs a.sign xs).trans hValue
    have hRoom : (ofSignedLimbs a.sign xs).room ≤ a.room := by
      have hSize := length_limbs h.size_le_room
      have hOne := h.one_le_size
      have hWithin := h.size_le_room
      have hDigits : a.digits.length ≤ 16 * max 1 a.limbs.length :=
        length_limbs_le .upper a.limbs
      rw [hSize, Nat.max_eq_right hOne] at hDigits
      rw [room_ofSignedLimbs, hLength]
      omega
    apply (hNormal.withMinRoom a.room).eq h
    · by_cases hZero : a.magnitude = 0
      · exact (hNormal.sign_eq_plus (hMagnitude.trans hZero)).trans (h.sign_eq_plus hZero).symm
      · exact sign_normalize (hMagnitude.trans_ne hZero)
    · rw [magnitude, limbs_withMinRoom hNormal.size_le_room]
      exact hMagnitude
    · rw [room_withMinRoom]
      omega

end NybergRueppel.BufferedInt
