import NybergRueppel.FixedNat.Written
import NybergRueppel.Proofs.FixedNat.Value
import NybergRueppel.Proofs.Text.Grammar

/-!
The written forms of fixed-width integers. Reading takes exactly the numerals of the integers that
fit into the width, and what is written is the canonical numeral, which is read back.
-/
namespace NybergRueppel.FixedNat

open Hexadecimal

variable {n : Nat}

/-- A text is read as an integer exactly if it is a numeral for its number. -/
theorem ofHex?_eq_some_iff {text : String} {a : FixedNat n} :
    ofHex? n text = some a ↔ IsNumeral text a.toNat := by
  rw [ofHex?]
  constructor
  · intro h
    split at h
    · cases h
    · rename_i hDigits
      split at h
      · rename_i xs hRead
        have hWrites := writes_of_limbsOfDigits_eq hRead
        rw [(ofLimbs?_eq_some_iff xs a).mp h] at hWrites
        exact ⟨hDigits, hWrites⟩
      · cases h
  · rintro ⟨hDigits, hWrites⟩
    obtain ⟨xs, hRead, hValue, -⟩ := hWrites.limbsOfDigits_eq
    rw [digitsOf] at hDigits hRead
    split
    · contradiction
    · rw [hRead]
      exact (ofLimbs?_eq_some_iff xs a).mpr hValue

theorem isCanonicalNumeral_toHex (a : FixedNat n) : IsCanonicalNumeral a.toHex a.toNat :=
  isCanonicalNumeral_limbs a.limbs

theorem ofHex?_toHex (a : FixedNat n) : ofHex? n a.toHex = some a :=
  ofHex?_eq_some_iff.mpr a.isCanonicalNumeral_toHex.isNumeral

/-- The integers that are read are those of the numerals that fit into the width. -/
theorem exists_ofHex?_eq_iff {text : String} {value : Nat} :
    (∃ a : FixedNat n, ofHex? n text = some a ∧ a.toNat = value) ↔
      Numeral (Text.trim text.toList) value ∧ value < Word.base ^ n := by
  constructor
  · rintro ⟨a, hRead, rfl⟩
    exact ⟨isNumeral_iff.mp (ofHex?_eq_some_iff.mp hRead), a.toNat_lt⟩
  · rintro ⟨hNumeral, hFits⟩
    obtain ⟨a, rfl⟩ := exists_toNat_eq hFits
    exact ⟨a, ofHex?_eq_some_iff.mpr (isNumeral_iff.mpr hNumeral), rfl⟩

theorem ofHex?_displayText (a : FixedNat n) : ofHex? n a.displayText = some a := by
  have hMark : ['0', 'x'] ∈ marks := by decide
  have hNumeral : Numeral ('0' :: 'x' :: Hexadecimal.limbs .lower a.limbs) a.toNat :=
    .marked hMark (limbs_ne_nil .lower a.limbs) (denotes_iff.mpr (writes_limbs .lower a.limbs))
  rw [ofHex?_eq_some_iff, isNumeral_iff, displayText, String.toList_ofList, hNumeral.trim_eq]
  exact hNumeral

end NybergRueppel.FixedNat
