import NybergRueppel.Parameters.Basic
import NybergRueppel.Proofs.FixedNat.Written

/-!
Numbers that are read from texts. A list is read if every text is a numeral for a number of the
width, and what was written is read back.
-/
namespace NybergRueppel

open Hexadecimal

variable {n : Nat} {quantity : Quantity} {text : String} {texts : List String}

theorem readNumber_eq_ok_iff {a : FixedNat n} :
    readNumber n quantity text = .ok a ↔ IsNumeral text a.toNat := by
  rw [← FixedNat.ofHex?_eq_some_iff, readNumber]
  cases FixedNat.ofHex? n text <;> simp

theorem readNumbers_eq_ok_iff {xs : List (FixedNat n)} :
    readNumbers n quantity texts = .ok xs ↔
      List.Forall₂ (fun text x => IsNumeral text x.toNat) texts xs := by
  simp only [readNumbers, mapM_eq_ok_iff, readNumber_eq_ok_iff]

/-- Numbers that were written are read back. -/
theorem readNumbers_map_toHex (quantity : Quantity) (xs : List (FixedNat n)) :
    readNumbers n quantity (xs.map FixedNat.toHex) = .ok xs := by
  rw [readNumbers_eq_ok_iff, List.forall₂_map_left_iff, List.forall₂_same]
  intro x _
  exact x.isCanonicalNumeral_toHex.isNumeral

end NybergRueppel
