import Mathlib.Data.Nat.Digits.Defs
import NybergRueppel.Proofs.Limbs.Value

/-!
The bits of a list of limbs are those of its number, and its lengths in bits and in words are the
least that suffice for the number.
-/
namespace NybergRueppel.Limbs

open Word

theorem testBit_eq (xs : List UInt64) (i : Nat) : testBit xs i = (toNat xs).testBit i := by
  induction xs generalizing i with
  | nil =>
      rw [testBit, List.getD_nil, Word.testBit_eq 0 (Nat.mod_lt i (by decide))]
      simp
  | cons x xs ih =>
      rw [toNat_cons, Nat.add_comm, base_eq, Nat.testBit_two_pow_mul_add _ x.toNat_lt]
      split <;> rename_i hPlace
      · rw [testBit, Nat.div_eq_of_lt hPlace, Nat.mod_eq_of_lt hPlace, List.getD_cons_zero,
          Word.testBit_eq x hPlace]
      · rw [← ih, testBit, testBit, show i / 64 = (i - 64) / 64 + 1 by omega,
          show i % 64 = (i - 64) % 64 by omega, List.getD_cons_succ]

/-- The lowest digits of a number to any base are its residue. -/
theorem ofDigits_range_map (b value count : Nat) :
    Nat.ofDigits b ((List.range count).map fun i => value / b ^ i % b) = value % b ^ count := by
  induction count generalizing value with
  | zero => simp [Nat.mod_one]
  | succ count ih =>
      have hTail : (List.range count).map (fun i => value / b ^ (i + 1) % b) =
          (List.range count).map fun i => value / b / b ^ i % b := by
        apply List.map_congr_left
        intro i _
        rw [pow_succ', Nat.div_div_eq_div_mul]
      rw [List.range_succ_eq_map, List.map_cons, List.map_map]
      simp only [Function.comp_def, Nat.succ_eq_add_one, hTail]
      rw [Nat.ofDigits_cons, ih, pow_zero, Nat.div_one, pow_succ', Nat.mod_mul]

/-- The lowest bits of a number, read as binary digits, are its residue. -/
theorem ofDigits_testBit (value count : Nat) :
    Nat.ofDigits 2 (((List.range count).map value.testBit).map Bool.toNat) = value % 2 ^ count := by
  rw [List.map_map, ← ofDigits_range_map]
  simp only [Function.comp_def, Nat.toNat_testBit]

theorem bits_eq_map_testBit (xs : List UInt64) :
    bits xs = (List.range (xs.length * 64)).map (testBit xs) := by
  induction xs with
  | nil => rfl
  | cons x xs ih =>
      have hFirst : Word.bits x = (List.range 64).map (testBit (x :: xs)) := by
        apply List.map_congr_left
        intro i hi
        have hLess := List.mem_range.mp hi
        rw [testBit, Nat.div_eq_of_lt hLess, Nat.mod_eq_of_lt hLess, List.getD_cons_zero]
      have hRest : testBit xs = testBit (x :: xs) ∘ (64 + ·) := by
        funext i
        rw [Function.comp_apply, testBit, testBit, show (64 + i) / 64 = i / 64 + 1 by omega,
          List.getD_cons_succ, show (64 + i) % 64 = i % 64 by omega]
      rw [bits, List.flatMap_cons, ← bits, ih, List.length_cons, Nat.succ_mul, Nat.add_comm _ 64,
        List.range_add, List.map_append, List.map_map, hFirst, hRest]

theorem ofDigits_bits (xs : List UInt64) :
    Nat.ofDigits 2 ((bits xs).map Bool.toNat) = toNat xs := by
  have hBits : testBit xs = (toNat xs).testBit := funext (testBit_eq xs)
  have hLess := toNat_lt xs
  rw [base_pow_eq, Nat.mul_comm] at hLess
  rw [bits_eq_map_testBit, hBits, ofDigits_testBit, Nat.mod_eq_of_lt hLess]

theorem bitLength_le_iff (xs : List UInt64) (k : Nat) : bitLength xs ≤ k ↔ toNat xs < 2 ^ k := by
  induction xs generalizing k with
  | nil => simp [bitLength]
  | cons x xs ih =>
      rw [bitLength]
      cases hRest : bitLength xs with
      | zero =>
          have hZero : toNat xs = 0 := by
            have hLess := (ih 0).mp hRest.le
            omega
          rw [toNat_cons, hZero]
          exact Word.bitLength_le_iff x k
      | succ j =>
          rw [hRest] at ih
          change j + 1 + 64 ≤ k ↔ _
          -- The upper limbs decide, unless the bound lies inside the lowest one.
          by_cases hWide : k < 64
          · have hNonzero : 1 ≤ toNat xs := by
              have hLarge := mt (ih 0).mpr (by omega)
              omega
            have hPower : 2 ^ k ≤ 2 ^ 64 := Nat.pow_le_pow_right (by decide) hWide.le
            rw [toNat_cons, base_eq]
            omega
          · obtain ⟨e, rfl⟩ := Nat.exists_eq_add_of_le (Nat.le_of_not_lt hWide)
            rw [pow_add, ← base_eq, toNat_cons_lt_iff, ← ih e]
            omega

theorem one_le_significant (xs : List UInt64) : 1 ≤ significant xs := by
  cases xs with
  | nil => exact Nat.le_refl 1
  | cons x xs => rw [significant]; split <;> omega

/-- The significant limbs are the fewest that the number fits into, and at least one. -/
theorem significant_le_iff (xs : List UInt64) {k : Nat} (hk : 1 ≤ k) :
    significant xs ≤ k ↔ toNat xs < base ^ k := by
  induction xs generalizing k with
  | nil =>
      rw [significant, toNat_nil]
      exact ⟨fun _ => base_pow_pos k, fun _ => hk⟩
  | cons x xs ih =>
      obtain ⟨e, rfl⟩ := Nat.exists_eq_add_of_le hk
      rw [significant, Nat.add_comm 1 e, pow_succ, Nat.mul_comm _ base, toNat_cons_lt_iff]
      split <;> rename_i hRest
      · rw [(isZero_iff xs).mp hRest]
        exact iff_of_true (Nat.le_add_left 1 e) (base_pow_pos e)
      · cases e with
        | zero =>
            have hNonzero : toNat xs ≠ 0 := mt (isZero_iff xs).mpr hRest
            have hLeast := one_le_significant xs
            rw [pow_zero]
            omega
        | succ e =>
            rw [← ih (Nat.le_add_left 1 e)]
            omega

theorem toNat_take_significant (xs : List UInt64) :
    toNat (xs.take (significant xs)) = toNat xs := by
  have hLess := (significant_le_iff xs (one_le_significant xs)).mp (Nat.le_refl _)
  have hDrop := (isZero_iff _).mp ((isZero_drop_iff xs (significant xs)).mpr hLess)
  have hSplit := toNat_take_add_drop xs (significant xs)
  rw [hDrop, Nat.mul_zero, Nat.add_zero] at hSplit
  exact hSplit.symm

end NybergRueppel.Limbs
