import Mathlib.Tactic.LinearCombination
import NybergRueppel.Proofs.Limbs.Value

/-!
Limbs in their places. Changing one limb changes the number at the place of the limb, and setting
bits that were free adds them at the place of the lowest.
-/
namespace NybergRueppel

/-- Digits that are put into free bits of a word are added at their place. -/
theorem Word.toNat_or_shift {w digit : UInt64} {place width : Nat} (hPlace : place < 64)
    (hFits : place + width ≤ 64) (hDigit : digit.toNat < 2 ^ width)
    (hFree : w.toNat / 2 ^ place % 2 ^ width = 0) :
    (w ||| (digit <<< place.toUInt64)).toNat = w.toNat + 2 ^ place * digit.toNat := by
  have hShifted : 2 ^ place * digit.toNat < 2 ^ 64 :=
    calc
      2 ^ place * digit.toNat < 2 ^ place * 2 ^ width :=
        Nat.mul_lt_mul_of_pos_left hDigit (Nat.two_pow_pos place)
      _ = 2 ^ (place + width) := (pow_add 2 place width).symm
      _ ≤ 2 ^ 64 := Nat.pow_le_pow_right (by decide) hFits
  -- The word is cut below and above the free bits.
  have hLow : w.toNat % 2 ^ place < 2 ^ place := Nat.mod_lt _ (Nat.two_pow_pos place)
  have hWord : w.toNat =
      2 ^ (place + width) * (w.toNat / 2 ^ place / 2 ^ width) + w.toNat % 2 ^ place := by
    have hHigh := Nat.div_add_mod (w.toNat / 2 ^ place) (2 ^ width)
    rw [hFree, Nat.add_zero] at hHigh
    rw [pow_add, Nat.mul_assoc, hHigh, Nat.div_add_mod]
  have hMiddle : 2 ^ place * digit.toNat + w.toNat % 2 ^ place < 2 ^ (place + width) :=
    calc
      _ < 2 ^ place * digit.toNat + 2 ^ place := Nat.add_lt_add_left hLow _
      _ = 2 ^ place * (digit.toNat + 1) := by ring
      _ ≤ 2 ^ place * 2 ^ width := Nat.mul_le_mul_left _ hDigit
      _ = 2 ^ (place + width) := (pow_add 2 place width).symm
  rw [UInt64.toNat_or, UInt64.toNat_shiftLeft, toNat_amount_mod hPlace, Nat.shiftLeft_eq,
    Nat.mul_comm digit.toNat, Nat.mod_eq_of_lt hShifted]
  generalize w.toNat % 2 ^ place = low at hLow hWord hMiddle
  generalize w.toNat / 2 ^ place / 2 ^ width = high at hWord
  have hLowFits : low < 2 ^ (place + width) := (Nat.le_add_left low _).trans_lt hMiddle
  calc
    w.toNat ||| 2 ^ place * digit.toNat =
        2 ^ (place + width) * high ||| (2 ^ place * digit.toNat ||| low) := by
      rw [hWord, Nat.two_pow_add_eq_or_of_lt hLowFits, Nat.or_assoc, Nat.or_comm low]
    _ = 2 ^ (place + width) * high + (2 ^ place * digit.toNat + low) := by
      rw [← Nat.two_pow_add_eq_or_of_lt hLow, ← Nat.two_pow_add_eq_or_of_lt hMiddle]
    _ = w.toNat + 2 ^ place * digit.toNat := by
      rw [hWord]
      ring

namespace Limbs

open Word

theorem toNat_getD (xs : List UInt64) (i : Nat) :
    (xs.getD i 0).toNat = toNat xs / base ^ i % base := by
  induction xs generalizing i with
  | nil => simp
  | cons x xs ih =>
      cases i with
      | zero =>
          rw [List.getD_cons_zero, toNat_cons, pow_zero, Nat.div_one, Nat.add_mul_mod_self_left,
            Nat.mod_eq_of_lt (toNat_lt_base x)]
      | succ i =>
          rw [List.getD_cons_succ, ih, toNat_cons, pow_succ', ← Nat.div_div_eq_div_mul,
            Nat.add_mul_div_left _ _ base_pos, Nat.div_eq_of_lt (toNat_lt_base x), Nat.zero_add]

theorem toNat_set {xs : List UInt64} {i : Nat} (hi : i < xs.length) (y : UInt64) :
    toNat (xs.set i y) + base ^ i * (xs.getD i 0).toNat = toNat xs + base ^ i * y.toNat := by
  induction xs generalizing i with
  | nil => cases hi
  | cons x xs ih =>
      cases i with
      | zero =>
          rw [List.set_cons_zero, toNat_cons, toNat_cons, List.getD_cons_zero]
          ring
      | succ i =>
          have hRest := ih (Nat.lt_of_succ_lt_succ hi)
          rw [List.set_cons_succ, toNat_cons, toNat_cons, List.getD_cons_succ]
          linear_combination base * hRest

/-- Digits that are put into free bits of a number are added at their place. -/
theorem toNat_set_or {xs : List UInt64} {place width : Nat} {digit : UInt64}
    (hPlace : place / 64 < xs.length) (hFits : place % 64 + width ≤ 64)
    (hDigit : digit.toNat < 2 ^ width) (hFree : toNat xs / 2 ^ place % 2 ^ width = 0) :
    toNat (xs.set (place / 64)
        (xs.getD (place / 64) 0 ||| (digit <<< (place % 64).toUInt64))) =
      toNat xs + 2 ^ place * digit.toNat := by
  have hPower : 2 ^ place = base ^ (place / 64) * 2 ^ (place % 64) := by
    rw [base_eq, ← pow_mul, ← pow_add, Nat.div_add_mod]
  have hFreeLimb : (xs.getD (place / 64) 0).toNat / 2 ^ (place % 64) % 2 ^ width = 0 := by
    have hCut : base = 2 ^ (place % 64) * (2 ^ width * 2 ^ (64 - (place % 64 + width))) := by
      rw [← pow_add, ← pow_add, base_eq]
      congr 1
      omega
    rw [hPower, ← Nat.div_div_eq_div_mul] at hFree
    rw [toNat_getD, hCut, Nat.mod_mul_right_div_self, Nat.mod_mul_right_mod, ← hCut]
    exact hFree
  have hSet := toNat_set hPlace (xs.getD (place / 64) 0 ||| (digit <<< (place % 64).toUInt64))
  rw [toNat_or_shift (Nat.mod_lt place (by decide)) hFits hDigit hFreeLimb] at hSet
  rw [hPower]
  linear_combination hSet

end Limbs

end NybergRueppel
