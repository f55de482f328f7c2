import NybergRueppel.FixedNat.Modular
import NybergRueppel.Proofs.FixedNat.Value

/-!
Long division and modular addition and subtraction at full width. The remainder of a division stays
below the divisor, so that what doubling pushes out of the width comes back with one subtraction.
-/
namespace NybergRueppel.FixedNat

open Word

variable {n : Nat}

/-- A step of the division doubles the remainder and takes the divisor away if it goes in. The bit
that leaves the width is made up for by the borrow of the subtraction. -/
theorem toNat_divideStep {divisor remainder : FixedNat n} (bit : Bool)
    (hRemainder : remainder.toNat < divisor.toNat) :
    (divideStep divisor remainder bit).1.toNat +
        divisor.toNat * (divideStep divisor remainder bit).2.toNat =
      2 * remainder.toNat + bit.toNat ∧
    (divideStep divisor remainder bit).1.toNat < divisor.toNat := by
  have hDouble := toNat_double remainder bit
  have hBit := Bool.toNat_le bit
  have hWidth := divisor.toNat_lt
  rw [divideStep]
  generalize remainder.double bit = step at hDouble
  obtain ⟨doubled, out⟩ := step
  simp only at hDouble ⊢
  split <;> rename_i hGoesIn
  · have hEnough : divisor.toNat ≤ 2 * remainder.toNat + bit.toNat := by
      rcases (Bool.or_eq_true _ _).mp hGoesIn with hOut | hLarge
      · rw [hOut, Bool.toNat_true] at hDouble
        omega
      · rw [Bool.not_eq_true', decide_eq_false_iff_not, lt_iff] at hLarge
        omega
    have hDifference : (doubled - divisor).toNat =
        2 * remainder.toNat + bit.toNat - divisor.toNat := by
      apply toNat_sub_of_eq_add out <;> omega
    rw [hDifference, Bool.toNat_true]
    omega
  · obtain ⟨hOut, hSmall⟩ : out = false ∧ doubled.toNat < divisor.toNat := by
      simpa [lt_iff] using hGoesIn
    rw [hOut, Bool.toNat_false] at hDouble
    refine ⟨?_, hSmall⟩
    rw [Bool.toNat_false]
    omega

/-- A quotient with room for the bits that are still to come takes in the next of them. -/
theorem toNat_double_of_room {quotient : FixedNat n} (bit : Bool) {i : Nat}
    (hRoom : (quotient.toNat + 1) * 2 ^ (i + 1) ≤ base ^ n) :
    (quotient.double bit).1.toNat = 2 * quotient.toNat + bit.toNat ∧
      ((quotient.double bit).1.toNat + 1) * 2 ^ i ≤ base ^ n := by
  have hDouble := toNat_double quotient bit
  have hBit := Bool.toNat_le bit
  have hNext : 2 * (quotient.toNat + 1) * 2 ^ i ≤ base ^ n := by
    calc
      2 * (quotient.toNat + 1) * 2 ^ i = (quotient.toNat + 1) * 2 ^ (i + 1) := by ring
      _ ≤ base ^ n := hRoom
  have hFits : 2 * (quotient.toNat + 1) ≤ base ^ n :=
    (Nat.le_mul_of_pos_right _ (Nat.two_pow_pos i)).trans hNext
  have hNoOverflow : (quotient.double bit).2 = false := by
    cases hOut : (quotient.double bit).2
    · rfl
    · rw [hOut, Bool.toNat_true] at hDouble
      omega
  rw [hNoOverflow, Bool.toNat_false, Nat.mul_zero, Nat.add_zero] at hDouble
  exact ⟨hDouble, (Nat.mul_le_mul_right _ (by omega)).trans hNext⟩

/-- Taking in `count` bits of the dividend. The invariant is that quotient and remainder stand for
the part of the dividend that was taken in; the bound on the quotient leaves room for the bits that
are still to come. -/
theorem toNat_divideBits (dividend : FixedNat n) {divisor : FixedNat n} (count : Nat)
    {quotient remainder : FixedNat n} (hRemainder : remainder.toNat < divisor.toNat)
    (hQuotient : (quotient.toNat + 1) * 2 ^ count ≤ base ^ n) :
    (divideBits dividend divisor count quotient remainder).1.toNat * divisor.toNat +
        (divideBits dividend divisor count quotient remainder).2.toNat =
      (quotient.toNat * divisor.toNat + remainder.toNat) * 2 ^ count +
        dividend.toNat % 2 ^ count ∧
    (divideBits dividend divisor count quotient remainder).2.toNat < divisor.toNat := by
  induction count generalizing quotient remainder with
  | zero => simpa [divideBits, Nat.mod_one] using hRemainder
  | succ i ih =>
      obtain ⟨hStep, hLess⟩ := toNat_divideStep (dividend.testBit i) hRemainder
      obtain ⟨hDouble, hNext⟩ := toNat_double_of_room
        (divideStep divisor remainder (dividend.testBit i)).2 hQuotient
      obtain ⟨hEquation, hFinal⟩ := ih hLess hNext
      refine ⟨?_, hFinal⟩
      simp only [divideBits]
      rw [hEquation, hDouble, Nat.mod_pow_succ, ← Nat.toNat_testBit, ← testBit_eq, pow_succ]
      linear_combination 2 ^ i * hStep

theorem bitLength_le_width (a : FixedNat n) : 2 ^ a.bitLength ≤ base ^ n := by
  have hLess := a.toNat_lt
  rw [base_pow_eq] at hLess ⊢
  exact Nat.pow_le_pow_right (by decide) ((bitLength_le_iff a _).mpr hLess)

/-- A quotient of zero has room for every bit of a dividend. -/
theorem zero_room (a : FixedNat n) :
    ((0 : FixedNat n).toNat + 1) * 2 ^ a.bitLength ≤ base ^ n := by
  rw [toNat_zero, Nat.zero_add, Nat.one_mul]
  exact a.bitLength_le_width

/-- Quotient and remainder are exact, and the remainder is below the divisor. -/
theorem toNat_divMod (a : FixedNat n) {d : FixedNat n} (hd : 0 < d.toNat) :
    (a.divMod d).1.toNat * d.toNat + (a.divMod d).2.toNat = a.toNat ∧
      (a.divMod d).2.toNat < d.toNat := by
  rw [divMod]
  split <;> rename_i hSmall
  · rw [lt_iff] at hSmall
    exact ⟨by simp, hSmall⟩
  · have hZero : (0 : FixedNat n).toNat < d.toNat := by rwa [toNat_zero]
    obtain ⟨hEquation, hLess⟩ := toNat_divideBits a a.bitLength hZero a.zero_room
    rw [toNat_zero, Nat.zero_mul, Nat.zero_add, Nat.zero_mul, Nat.zero_add,
      Nat.mod_eq_of_lt (toNat_lt_two_pow_bitLength a)] at hEquation
    exact ⟨hEquation, hLess⟩

/-- Every divisor but zero divides. -/
theorem divMod?_eq_some (a : FixedNat n) {d : FixedNat n} (hd : 0 < d.toNat) :
    a.divMod? d = some (a.divMod d) := by
  rw [divMod?, if_neg fun h => hd.ne' ((isZero_iff d).mp h)]

theorem divMod?_eq_none (a : FixedNat n) {d : FixedNat n} (hd : d.toNat = 0) :
    a.divMod? d = none := by
  rw [divMod?, if_pos ((isZero_iff d).mpr hd)]

theorem toNat_mod (a : FixedNat n) {m : FixedNat n} (hm : 0 < m.toNat) :
    (a.mod m).toNat = a.toNat % m.toNat := by
  obtain ⟨hEquation, hLess⟩ := toNat_divMod a hm
  rw [← hEquation, Nat.add_comm, Nat.add_mul_mod_self_right]
  exact (Nat.mod_eq_of_lt hLess).symm

theorem toNat_addMod {m a b : FixedNat n} (ha : a.toNat < m.toNat) (hb : b.toNat < m.toNat) :
    (addMod m a b).toNat = (a.toNat + b.toNat) % m.toNat := by
  have hSum := toNat_addCarry a b
  have hWidth := m.toNat_lt
  rw [addMod]
  generalize a.addCarry b = sum at hSum
  obtain ⟨sum, carry⟩ := sum
  simp only at hSum ⊢
  split <;> rename_i hLarge
  · have hEnough : m.toNat ≤ a.toNat + b.toNat := by
      rcases (Bool.or_eq_true _ _).mp hLarge with hCarry | hSum'
      · rw [hCarry, Bool.toNat_true] at hSum
        omega
      · rw [Bool.not_eq_true', decide_eq_false_iff_not, lt_iff] at hSum'
        omega
    rw [Nat.mod_eq_sub_mod hEnough, Nat.mod_eq_of_lt (by omega)]
    apply toNat_sub_of_eq_add carry <;> omega
  · obtain ⟨hCarry, hSmall⟩ : carry = false ∧ sum.toNat < m.toNat := by
      simpa [lt_iff] using hLarge
    rw [hCarry, Bool.toNat_false, Nat.mul_zero, Nat.add_zero] at hSum
    rw [← hSum, Nat.mod_eq_of_lt hSmall]

theorem toNat_subMod {m a b : FixedNat n} (ha : a.toNat < m.toNat) (hb : b.toNat < m.toNat) :
    (subMod m a b).toNat = (a.toNat + (m.toNat - b.toNat)) % m.toNat := by
  have hDifference := toNat_subBorrow a b
  have hWidth := m.toNat_lt
  rw [subMod]
  generalize a.subBorrow b = difference at hDifference
  obtain ⟨difference, borrow⟩ := difference
  simp only at hDifference ⊢
  cases borrow
  · rw [Bool.toNat_false] at hDifference
    have hSum : a.toNat + (m.toNat - b.toNat) = difference.toNat + m.toNat := by omega
    rw [if_neg (by decide), hSum, Nat.add_mod_right, Nat.mod_eq_of_lt (by omega)]
  · have hWrapped := difference.toNat_lt
    rw [Bool.toNat_true] at hDifference
    have hSum : (difference + m).toNat + base ^ n * (difference.addCarry m).2.toNat =
        difference.toNat + m.toNat := toNat_addCarry difference m
    have hResult := (difference + m).toNat_lt
    rw [if_pos rfl, Nat.mod_eq_of_lt (by omega)]
    cases hCarry : (difference.addCarry m).2
    all_goals
      simp only [hCarry, Bool.toNat_true, Bool.toNat_false] at hSum
      omega

/-- The difference of residues is the residue of their difference, which can be negative. -/
theorem intCast_subMod {m a b : FixedNat n} (ha : a.toNat < m.toNat) (hb : b.toNat < m.toNat) :
    ((subMod m a b).toNat : Int) = ((a.toNat : Int) - b.toNat) % m.toNat := by
  rw [toNat_subMod ha hb, Int.natCast_emod, Nat.cast_add, Nat.cast_sub hb.le,
    show (a.toNat : Int) + (m.toNat - b.toNat) = a.toNat - b.toNat + m.toNat by ring,
    Int.add_emod_right]

end NybergRueppel.FixedNat
