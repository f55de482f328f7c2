import NybergRueppel.Proofs.Checked.FixedNat
import NybergRueppel.Proofs.FixedNat.Division
import NybergRueppel.Proofs.Limbs.Places

/-!
Long division on the checking machine. The bits of the quotient are set in place, each at its own
limb, where the running definition shifts them in from below; for a divisor that is not zero both
give the same quotient and the same remainder, and no step stops.
-/
namespace NybergRueppel

open Checked

theorem toUInt64_bne_zero (b : Bool) : (b.toUInt64 != 0) = b := by
  cases b <;> rfl

namespace FixedNat

open Word

variable {n : Nat}

/-- The bit that a limb takes over from the limb below it. -/
def checkedBitBelow (a : FixedNat n) (i : Nat) : Checked UInt64 := do
  if 0 < i then shiftDown (← read a.limbs (← difference i 1)) 63 else return 0

theorem checkedBitBelow_eq (a : FixedNat n) {i : Nat} (hi : i < n) :
    a.checkedBitBelow i = .ok (if 0 < i then a.limbs.getD (i - 1) 0 >>> 63 else 0) := by
  rw [checkedBitBelow]
  split <;> rename_i hPositive
  · rw [difference_eq_ok hPositive, ok_bind, read_limbs a (by omega), ok_bind,
      shiftDown_eq_ok _ (by decide)]
    rfl
  · rfl

/-- Shifts up by one bit. The word holds the bit that leaves the width. -/
def checkedDouble (a : FixedNat n) : Checked (FixedNat n × UInt64) := do
  let limbs ← (List.range n).foldrM (fun i result => do
    write result i ((← shiftUp (← read a.limbs i) 1) ||| (← a.checkedBitBelow i)))
    (0 : FixedNat n).limbs
  return (ofLimbs n limbs, ← shiftDown (← read a.limbs (← difference n 1)) 63)

/-- The limbs are written from the highest down, and those still to be written are zero. -/
theorem checkedDouble_eq (hn : 0 < n) (a : FixedNat n) :
    a.checkedDouble = .ok ((a.double false).1, (a.double false).2.toUInt64) := by
  have hLength : (Limbs.double a.limbs false).1.length = n := by
    rw [Limbs.length_double, a.length_limbs]
  let value (i : Nat) : List UInt64 := List.replicate i 0 ++ (Limbs.double a.limbs false).1.drop i
  have hStart : value n = (0 : FixedNat n).limbs := by
    simp only [value, List.drop_of_length_le hLength.le, List.append_nil, limbs_zero]
  rw [checkedDouble, ← hStart, foldrM_range value, ok_bind, difference_eq_ok hn, ok_bind,
    read_limbs a (by omega), ok_bind, shiftDown_eq_ok _ (by decide), ok_bind]
  · have hOut := Limbs.toUInt64_snd_double (hn.trans_eq a.length_limbs.symm) false
    rw [a.length_limbs] at hOut
    exact congrArg Except.ok (Prod.ext (ofLimbs_limbs (a.double false).1) hOut.symm)
  · intro i hi
    have hPlace : i < (Limbs.double a.limbs false).1.length := hi.trans_eq hLength.symm
    have hLimb := Limbs.getD_double a.limbs false (hi.trans_eq a.length_limbs.symm)
    rw [List.getD_eq_getElem?_getD, List.getElem?_eq_getElem hPlace, Option.getD_some] at hLimb
    simp only [value]
    rw [read_limbs a hi, ok_bind, shiftUp_eq_ok _ (by decide), ok_bind, checkedBitBelow_eq a hi,
      ok_bind, List.drop_eq_getElem_cons hPlace, hLimb, List.replicate_succ', List.append_assoc,
      List.singleton_append, write_append List.length_replicate]
    rfl

/-- Shifts up by one bit and puts a bit into the free place. -/
def checkedShiftIn (a : FixedNat n) (bit : Bool) : Checked (FixedNat n × UInt64) := do
  let (doubled, out) ← a.checkedDouble
  if bit then return (ofLimbs n (← update doubled.limbs 0 (· ||| 1)), out)
  else return (doubled, out)

theorem checkedShiftIn_eq (hn : 0 < n) (a : FixedNat n) (bit : Bool) :
    a.checkedShiftIn bit = .ok ((a.double bit).1, (a.double bit).2.toUInt64) := by
  rw [checkedShiftIn, checkedDouble_eq hn, ok_bind]
  cases bit with
  | false => rfl
  | true =>
      obtain ⟨limbs, rfl⟩ := a
      cases limbs with
      | nil => cases hn
      | cons x xs =>
          have hLow : (x <<< 1 ||| false.toUInt64) ||| (1 : UInt64) =
              x <<< 1 ||| true.toUInt64 := by
            rw [show false.toUInt64 = 0 from rfl, UInt64.or_zero]
            rfl
          have hUpdate : update (double ⟨x :: xs, rfl⟩ false).1.limbs 0 (· ||| 1) =
              .ok (double ⟨x :: xs, rfl⟩ true).1.limbs :=
            congrArg (fun low => Except.ok (low :: (Limbs.double xs (Word.testBit x 63)).1)) hLow
          simp only [if_true, hUpdate, ok_bind, ofLimbs_limbs]
          rfl

/-- Takes the lowest `count` bits of the dividend into the remainder, the highest of them first, and
sets the bits of the quotient at which the divisor goes in. -/
def checkedDivideBits (dividend divisor : FixedNat n) :
    Nat → FixedNat n → FixedNat n → Checked (FixedNat n × FixedNat n)
  | 0, quotient, remainder => return (quotient, remainder)
  | i + 1, quotient, remainder => do
    let (doubled, out) ← remainder.checkedShiftIn (← dividend.checkedTestBit i)
    if out != 0 || (← doubled.checkedCompare divisor) != .lt then
      let remainder ← doubled.checkedSub divisor
      let bit ← shiftUp 1 (i % 64)
      let limbs ← update quotient.limbs (i / 64) (· ||| bit)
      checkedDivideBits dividend divisor i (ofLimbs n limbs) remainder
    else checkedDivideBits dividend divisor i quotient doubled

/-- A bit that is not set yet is added at its place. -/
theorem exists_update_bit_eq {a : FixedNat n} {i : Nat} (hPlace : i / 64 < n)
    (hFree : a.toNat / 2 ^ i % 2 = 0) :
    ∃ bit ys, shiftUp 1 (i % 64) = .ok bit ∧ update a.limbs (i / 64) (· ||| bit) = .ok ys ∧
      (ofLimbs n ys).toNat = a.toNat + 2 ^ i := by
  have hWithin : i / 64 < a.limbs.length := hPlace.trans_eq a.length_limbs.symm
  refine ⟨_, _, shiftUp_eq_ok 1 (by omega), update_eq_ok hWithin _ 0, ?_⟩
  have hOne : (1 : UInt64).toNat < 2 ^ 1 := by decide
  rw [toNat_ofLimbs_of_length (by rw [List.length_set, a.length_limbs]),
    Limbs.toNat_set_or hWithin (by omega) hOne hFree, ← toNat,
    show (1 : UInt64).toNat = 1 from rfl, Nat.mul_one]

/-- The bits of the quotient that are still to come stand for zeros below those that were set. -/
theorem checkedDivideBits_eq (dividend : FixedNat n) {divisor : FixedNat n} {count : Nat}
    {placed quotient remainder : FixedNat n} (hRemainder : remainder.toNat < divisor.toNat)
    (hQuotient : (quotient.toNat + 1) * 2 ^ count ≤ base ^ n)
    (hPlaced : placed.toNat = quotient.toNat * 2 ^ count) :
    checkedDivideBits dividend divisor count placed remainder =
      .ok (divideBits dividend divisor count quotient remainder) := by
  induction count generalizing placed quotient remainder with
  | zero =>
      rw [pow_zero, Nat.mul_one, toNat_inj] at hPlaced
      rw [hPlaced]
      rfl
  | succ i ih =>
      have hPlace : i / 64 < n := by
        have hPower : 2 ^ (i + 1) ≤ base ^ n :=
          (Nat.le_mul_of_pos_left _ (Nat.succ_pos _)).trans hQuotient
        rw [base_pow_eq, Nat.pow_le_pow_iff_right (by decide)] at hPower
        omega
      have hn : 0 < n := Nat.zero_lt_of_lt hPlace
      obtain ⟨-, hLess⟩ := toNat_divideStep (dividend.testBit i) hRemainder
      rw [checkedDivideBits, checkedTestBit_eq, ok_bind, checkedShiftIn_eq hn, ok_bind, divideBits]
      rw [divideStep] at hLess ⊢
      generalize remainder.double (dividend.testBit i) = twice at hLess ⊢
      obtain ⟨doubled, out⟩ := twice
      simp only [checkedCompare_eq, ok_bind, bne_lt_eq, toUInt64_bne_zero] at hLess ⊢
      by_cases hGoesIn : (out || !decide (doubled < divisor)) = true
      · obtain ⟨hDouble, hNext⟩ := toNat_double_of_room true hQuotient
        rw [if_pos hGoesIn] at hLess
        have hFree : placed.toNat / 2 ^ i % 2 = 0 := by
          rw [hPlaced, pow_succ, ← Nat.mul_assoc, Nat.mul_right_comm,
            Nat.mul_div_cancel _ (Nat.two_pow_pos i), Nat.mul_mod_left]
        obtain ⟨bit, ys, hBit, hUpdate, hSet⟩ := exists_update_bit_eq hPlace hFree
        rw [if_pos hGoesIn, if_pos hGoesIn, checkedSub_eq, ok_bind, hBit, ok_bind, hUpdate, ok_bind]
        refine ih hLess hNext ?_
        rw [hSet, hPlaced, hDouble, Bool.toNat_true, pow_succ]
        ring
      · obtain ⟨hDouble, hNext⟩ := toNat_double_of_room false hQuotient
        rw [if_neg hGoesIn] at hLess
        rw [if_neg hGoesIn, if_neg hGoesIn]
        refine ih hLess hNext ?_
        rw [hPlaced, hDouble, Bool.toNat_false, pow_succ]
        ring

/-- Division by one needs no loop. -/
theorem divMod_of_isOne (hn : 0 < n) (a : FixedNat n) {d : FixedNat n} (hOne : d.isOne = true) :
    a.divMod d = (a, 0) := by
  rw [isOne, decide_eq_true_iff] at hOne
  have hValue : d.toNat = 1 := by rw [hOne, toNat_one hn]
  obtain ⟨hEquation, hLess⟩ := toNat_divMod a (hValue ▸ Nat.one_pos : 0 < d.toNat)
  rw [hValue] at hEquation hLess
  refine Prod.ext ?_ ?_ <;> apply eq_of_toNat_eq
  · simp only
    omega
  · simp only [toNat_zero]
    omega

/-- Quotient and remainder. -/
def checkedDivMod (a d : FixedNat n) : Checked (FixedNat n × FixedNat n) := do
  demand (!d.isZero) .divisionByZero
  if (← a.checkedCompare d) = .lt then return (0, a)
  else if ← d.checkedIsOne then return (a, 0)
  else checkedDivideBits a d (← a.checkedBitLength) 0 0

theorem checkedDivMod_eq (a : FixedNat n) {d : FixedNat n} (hd : 0 < d.toNat) :
    a.checkedDivMod d = .ok (a.divMod d) := by
  have hn : 0 < n := by
    apply Nat.pos_of_ne_zero
    rintro rfl
    have := d.toNat_lt
    rw [pow_zero] at this
    omega
  have hNonzero : (!d.isZero) = true := by
    rw [Bool.not_eq_true', Bool.eq_false_iff, Ne, isZero_iff]
    exact hd.ne'
  rw [checkedDivMod, demand_eq_ok hNonzero, ok_bind, checkedCompare_eq, ok_bind,
    checkedIsOne_eq hn, ok_bind, checkedBitLength_eq, ok_bind]
  by_cases hCompare : compare a d = .lt
  · have hSmall : a < d := hCompare
    rw [if_pos hCompare, divMod, if_pos hSmall]
    rfl
  have hLarge : ¬a < d := hCompare
  rw [if_neg hCompare]
  split <;> rename_i hOne
  · rw [divMod_of_isOne hn a hOne]
    rfl
  · have hZero : (0 : FixedNat n).toNat < d.toNat := by rwa [toNat_zero]
    rw [checkedDivideBits_eq a hZero a.zero_room (by rw [toNat_zero, Nat.zero_mul]), divMod,
      if_neg hLarge]

def checkedMod (a m : FixedNat n) : Checked (FixedNat n) := do
  return (← a.checkedDivMod m).2

theorem checkedMod_eq (a : FixedNat n) {m : FixedNat n} (hm : 0 < m.toNat) :
    a.checkedMod m = .ok (a.mod m) := by
  rw [checkedMod, checkedDivMod_eq a hm]
  rfl

/-- Dividing by zero stops the machine before its first comparison. -/
theorem checkedDivMod_eq_error (a : FixedNat n) {d : FixedNat n} (hd : d.toNat = 0) :
    a.checkedDivMod d = .error .divisionByZero := by
  have hZero : d.isZero = true := (isZero_iff d).mpr hd
  rw [checkedDivMod, hZero]
  rfl

/-- Division gives the one quotient and the one remainder of the integers, whatever bits of the
divisor are set, and no step of it stops. Nothing is divided by zero. -/
theorem division_exact (a d : FixedNat n) :
    (0 < d.toNat → ∃ q r, a.divMod? d = some (q, r) ∧ a.mod? d = some r ∧
      a.checkedDivMod d = .ok (q, r) ∧ a.checkedMod d = .ok r ∧
      a.toNat = q.toNat * d.toNat + r.toNat ∧ r.toNat < d.toNat) ∧
    (d.toNat = 0 → a.divMod? d = none ∧ a.mod? d = none ∧
      a.checkedDivMod d = .error .divisionByZero ∧ a.checkedMod d = .error .divisionByZero) := by
  constructor
  · intro hd
    obtain ⟨hEquation, hLess⟩ := toNat_divMod a hd
    have hPair := divMod?_eq_some a hd
    refine ⟨(a.divMod d).1, (a.divMod d).2, hPair, ?_, checkedDivMod_eq a hd, checkedMod_eq a hd,
      hEquation.symm, hLess⟩
    rw [mod?, hPair, Option.map_some]
  · intro hd
    have hNone := divMod?_eq_none a hd
    have hStop := checkedDivMod_eq_error a hd
    refine ⟨hNone, ?_, hStop, ?_⟩
    · rw [mod?, hNone, Option.map_none]
    · rw [checkedMod, hStop]
      rfl

/-- The divisor is `2 ^ 127 + 1`, so that a remainder which is doubled can leave the width, and the
dividend is `2 ^ 128 - 1`. -/
theorem division_exact_top_bit :
    let a : FixedNat 2 := ⟨[-1, -1], rfl⟩
    let d : FixedNat 2 := ⟨[1, 0x8000000000000000], rfl⟩
    (∃ q r, a.divMod? d = some (q, r) ∧ a.checkedDivMod d = .ok (q, r) ∧
      a.checkedMod d = .ok r ∧ q.toNat = 1 ∧ r.toNat = 2 ^ 127 - 2) ∧
    a.divMod? 0 = none ∧ a.checkedDivMod 0 = .error .divisionByZero := by
  intro a d
  have hValues : a.toNat = 2 ^ 128 - 1 ∧ d.toNat = 2 ^ 127 + 1 := by decide
  have hPositive : 0 < d.toNat := by decide
  obtain ⟨q, r, hPair, -, hRun, hRest, hEquation, hLess⟩ := (division_exact a d).1 hPositive
  obtain ⟨hNone, -, hStop, -⟩ := (division_exact a 0).2 toNat_zero
  rw [hValues.1, hValues.2] at hEquation
  rw [hValues.2] at hLess
  refine ⟨⟨q, r, hPair, hRun, hRest, ?_, ?_⟩, hNone, hStop⟩ <;> omega

end FixedNat

end NybergRueppel
