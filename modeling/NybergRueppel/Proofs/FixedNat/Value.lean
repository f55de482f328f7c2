import NybergRueppel.FixedNat.Division
import NybergRueppel.Proofs.Limbs.Bits
import NybergRueppel.Proofs.Limbs.Carry

/-!
Fixed-width integers as numbers below `2 ^ (64 * n)`. An integer is determined by its number, and
comparison, sums, differences, bits and windows are those of the numbers.
-/
namespace NybergRueppel.FixedNat

open Word

variable {n : Nat}

theorem toNat_lt (a : FixedNat n) : a.toNat < base ^ n := by
  have hLess := Limbs.toNat_lt a.limbs
  rwa [a.length_limbs] at hLess

theorem eq_of_toNat_eq {a b : FixedNat n} (h : a.toNat = b.toNat) : a = b := by
  obtain ⟨xs, hxs⟩ := a
  obtain ⟨ys, hys⟩ := b
  obtain rfl : xs = ys := Limbs.eq_of_toNat_eq (hxs.trans hys.symm) h
  rfl

theorem toNat_inj {a b : FixedNat n} : a.toNat = b.toNat ↔ a = b :=
  ⟨eq_of_toNat_eq, congrArg toNat⟩

theorem exists_toNat_eq {k : Nat} (h : k < base ^ n) : ∃ a : FixedNat n, a.toNat = k := by
  obtain ⟨xs, hLength, hValue⟩ := Limbs.exists_toNat_eq h
  exact ⟨⟨xs, hLength⟩, hValue⟩

theorem toNat_ofLimbs (xs : List UInt64) :
    (ofLimbs n xs).toNat = Limbs.toNat xs % base ^ n :=
  Limbs.toNat_fit n xs

theorem toNat_ofLimbs_of_length {xs : List UInt64} (h : xs.length = n) :
    (ofLimbs n xs).toNat = Limbs.toNat xs := by
  rw [toNat_ofLimbs, Nat.mod_eq_of_lt]
  exact h ▸ Limbs.toNat_lt xs

/-- Limbs make an integer exactly if their number fits into the width. -/
theorem ofLimbs?_eq_some_iff (xs : List UInt64) (a : FixedNat n) :
    ofLimbs? n xs = some a ↔ Limbs.toNat xs = a.toNat := by
  have hFits := Limbs.isZero_drop_iff xs n
  rw [ofLimbs?]
  split <;> rename_i hHigh
  · rw [Option.some.injEq, ← toNat_inj, toNat_ofLimbs, Nat.mod_eq_of_lt (hFits.mp hHigh)]
  · have hLarge := mt hFits.mpr hHigh
    have ha := a.toNat_lt
    constructor
    · intro h
      cases h
    · intro h
      omega

theorem ofLimbs?_eq_none_iff (xs : List UInt64) :
    ofLimbs? n xs = none ↔ base ^ n ≤ Limbs.toNat xs := by
  rw [ofLimbs?, ← Nat.not_lt, ← Limbs.isZero_drop_iff xs n]
  split <;> rename_i hHigh <;> simp [hHigh]

@[simp]
theorem toNat_zero : (0 : FixedNat n).toNat = 0 := by
  have h : (0 : FixedNat n).toNat = Limbs.toNat [] % base ^ n := toNat_ofLimbs []
  rw [h, Limbs.toNat_nil, Nat.zero_mod]

theorem toNat_ofWord (hn : 0 < n) (w : UInt64) : (ofWord w : FixedNat n).toNat = w.toNat := by
  have hWord := toNat_lt_base w
  have hPower : base ≤ base ^ n := Nat.le_self_pow (by omega) base
  rw [ofWord, toNat_ofLimbs, Limbs.toNat_cons, Limbs.toNat_nil, Nat.mod_eq_of_lt] <;> omega

theorem toNat_one (hn : 0 < n) : (1 : FixedNat n).toNat = 1 :=
  toNat_ofWord hn 1

theorem isZero_iff (a : FixedNat n) : a.isZero = true ↔ a.toNat = 0 :=
  Limbs.isZero_iff a.limbs

theorem isZero_iff_eq_zero (a : FixedNat n) : a.isZero = true ↔ a = 0 := by
  rw [isZero_iff, ← toNat_inj, toNat_zero]

theorem testBit_eq (a : FixedNat n) (i : Nat) : a.testBit i = a.toNat.testBit i :=
  Limbs.testBit_eq a.limbs i

theorem isOdd_iff (a : FixedNat n) : a.isOdd = true ↔ a.toNat % 2 = 1 := by
  have h : a.isOdd = a.toNat.testBit 0 := Limbs.testBit_eq a.limbs 0
  rw [h, Nat.testBit_zero, decide_eq_true_iff]

theorem bitLength_le_iff (a : FixedNat n) (k : Nat) : a.bitLength ≤ k ↔ a.toNat < 2 ^ k :=
  Limbs.bitLength_le_iff a.limbs k

theorem toNat_lt_two_pow_bitLength (a : FixedNat n) : a.toNat < 2 ^ a.bitLength :=
  (bitLength_le_iff a _).mp (Nat.le_refl _)

theorem compare_eq (a b : FixedNat n) : compare a b = compare a.toNat b.toNat :=
  Limbs.compare_eq (a.length_limbs.trans b.length_limbs.symm)

theorem lt_iff (a b : FixedNat n) : a < b ↔ a.toNat < b.toNat := by
  have h : a < b ↔ compare a b = .lt := Iff.rfl
  rw [h, compare_eq, Nat.compare_eq_lt]

/-- The digits of a window are read one bit at a time, the highest first. -/
theorem window_eq (a : FixedNat n) (start width : Nat) :
    a.window start width = a.toNat / 2 ^ start % 2 ^ width := by
  rw [window]
  induction width generalizing start with
  | zero => simp [Nat.mod_one]
  | succ width ih =>
      rw [List.range_succ_eq_map, List.foldr_cons, List.foldr_map]
      have hTail := ih (start + 1)
      simp only [Nat.add_right_comm start 1, Nat.add_assoc] at hTail
      simp only [Nat.succ_eq_add_one, Nat.add_zero]
      rw [hTail, testBit_eq, Nat.toNat_testBit, pow_succ' 2 width, Nat.mod_mul,
        Nat.div_div_eq_div_mul, ← pow_succ, Nat.add_comm]

theorem toNat_addCarry (a b : FixedNat n) :
    (a.addCarry b).1.toNat + base ^ n * (a.addCarry b).2.toNat = a.toNat + b.toNat := by
  have h := Limbs.toNat_addCarry (a.length_limbs.trans b.length_limbs.symm) false
  rw [a.length_limbs] at h
  exact h

theorem toNat_subBorrow (a b : FixedNat n) :
    (a.subBorrow b).1.toNat + b.toNat = a.toNat + base ^ n * (a.subBorrow b).2.toNat := by
  have h := Limbs.toNat_subBorrow (a.length_limbs.trans b.length_limbs.symm) false
  rw [a.length_limbs] at h
  exact h

theorem toNat_double (a : FixedNat n) (bit : Bool) :
    (a.double bit).1.toNat + base ^ n * (a.double bit).2.toNat = 2 * a.toNat + bit.toNat := by
  have h := Limbs.toNat_double a.limbs bit
  rw [a.length_limbs] at h
  exact h

/-- The wrapping difference of numbers `a` and `b` with `b` at most `a`, where `a` may have lost a
carry at the width. -/
theorem toNat_sub_of_eq_add {a b : FixedNat n} (carry : Bool) {c : Nat} (hc : c < base ^ n)
    (h : a.toNat + base ^ n * carry.toNat = c + b.toNat) : (a - b).toNat = c := by
  have hDifference : (a - b).toNat + b.toNat = a.toNat + base ^ n * (a.subBorrow b).2.toNat :=
    toNat_subBorrow a b
  have hResult := (a - b).toNat_lt
  cases carry <;> cases hBorrow : (a.subBorrow b).2
  all_goals
    simp only [hBorrow, Bool.toNat_true, Bool.toNat_false, Nat.mul_zero, Nat.mul_one] at *
    omega

theorem toNat_sub_of_le {a b : FixedNat n} (h : b.toNat ≤ a.toNat) :
    (a - b).toNat = a.toNat - b.toNat := by
  have ha := a.toNat_lt
  apply toNat_sub_of_eq_add false
  · omega
  · rw [Bool.toNat_false]
    omega

end NybergRueppel.FixedNat
