import NybergRueppel.BufferedInt.Basic
import NybergRueppel.Proofs.FixedNat.Value

/-!
Buffered integers as numbers. Normalizing keeps the magnitude, so that products and differences are
those of the numbers.
-/
namespace NybergRueppel

/-- The integer of the given sign and absolute value. -/
def Sign.apply : Sign → Nat → Int
  | .plus, value => value
  | .minus, value => -value

namespace BufferedInt

open Word

/-- The absolute value. -/
def magnitude (a : BufferedInt) : Nat :=
  Limbs.toNat a.limbs

theorem toInt_eq_apply (a : BufferedInt) : a.toInt = a.sign.apply a.magnitude := by
  rw [toInt, magnitude]
  cases a.sign <;> rfl

theorem significant_limbs_le {a : BufferedInt} (hSize : 1 ≤ a.size) (hRoom : a.size ≤ a.room) :
    Limbs.significant a.limbs ≤ a.size := by
  have hLength : a.limbs.length = a.size := List.length_take_of_le hRoom
  apply (Limbs.significant_le_iff a.limbs hSize).mpr
  rw [← hLength]
  exact Limbs.toNat_lt a.limbs

theorem take_limbs {a : BufferedInt} {count : Nat} (hCount : count ≤ a.size) :
    a.limbs.take count = a.buffer.take count := by
  rw [limbs, List.take_take, Nat.min_eq_left hCount]

theorem limbs_normalize {a : BufferedInt} (hSize : 1 ≤ a.size) (hRoom : a.size ≤ a.room) :
    a.normalize.limbs = a.limbs.take (Limbs.significant a.limbs) := by
  have hSignificant := significant_limbs_le hSize hRoom
  have hTaken : (a.buffer.take (Limbs.significant a.limbs)).length =
      Limbs.significant a.limbs := List.length_take_of_le (hSignificant.trans hRoom)
  rw [normalize, take_limbs hSignificant]
  split <;> exact List.take_left' hTaken

theorem magnitude_normalize {a : BufferedInt} (hSize : 1 ≤ a.size) (hRoom : a.size ≤ a.room) :
    a.normalize.magnitude = a.magnitude := by
  rw [magnitude, limbs_normalize hSize hRoom, Limbs.toNat_take_significant, magnitude]

theorem room_normalize {a : BufferedInt} (hSize : 1 ≤ a.size) (hRoom : a.size ≤ a.room) :
    a.normalize.room = a.room := by
  have hSignificant : Limbs.significant a.limbs ≤ a.buffer.length :=
    (significant_limbs_le hSize hRoom).trans hRoom
  rw [normalize]
  split <;> simp only [room, List.length_append, List.length_take, List.length_replicate] <;> omega

theorem isNegative_normalize_of_plus {a : BufferedInt} (h : a.sign = .plus) :
    a.normalize.isNegative = false := by
  rw [normalize]
  split <;> simp [isNegative, h]

theorem sign_normalize_of_plus {a : BufferedInt} (h : a.sign = .plus) :
    a.normalize.sign = .plus := by
  rw [normalize]
  split
  · rfl
  · exact h

theorem magnitude_ofSignedLimbs (sign : Sign) (xs : List UInt64) :
    (ofSignedLimbs sign xs).magnitude = Limbs.toNat xs := by
  rw [ofSignedLimbs]
  cases xs with
  | nil => cases sign <;> rfl
  | cons x xs =>
      rw [magnitude_normalize]
      · simp [magnitude, limbs]
      · simp
      · simp [room]

theorem magnitude_ofLimbs (xs : List UInt64) : (ofLimbs xs).magnitude = Limbs.toNat xs :=
  magnitude_ofSignedLimbs .plus xs

theorem room_ofSignedLimbs (sign : Sign) (xs : List UInt64) :
    (ofSignedLimbs sign xs).room = max 1 xs.length := by
  rw [ofSignedLimbs]
  cases xs with
  | nil => cases sign <;> rfl
  | cons x xs =>
      rw [room_normalize]
      · simp [room]
      · simp
      · simp [room]

theorem magnitude_ofFixed {n : Nat} (a : FixedNat n) : (ofFixed a).magnitude = a.toNat :=
  magnitude_ofLimbs a.limbs

theorem magnitude_mul (a b : BufferedInt) : (a.mul b).magnitude = a.magnitude * b.magnitude := by
  rw [mul, magnitude_ofLimbs, Limbs.toNat_mul, magnitude, magnitude]

theorem magnitude_subWord? {a r : BufferedInt} {w : UInt64} (h : a.subWord? w = some r) :
    r.magnitude + w.toNat = a.magnitude := by
  have hDifference := Limbs.toNat_subWord a.limbs w
  rw [subWord?] at h
  generalize Limbs.subWord a.limbs w = step at h hDifference
  obtain ⟨xs, borrow⟩ := step
  simp only at h hDifference
  split at h <;> rename_i hBorrow
  · cases h
    rw [hBorrow, show (0 : UInt64).toNat = 0 from rfl, Nat.mul_zero, Nat.add_zero] at hDifference
    rw [magnitude_ofLimbs, hDifference, magnitude]
  · cases h

theorem isSome_subWord? {a : BufferedInt} {w : UInt64} (h : w.toNat ≤ a.magnitude) :
    (a.subWord? w).isSome = true := by
  have hDifference := Limbs.toNat_subWord a.limbs w
  have hLess := Limbs.toNat_lt (Limbs.subWord a.limbs w).1
  rw [Limbs.length_subWord] at hLess
  rw [magnitude] at h
  rw [subWord?]
  generalize Limbs.subWord a.limbs w = step at hDifference hLess
  obtain ⟨xs, borrow⟩ := step
  have hBorrow : borrow = 0 := by
    by_contra hNonzero
    have hPositive : 1 ≤ borrow.toNat := by
      rw [Nat.one_le_iff_ne_zero]
      exact fun h => hNonzero (UInt64.toNat_inj.mp h)
    have := Nat.mul_le_mul_left (base ^ a.limbs.length) hPositive
    simp only at hDifference hLess
    omega
  simp only [hBorrow, if_pos, Option.isSome_some]

/-- A word can be taken away exactly if it is not larger than the magnitude. -/
theorem subWord?_eq_none_iff (a : BufferedInt) (w : UInt64) :
    a.subWord? w = none ↔ a.magnitude < w.toNat := by
  constructor
  · intro hNone
    by_contra hEnough
    have hSome := isSome_subWord? (Nat.le_of_not_lt hEnough)
    rw [hNone] at hSome
    cases hSome
  · intro hLess
    cases hDifference : a.subWord? w with
    | none => rfl
    | some r =>
        have hSum := magnitude_subWord? hDifference
        omega

theorem toInt_eq_magnitude {a : BufferedInt} (h : a.isNegative = false) :
    a.toInt = a.magnitude := by
  obtain ⟨sign, size, buffer⟩ := a
  cases sign
  · rfl
  · cases h

theorem natAbs_toInt (a : BufferedInt) : a.toInt.natAbs = a.magnitude := by
  rw [toInt, magnitude]
  cases a.sign
  · exact Int.natAbs_natCast _
  · exact (Int.natAbs_neg _).trans (Int.natAbs_natCast _)

/-- Numbers that are made of limbs alone are not negative. -/
theorem sign_ofLimbs (xs : List UInt64) : (ofLimbs xs).sign = .plus :=
  sign_normalize_of_plus rfl

theorem isNegative_ofLimbs (xs : List UInt64) : (ofLimbs xs).isNegative = false :=
  isNegative_normalize_of_plus rfl

theorem toInt_ofLimbs (xs : List UInt64) : (ofLimbs xs).toInt = Limbs.toNat xs := by
  rw [toInt_eq_magnitude (isNegative_ofLimbs xs), magnitude_ofLimbs]

theorem toInt_ofFixed {n : Nat} (a : FixedNat n) : (ofFixed a).toInt = a.toNat :=
  toInt_ofLimbs a.limbs

theorem toInt_ofWord (w : UInt64) : (ofWord w).toInt = w.toNat := by
  rw [ofWord, toInt_ofLimbs, Limbs.toNat_cons, Limbs.toNat_nil, Nat.mul_zero, Nat.add_zero]

theorem isNegative_eq_false_of_pos {a : BufferedInt} (h : 0 < a.toInt) : a.isNegative = false := by
  obtain ⟨sign, size, buffer⟩ := a
  cases sign
  · rfl
  · simp only [toInt] at h
    omega

theorem isZero_eq_false_of_pos {a : BufferedInt} (h : 0 < a.magnitude) : a.isZero = false := by
  obtain ⟨sign, size, buffer⟩ := a
  by_contra hZero
  rw [Bool.not_eq_false, isZero, Bool.and_eq_true, beq_iff_eq, beq_iff_eq] at hZero
  obtain ⟨rfl, hHead⟩ := hZero
  cases buffer with
  | nil => simp [magnitude, limbs] at h
  | cons x xs =>
      rw [List.headD_cons] at hHead
      simp [magnitude, limbs, hHead, Limbs.toNat_cons] at h

theorem toFixed?_eq_some_iff {n : Nat} (a : BufferedInt) (v : FixedNat n) :
    a.toFixed? n = some v ↔ a.magnitude = v.toNat :=
  FixedNat.ofLimbs?_eq_some_iff a.limbs v

theorem toFixed?_eq_none_iff {n : Nat} (a : BufferedInt) :
    a.toFixed? n = none ↔ base ^ n ≤ a.magnitude :=
  FixedNat.ofLimbs?_eq_none_iff a.limbs

theorem exists_toFixed? {n : Nat} {a : BufferedInt} (h : a.magnitude < base ^ n) :
    ∃ v : FixedNat n, a.toFixed? n = some v ∧ v.toNat = a.magnitude := by
  cases hFixed : a.toFixed? n with
  | none => exact absurd ((toFixed?_eq_none_iff a).mp hFixed) (Nat.not_le.mpr h)
  | some v => exact ⟨v, rfl, ((toFixed?_eq_some_iff a v).mp hFixed).symm⟩

/-- A magnitude above the width is larger than every integer of that width. -/
theorem compareMagnitude_eq {n : Nat} (a : BufferedInt) (b : FixedNat n) :
    a.compareMagnitude b = compare a.magnitude b.toNat := by
  rw [compareMagnitude]
  cases hFixed : a.toFixed? n with
  | none =>
      have hLarge := (toFixed?_eq_none_iff a).mp hFixed
      exact (compare_gt_iff_gt.mpr (b.toNat_lt.trans_le hLarge)).symm
  | some v =>
      rw [(toFixed?_eq_some_iff a v).mp hFixed]
      exact FixedNat.compare_eq v b

theorem compareMagnitude_eq_lt_iff {n : Nat} (a : BufferedInt) (b : FixedNat n) :
    a.compareMagnitude b = .lt ↔ a.magnitude < b.toNat := by
  rw [compareMagnitude_eq, compare_lt_iff_lt]

end BufferedInt

end NybergRueppel
