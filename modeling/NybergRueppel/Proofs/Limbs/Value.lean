import Mathlib.Tactic.Ring
import NybergRueppel.Proofs.Word

/-!
Lists of limbs as numbers. A list of limbs is the number with these digits to the base `2 ^ 64`;
lists of one length are equal when their numbers are, and compare as their numbers do.
-/
namespace NybergRueppel.Limbs

open Word

@[simp]
theorem toNat_nil : toNat [] = 0 := rfl

theorem toNat_cons (x : UInt64) (xs : List UInt64) :
    toNat (x :: xs) = x.toNat + base * toNat xs := rfl

/-- Whether a number is below a multiple of the base depends on the limbs above the lowest. -/
theorem toNat_cons_lt_iff (x : UInt64) (xs : List UInt64) (m : Nat) :
    toNat (x :: xs) < base * m ↔ toNat xs < m := by
  rw [toNat_cons, Nat.mul_comm base m, ← Nat.div_lt_iff_lt_mul base_pos,
    Nat.add_mul_div_left _ _ base_pos, Nat.div_eq_of_lt (toNat_lt_base x), Nat.zero_add]

/-- The lowest limb is the number modulo the base. -/
theorem toNat_headD (xs : List UInt64) : (xs.headD 0).toNat = toNat xs % base := by
  cases xs with
  | nil => rfl
  | cons x xs =>
      rw [List.headD_cons, toNat_cons, Nat.add_mul_mod_self_left,
        Nat.mod_eq_of_lt (toNat_lt_base x)]

theorem base_pow_pos (n : Nat) : 0 < base ^ n := Nat.pow_pos base_pos

theorem toNat_lt (xs : List UInt64) : toNat xs < base ^ xs.length := by
  induction xs with
  | nil => simp
  | cons x xs ih =>
      have hx := toNat_lt_base x
      calc
        toNat (x :: xs) < base + base * toNat xs := by rw [toNat_cons]; omega
        _ = base * (toNat xs + 1) := by ring
        _ ≤ base * base ^ xs.length := Nat.mul_le_mul_left _ ih
        _ = base ^ (x :: xs).length := by rw [List.length_cons, pow_succ, Nat.mul_comm]

theorem toNat_append (xs ys : List UInt64) :
    toNat (xs ++ ys) = toNat xs + base ^ xs.length * toNat ys := by
  induction xs with
  | nil => simp
  | cons x xs ih =>
      rw [List.cons_append, toNat_cons, ih, toNat_cons, List.length_cons, pow_succ]
      ring

theorem toNat_replicate_zero (n : Nat) : toNat (List.replicate n 0) = 0 := by
  induction n with
  | zero => rfl
  | succ n ih => rw [List.replicate_succ, toNat_cons, ih]; rfl

theorem toNat_map_zero (xs : List UInt64) : toNat (xs.map fun _ => 0) = 0 := by
  rw [List.map_const', toNat_replicate_zero]

/-- The digits of a number to the base `2 ^ 64` are unique. -/
theorem eq_of_toNat_eq {xs ys : List UInt64} (hLength : xs.length = ys.length)
    (h : toNat xs = toNat ys) : xs = ys := by
  induction xs generalizing ys with
  | nil => exact (List.eq_nil_of_length_eq_zero hLength.symm).symm
  | cons x xs ih =>
      cases ys with
      | nil => simp at hLength
      | cons y ys =>
          have hx := toNat_lt_base x
          have hy := toNat_lt_base y
          rw [toNat_cons, toNat_cons] at h
          have hLow : x.toNat = y.toNat := by
            have hMod := congrArg (· % base) h
            simpa [Nat.add_mul_mod_self_left, Nat.mod_eq_of_lt hx, Nat.mod_eq_of_lt hy] using hMod
          have hHigh : toNat xs = toNat ys := by
            rw [hLow] at h
            exact Nat.eq_of_mul_eq_mul_left base_pos (Nat.add_left_cancel h)
          rw [UInt64.toNat_inj.mp hLow, ih (Nat.succ.inj hLength) hHigh]

/-- Every number below a power of the base has that many limbs. -/
theorem exists_toNat_eq {n k : Nat} (h : k < base ^ n) :
    ∃ xs : List UInt64, xs.length = n ∧ toNat xs = k := by
  induction n generalizing k with
  | zero =>
      rw [pow_zero] at h
      exact ⟨[], rfl, by rw [toNat_nil]; omega⟩
  | succ n ih =>
      rw [pow_succ, Nat.mul_comm] at h
      obtain ⟨xs, hLength, hHigh⟩ := ih (Nat.div_lt_of_lt_mul h)
      have hLow : (UInt64.ofNat (k % base)).toNat = k % base :=
        UInt64.toNat_ofNat_of_lt' (Nat.mod_lt _ base_pos)
      refine ⟨UInt64.ofNat (k % base) :: xs, congrArg Nat.succ hLength, ?_⟩
      rw [toNat_cons, hLow, hHigh, Nat.mod_add_div]

theorem isZero_iff (xs : List UInt64) : isZero xs = true ↔ toNat xs = 0 := by
  induction xs with
  | nil => simp [isZero]
  | cons x xs ih =>
      have hBase := base_pos
      have hWord : x = 0 ↔ x.toNat = 0 := UInt64.toNat_inj.symm
      rw [isZero] at ih
      rw [isZero, List.all_cons, Bool.and_eq_true, ih, beq_iff_eq, hWord, toNat_cons,
        Nat.add_eq_zero_iff, Nat.mul_eq_zero]
      have hNonzero : base ≠ 0 := by omega
      simp only [hNonzero, false_or]

/-- The first digits in which two numbers differ, from the top, decide the comparison. -/
theorem digit_lt {x y a b : Nat} (hx : x < base) (h : a < b) : x + base * a < y + base * b := by
  have hStep : base * (a + 1) ≤ base * b := Nat.mul_le_mul_left _ h
  rw [Nat.mul_add] at hStep
  omega

theorem compare_eq {xs ys : List UInt64} (hLength : xs.length = ys.length) :
    compare xs ys = Ord.compare (toNat xs) (toNat ys) := by
  induction xs generalizing ys with
  | nil =>
      rw [List.eq_nil_of_length_eq_zero hLength.symm]
      exact (Nat.compare_eq_eq.mpr rfl).symm
  | cons x xs ih =>
      cases ys with
      | nil => simp at hLength
      | cons y ys =>
          have hx := toNat_lt_base x
          have hy := toNat_lt_base y
          rw [compare, ih (Nat.succ.inj hLength), toNat_cons, toNat_cons]
          rcases Nat.lt_trichotomy (toNat xs) (toNat ys) with hLess | hEqual | hGreater
          · rw [Nat.compare_eq_lt.mpr hLess, Nat.compare_eq_lt.mpr (digit_lt hx hLess)]
            rfl
          · have hWord : Ord.compare x y = Ord.compare x.toNat y.toNat := by
              simp only [compareOfLessAndEq, Ord.compare, UInt64.lt_iff_toNat_lt, UInt64.toNat_inj]
            rw [hEqual, Nat.compare_eq_eq.mpr rfl, hWord]
            simp only [Ord.compare, compareOfLessAndEq, Ordering.then, Nat.add_lt_add_iff_right,
              Nat.add_right_cancel_iff]
          · rw [Nat.compare_eq_gt.mpr hGreater, Nat.compare_eq_gt.mpr (digit_lt hy hGreater)]
            rfl

theorem toNat_fit (n : Nat) (xs : List UInt64) : toNat (fit n xs) = toNat xs % base ^ n := by
  induction n generalizing xs with
  | zero => simp [fit, Nat.mod_one]
  | succ n ih =>
      have hSplit : toNat xs = (xs.headD 0).toNat + base * toNat xs.tail := by
        cases xs <;> simp [toNat]
      rw [fit, toNat_cons, ih, hSplit, pow_succ, Nat.mul_comm (base ^ n), Nat.mod_mul,
        Nat.add_mul_mod_self_left, Nat.mod_eq_of_lt (toNat_lt_base _),
        Nat.add_mul_div_left _ _ base_pos, Nat.div_eq_of_lt (toNat_lt_base _), Nat.zero_add]

theorem toNat_take_add_drop (xs : List UInt64) (k : Nat) :
    toNat xs = toNat (xs.take k) + base ^ (xs.take k).length * toNat (xs.drop k) := by
  rw [← toNat_append, List.take_append_drop]

/-- The limbs above a place are zero exactly if the number ends below it. -/
theorem isZero_drop_iff (xs : List UInt64) (k : Nat) :
    isZero (xs.drop k) = true ↔ toNat xs < base ^ k := by
  rw [isZero_iff]
  by_cases hShort : xs.length ≤ k
  · have hLess : toNat xs < base ^ k :=
      (toNat_lt xs).trans_le (Nat.pow_le_pow_right base_pos hShort)
    simp [List.drop_of_length_le hShort, hLess]
  · have hTake : (xs.take k).length = k := List.length_take_of_le (by omega)
    have hSplit := toNat_take_add_drop xs k
    have hLow := toNat_lt (xs.take k)
    rw [hTake] at hSplit hLow
    constructor
    · intro hZero
      rw [hSplit, hZero]
      omega
    · intro hLess
      by_contra hNonzero
      have hLarge : base ^ k * 1 ≤ base ^ k * toNat (xs.drop k) :=
        Nat.mul_le_mul_left _ (Nat.one_le_iff_ne_zero.mpr hNonzero)
      omega

end NybergRueppel.Limbs
