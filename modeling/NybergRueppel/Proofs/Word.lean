import Mathlib.Tactic.Ring
import NybergRueppel.Limbs

/-!
Machine words as numbers. Every operation that splits a result into the word that stays and the part
that leaves is an equation between numbers: nothing is lost between the two parts.
-/
namespace NybergRueppel.Word

theorem base_eq : base = 2 ^ 64 := rfl

theorem base_pos : 0 < base := by decide

theorem base_pow_eq (n : Nat) : base ^ n = 2 ^ (64 * n) := by
  rw [base_eq, ← pow_mul]

theorem toNat_lt_base (w : UInt64) : w.toNat < base := w.toNat_lt

theorem toNat_ofBool (b : Bool) : b.toUInt64.toNat = b.toNat := by
  cases b <;> rfl

theorem toNat_ofBool_add (a b : Bool) : (a.toUInt64 + b.toUInt64).toNat = a.toNat + b.toNat := by
  cases a <;> cases b <;> rfl

/-- The outgoing carry is what the sum loses by wrapping. Both partial sums may wrap, but not in the
same addition, so that one bit is enough. -/
theorem toNat_addCarry (a b : UInt64) (carry : Bool) :
    (addCarry a b carry).1.toNat + base * (addCarry a b carry).2.toNat =
      a.toNat + b.toNat + carry.toNat := by
  have ha := a.toNat_lt
  have hb := b.toNat_lt
  have hc : carry.toNat ≤ 1 := Bool.toNat_le carry
  by_cases hFirst : a + b < a <;> by_cases hSecond : a + b + carry.toUInt64 < a + b
  all_goals
    simp only [addCarry, hFirst, hSecond, decide_true, decide_false, Bool.or_true, Bool.or_false,
      Bool.toNat_true, Bool.toNat_false]
    simp only [UInt64.lt_iff_toNat_lt, UInt64.toNat_add, toNat_ofBool] at hFirst hSecond ⊢
    rw [base_eq]
    omega

/-- The outgoing borrow is what the difference gains by wrapping. -/
theorem toNat_subBorrow (a b : UInt64) (borrow : Bool) :
    (subBorrow a b borrow).1.toNat + b.toNat + borrow.toNat =
      a.toNat + base * (subBorrow a b borrow).2.toNat := by
  have ha := a.toNat_lt
  have hb := b.toNat_lt
  have hc : borrow.toNat ≤ 1 := Bool.toNat_le borrow
  by_cases hFirst : a < b <;> by_cases hSecond : a - b < borrow.toUInt64
  all_goals
    simp only [subBorrow, hFirst, hSecond, decide_true, decide_false, Bool.or_true, Bool.or_false,
      Bool.toNat_true, Bool.toNat_false]
    simp only [UInt64.lt_iff_toNat_lt, UInt64.toNat_sub, toNat_ofBool] at hFirst hSecond ⊢
    rw [base_eq]
    omega

theorem toNat_lowHalf (w : UInt64) : (w &&& 0xFFFFFFFF).toNat = w.toNat % 2 ^ 32 := by
  rw [UInt64.toNat_and]
  exact Nat.and_two_pow_sub_one_eq_mod w.toNat 32

theorem toNat_highHalf (w : UInt64) : (w >>> 32).toNat = w.toNat / 2 ^ 32 := by
  rw [UInt64.toNat_shiftRight]
  exact Nat.shiftRight_eq_div_pow _ _

/-- The product of two words is exact. The four products of the halves are at most
`(2 ^ 32 - 1) ^ 2`, so that neither sum of the middle part wraps. -/
theorem toNat_product (a b : UInt64) : (product a b).toNat = a.toNat * b.toNat := by
  have ha := a.toNat_lt
  have hb := b.toNat_lt
  generalize hx : a.toNat % 2 ^ 32 = x
  generalize hx' : a.toNat / 2 ^ 32 = x'
  generalize hy : b.toNat % 2 ^ 32 = y
  generalize hy' : b.toNat / 2 ^ 32 = y'
  have hLow : x * y ≤ (2 ^ 32 - 1) * (2 ^ 32 - 1) := Nat.mul_le_mul (by omega) (by omega)
  have hLeft : x' * y ≤ (2 ^ 32 - 1) * (2 ^ 32 - 1) := Nat.mul_le_mul (by omega) (by omega)
  have hRight : x * y' ≤ (2 ^ 32 - 1) * (2 ^ 32 - 1) := Nat.mul_le_mul (by omega) (by omega)
  have hHigh : x' * y' ≤ (2 ^ 32 - 1) * (2 ^ 32 - 1) := Nat.mul_le_mul (by omega) (by omega)
  have hSplit : a.toNat * b.toNat =
      x * y + 2 ^ 32 * (x' * y + x * y') + 2 ^ 64 * (x' * y') := by
    have haSplit : a.toNat = x + 2 ^ 32 * x' := by omega
    have hbSplit : b.toNat = y + 2 ^ 32 * y' := by omega
    rw [haSplit, hbSplit]
    grind
  simp only [product, Double.toNat, UInt64.toNat_add, UInt64.toNat_mul, toNat_lowHalf,
    toNat_highHalf, hx, hx', hy, hy']
  rw [base_eq, hSplit]
  generalize x * y = p at *
  generalize x' * y = q at *
  generalize x * y' = r at *
  generalize x' * y' = s at *
  omega

theorem toNat_add (d : Double) (w : UInt64) (h : d.toNat + w.toNat < base * base) :
    (d.add w).toNat = d.toNat + w.toNat := by
  have hLow := d.low.toNat_lt
  have hHigh := d.high.toNat_lt
  have hw := w.toNat_lt
  simp only [Double.toNat, base_eq] at h
  simp only [Double.add, Double.toNat, UInt64.lt_iff_toNat_lt, UInt64.toNat_add]
  split <;> rename_i hCarry
  · rw [UInt64.toNat_add, show (1 : UInt64).toNat = 1 from rfl, base_eq]
    omega
  · rw [base_eq]
    omega

/-- A double word holds a product and two more words: `(2 ^ 64 - 1) ^ 2 + 2 * (2 ^ 64 - 1)` is the
largest double word. -/
theorem toNat_mulAdd (t a b c : UInt64) :
    (mulAdd t a b c).toNat = t.toNat + a.toNat * b.toNat + c.toNat := by
  have hProduct : a.toNat * b.toNat ≤ (2 ^ 64 - 1) * (2 ^ 64 - 1) :=
    Nat.mul_le_mul (Nat.le_pred_of_lt a.toNat_lt) (Nat.le_pred_of_lt b.toNat_lt)
  have ht := t.toNat_lt
  have hc := c.toNat_lt
  have hFirst : ((product a b).add t).toNat = a.toNat * b.toNat + t.toNat := by
    rw [toNat_add, toNat_product]
    rw [toNat_product, base_eq]
    omega
  rw [mulAdd, toNat_add, hFirst]
  · omega
  · rw [hFirst, base_eq]
    omega

/-- A shift by less than a word is by its amount. -/
theorem toNat_amount_mod {s : Nat} (hs : s < 64) : s.toUInt64.toNat % 64 = s := by
  have hWord : s.toUInt64.toNat = s % 2 ^ 64 := rfl
  omega

theorem testBit_eq (w : UInt64) {i : Nat} (hi : i < 64) : testBit w i = w.toNat.testBit i := by
  rw [testBit, Nat.testBit_eq_decide_div_mod_eq]
  congr 1
  rw [← UInt64.toNat_inj, UInt64.toNat_and, UInt64.toNat_shiftRight, toNat_amount_mod hi,
    Nat.shiftRight_eq_div_pow, show (1 : UInt64).toNat = 1 from rfl, Nat.and_one_is_mod]

/-- The bit length of a word is the least one that suffices. -/
theorem bitLength_le_iff (w : UInt64) (k : Nat) : bitLength w ≤ k ↔ w.toNat < 2 ^ k := by
  by_cases hZero : w = 0
  · rw [bitLength, if_pos hZero, hZero]
    exact ⟨fun _ => Nat.two_pow_pos k, fun _ => Nat.zero_le k⟩
  · have hPositive : w.toNat ≠ 0 := fun h => hZero (UInt64.toNat_inj.mp h)
    have hLog : w.log2.toNat = w.toNat.log2 := rfl
    rw [bitLength, if_neg hZero, hLog, Nat.add_one_le_iff, Nat.log2_lt hPositive]

/-- Doubling moves the highest bit out and a new lowest bit in. -/
theorem toNat_double (w : UInt64) (bit : Bool) :
    ((w <<< 1) ||| bit.toUInt64).toNat + base * (testBit w 63).toNat = 2 * w.toNat + bit.toNat := by
  have hw := w.toNat_lt
  have hTop : (testBit w 63).toNat = w.toNat / 2 ^ 63 := by
    rw [testBit_eq w (by omega), Nat.toNat_testBit]
    omega
  have hBit : bit.toUInt64.toNat < 2 := by cases bit <;> decide
  have hShift : (w <<< 1).toNat = 2 ^ 1 * (w.toNat % 2 ^ 63) := by
    rw [UInt64.toNat_shiftLeft, Nat.shiftLeft_eq, show (1 : UInt64).toNat % 64 = 1 from rfl]
    omega
  rw [UInt64.toNat_or, hShift, ← Nat.two_pow_add_eq_or_of_lt hBit, toNat_ofBool, hTop, base_eq]
  omega

end NybergRueppel.Word
