import NybergRueppel.GroupOrder
import NybergRueppel.Proofs.Montgomery.Form

/-!
Arithmetic modulo the order of a group. The product takes one factor into Montgomery form and leaves
the other plain, so that its value is the plain product.
-/
namespace NybergRueppel.GroupOrder

open Word

variable {n : Nat} (order : GroupOrder n)

theorem modulus_pos : 0 < order.modulus.toNat :=
  NeZero.pos order.mont.modulus.toNat

theorem modulus_lt : order.modulus.toNat < 2 ^ order.bits :=
  order.modulus.toNat_lt_two_pow_bitLength

theorem bits_le_width : order.bits ≤ 64 * n := by
  have hWidth : 2 ^ order.bits ≤ base ^ n := order.modulus.bitLength_le_width
  rw [base_pow_eq] at hWidth
  exact (Nat.pow_le_pow_iff_right (by decide)).mp hWidth

theorem one_le_words : 1 ≤ order.words := by
  have hBits : 2 ≤ order.bits := order.mont.two_le_bitLength
  rw [words, FixedNat.wordsForBits]
  omega

/-- The words of the order hold every number below it. -/
theorem lt_base_pow_words {k : Nat} (hk : k < order.modulus.toNat) : k < base ^ order.words := by
  have hPower : 2 ^ order.bits ≤ base ^ order.words := by
    rw [base_pow_eq]
    apply Nat.pow_le_pow_right (by decide)
    rw [words, FixedNat.wordsForBits]
    omega
  exact hk.trans (order.modulus_lt.trans_le hPower)

theorem toNat_reduce (a : FixedNat n) : (order.reduce a).toNat = a.toNat % order.modulus.toNat :=
  order.mont.toNat_reduce a

variable {a b : FixedNat n}

theorem toNat_add (ha : a.toNat < order.modulus.toNat) (hb : b.toNat < order.modulus.toNat) :
    (order.add a b).toNat = (a.toNat + b.toNat) % order.modulus.toNat :=
  FixedNat.toNat_addMod ha hb

theorem intCast_sub (ha : a.toNat < order.modulus.toNat) (hb : b.toNat < order.modulus.toNat) :
    ((order.sub a b).toNat : Int) = ((a.toNat : Int) - b.toNat) % order.modulus.toNat :=
  FixedNat.intCast_subMod ha hb

/-- Of the two factors only the first one is taken into Montgomery form. -/
theorem toNat_mul (a b : FixedNat n) :
    (order.mul a b).toNat = a.toNat * b.toNat % order.modulus.toNat :=
  order.mont.toNat_mul_encode a b

theorem mul_lt (a b : FixedNat n) : (order.mul a b).toNat < order.modulus.toNat :=
  order.mont.mul_lt (order.mont.encode_lt a) b

/-- What is missing from a product to a number. -/
theorem intCast_sub_mul (x c : FixedNat n) {k : FixedNat n}
    (hk : k.toNat < order.modulus.toNat) :
    ((order.sub k (order.mul x c)).toNat : Int) =
      ((k.toNat : Int) - x.toNat * c.toNat) % order.modulus.toNat := by
  rw [order.intCast_sub hk (order.mul_lt x c), order.toNat_mul, Int.natCast_emod, Nat.cast_mul,
    Int.sub_emod_emod]

theorem inOpenRange_iff (a : FixedNat n) :
    order.inOpenRange a = true ↔ 0 < a.toNat ∧ a.toNat < order.modulus.toNat := by
  rw [inOpenRange, Bool.and_eq_true, Bool.not_eq_true', Bool.eq_false_iff, ne_eq,
    FixedNat.isZero_iff, decide_eq_true_iff, FixedNat.lt_iff, Nat.pos_iff_ne_zero]

end NybergRueppel.GroupOrder
