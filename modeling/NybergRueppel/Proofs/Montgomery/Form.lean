import Mathlib.Data.ZMod.Basic
import NybergRueppel.Proofs.Montgomery.Product

/-!
Integers in Montgomery form as residues. The form of a residue `x` is the integer `x * R` below the
modulus, with `R = 2 ^ (64 * n)`. Since `R` is a unit modulo an odd number, a form determines its
residue and every residue has one form; products, sums and differences of forms are those of the
residues.
-/
namespace NybergRueppel.Montgomery

open Word

variable {n : Nat} (ctx : Montgomery n)

theorem modulus_mod_two : ctx.modulus.toNat % 2 = 1 :=
  (FixedNat.isOdd_iff _).mp ctx.isOdd_modulus

theorem three_le_modulus : 3 ≤ ctx.modulus.toNat := by
  have hOdd := ctx.modulus_mod_two
  have hLarge : ¬ctx.modulus.toNat < 2 ^ 1 := by
    rw [← FixedNat.bitLength_le_iff]
    have := ctx.two_le_bitLength
    omega
  omega

theorem limbs_pos {n : Nat} (ctx : Montgomery n) : 0 < n := by
  have hWidth := ctx.modulus.toNat_lt
  have hLarge := ctx.three_le_modulus
  cases n with
  | zero =>
      rw [pow_zero] at hWidth
      omega
  | succ n => exact Nat.succ_pos n

instance : NeZero ctx.modulus.toNat :=
  ⟨by have := ctx.three_le_modulus; omega⟩

instance : Fact (1 < ctx.modulus.toNat) :=
  ⟨by have := ctx.three_le_modulus; omega⟩

theorem headD_limbs_mod_two : (ctx.modulus.limbs.headD 0).toNat % 2 = 1 := by
  rw [Limbs.toNat_headD, Nat.mod_mod_of_dvd _ (by decide)]
  exact ctx.modulus_mod_two

theorem headD_mul_negInv : ctx.modulus.limbs.headD 0 * ctx.negInv = -1 := by
  have hInverse := mul_inverseWord ctx.headD_limbs_mod_two
  rw [ctx.negInv_eq]
  grind

theorem coprime_radix : (base ^ n).Coprime ctx.modulus.toNat := by
  rw [base_pow_eq]
  apply Nat.Coprime.pow_left
  rw [Nat.coprime_two_left, Nat.odd_iff]
  exact ctx.modulus_mod_two

/-- The residue that an integer in Montgomery form stands for. -/
def residue (a : FixedNat n) : ZMod ctx.modulus.toNat :=
  a.toNat * ((base ^ n : Nat) : ZMod ctx.modulus.toNat)⁻¹

theorem radix_mul_inv :
    ((base ^ n : Nat) : ZMod ctx.modulus.toNat) *
      ((base ^ n : Nat) : ZMod ctx.modulus.toNat)⁻¹ = 1 :=
  ZMod.coe_mul_inv_eq_one _ ctx.coprime_radix

theorem residue_mul_radix (a : FixedNat n) :
    ctx.residue a * ((base ^ n : Nat) : ZMod ctx.modulus.toNat) = a.toNat := by
  rw [residue]
  linear_combination (a.toNat : ZMod ctx.modulus.toNat) * ctx.radix_mul_inv

theorem eq_of_natCast_eq {a b : FixedNat n} (ha : a.toNat < ctx.modulus.toNat)
    (hb : b.toNat < ctx.modulus.toNat) (h : (a.toNat : ZMod ctx.modulus.toNat) = b.toNat) :
    a = b := by
  rw [ZMod.natCast_eq_natCast_iff', Nat.mod_eq_of_lt ha, Nat.mod_eq_of_lt hb] at h
  exact FixedNat.eq_of_toNat_eq h

/-- A residue has only one form below the modulus. -/
theorem eq_of_residue_eq {a b : FixedNat n} (ha : a.toNat < ctx.modulus.toNat)
    (hb : b.toNat < ctx.modulus.toNat) (h : ctx.residue a = ctx.residue b) : a = b := by
  apply ctx.eq_of_natCast_eq ha hb
  rw [← residue_mul_radix, h, residue_mul_radix]

theorem zero_lt_modulus : (0 : FixedNat n).toNat < ctx.modulus.toNat := by
  have := ctx.three_le_modulus
  rw [FixedNat.toNat_zero]
  omega

@[simp]
theorem residue_zero : ctx.residue 0 = 0 := by
  rw [residue, FixedNat.toNat_zero, Nat.cast_zero, zero_mul]

theorem addMod_lt {a b : FixedNat n} (ha : a.toNat < ctx.modulus.toNat)
    (hb : b.toNat < ctx.modulus.toNat) :
    (FixedNat.addMod ctx.modulus a b).toNat < ctx.modulus.toNat := by
  rw [FixedNat.toNat_addMod ha hb]
  exact Nat.mod_lt _ (NeZero.pos _)

theorem natCast_addMod {a b : FixedNat n} (ha : a.toNat < ctx.modulus.toNat)
    (hb : b.toNat < ctx.modulus.toNat) :
    ((FixedNat.addMod ctx.modulus a b).toNat : ZMod ctx.modulus.toNat) = a.toNat + b.toNat := by
  rw [FixedNat.toNat_addMod ha hb, ZMod.natCast_mod, Nat.cast_add]

theorem residue_addMod {a b : FixedNat n} (ha : a.toNat < ctx.modulus.toNat)
    (hb : b.toNat < ctx.modulus.toNat) :
    ctx.residue (FixedNat.addMod ctx.modulus a b) = ctx.residue a + ctx.residue b := by
  rw [residue, ctx.natCast_addMod ha hb, residue, residue]
  ring

theorem subMod_lt {a b : FixedNat n} (ha : a.toNat < ctx.modulus.toNat)
    (hb : b.toNat < ctx.modulus.toNat) :
    (FixedNat.subMod ctx.modulus a b).toNat < ctx.modulus.toNat := by
  rw [FixedNat.toNat_subMod ha hb]
  exact Nat.mod_lt _ (NeZero.pos _)

theorem natCast_subMod {a b : FixedNat n} (ha : a.toNat < ctx.modulus.toNat)
    (hb : b.toNat < ctx.modulus.toNat) :
    ((FixedNat.subMod ctx.modulus a b).toNat : ZMod ctx.modulus.toNat) = a.toNat - b.toNat := by
  rw [FixedNat.toNat_subMod ha hb, ZMod.natCast_mod, Nat.cast_add, Nat.cast_sub hb.le,
    ZMod.natCast_self]
  ring

theorem residue_subMod {a b : FixedNat n} (ha : a.toNat < ctx.modulus.toNat)
    (hb : b.toNat < ctx.modulus.toNat) :
    ctx.residue (FixedNat.subMod ctx.modulus a b) = ctx.residue a - ctx.residue b := by
  rw [residue, ctx.natCast_subMod ha hb, residue, residue]
  ring

theorem mul_lt {a : FixedNat n} (ha : a.toNat < ctx.modulus.toNat) (b : FixedNat n) :
    (ctx.mul a b).toNat < ctx.modulus.toNat :=
  (toNat_montgomeryProduct b ctx.headD_mul_negInv ha).1

theorem radix_mul_natCast_mul {a : FixedNat n} (ha : a.toNat < ctx.modulus.toNat)
    (b : FixedNat n) :
    ((base ^ n : Nat) : ZMod ctx.modulus.toNat) * (ctx.mul a b).toNat = a.toNat * b.toNat := by
  have h := (toNat_montgomeryProduct b ctx.headD_mul_negInv ha).2
  rw [← ZMod.natCast_eq_natCast_iff, Nat.cast_mul, Nat.cast_mul] at h
  exact h

/-- One factor in Montgomery form and one plain factor give the plain product. -/
theorem natCast_mul {a : FixedNat n} (ha : a.toNat < ctx.modulus.toNat) (b : FixedNat n) :
    ((ctx.mul a b).toNat : ZMod ctx.modulus.toNat) = ctx.residue a * b.toNat := by
  have h := ctx.radix_mul_natCast_mul ha b
  rw [residue]
  linear_combination ((base ^ n : Nat) : ZMod ctx.modulus.toNat)⁻¹ * h -
    ((ctx.mul a b).toNat : ZMod ctx.modulus.toNat) * ctx.radix_mul_inv

theorem residue_mul {a : FixedNat n} (ha : a.toNat < ctx.modulus.toNat) (b : FixedNat n) :
    ctx.residue (ctx.mul a b) = ctx.residue a * ctx.residue b := by
  rw [residue, ctx.natCast_mul ha, residue.eq_1 ctx b, mul_assoc]

theorem toNat_powerOfTwo (count : Nat) :
    (powerOfTwo ctx.modulus count).toNat = 2 ^ count % ctx.modulus.toNat := by
  have hModulus := ctx.three_le_modulus
  induction count with
  | zero =>
      rw [powerOfTwo, FixedNat.toNat_one ctx.limbs_pos, pow_zero, Nat.mod_eq_of_lt (by omega)]
  | succ count ih =>
      have hLess : (powerOfTwo ctx.modulus count).toNat < ctx.modulus.toNat := by
        rw [ih]
        exact Nat.mod_lt _ (by omega)
      rw [powerOfTwo, FixedNat.toNat_addMod hLess hLess, ih, ← Nat.add_mod, pow_succ, Nat.mul_two]

theorem residue_rSquared : ctx.residue ctx.rSquared = (base ^ n : Nat) := by
  have hPower : 2 ^ (2 * FixedNat.width n) = base ^ n * base ^ n := by
    rw [base_eq, FixedNat.width, ← pow_mul, ← pow_add]
    congr 1
    omega
  rw [residue, ctx.rSquared_eq, toNat_powerOfTwo, ZMod.natCast_mod, hPower, Nat.cast_mul]
  linear_combination ((base ^ n : Nat) : ZMod ctx.modulus.toNat) * ctx.radix_mul_inv

theorem one_lt_modulus : (1 : FixedNat n).toNat < ctx.modulus.toNat := by
  have := ctx.three_le_modulus
  rw [FixedNat.toNat_one ctx.limbs_pos]
  omega

theorem one_lt : ctx.one.toNat < ctx.modulus.toNat := by
  rw [ctx.one_eq]
  exact ctx.mul_lt ctx.one_lt_modulus ctx.rSquared

@[simp]
theorem residue_one : ctx.residue ctx.one = 1 := by
  have hMul : ctx.one = ctx.mul 1 ctx.rSquared := ctx.one_eq
  rw [hMul, ctx.residue_mul ctx.one_lt_modulus, residue_rSquared, residue_mul_radix,
    FixedNat.toNat_one ctx.limbs_pos, Nat.cast_one]

/-- The form of one is the residue of the radix. -/
theorem toNat_one : ctx.one.toNat = base ^ n % ctx.modulus.toNat := by
  have hOne := ctx.residue_mul_radix ctx.one
  rw [residue_one, one_mul, ZMod.natCast_eq_natCast_iff', Nat.mod_eq_of_lt ctx.one_lt] at hOne
  exact hOne.symm

theorem toNat_reduce (a : FixedNat n) : (ctx.reduce a).toNat = a.toNat % ctx.modulus.toNat := by
  rw [reduce]
  split <;> rename_i hSmall
  · rw [Nat.mod_eq_of_lt ((FixedNat.lt_iff _ _).mp hSmall)]
  · exact FixedNat.toNat_mod a (NeZero.pos _)

theorem reduce_lt (a : FixedNat n) : (ctx.reduce a).toNat < ctx.modulus.toNat := by
  rw [toNat_reduce]
  exact Nat.mod_lt _ (NeZero.pos _)

theorem encode_lt (a : FixedNat n) : (ctx.encode a).toNat < ctx.modulus.toNat :=
  ctx.mul_lt (ctx.reduce_lt a) _

/-- Encoding an integer of any size gives the form of its residue. -/
@[simp]
theorem residue_encode (a : FixedNat n) : ctx.residue (ctx.encode a) = a.toNat := by
  rw [encode, ctx.residue_mul (ctx.reduce_lt a), residue_rSquared, residue_mul_radix, toNat_reduce,
    ZMod.natCast_mod]

/-- The product of an encoded integer and a plain one is the plain product. -/
theorem toNat_mul_encode (a b : FixedNat n) :
    (ctx.mul (ctx.encode a) b).toNat = a.toNat * b.toNat % ctx.modulus.toNat := by
  have hProduct := ctx.natCast_mul (ctx.encode_lt a) b
  rw [residue_encode, ← Nat.cast_mul, ZMod.natCast_eq_natCast_iff',
    Nat.mod_eq_of_lt (ctx.mul_lt (ctx.encode_lt a) b)] at hProduct
  exact hProduct

theorem decode_lt {a : FixedNat n} (ha : a.toNat < ctx.modulus.toNat) :
    (ctx.decode a).toNat < ctx.modulus.toNat :=
  ctx.mul_lt ha 1

theorem natCast_decode {a : FixedNat n} (ha : a.toNat < ctx.modulus.toNat) :
    ((ctx.decode a).toNat : ZMod ctx.modulus.toNat) = ctx.residue a := by
  rw [decode, ctx.natCast_mul ha, FixedNat.toNat_one ctx.limbs_pos, Nat.cast_one, mul_one]

/-- Decoding gives the least number of the residue. -/
theorem toNat_decode {a : FixedNat n} (ha : a.toNat < ctx.modulus.toNat) :
    (ctx.decode a).toNat = (ctx.residue a).val := by
  rw [← ctx.natCast_decode ha, ZMod.val_natCast, Nat.mod_eq_of_lt (ctx.decode_lt ha)]

/-- Encoding and decoding together reduce an integer of any size. -/
theorem toNat_decode_encode (a : FixedNat n) :
    (ctx.decode (ctx.encode a)).toNat = a.toNat % ctx.modulus.toNat := by
  rw [ctx.toNat_decode (ctx.encode_lt a), residue_encode, ZMod.val_natCast]

theorem decode_encode {a : FixedNat n} (ha : a.toNat < ctx.modulus.toNat) :
    ctx.decode (ctx.encode a) = a := by
  apply FixedNat.eq_of_toNat_eq
  rw [toNat_decode_encode, Nat.mod_eq_of_lt ha]

theorem encode_decode {a : FixedNat n} (ha : a.toNat < ctx.modulus.toNat) :
    ctx.encode (ctx.decode a) = a := by
  apply ctx.eq_of_residue_eq (ctx.encode_lt _) ha
  rw [residue_encode, ctx.natCast_decode ha]

theorem isSome_ofModulus?_iff (m : FixedNat n) :
    (ofModulus? m).isSome = true ↔ m.toNat % 2 = 1 ∧ 3 ≤ m.toNat := by
  have hLong : 2 ≤ m.bitLength ↔ 2 ≤ m.toNat := by
    rw [← not_lt, ← not_lt, Nat.lt_succ_iff, FixedNat.bitLength_le_iff, pow_one]
  rw [ofModulus?, ← FixedNat.isOdd_iff]
  split <;> rename_i h
  · have hOdd := (FixedNat.isOdd_iff m).mp h.1
    have := hLong.mp h.2
    simp only [Option.isSome_some, true_iff]
    exact ⟨h.1, by omega⟩
  · simp only [Option.isSome_none, Bool.false_eq_true, false_iff]
    rintro ⟨hOdd, hLarge⟩
    exact h ⟨hOdd, hLong.mpr (by omega)⟩

/-- What the constructor makes keeps the modulus that it was given. -/
theorem ofModulus?_eq_some {m : FixedNat n} {ctx : Montgomery n} (h : ofModulus? m = some ctx) :
    ctx.modulus = m := by
  rw [ofModulus?] at h
  split at h
  · cases h
    rfl
  · cases h

/-- A modulus has no other context than the one that the constructor makes. -/
theorem ofModulus?_modulus (ctx : Montgomery n) : ofModulus? ctx.modulus = some ctx := by
  obtain ⟨m, hOdd, hLong, _, rfl, _, rfl, _, rfl⟩ := ctx
  exact dif_pos ⟨hOdd, hLong⟩

theorem exists_ofModulus?_eq_some {m : FixedNat n} (hOdd : m.toNat % 2 = 1) (hLarge : 3 ≤ m.toNat) :
    ∃ ctx, ofModulus? m = some ctx ∧ ctx.modulus = m := by
  obtain ⟨ctx, hContext⟩ :=
    Option.isSome_iff_exists.mp ((isSome_ofModulus?_iff m).mpr ⟨hOdd, hLarge⟩)
  exact ⟨ctx, hContext, ofModulus?_eq_some hContext⟩

end NybergRueppel.Montgomery
