import NybergRueppel.Proofs.Montgomery.Form
import NybergRueppel.Proofs.RepeatedSquaring

/-!
Powers in Montgomery form. A power of a form is the form of the power of its residue, for exponents
of any number of limbs.
-/
namespace NybergRueppel.Montgomery

variable {n : Nat} (ctx : Montgomery n)

theorem pow_lt {a : FixedNat n} (ha : a.toNat < ctx.modulus.toNat) (exponent : List UInt64) :
    (ctx.pow a exponent).toNat < ctx.modulus.toNat :=
  powBits_closed (P := fun a => a.toNat < ctx.modulus.toNat) (fun _ b ha _ => ctx.mul_lt ha b)
    (Limbs.bits exponent) ctx.one_lt ha

/-- A power of a form is the form of the power of its residue. -/
theorem residue_pow {a : FixedNat n} (ha : a.toNat < ctx.modulus.toNat) (exponent : List UInt64) :
    ctx.residue (ctx.pow a exponent) = ctx.residue a ^ Limbs.toNat exponent := by
  have hPower := map_powBits (P := fun a => a.toNat < ctx.modulus.toNat) (v := ctx.residue)
    (fun _ b ha _ => ctx.mul_lt ha b) (fun _ b ha _ => ctx.residue_mul ha b) (Limbs.bits exponent)
    ctx.one_lt ha
  rwa [residue_one, one_mul, Limbs.ofDigits_bits] at hPower

/-- Decoding a power gives the residue of the power of what the base decodes to. -/
theorem toNat_decode_pow {a : FixedNat n} (ha : a.toNat < ctx.modulus.toNat)
    (exponent : List UInt64) :
    (ctx.decode (ctx.pow a exponent)).toNat =
      (ctx.decode a).toNat ^ Limbs.toNat exponent % ctx.modulus.toNat := by
  rw [ctx.toNat_decode (ctx.pow_lt ha exponent), ctx.residue_pow ha, ← ctx.natCast_decode ha,
    ← Nat.cast_pow, ZMod.val_natCast]

/-- Powers of integers of any size are exact. -/
theorem toNat_powMod (a e : FixedNat n) :
    (ctx.powMod a e).toNat = a.toNat ^ e.toNat % ctx.modulus.toNat := by
  rw [powMod, ctx.toNat_decode_pow (ctx.encode_lt a), ctx.toNat_decode_encode, ← Nat.pow_mod]
  rfl

/-- The exponent of inversion. -/
theorem toNat_modulus_sub_two :
    (ctx.modulus - FixedNat.ofWord 2).toNat + 2 = ctx.modulus.toNat := by
  have hTwo : (FixedNat.ofWord 2 : FixedNat n).toNat = 2 := FixedNat.toNat_ofWord ctx.limbs_pos 2
  have hModulus := ctx.three_le_modulus
  rw [FixedNat.toNat_sub_of_le (by omega), hTwo]
  omega

end NybergRueppel.Montgomery
