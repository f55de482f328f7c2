import NybergRueppel.Proofs.FixedNat.Product
import NybergRueppel.Proofs.Montgomery.Form

/-!
Montgomery multiplication beside multiplication by shifting and adding. The two have no step in
common, and each is exact for factors of any size, so that they agree everywhere.
-/
namespace NybergRueppel.Montgomery

variable {n : Nat}

/-- The product of two integers by way of their forms is exact. -/
theorem toNat_mulMod (ctx : Montgomery n) (a b : FixedNat n) :
    (ctx.mulMod a b).toNat = a.toNat * b.toNat % ctx.modulus.toNat := by
  have ha := ctx.encode_lt a
  rw [mulMod, ctx.toNat_decode (ctx.mul_lt ha _), ctx.residue_mul ha, residue_encode,
    residue_encode, ← Nat.cast_mul, ZMod.val_natCast]

theorem mulMod?_eq_some_mulMod (ctx : Montgomery n) (a b : FixedNat n) :
    FixedNat.mulMod? ctx.modulus a b = some (ctx.mulMod a b) := by
  have hModulus : 0 < ctx.modulus.toNat := NeZero.pos _
  rw [FixedNat.mulMod?_eq_some hModulus, Option.some.injEq]
  apply FixedNat.eq_of_toNat_eq
  rw [FixedNat.toNat_mulMod hModulus, ctx.toNat_mulMod]

/-- Every odd modulus from three on has a context, whose products are those of shifting and adding
and of the integers, whatever the size of the factors is. Going to the form and back reduces an
integer, going from a form and back changes nothing, and one is represented by the radix. A form
times a plain integer is the plain product. -/
theorem agrees_with_shiftAndAdd {m : FixedNat n} (hOdd : m.toNat % 2 = 1) (hLarge : 3 ≤ m.toNat) :
    ∃ ctx, ofModulus? m = some ctx ∧
      (∀ a b, FixedNat.mulMod? m a b = some (ctx.mulMod a b) ∧
        (ctx.mulMod a b).toNat = a.toNat * b.toNat % m.toNat) ∧
      (∀ a, (ctx.decode (ctx.encode a)).toNat = a.toNat % m.toNat) ∧
      (∀ a, a.toNat < m.toNat → ctx.encode (ctx.decode a) = a) ∧
      ctx.one.toNat = 2 ^ (64 * n) % m.toNat ∧
      ∀ a b, (ctx.mul (ctx.encode a) b).toNat = a.toNat * b.toNat % m.toNat := by
  obtain ⟨ctx, hContext, rfl⟩ := exists_ofModulus?_eq_some hOdd hLarge
  refine ⟨ctx, hContext, ?_, ctx.toNat_decode_encode, fun a ha => ctx.encode_decode ha, ?_,
    ctx.toNat_mul_encode⟩
  · intro a b
    exact ⟨ctx.mulMod?_eq_some_mulMod a b, ctx.toNat_mulMod a b⟩
  · rw [ctx.toNat_one, Word.base_eq, ← pow_mul]

/-- The modulus is `2 ^ 128 - 3`, and both factors are `2 ^ 128 - 1`, which is above it. -/
theorem agrees_with_shiftAndAdd_above_modulus :
    let m : FixedNat 2 := ⟨[-3, -1], rfl⟩
    let a : FixedNat 2 := ⟨[-1, -1], rfl⟩
    ∃ ctx, ofModulus? m = some ctx ∧ FixedNat.mulMod? m a a = some (ctx.mulMod a a) ∧
      (ctx.mulMod a a).toNat = 4 ∧ ctx.encode (ctx.decode 1) = 1 := by
  intro m a
  obtain ⟨ctx, hContext, hProduct, -, hForm, -, -⟩ :=
    agrees_with_shiftAndAdd (m := m) (by decide) (by decide)
  exact ⟨ctx, hContext, (hProduct a a).1, (hProduct a a).2.trans (by decide),
    hForm 1 (by decide)⟩

end NybergRueppel.Montgomery
