import NybergRueppel.Proofs.Checked.Montgomery

/-!
The two constants of a modulus. The inverse of a word is right in one bit at the start of the Newton
steps and in twice as many after each of them, so that six steps are enough for every odd word. The
square of the radix is reached from one by doublings of residues, whose sums may leave the width.
-/
namespace NybergRueppel

open Checked Word

/-- After `k` steps the low `2 ^ k` bits are right, as far as a word has them. -/
theorem mul_newtonStep_iterate_mod {a : UInt64} (ha : a.toNat % 2 = 1) {k : Nat} (hk : k ≤ 6) :
    a.toNat * ((newtonStep a)^[k] 1).toNat % 2 ^ 2 ^ k = 1 := by
  obtain ⟨t, hError⟩ := exists_newton_error ha k
  generalize (newtonStep a)^[k] 1 = x at hError ⊢
  have hSum : a * x + UInt64.ofNat (2 ^ 2 ^ k) * t = 1 := by
    rw [← hError]
    grind
  have hNumbers : a.toNat * x.toNat + 2 ^ 2 ^ k * t.toNat ≡ 1 [MOD 2 ^ 64] := by
    have hWord := congrArg UInt64.toNat hSum
    rw [UInt64.toNat_add, UInt64.toNat_mul, UInt64.toNat_mul, UInt64.toNat_ofNat',
      ← Nat.add_mod, Nat.add_mod, Nat.mod_mul_mod, ← Nat.add_mod] at hWord
    exact hWord
  -- The factor of the error divides the base, so that the low bits do not feel the wrapping.
  have hPlaces : 2 ^ 2 ^ k ∣ 2 ^ 64 := pow_dvd_pow 2 (Nat.pow_le_pow_right (by decide) hk)
  have hLow := hNumbers.of_dvd hPlaces
  rw [Nat.ModEq, Nat.add_mul_mod_self_left] at hLow
  rw [hLow]
  exact Nat.mod_eq_of_lt (Nat.one_lt_two_pow (Nat.two_pow_pos k).ne')

theorem toNat_mul_inverseWord {a : UInt64} (ha : a.toNat % 2 = 1) :
    a.toNat * (inverseWord a).toNat % 2 ^ 64 = 1 := by
  have hSteps : inverseWord a = (newtonStep a)^[6] 1 := rfl
  rw [hSteps]
  exact mul_newtonStep_iterate_mod ha (Nat.le_refl 6)

/-- The inverse of a word, which has to be odd. -/
def checkedInverseWord (a : UInt64) : Checked UInt64 := do
  demand (a &&& 1 == 1) .failedAssertion
  (List.range 6).foldlM (fun x _ => return newtonStep a x) 1

theorem and_one_beq_one {a : UInt64} (ha : a.toNat % 2 = 1) : (a &&& 1 == 1) = true := by
  rw [beq_iff_eq, ← UInt64.toNat_inj, UInt64.toNat_and]
  exact (Nat.and_one_is_mod _).trans ha

theorem checkedInverseWord_eq {a : UInt64} (ha : a.toNat % 2 = 1) :
    checkedInverseWord a = .ok (inverseWord a) := by
  rw [checkedInverseWord, demand_eq_ok (and_one_beq_one ha), ok_bind]
  rfl

namespace Montgomery

variable {n : Nat}

/-- Minus the inverse of the lowest word of the modulus, which has to be odd. -/
def checkedNegInv (m : FixedNat n) : Checked UInt64 := do
  let lowest ← read m.limbs 0
  -- The inverse asserts the same once more.
  demand (lowest &&& 1 == 1) .failedAssertion
  return -(← checkedInverseWord lowest)

/-- Twice a residue, which has to be below the modulus. -/
def checkedDouble (m r : FixedNat n) : Checked (FixedNat n) := do
  demand (decide (r < m)) .failedAssertion
  FixedNat.checkedAddMod m r r

/-- The residue of the square of the radix, by doubling. -/
def checkedRSquared (m : FixedNat n) : Checked (FixedNat n) := do
  (List.range (2 * FixedNat.width n)).foldlM (fun r _ => checkedDouble m r)
    (← FixedNat.checkedOfWord n 1)

variable (ctx : Montgomery n)

theorem checkedNegInv_eq : checkedNegInv ctx.modulus = .ok ctx.negInv := by
  have hOdd := ctx.headD_limbs_mod_two
  have hLowest : ctx.modulus.limbs.getD 0 0 = ctx.modulus.limbs.headD 0 :=
    List.headD_eq_getD.symm
  rw [checkedNegInv, ctx.modulus.read_limbs ctx.limbs_pos, ok_bind, hLowest,
    demand_eq_ok (and_one_beq_one hOdd), ok_bind, checkedInverseWord_eq hOdd, ok_bind,
    ctx.negInv_eq]
  rfl

/-- A number and its lowest word are congruent modulo the base. -/
theorem negInv_mul_modulus_modEq :
    (ctx.negInv.toNat : Int) * ctx.modulus.toNat ≡ -1 [ZMOD 2 ^ 64] := by
  have hLowest : ctx.modulus.toNat * ctx.negInv.toNat % 2 ^ 64 = 2 ^ 64 - 1 := by
    have hWord := congrArg UInt64.toNat ctx.headD_mul_negInv
    rw [UInt64.toNat_mul, Limbs.toNat_headD, base_eq, Nat.mod_mul_mod] at hWord
    exact hWord
  rw [Int.ModEq, ← Nat.cast_mul, Nat.mul_comm]
  omega

theorem powerOfTwo_lt (count : Nat) :
    (powerOfTwo ctx.modulus count).toNat < ctx.modulus.toNat := by
  rw [ctx.toNat_powerOfTwo]
  exact Nat.mod_lt _ (NeZero.pos _)

theorem checkedDouble_powerOfTwo (count : Nat) :
    checkedDouble ctx.modulus (powerOfTwo ctx.modulus count) =
      .ok (powerOfTwo ctx.modulus (count + 1)) := by
  have hLess : powerOfTwo ctx.modulus count < ctx.modulus :=
    (FixedNat.lt_iff _ _).mpr (ctx.powerOfTwo_lt count)
  rw [checkedDouble, demand_eq_ok (decide_eq_true hLess), ok_bind, FixedNat.checkedAddMod_eq]
  rfl

theorem checkedRSquared_eq : checkedRSquared ctx.modulus = .ok ctx.rSquared := by
  rw [checkedRSquared, FixedNat.checkedOfWord_eq ctx.limbs_pos, ok_bind, ctx.rSquared_eq]
  exact foldlM_range (powerOfTwo ctx.modulus) fun count _ => ctx.checkedDouble_powerOfTwo count

theorem toNat_rSquared : ctx.rSquared.toNat = 2 ^ (128 * n) % ctx.modulus.toNat := by
  have hCount : 2 * FixedNat.width n = 128 * n := by
    rw [FixedNat.width]
    omega
  rw [ctx.rSquared_eq, toNat_powerOfTwo, hCount]

/-- Every odd word has its inverse after six steps, each of which doubles the number of right bits.
For every odd modulus from three on, the word that clears the lowest limb is minus the inverse of
the modulus, every integer that is doubled is a residue below the modulus, and the last one is the
residue of the square of the radix. No step stops. -/
theorem constants_exact :
    (∀ a : UInt64, a.toNat % 2 = 1 →
      checkedInverseWord a = .ok (inverseWord a) ∧
      (∀ k ≤ 6, a.toNat * ((newtonStep a)^[k] 1).toNat % 2 ^ 2 ^ k = 1) ∧
      a.toNat * (inverseWord a).toNat % 2 ^ 64 = 1) ∧
    ∀ (n : Nat) (m : FixedNat n), m.toNat % 2 = 1 → 3 ≤ m.toNat →
      ∃ ctx, ofModulus? m = some ctx ∧
        (checkedNegInv m = .ok ctx.negInv ∧
          (ctx.negInv.toNat : Int) * m.toNat ≡ -1 [ZMOD 2 ^ 64]) ∧
        (∀ count, (powerOfTwo m count).toNat = 2 ^ count % m.toNat ∧
          (powerOfTwo m count).toNat < m.toNat) ∧
        checkedRSquared m = .ok ctx.rSquared ∧ ctx.rSquared.toNat = 2 ^ (128 * n) % m.toNat ∧
          ctx.rSquared.toNat < m.toNat := by
  refine ⟨fun a ha => ⟨checkedInverseWord_eq ha, fun k hk => mul_newtonStep_iterate_mod ha hk,
    toNat_mul_inverseWord ha⟩, ?_⟩
  intro n m hOdd hLarge
  obtain ⟨ctx, hContext, rfl⟩ := exists_ofModulus?_eq_some hOdd hLarge
  refine ⟨ctx, hContext, ⟨ctx.checkedNegInv_eq, ctx.negInv_mul_modulus_modEq⟩,
    fun count => ⟨ctx.toNat_powerOfTwo count, ctx.powerOfTwo_lt count⟩,
    ctx.checkedRSquared_eq, ctx.toNat_rSquared, ?_⟩
  rw [ctx.rSquared_eq]
  exact ctx.powerOfTwo_lt _

/-- The error of the word `3` at the start is `-2`, which has a single factor `2`, so that five
steps leave `2 ^ 32` and the sixth is needed. The modulus `2 ^ 128 - 3` has its top bit set, so that
doubled residues leave the width. -/
theorem constants_exact_full_width :
    let m : FixedNat 2 := ⟨[-3, -1], rfl⟩
    (3 * ((newtonStep 3)^[5] 1).toNat % 2 ^ 32 = 1 ∧
      3 * ((newtonStep 3)^[5] 1).toNat % 2 ^ 64 ≠ 1) ∧
    checkedInverseWord 3 = .ok 0xAAAAAAAAAAAAAAAB ∧
    (∃ negInv, checkedNegInv m = .ok negInv ∧ (negInv.toNat : Int) * m.toNat ≡ -1 [ZMOD 2 ^ 64]) ∧
    ∃ rSquared, checkedRSquared m = .ok rSquared ∧ rSquared.toNat = 9 := by
  intro m
  obtain ⟨hWords, hModuli⟩ := constants_exact
  obtain ⟨hInverse, hSteps, -⟩ := hWords 3 (by decide)
  obtain ⟨ctx, -, hNegInv, -, hRun, hSquare, -⟩ := hModuli 2 m (by decide) (by decide)
  exact ⟨⟨hSteps 5 (by decide), by decide⟩, hInverse.trans (by decide), ⟨ctx.negInv, hNegInv⟩,
    ctx.rSquared, hRun, hSquare.trans (by decide)⟩

end Montgomery

end NybergRueppel
