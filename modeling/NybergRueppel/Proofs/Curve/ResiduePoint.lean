import Mathlib.Algebra.CharP.Basic
import NybergRueppel.Proofs.Curve.JacobianFormulas
import NybergRueppel.Proofs.Limbs.Bits

/-!
Jacobian points with natural numbers as coordinates. The kernel evaluates multiples of such points
modulo a prime of any size, so that the order of a base point can be checked by computation. No step
looks for the exceptional cases of the group law: they make the last coordinate zero, and it stays
zero.
-/
namespace NybergRueppel

/-- Jacobian coordinates whose residues modulo a prime are meant. -/
structure ResiduePoint where
  x : Nat
  y : Nat
  z : Nat

namespace ResiduePoint

/-- The residue of a difference. -/
def subMod (p a b : Nat) : Nat :=
  (a + (p - b % p)) % p

/-- Twice a point that is not its own opposite, by the tangent. -/
def double (p a : Nat) (t : ResiduePoint) : ResiduePoint :=
  let yy := t.y ^ 2 % p
  let s := 4 * t.x * yy % p
  let m := (3 * t.x ^ 2 + a * t.z ^ 4) % p
  let x := subMod p (m ^ 2) (2 * s)
  { x := x, y := subMod p (m * subMod p s x) (8 * yy ^ 2), z := 2 * t.y * t.z % p }

/-- The sum of two points with different `x` coordinates, by the chord. -/
def add (p : Nat) (t u : ResiduePoint) : ResiduePoint :=
  let zzT := t.z ^ 2 % p
  let zzU := u.z ^ 2 % p
  let u₁ := t.x * zzU % p
  let u₂ := u.x * zzT % p
  let s₁ := t.y * u.z * zzU % p
  let s₂ := u.y * t.z * zzT % p
  let d := subMod p u₂ u₁
  let r := subMod p (2 * s₂) (2 * s₁)
  let i := (2 * d) ^ 2 % p
  let v := u₁ * i % p
  let x := subMod p (r ^ 2) (d * i + 2 * v)
  { x := x, y := subMod p (r * subMod p v x) (2 * s₁ * (d * i)), z := 2 * t.z * u.z * d % p }

/-- The multiple by the number with the given bits, the lowest first, under a leading one. -/
def multiple (p a : Nat) (t : ResiduePoint) : List Bool → ResiduePoint
  | [] => t
  | bit :: bits =>
    let twice := double p a (multiple p a t bits)
    if bit then add p twice t else twice

/-- The bits of a number below its leading one. -/
def lowerBits (k : Nat) : List Bool :=
  (List.range k.log2).map k.testBit

theorem ofDigits_lowerBits {k : Nat} (hk : k ≠ 0) :
    Nat.ofDigits 2 ((lowerBits k).map Bool.toNat) + 2 ^ (lowerBits k).length = k := by
  have hLower := Nat.log2_self_le hk
  have hUpper : k < 2 ^ (k.log2 + 1) := Nat.lt_log2_self
  rw [lowerBits, Limbs.ofDigits_testBit, List.length_map, List.length_range]
  rw [pow_succ] at hUpper
  rw [Nat.mod_eq_sub_mod hLower, Nat.mod_eq_of_lt (by omega)]
  omega

/-- Recognizes the opposite of a point. -/
def isOpposite (p : Nat) (t u : ResiduePoint) : Bool :=
  t.z % p != 0 && t.x * u.z ^ 2 % p == u.x * t.z ^ 2 % p &&
    (t.y * u.z ^ 3 + u.y * t.z ^ 3) % p == 0

variable {L : Type} [Field L] {p : Nat} [CharP L p]

theorem natCast_mod (k : Nat) : ((k % p : Nat) : L) = k :=
  (CharP.cast_eq_mod L p k).symm

theorem natCast_subMod (hp : 0 < p) (k l : Nat) : (subMod p k l : L) = k - l := by
  rw [subMod, natCast_mod, Nat.cast_add, Nat.cast_sub (Nat.mod_lt l hp).le, natCast_mod,
    CharP.cast_eq_zero L p, zero_sub, sub_eq_add_neg]

variable {a b : L} {aNumber : Nat} {t u : ResiduePoint}
  {P Q : (shortWeierstrass a b).Point}

/-- The coordinates are those of a point of the curve, unless the last one is zero. -/
def Stands (t : ResiduePoint) (P : (shortWeierstrass a b).Point) : Prop :=
  (t.z : L) ≠ 0 → ∃ h, P = .some ((t.x : L) / t.z ^ 2) ((t.y : L) / t.z ^ 3) h

theorem stands_affine {x y : Nat} {h : (shortWeierstrass a b).Nonsingular (x : L) (y : L)} :
    Stands ⟨x, y, 1⟩ (.some _ _ h) := by
  intro _
  have hx : (x : L) / ((1 : Nat) : L) ^ 2 = x := by simp
  have hy : (y : L) / ((1 : Nat) : L) ^ 3 = y := by simp
  exact ⟨by rwa [hx, hy], by simp only [hx, hy]⟩

theorem eq_neg_of_isOpposite (ht : t.Stands P) (hu : u.Stands Q) (huNe : (u.z : L) ≠ 0)
    (h : t.isOpposite p u = true) : P = -Q := by
  simp only [isOpposite, Bool.and_eq_true, bne_iff_ne, ne_eq, beq_iff_eq] at h
  obtain ⟨⟨hz, hx⟩, hy⟩ := h
  have htNe : (t.z : L) ≠ 0 := by
    rwa [ne_eq, CharP.cast_eq_zero_iff L p, Nat.dvd_iff_mod_eq_zero]
  obtain ⟨hNonsingularT, rfl⟩ := ht htNe
  obtain ⟨hNonsingularU, rfl⟩ := hu huNe
  obtain ⟨hNeg, hEq⟩ := ShortWeierstrass.neg_some hNonsingularU
  have hCrossX : (t.x : L) * u.z ^ 2 = u.x * t.z ^ 2 := by
    have hCast := congrArg (Nat.cast : Nat → L) hx
    simpa only [natCast_mod, Nat.cast_mul, Nat.cast_pow] using hCast
  have hCrossY : (t.y : L) * u.z ^ 3 + u.y * t.z ^ 3 = 0 := by
    have hCast := congrArg (Nat.cast : Nat → L) hy
    simpa only [natCast_mod, Nat.cast_add, Nat.cast_mul, Nat.cast_pow, Nat.cast_zero] using hCast
  rw [hEq]
  apply ShortWeierstrass.some_eq_some htNe huNe
  · linear_combination -hCrossX
  · linear_combination -hCrossY

variable [DecidableEq L]

theorem Stands.double (hp : 0 < p) (hTwo : (2 : L) ≠ 0) (ha : a = aNumber) (h : t.Stands P) :
    (t.double p aNumber).Stands (P + P) := by
  intro hNe
  have hz : ((t.double p aNumber).z : L) = 2 * t.y * t.z := by
    simp only [ResiduePoint.double, natCast_mod, Nat.cast_mul, Nat.cast_ofNat]
  have hy : ((t.double p aNumber).y : L) =
      (3 * (t.x : L) ^ 2 + a * t.z ^ 4) *
        (4 * (t.x : L) * (t.y : L) ^ 2 - (t.double p aNumber).x) - 8 * (t.y : L) ^ 4 := by
    simp only [ResiduePoint.double, natCast_subMod hp, natCast_mod, Nat.cast_mul, Nat.cast_add,
      Nat.cast_pow, Nat.cast_ofNat, ha]
    ring
  have hx : ((t.double p aNumber).x : L) =
      (3 * (t.x : L) ^ 2 + a * t.z ^ 4) ^ 2 - 2 * (4 * (t.x : L) * (t.y : L) ^ 2) := by
    simp only [ResiduePoint.double, natCast_subMod hp, natCast_mod, Nat.cast_mul, Nat.cast_add,
      Nat.cast_pow, Nat.cast_ofNat, ha]
  -- The last coordinate is a product, so that the exceptional cases would make it zero.
  rw [hz] at hNe
  have hzNe : (t.z : L) ≠ 0 := right_ne_zero_of_mul hNe
  have hyNe : (t.y : L) ≠ 0 := right_ne_zero_of_mul (left_ne_zero_of_mul hNe)
  obtain ⟨hNonsingular, rfl⟩ := h hzNe
  exact ShortWeierstrass.some_add_self hTwo hzNe hyNe hNonsingular rfl rfl hx hy hz

theorem Stands.add (hp : 0 < p) (hTwo : (2 : L) ≠ 0) (ht : t.Stands P) (hu : u.Stands Q) :
    (t.add p u).Stands (P + Q) := by
  intro hNe
  let u₁ : L := t.x * (u.z : L) ^ 2
  let u₂ : L := u.x * (t.z : L) ^ 2
  let s₁ : L := t.y * u.z * (u.z : L) ^ 2
  let s₂ : L := u.y * t.z * (t.z : L) ^ 2
  let d : L := u₂ - u₁
  have hz : ((t.add p u).z : L) = 2 * t.z * u.z * d := by
    simp only [ResiduePoint.add, natCast_subMod hp, natCast_mod, Nat.cast_mul, Nat.cast_pow,
      Nat.cast_ofNat, d, u₁, u₂]
  have hx : ((t.add p u).x : L) =
      (2 * (s₂ - s₁)) ^ 2 - d * (2 * d) ^ 2 - 2 * (u₁ * (2 * d) ^ 2) := by
    simp only [ResiduePoint.add, natCast_subMod hp, natCast_mod, Nat.cast_mul, Nat.cast_add,
      Nat.cast_pow, Nat.cast_ofNat, d, u₁, u₂, s₁, s₂]
    ring
  have hy : ((t.add p u).y : L) =
      2 * (s₂ - s₁) * (u₁ * (2 * d) ^ 2 - (t.add p u).x) - 2 * (s₁ * (d * (2 * d) ^ 2)) := by
    simp only [ResiduePoint.add, natCast_subMod hp, natCast_mod, Nat.cast_mul, Nat.cast_add,
      Nat.cast_pow, Nat.cast_ofNat, d, u₁, u₂, s₁, s₂]
    ring
  rw [hz] at hNe
  have hdNe : d ≠ 0 := right_ne_zero_of_mul hNe
  have huNe : (u.z : L) ≠ 0 := right_ne_zero_of_mul (left_ne_zero_of_mul hNe)
  have htNe : (t.z : L) ≠ 0 :=
    right_ne_zero_of_mul (left_ne_zero_of_mul (left_ne_zero_of_mul hNe))
  obtain ⟨hNonsingularT, rfl⟩ := ht htNe
  obtain ⟨hNonsingularU, rfl⟩ := hu huNe
  exact ShortWeierstrass.some_add_some hTwo htNe huNe hNonsingularT hNonsingularU rfl rfl rfl rfl
    rfl rfl hdNe hx hy hz

/-- The induction is on the bits, so that the multiple above the lowest bit is doubled. -/
theorem Stands.multiple (hp : 0 < p) (hTwo : (2 : L) ≠ 0) (ha : a = aNumber) (h : t.Stands P)
    (bits : List Bool) :
    (t.multiple p aNumber bits).Stands
      ((Nat.ofDigits 2 (bits.map Bool.toNat) + 2 ^ bits.length) • P) := by
  induction bits with
  | nil => simpa [ResiduePoint.multiple] using h
  | cons bit bits ih =>
      let k := Nat.ofDigits 2 (bits.map Bool.toNat) + 2 ^ bits.length
      have hTwice := ih.double hp hTwo ha
      have hValue : Nat.ofDigits 2 ((bit :: bits).map Bool.toNat) + 2 ^ (bit :: bits).length =
          k + k + bit.toNat := by
        simp only [k, List.map_cons, Nat.ofDigits_cons, List.length_cons, pow_succ]
        ring
      rw [hValue, add_nsmul, add_nsmul, ResiduePoint.multiple]
      cases bit with
      | false =>
          rw [Bool.toNat_false, zero_nsmul, add_zero]
          exact hTwice
      | true =>
          rw [Bool.toNat_true, one_nsmul]
          exact hTwice.add hp hTwo h

/-- If the predecessor of a number takes a point to its opposite, the number takes it to zero. -/
theorem nsmul_eq_zero_of_isOpposite (hp : 0 < p) (hTwo : (2 : L) ≠ 0) (ha : a = aNumber)
    (h : t.Stands P) (hNe : (t.z : L) ≠ 0) {k : Nat} (hk : k ≠ 0)
    (hOpposite : (t.multiple p aNumber (lowerBits k)).isOpposite p t = true) :
    (k + 1) • P = 0 := by
  have hMultiple := h.multiple hp hTwo ha (lowerBits k)
  rw [ofDigits_lowerBits hk] at hMultiple
  rw [add_nsmul, one_nsmul, eq_neg_of_isOpposite hMultiple h hNe hOpposite, neg_add_cancel]

end ResiduePoint

end NybergRueppel
