import Mathlib.AlgebraicGeometry.EllipticCurve.Affine.Point
import Mathlib.Tactic.FieldSimp
import Mathlib.Tactic.LinearCombination

/-!
The group law of a short Weierstrass curve in Jacobian coordinates. The formulas are those of the
chord and the tangent through points `(X / Z ^ 2, Y / Z ^ 3)`, over a common denominator.
-/
namespace NybergRueppel

open WeierstrassCurve

/-- The curve `y ^ 2 = x ^ 3 + a * x + b`. -/
def shortWeierstrass {L : Type} [Field L] (a b : L) : Affine L :=
  ⟨0, 0, 0, a, b⟩

namespace ShortWeierstrass

variable {L : Type} [Field L] {a b : L}

theorem equation_iff {x y z : L} (hz : z ≠ 0) :
    (shortWeierstrass a b).Equation (x / z ^ 2) (y / z ^ 3) ↔
      y ^ 2 = x ^ 3 + a * x * z ^ 4 + b * z ^ 6 := by
  rw [Affine.equation_iff]
  simp only [shortWeierstrass]
  field_simp
  constructor
  · intro h
    linear_combination h
  · intro h
    linear_combination h

theorem nonsingular_iff_equation (hTwo : (2 : L) ≠ 0) (hDiscriminant : 4 * a ^ 3 + 27 * b ^ 2 ≠ 0)
    {x y : L} :
    (shortWeierstrass a b).Nonsingular x y ↔ (shortWeierstrass a b).Equation x y := by
  refine (Affine.equation_iff_nonsingular_of_Δ_ne_zero ?_).symm
  have hDelta : (shortWeierstrass a b).Δ = -2 ^ 4 * (4 * a ^ 3 + 27 * b ^ 2) := by
    simp only [shortWeierstrass, WeierstrassCurve.Δ, b₂, b₄, b₆, b₈]
    ring
  rw [hDelta]
  exact mul_ne_zero (neg_ne_zero.mpr (pow_ne_zero 4 hTwo)) hDiscriminant

theorem negY_eq (x y : L) : (shortWeierstrass a b).negY x y = -y := by
  simp only [Affine.negY, shortWeierstrass]
  ring

theorem neg_some {x y z : L} (h : (shortWeierstrass a b).Nonsingular (x / z ^ 2) (y / z ^ 3)) :
    ∃ hNeg, -Affine.Point.some _ _ h = .some (x / z ^ 2) (-y / z ^ 3) hNeg := by
  have hY : (shortWeierstrass a b).negY (x / z ^ 2) (y / z ^ 3) = -y / z ^ 3 := by
    rw [negY_eq, neg_div]
  refine ⟨hY ▸ (Affine.nonsingular_neg _ _).mpr h, ?_⟩
  rw [Affine.Point.neg_some]
  simp only [hY]

/-- Equal cross products of the `x` coordinates mean equal `x` coordinates, and likewise for the
`y` coordinates. -/
theorem div_eq_div_iff_cross {x₁ z₁ x₂ z₂ : L} (hz₁ : z₁ ≠ 0) (hz₂ : z₂ ≠ 0) (k : Nat) :
    x₁ / z₁ ^ k = x₂ / z₂ ^ k ↔ x₂ * z₁ ^ k - x₁ * z₂ ^ k = 0 := by
  rw [div_eq_div_iff (pow_ne_zero k hz₁) (pow_ne_zero k hz₂), sub_eq_zero, eq_comm]

/-- Two points whose cross products agree are the same point. -/
theorem some_eq_some {x₁ y₁ z₁ x₂ y₂ z₂ : L} (hz₁ : z₁ ≠ 0) (hz₂ : z₂ ≠ 0)
    {h₁ : (shortWeierstrass a b).Nonsingular (x₁ / z₁ ^ 2) (y₁ / z₁ ^ 3)}
    {h₂ : (shortWeierstrass a b).Nonsingular (x₂ / z₂ ^ 2) (y₂ / z₂ ^ 3)}
    (hX : x₂ * z₁ ^ 2 - x₁ * z₂ ^ 2 = 0) (hY : y₂ * z₁ ^ 3 - y₁ * z₂ ^ 3 = 0) :
    Affine.Point.some _ _ h₁ = .some _ _ h₂ := by
  rw [← div_eq_div_iff_cross hz₁ hz₂] at hX hY
  simp only [hX, hY]

variable [DecidableEq L]

/-- Two points with the same `x` coordinate that are not the same point are opposite. -/
theorem some_add_some_eq_zero {x₁ y₁ z₁ x₂ y₂ z₂ : L} (hz₁ : z₁ ≠ 0) (hz₂ : z₂ ≠ 0)
    (h₁ : (shortWeierstrass a b).Nonsingular (x₁ / z₁ ^ 2) (y₁ / z₁ ^ 3))
    (h₂ : (shortWeierstrass a b).Nonsingular (x₂ / z₂ ^ 2) (y₂ / z₂ ^ 3))
    (hX : x₂ * z₁ ^ 2 - x₁ * z₂ ^ 2 = 0) (hY : y₂ * z₁ ^ 3 - y₁ * z₂ ^ 3 ≠ 0) :
    Affine.Point.some _ _ h₁ + .some _ _ h₂ = 0 := by
  rw [← div_eq_div_iff_cross hz₁ hz₂] at hX
  rw [ne_eq, ← div_eq_div_iff_cross hz₁ hz₂] at hY
  have hOpposite := (Affine.Y_eq_of_X_eq h₁.1 h₂.1 hX).resolve_left hY
  exact Affine.Point.add_of_Y_eq hX hOpposite

/-- The tangent at a point that is not its own opposite. -/
theorem some_add_self {x y z x' y' z' m s : L} (hTwo : (2 : L) ≠ 0) (hz : z ≠ 0) (hy : y ≠ 0)
    (h : (shortWeierstrass a b).Nonsingular (x / z ^ 2) (y / z ^ 3))
    (hm : m = 3 * x ^ 2 + a * z ^ 4) (hs : s = 4 * x * y ^ 2) (hx' : x' = m ^ 2 - 2 * s)
    (hy' : y' = m * (s - x') - 8 * y ^ 4) (hz' : z' = 2 * y * z) :
    ∃ hSum, Affine.Point.some _ _ h + .some _ _ h =
      .some (x' / z' ^ 2) (y' / z' ^ 3) hSum := by
  have hOpposite : y / z ^ 3 ≠ (shortWeierstrass a b).negY (x / z ^ 2) (y / z ^ 3) := by
    rw [negY_eq]
    intro hEq
    have hSum : 2 * (y / z ^ 3) = 0 := by linear_combination hEq
    exact mul_ne_zero hTwo (div_ne_zero hy (pow_ne_zero 3 hz)) hSum
  have hSlope : (shortWeierstrass a b).slope (x / z ^ 2) (x / z ^ 2) (y / z ^ 3) (y / z ^ 3) =
      m / z' := by
    have hDouble : y / z ^ 3 - -(y / z ^ 3) = 2 * y / z ^ 3 := by ring
    rw [Affine.slope_of_Y_ne rfl hOpposite, negY_eq, hDouble, hm, hz']
    simp only [shortWeierstrass]
    field_simp
    ring
  have hz'Ne : z' ≠ 0 := by
    rw [hz']
    exact mul_ne_zero (mul_ne_zero hTwo hy) hz
  have hX : (shortWeierstrass a b).addX (x / z ^ 2) (x / z ^ 2) (m / z') = x' / z' ^ 2 := by
    simp only [Affine.addX, shortWeierstrass]
    rw [hx', hs]
    field_simp
    rw [hz']
    ring
  have hY : (shortWeierstrass a b).addY (x / z ^ 2) (x / z ^ 2) (y / z ^ 3) (m / z') =
      y' / z' ^ 3 := by
    rw [Affine.addY, negY_eq, Affine.negAddY, hX, hy', hs]
    field_simp
    rw [hz']
    ring
  refine ⟨?_, ?_⟩
  · rw [← hX, ← hY, ← hSlope]
    exact Affine.nonsingular_add h h fun hEq => hOpposite hEq.2
  · rw [Affine.Point.add_self_of_Y_ne hOpposite]
    simp only [hSlope, hX, hY]

/-- The chord through two points with different `x` coordinates. -/
theorem some_add_some {x₁ y₁ z₁ x₂ y₂ z₂ x' y' z' u₁ u₂ s₁ s₂ d t : L} (hTwo : (2 : L) ≠ 0)
    (hz₁ : z₁ ≠ 0) (hz₂ : z₂ ≠ 0)
    (h₁ : (shortWeierstrass a b).Nonsingular (x₁ / z₁ ^ 2) (y₁ / z₁ ^ 3))
    (h₂ : (shortWeierstrass a b).Nonsingular (x₂ / z₂ ^ 2) (y₂ / z₂ ^ 3))
    (hu₁ : u₁ = x₁ * z₂ ^ 2) (hu₂ : u₂ = x₂ * z₁ ^ 2) (hs₁ : s₁ = y₁ * z₂ * z₂ ^ 2)
    (hs₂ : s₂ = y₂ * z₁ * z₁ ^ 2) (hd : d = u₂ - u₁) (ht : t = 2 * (s₂ - s₁)) (hdNe : d ≠ 0)
    (hx' : x' = t ^ 2 - d * (2 * d) ^ 2 - 2 * (u₁ * (2 * d) ^ 2))
    (hy' : y' = t * (u₁ * (2 * d) ^ 2 - x') - 2 * (s₁ * (d * (2 * d) ^ 2)))
    (hz' : z' = 2 * z₁ * z₂ * d) :
    ∃ hSum, Affine.Point.some _ _ h₁ + .some _ _ h₂ =
      .some (x' / z' ^ 2) (y' / z' ^ 3) hSum := by
  have hx₁ : x₁ / z₁ ^ 2 = u₁ / (z₁ * z₂) ^ 2 := by
    rw [hu₁]
    field_simp
  have hx₂ : x₂ / z₂ ^ 2 = u₂ / (z₁ * z₂) ^ 2 := by
    rw [hu₂]
    field_simp
  have hy₁ : y₁ / z₁ ^ 3 = s₁ / (z₁ * z₂) ^ 3 := by
    rw [hs₁]
    field_simp
  have hy₂ : y₂ / z₂ ^ 3 = s₂ / (z₁ * z₂) ^ 3 := by
    rw [hs₂]
    field_simp
  have hz'Ne : z' ≠ 0 := by
    rw [hz']
    exact mul_ne_zero (mul_ne_zero (mul_ne_zero hTwo hz₁) hz₂) hdNe
  have hDifference : x₁ / z₁ ^ 2 - x₂ / z₂ ^ 2 = -d / (z₁ * z₂) ^ 2 := by
    rw [hx₁, hx₂, hd]
    ring
  have hNe : x₁ / z₁ ^ 2 ≠ x₂ / z₂ ^ 2 := by
    rw [← sub_ne_zero, hDifference]
    exact div_ne_zero (neg_ne_zero.mpr hdNe) (pow_ne_zero 2 (mul_ne_zero hz₁ hz₂))
  have hSlope : (shortWeierstrass a b).slope (x₁ / z₁ ^ 2) (x₂ / z₂ ^ 2) (y₁ / z₁ ^ 3)
      (y₂ / z₂ ^ 3) = t / z' := by
    rw [Affine.slope_of_X_ne hNe, hDifference, hy₁, hy₂, ht, hz']
    field_simp
    ring
  have hX : (shortWeierstrass a b).addX (x₁ / z₁ ^ 2) (x₂ / z₂ ^ 2) (t / z') = x' / z' ^ 2 := by
    simp only [Affine.addX, shortWeierstrass]
    rw [hx₁, hx₂, hx', hz', show u₂ = u₁ + d by rw [hd]; ring]
    field_simp
    ring
  have hY : (shortWeierstrass a b).addY (x₁ / z₁ ^ 2) (x₂ / z₂ ^ 2) (y₁ / z₁ ^ 3) (t / z') =
      y' / z' ^ 3 := by
    rw [Affine.addY, negY_eq, Affine.negAddY, hX, hx₁, hy₁, hy', hz']
    field_simp
    ring
  refine ⟨?_, ?_⟩
  · rw [← hX, ← hY, ← hSlope]
    exact Affine.nonsingular_add h₁ h₂ fun hEq => hNe hEq.1
  · rw [Affine.Point.add_of_X_ne hNe]
    simp only [hSlope, hX, hY]

end ShortWeierstrass

end NybergRueppel
