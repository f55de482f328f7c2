import NybergRueppel.Proofs.Curve.JacobianFormulas
import NybergRueppel.Proofs.Curve.RingPoint
import NybergRueppel.Proofs.Field.Realization

/-!
Points in Jacobian coordinates as points of a Weierstrass curve. The check for a point on the curve
is the Weierstrass equation of its affine coordinates, and two points are the same if and only if
they are the same point of the Weierstrass curve.
-/
namespace NybergRueppel.Curve

variable {n : Nat} (curve : Curve n)

/-- The coefficients are elements of the field, and the constructor takes them. -/
structure IsAccepted : Prop where
  isElement_a : curve.field.IsElement curve.a
  isElement_b : curve.field.IsElement curve.b
  ofCoefficients_eq : ofCoefficients curve.field curve.a curve.b = .ok curve

/-- The coordinates are elements of the field, and the point passes the check. -/
structure OnCurve (p : JacobianPoint n) : Prop where
  isElement_x : curve.field.IsElement p.x
  isElement_y : curve.field.IsElement p.y
  isElement_z : curve.field.IsElement p.z
  contains_eq : curve.contains p = true

theorem onCurve_infinity (length : Nat) : curve.OnCurve (.infinity length) where
  isElement_x := CoordinateField.isElement_zero
  isElement_y := CoordinateField.isElement_zero
  isElement_z := CoordinateField.isElement_zero
  contains_eq := if_pos ((FieldElement.isZero_iff _).mpr rfl)

theorem onCurve_identity : curve.OnCurve curve.identity :=
  curve.onCurve_infinity _

variable {L : Type} [Field L] (r : Realization curve.field L)

/-- The curve over the field that realizes the coordinates. -/
abbrev weierstrass : WeierstrassCurve.Affine L :=
  shortWeierstrass (r.value curve.a) (r.value curve.b)

open Classical in
/-- The point with the affine coordinates `X / Z ^ 2` and `Y / Z ^ 3`, or the point at infinity if
`Z` is zero. -/
noncomputable def point (p : JacobianPoint n) : (curve.weierstrass r).Point :=
  if h : r.value p.z ≠ 0 ∧
      (curve.weierstrass r).Nonsingular (r.value p.x / r.value p.z ^ 2)
        (r.value p.y / r.value p.z ^ 3) then
    .some _ _ h.2
  else 0

variable {curve}

include r in
/-- The characteristic is odd. -/
theorem two_ne_zero_of_realization : (2 : L) ≠ 0 := by
  intro hTwo
  have hModulus : r.scalar (curve.field.mont.modulus.toNat : Nat) = 0 := by
    rw [ZMod.natCast_self, map_zero]
  have hOdd : curve.field.mont.modulus.toNat = 2 * (curve.field.mont.modulus.toNat / 2) + 1 := by
    have := curve.field.mont.modulus_mod_two
    omega
  rw [map_natCast, hOdd, Nat.cast_add, Nat.cast_mul, Nat.cast_ofNat, hTwo, zero_mul, zero_add,
    Nat.cast_one] at hModulus
  exact one_ne_zero hModulus

theorem IsAccepted.isZero_discriminant (hCurve : curve.IsAccepted) :
    (discriminant curve.field curve.a curve.b).isZero = false := by
  have h := hCurve.ofCoefficients_eq
  rw [ofCoefficients] at h
  split at h
  · cases h
  · split at h <;> rename_i hSingular
    · cases h
    · exact Bool.eq_false_iff.mpr hSingular

/-- On an accepted curve every solution of the equation is a point. -/
theorem IsAccepted.nonsingular_iff (hCurve : curve.IsAccepted) {x y : L} :
    (curve.weierstrass r).Nonsingular x y ↔ (curve.weierstrass r).Equation x y := by
  have hSingular :=
    isZero_discriminant_iff r.toRingRealization hCurve.isElement_a hCurve.isElement_b
  apply ShortWeierstrass.nonsingular_iff_equation (two_ne_zero_of_realization r)
  exact mt hSingular.mpr (Bool.eq_false_iff.mp hCurve.isZero_discriminant)

theorem point_of_value_eq_zero {p : JacobianPoint n} (hz : r.value p.z = 0) :
    curve.point r p = 0 := by
  rw [point, dif_neg fun h => h.1 hz]

theorem point_identity : curve.point r curve.identity = 0 :=
  point_of_value_eq_zero r r.value_zero

theorem contains_iff (hCurve : curve.IsAccepted) {p : JacobianPoint n}
    (hx : curve.field.IsElement p.x) (hy : curve.field.IsElement p.y)
    (hz : curve.field.IsElement p.z) :
    curve.contains p = true ↔ r.value p.z = 0 ∨
      (curve.weierstrass r).Equation (r.value p.x / r.value p.z ^ 2)
        (r.value p.y / r.value p.z ^ 3) := by
  have hZero : p.isInfinity = true ↔ r.value p.z = 0 := r.isZero_iff hz
  cases hInfinity : p.isInfinity with
  | true => exact iff_of_true (if_pos hInfinity) (.inl (hZero.mp hInfinity))
  | false =>
      have hNe : r.value p.z ≠ 0 := mt hZero.mpr (Bool.eq_false_iff.mp hInfinity)
      rw [weierstrass, ShortWeierstrass.equation_iff hNe, or_iff_right hNe]
      exact contains_iff_of_isInfinity_eq_false r.toRingRealization hCurve.isElement_a
        hCurve.isElement_b hx hy hz hInfinity

/-- A point on the curve is at infinity, or it has affine coordinates. -/
theorem OnCurve.point_eq (hCurve : curve.IsAccepted) {p : JacobianPoint n} (hp : curve.OnCurve p) :
    (r.value p.z = 0 ∧ curve.point r p = 0) ∨
      (r.value p.z ≠ 0 ∧ ∃ h, curve.point r p =
        .some (r.value p.x / r.value p.z ^ 2) (r.value p.y / r.value p.z ^ 3) h) := by
  by_cases hz : r.value p.z = 0
  · exact .inl ⟨hz, point_of_value_eq_zero r hz⟩
  · have hEquation := (contains_iff r hCurve hp.isElement_x hp.isElement_y hp.isElement_z).mp
      hp.contains_eq
    have hNonsingular := (hCurve.nonsingular_iff r).mpr (hEquation.resolve_left hz)
    exact .inr ⟨hz, hNonsingular, by rw [point, dif_pos ⟨hz, hNonsingular⟩]⟩

/-- A point on the curve that stands for a point of the Weierstrass curve. -/
structure Represents (p : JacobianPoint n) (P : (curve.weierstrass r).Point) : Prop where
  onCurve : curve.OnCurve p
  point_eq : curve.point r p = P

theorem OnCurve.represents {p : JacobianPoint n} (hp : curve.OnCurve p) :
    Represents r p (curve.point r p) :=
  ⟨hp, rfl⟩

theorem represents_identity : Represents r curve.identity 0 :=
  ⟨curve.onCurve_identity, point_identity r⟩

/-- Jacobian coordinates of a point of the Weierstrass curve are on the curve. -/
theorem represents_of_coordinates (hCurve : curve.IsAccepted) {p : JacobianPoint n} {x y z : L}
    (hx : r.Represents p.x x) (hy : r.Represents p.y y) (hz : r.Represents p.z z) (hNe : z ≠ 0)
    (h : (curve.weierstrass r).Nonsingular (x / z ^ 2) (y / z ^ 3)) :
    Represents r p (.some _ _ h) := by
  obtain ⟨hElementX, rfl⟩ := hx
  obtain ⟨hElementY, rfl⟩ := hy
  obtain ⟨hElementZ, rfl⟩ := hz
  refine ⟨⟨hElementX, hElementY, hElementZ, ?_⟩, by rw [point, dif_pos ⟨hNe, h⟩]⟩
  rw [contains_iff r hCurve hElementX hElementY hElementZ]
  exact .inr ((hCurve.nonsingular_iff r).mp h)

theorem affine?_of_value_eq_zero {p : JacobianPoint n} (hp : curve.field.IsElement p.z)
    (hz : r.value p.z = 0) : curve.affine? p = none :=
  if_pos ((r.isZero_iff hp).mpr hz)

/-- The affine coordinates of a point that is not at infinity. -/
theorem affine?_of_value_ne_zero {p : JacobianPoint n} (hx : curve.field.IsElement p.x)
    (hy : curve.field.IsElement p.y) (hz : curve.field.IsElement p.z) (hNe : r.value p.z ≠ 0) :
    ∃ x y, curve.affine? p = some (x, y) ∧
      r.Represents x (r.value p.x / r.value p.z ^ 2) ∧
      r.Represents y (r.value p.y / r.value p.z ^ 3) := by
  have hZ := r.represents_value hz
  refine ⟨_, _, if_neg fun hInfinity => hNe (hZ.isZero_iff.mp hInfinity), ?_, ?_⟩
  · apply ((r.represents_value hx).mul hZ.inverse.sqr).of_eq
    rw [div_eq_mul_inv, inv_pow]
  · apply (((r.represents_value hy).mul hZ.inverse.sqr).mul hZ.inverse).of_eq
    rw [div_eq_mul_inv, mul_assoc, ← pow_succ, inv_pow]

theorem affine?_eq_none_iff (hCurve : curve.IsAccepted) {p : JacobianPoint n}
    (hp : curve.OnCurve p) : curve.affine? p = none ↔ curve.point r p = 0 := by
  rcases hp.point_eq r hCurve with ⟨hz, hPoint⟩ | ⟨hz, hNonsingular, hPoint⟩
  · simp [affine?_of_value_eq_zero r hp.isElement_z hz, hPoint]
  · obtain ⟨x, y, hAffine, -, -⟩ :=
      affine?_of_value_ne_zero r hp.isElement_x hp.isElement_y hp.isElement_z hz
    simp [hAffine, hPoint]

theorem affine?_of_point_eq_some (hCurve : curve.IsAccepted) {p : JacobianPoint n}
    (hp : curve.OnCurve p) {x y : L} {h : (curve.weierstrass r).Nonsingular x y}
    (hPoint : curve.point r p = .some x y h) :
    ∃ ax ay, curve.affine? p = some (ax, ay) ∧ r.Represents ax x ∧ r.Represents ay y := by
  rcases hp.point_eq r hCurve with ⟨-, hZero⟩ | ⟨hz, hNonsingular, hSome⟩
  · rw [hZero] at hPoint
    exact absurd hPoint.symm (WeierstrassCurve.Affine.Point.some_ne_zero h)
  · rw [hSome] at hPoint
    cases hPoint
    exact affine?_of_value_ne_zero r hp.isElement_x hp.isElement_y hp.isElement_z hz

/-- The comparison of points is that of the group elements. -/
theorem samePoint_iff (hCurve : curve.IsAccepted) {p q : JacobianPoint n} (hp : curve.OnCurve p)
    (hq : curve.OnCurve q) :
    curve.samePoint p q = true ↔ curve.point r p = curve.point r q := by
  rw [samePoint, decide_eq_true_iff]
  cases hPoint : curve.point r p with
  | zero =>
      rw [(affine?_eq_none_iff r hCurve hp).mpr hPoint, eq_comm, affine?_eq_none_iff r hCurve hq]
      exact eq_comm
  | some x y h =>
      obtain ⟨px, py, hAffineP, hpx, hpy⟩ := affine?_of_point_eq_some r hCurve hp hPoint
      cases hOther : curve.point r q with
      | zero =>
          rw [(affine?_eq_none_iff r hCurve hq).mpr hOther, hAffineP]
          simp
      | some x' y' h' =>
          obtain ⟨qx, qy, hAffineQ, hqx, hqy⟩ := affine?_of_point_eq_some r hCurve hq hOther
          rw [hAffineP, hAffineQ, Option.some.injEq, Prod.mk.injEq, hpx.eq_iff hqx, hpy.eq_iff hqy,
            WeierstrassCurve.Affine.Point.some.injEq]

end NybergRueppel.Curve
