import NybergRueppel.Curve.GroupLaw
import NybergRueppel.Proofs.Curve.Point

/-!
Doubling, addition and negation of Jacobian points are those of the Weierstrass curve. Every branch
is covered: a summand at infinity, equal points, opposite points, and points of order two.
-/
namespace NybergRueppel.Curve

open WeierstrassCurve

variable {n : Nat} {curve : Curve n} {L : Type} [Field L] [DecidableEq L]
  {r : Realization curve.field L}

/-- The tangent formulas, for a point that has a tangent. -/
theorem Represents.double_of_ne (hCurve : curve.IsAccepted) {p : JacobianPoint n} {x y z : L}
    (hx : r.Represents p.x x) (hy : r.Represents p.y y) (hz : r.Represents p.z z) (hzNe : z ≠ 0)
    (hyNe : y ≠ 0) (h : (curve.weierstrass r).Nonsingular (x / z ^ 2) (y / z ^ 3)) :
    Represents r (curve.double p) (.some _ _ h + .some _ _ h) := by
  have hTwo := two_ne_zero_of_realization r
  have hA := r.represents_value hCurve.isElement_a
  have hxx := hx.sqr
  have hyy := hy.sqr
  have hs := (((hx.add hyy).sqr.sub hxx).sub hyy.sqr).double
  have hm := (hxx.double.add hxx).add (hA.mul hz.sqr.sqr)
  have hx' := hm.sqr.sub hs.double
  have hy' := (hm.mul (hs.sub hx')).sub hyy.sqr.double.double.double
  have hz' := ((hy.add hz).sqr.sub hyy).sub hz.sqr
  have hBranch : (p.isInfinity || p.y.isZero) = false := by
    rw [Bool.or_eq_false_iff, Bool.eq_false_iff, Bool.eq_false_iff, JacobianPoint.isInfinity, ne_eq,
      ne_eq, hz.isZero_iff, hy.isZero_iff]
    exact ⟨hzNe, hyNe⟩
  obtain ⟨hSum, hPoint⟩ := ShortWeierstrass.some_add_self hTwo hzNe hyNe h rfl rfl rfl rfl rfl
  rw [hPoint, double, if_neg (Bool.eq_false_iff.mp hBranch)]
  refine represents_of_coordinates r hCurve (hx'.of_eq ?_) (hy'.of_eq ?_) (hz'.of_eq ?_)
    (mul_ne_zero (mul_ne_zero hTwo hyNe) hzNe) hSum
  all_goals ring

/-- A point with `Y = 0` is its own opposite, and so is the point at infinity. -/
theorem Represents.double (hCurve : curve.IsAccepted) {p : JacobianPoint n}
    {P : (curve.weierstrass r).Point} (hp : Represents r p P) :
    Represents r (curve.double p) (P + P) := by
  obtain ⟨hOn, rfl⟩ := hp
  have hy := r.represents_value hOn.isElement_y
  have hz := r.represents_value hOn.isElement_z
  rcases hOn.point_eq r hCurve with ⟨hzZero, hPoint⟩ | ⟨hzNe, h, hPoint⟩
  · have hBranch : (p.isInfinity || p.y.isZero) = true := by
      rw [JacobianPoint.isInfinity, hz.isZero_iff.mpr hzZero, Bool.true_or]
    rw [hPoint, add_zero, Curve.double, if_pos hBranch]
    exact represents_identity r
  · rw [hPoint]
    by_cases hyZero : r.value p.y = 0
    · have hBranch : (p.isInfinity || p.y.isZero) = true := by
        rw [hy.isZero_iff.mpr hyZero, Bool.or_true]
      have hOpposite : r.value p.y / r.value p.z ^ 3 = (curve.weierstrass r).negY
          (r.value p.x / r.value p.z ^ 2) (r.value p.y / r.value p.z ^ 3) := by
        rw [weierstrass, ShortWeierstrass.negY_eq, hyZero, zero_div, neg_zero]
      rw [Affine.Point.add_self_of_Y_eq hOpposite, Curve.double, if_pos hBranch]
      exact represents_identity r
    · exact double_of_ne hCurve (r.represents_value hOn.isElement_x) hy hz hzNe hyZero h

/-- The chord formulas and their exceptional cases, for points that are not at infinity. -/
theorem Represents.add_of_ne (hCurve : curve.IsAccepted) {p q : JacobianPoint n}
    (hp : curve.OnCurve p) (hq : curve.OnCurve q) (hzp : r.value p.z ≠ 0) (hzq : r.value q.z ≠ 0) :
    Represents r (curve.add p q) (curve.point r p + curve.point r q) := by
  have hTwo := two_ne_zero_of_realization r
  have hxP := r.represents_value hp.isElement_x
  have hyP := r.represents_value hp.isElement_y
  have hzP := r.represents_value hp.isElement_z
  have hxQ := r.represents_value hq.isElement_x
  have hyQ := r.represents_value hq.isElement_y
  have hzQ := r.represents_value hq.isElement_z
  have hu₁ := hxP.mul hzQ.sqr
  have hu₂ := hxQ.mul hzP.sqr
  have hs₁ := (hyP.mul hzQ).mul hzQ.sqr
  have hs₂ := (hyQ.mul hzP).mul hzP.sqr
  have hd := hu₂.sub hu₁
  have ht := (hs₂.sub hs₁).double
  have hi := hd.double.sqr
  have hv := hu₁.mul hi
  have hx' := (ht.sqr.sub (hd.mul hi)).sub hv.double
  have hy' := (ht.mul (hv.sub hx')).sub (hs₁.mul (hd.mul hi)).double
  have hz' := (((hzP.add hzQ).sqr.sub hzP.sqr).sub hzQ.sqr).mul hd
  rcases hp.point_eq r hCurve with ⟨hZero, -⟩ | ⟨-, hNonsingularP, hPointP⟩
  · exact absurd hZero hzp
  rcases hq.point_eq r hCurve with ⟨hZero, -⟩ | ⟨-, hNonsingularQ, hPointQ⟩
  · exact absurd hZero hzq
  have hInfinityP : ¬p.isInfinity = true := mt hzP.isZero_iff.mp hzp
  have hInfinityQ : ¬q.isInfinity = true := mt hzQ.isZero_iff.mp hzq
  rw [Curve.add, if_neg hInfinityP, if_neg hInfinityQ]
  dsimp only
  have hCrossY : r.value q.y * r.value p.z * r.value p.z ^ 2 -
      r.value p.y * r.value q.z * r.value q.z ^ 2 =
      r.value q.y * r.value p.z ^ 3 - r.value p.y * r.value q.z ^ 3 := by
    ring
  have hTwice := ht.isZero_iff.trans (mul_eq_zero_iff_left hTwo)
  rw [hCrossY] at hTwice
  -- The cross products tell equal points from opposite ones, and both from those with a chord.
  split <;> rename_i hSameX
  · have hX := hd.isZero_iff.mp hSameX
    split <;> rename_i hSameY
    · have hSame : curve.point r p = curve.point r q := by
        rw [hPointP, hPointQ]
        exact ShortWeierstrass.some_eq_some hzp hzq hX (hTwice.mp hSameY)
      rw [← hSame]
      exact (hp.represents r).double hCurve
    · have hY := mt hTwice.mpr hSameY
      rw [hPointP, hPointQ, ShortWeierstrass.some_add_some_eq_zero hzp hzq _ _ hX hY]
      exact represents_identity r
  · have hdNe := mt hd.isZero_iff.mpr hSameX
    obtain ⟨hSum, hPoint⟩ := ShortWeierstrass.some_add_some hTwo hzp hzq hNonsingularP hNonsingularQ
      rfl rfl rfl rfl rfl rfl hdNe rfl rfl rfl
    rw [hPointP, hPointQ, hPoint]
    refine represents_of_coordinates r hCurve (hx'.of_eq ?_) (hy'.of_eq ?_) (hz'.of_eq ?_)
      (mul_ne_zero (mul_ne_zero (mul_ne_zero hTwo hzp) hzq) hdNe) hSum
    all_goals ring

theorem Represents.add (hCurve : curve.IsAccepted) {p q : JacobianPoint n}
    {P Q : (curve.weierstrass r).Point} (hp : Represents r p P) (hq : Represents r q Q) :
    Represents r (curve.add p q) (P + Q) := by
  obtain ⟨hOnP, rfl⟩ := hp
  obtain ⟨hOnQ, rfl⟩ := hq
  have hInfinityP : p.isInfinity = true ↔ r.value p.z = 0 := r.isZero_iff hOnP.isElement_z
  have hInfinityQ : q.isInfinity = true ↔ r.value q.z = 0 := r.isZero_iff hOnQ.isElement_z
  by_cases hzp : r.value p.z = 0
  · rw [Curve.add, if_pos (hInfinityP.mpr hzp), point_of_value_eq_zero r hzp, zero_add]
    exact hOnQ.represents r
  · by_cases hzq : r.value q.z = 0
    · rw [Curve.add, if_neg (mt hInfinityP.mp hzp), if_pos (hInfinityQ.mpr hzq),
        point_of_value_eq_zero r hzq, add_zero]
      exact hOnP.represents r
    · exact add_of_ne hCurve hOnP hOnQ hzp hzq

theorem Represents.negate (hCurve : curve.IsAccepted) {p : JacobianPoint n}
    {P : (curve.weierstrass r).Point} (hp : Represents r p P) :
    Represents r (curve.negate p) (-P) := by
  obtain ⟨hOn, rfl⟩ := hp
  have hx := r.represents_value hOn.isElement_x
  have hy := (r.represents_value hOn.isElement_y).neg
  have hz := r.represents_value hOn.isElement_z
  rcases hOn.point_eq r hCurve with ⟨hzZero, hPoint⟩ | ⟨hzNe, h, hPoint⟩
  · rw [hPoint, neg_zero]
    exact ⟨⟨hOn.isElement_x, hy.isElement, hOn.isElement_z, if_pos (hz.isZero_iff.mpr hzZero)⟩,
      point_of_value_eq_zero r hzZero⟩
  · obtain ⟨hNeg, hNegPoint⟩ := ShortWeierstrass.neg_some h
    rw [hPoint, hNegPoint]
    exact represents_of_coordinates (p := curve.negate p) r hCurve hx hy hz hzNe hNeg

end NybergRueppel.Curve
