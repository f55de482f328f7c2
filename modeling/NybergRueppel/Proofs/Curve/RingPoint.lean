import NybergRueppel.Curve.Basic
import NybergRueppel.Proofs.Field.RingRealization

/-!
The checks of a curve and of its affine points in a ring that realizes the coordinates. They need no
inverses but that of one, and therefore neither a prime modulus nor an irreducible polynomial.
-/
namespace NybergRueppel

variable {n : Nat}

namespace CoordinateField

variable {f : CoordinateField n}

/-- One is not zero, since the modulus is not one. -/
theorem isZero_one (f : CoordinateField n) : f.one.isZero = false := by
  rw [Bool.eq_false_iff, ne_eq, FieldElement.isZero_iff]
  intro h
  have hOne : f.mont.one = 0 := by
    have hCoeff := congrArg (fun a => a.coeff 0) h
    simpa [one, FieldElement.coeff_ofBase] using hCoeff
  have hResidue := f.mont.residue_one
  rw [hOne, Montgomery.residue_zero, ← Nat.cast_one, eq_comm, ZMod.natCast_eq_zero_iff] at hResidue
  have hModulus := f.mont.three_le_modulus
  exact absurd (Nat.le_of_dvd Nat.one_pos hResidue) (by omega)

end CoordinateField

namespace Curve

/-- A curve is refused for being singular if its discriminant vanishes in the ring. -/
theorem isZero_discriminant_iff {f : CoordinateField n} {R : Type} [CommRing R]
    (r : RingRealization f R) {a b : FieldElement n} (ha : f.IsElement a) (hb : f.IsElement b) :
    (discriminant f a b).isZero = true ↔ 4 * r.value a ^ 3 + 27 * r.value b ^ 2 = 0 := by
  have hA := r.represents_value ha
  have hB := r.represents_value hb
  have hCube := (r.represents_ofWord 4).mul (hA.sqr.mul hA)
  have hSquare := (r.represents_ofWord 27).mul hB.sqr
  rw [discriminant, (hCube.add hSquare).isZero_iff, show (4 : UInt64).toNat = 4 from rfl,
    show (27 : UInt64).toNat = 27 from rfl, Nat.cast_ofNat, Nat.cast_ofNat, pow_succ (r.value a) 2]

variable {curve : Curve n} {R : Type} [CommRing R] (r : RingRealization curve.field R)

/-- A finite point is on the curve if its coordinates solve the equation in the ring. -/
theorem contains_iff_of_isInfinity_eq_false (ha : curve.field.IsElement curve.a)
    (hb : curve.field.IsElement curve.b) {p : JacobianPoint n} (hx : curve.field.IsElement p.x)
    (hy : curve.field.IsElement p.y) (hz : curve.field.IsElement p.z)
    (hFinite : p.isInfinity = false) :
    curve.contains p = true ↔
      r.value p.y ^ 2 = r.value p.x ^ 3 + r.value curve.a * r.value p.x * r.value p.z ^ 4 +
        r.value curve.b * r.value p.z ^ 6 := by
  have hX := r.represents_value hx
  have hZ2 := (r.represents_value hz).sqr
  have hCube := hX.sqr.mul hX
  have hLinear := ((r.represents_value ha).mul hX).mul hZ2.sqr
  have hConstant := (r.represents_value hb).mul (hZ2.sqr.mul hZ2)
  rw [contains, if_neg (Bool.eq_false_iff.mp hFinite), decide_eq_true_iff]
  refine ((r.represents_value hy).sqr.eq_iff ((hCube.add hLinear).add hConstant)).trans ?_
  ring_nf

/-- An affine point is on the curve if its coordinates solve the equation in the ring. -/
theorem contains_ofAffine_iff (ha : curve.field.IsElement curve.a)
    (hb : curve.field.IsElement curve.b) {x y : FieldElement n} (hx : curve.field.IsElement x)
    (hy : curve.field.IsElement y) :
    curve.contains (curve.ofAffine x y) = true ↔
      r.value y ^ 2 = r.value x ^ 3 + r.value curve.a * r.value x + r.value curve.b := by
  have hOne := r.represents_one
  have hContains := contains_iff_of_isInfinity_eq_false r ha hb (p := curve.ofAffine x y) hx hy
    hOne.isElement curve.field.isZero_one
  rwa [show (curve.ofAffine x y).z = curve.field.one from rfl, r.value_one, one_pow, one_pow,
    mul_one, mul_one] at hContains

include r in
/-- Affine coordinates are those of the point that is made of them. -/
theorem affine?_ofAffine {x y : FieldElement n} (hx : curve.field.IsElement x)
    (hy : curve.field.IsElement y) : curve.affine? (curve.ofAffine x y) = some (x, y) := by
  have hX := r.represents_value hx
  have hY := r.represents_value hy
  have hInverse := RingRealization.Represents.inverse_one (r := r)
  have hFinite : ¬(curve.ofAffine x y).isInfinity = true :=
    Bool.eq_false_iff.mp curve.field.isZero_one
  rw [affine?, if_neg hFinite]
  have hCoordinateX := (hX.mul hInverse.sqr).eq_iff hX
  have hCoordinateY := ((hY.mul hInverse.sqr).mul hInverse).eq_iff hY
  rw [one_pow, mul_one, iff_true_right rfl] at hCoordinateX
  rw [one_pow, mul_one, mul_one, iff_true_right rfl] at hCoordinateY
  exact congrArg some (Prod.ext hCoordinateX hCoordinateY)

end Curve

end NybergRueppel
