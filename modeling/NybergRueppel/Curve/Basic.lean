import NybergRueppel.Curve.Point
import NybergRueppel.Field.Basic

/-!
Elliptic curves `y ^ 2 = x ^ 3 + a * x + b` in short Weierstrass form over a coordinate field of
characteristic above three, and the passage between affine and Jacobian coordinates.
-/
namespace NybergRueppel

/-- A curve `y ^ 2 = x ^ 3 + a * x + b`. -/
structure Curve (n : Nat) where
  field : CoordinateField n
  a : FieldElement n
  b : FieldElement n

namespace Curve

variable {n : Nat}

/-- The discriminant `4 * a ^ 3 + 27 * b ^ 2`, up to a factor. -/
def discriminant (f : CoordinateField n) (a b : FieldElement n) : FieldElement n :=
  f.add (f.mul (f.ofWord 4) (f.mul (f.sqr a) a)) (f.mul (f.ofWord 27) (f.sqr b))

/-- The characteristic has to be above three, and the curve must not be singular. -/
def ofCoefficients (f : CoordinateField n) (a b : FieldElement n) : Except Failure (Curve n) :=
  if ¬ FixedNat.ofWord 3 < f.modulus then .error (.invalidCurve .smallCharacteristic)
  else if (discriminant f a b).isZero then .error (.invalidCurve .singular)
  else .ok { field := f, a := a, b := b }

/-- The neutral element of the group. -/
def identity (curve : Curve n) : JacobianPoint n :=
  .infinity curve.field.elementLength

/-- The point with the given affine coordinates, whether or not it lies on the curve. -/
def ofAffine (curve : Curve n) (x y : FieldElement n) : JacobianPoint n :=
  { x := x, y := y, z := curve.field.one, elementLength := curve.field.elementLength }

/-- Checks `Y ^ 2 = X ^ 3 + a * X * Z ^ 4 + b * Z ^ 6`. The point at infinity is on every curve. -/
def contains (curve : Curve n) (p : JacobianPoint n) : Bool :=
  if p.isInfinity then true
  else
    let f := curve.field
    let z2 := f.sqr p.z
    let z4 := f.sqr z2
    let z6 := f.mul z4 z2
    let cube := f.mul (f.sqr p.x) p.x
    let linear := f.mul (f.mul curve.a p.x) z4
    decide (f.sqr p.y = f.add (f.add cube linear) (f.mul curve.b z6))

/-- The affine coordinates, unless the point is at infinity. -/
def affine? (curve : Curve n) (p : JacobianPoint n) : Option (FieldElement n × FieldElement n) :=
  if p.isInfinity then none
  else
    let f := curve.field
    let inverse := f.inverse p.z
    let inverse2 := f.sqr inverse
    some (f.mul p.x inverse2, f.mul (f.mul p.y inverse2) inverse)

/-- True if two points are the same element of the group. -/
def samePoint (curve : Curve n) (p q : JacobianPoint n) : Bool :=
  decide (curve.affine? p = curve.affine? q)

end Curve

end NybergRueppel
