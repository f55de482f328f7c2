import NybergRueppel.Field.Element

/-!
Points in Jacobian coordinates. The point `(X : Y : Z)` with `Z ≠ 0` has the affine coordinates
`X / Z ^ 2` and `Y / Z ^ 3`; the points with `Z = 0` stand for the point at infinity.
-/
namespace NybergRueppel

/-- A point in Jacobian coordinates. The length in words of the elements of its field travels with
it, so that a point of another field can be told apart. -/
structure JacobianPoint (n : Nat) where
  x : FieldElement n
  y : FieldElement n
  z : FieldElement n
  elementLength : Nat
  deriving DecidableEq

namespace JacobianPoint

variable {n : Nat}

/-- The point at infinity for a field with elements of the given length. -/
def infinity (elementLength : Nat) : JacobianPoint n :=
  { x := 0, y := 0, z := 0, elementLength := elementLength }

instance : Inhabited (JacobianPoint n) := ⟨infinity 0⟩

def isInfinity (p : JacobianPoint n) : Bool :=
  p.z.isZero

end JacobianPoint

end NybergRueppel
