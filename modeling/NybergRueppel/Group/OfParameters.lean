import NybergRueppel.Group.Basic
import NybergRueppel.Parameters.Basic

/-!
Building a group from a parameter set. The parts are read and checked one after the other: the
field, the coefficients and the base point, the order, and then what they mean together.
-/
namespace NybergRueppel

/-- The coordinate field that a parameter set describes. -/
def DomainParameters.readField (n : Nat) (p : DomainParameters) :
    Except Failure (CoordinateField n) := do
  let prime ← readNumber n .prime p.prime
  match p.extension with
  | none => CoordinateField.ofPrime prime
  | some texts => CoordinateField.ofPolynomial prime (← readNumbers n .polynomialCoefficient texts)

/-- Reads an element of a field. -/
def CoordinateField.read {n : Nat} (f : CoordinateField n) (quantity : Quantity)
    (c : Coordinate) : Except Failure (FieldElement n) := do
  match f.encode? (← c.read n quantity) with
  | some a => return a
  | none => .error (.invalidCurve (.notFieldElement quantity))

/-- The group that a parameter set describes. -/
def CurveGroup.ofParameters (n : Nat) (p : DomainParameters) : Except Failure (CurveGroup n) := do
  let f ← p.readField n
  let a ← f.read .a p.a
  let b ← f.read .b p.b
  let x ← f.read .generatorX p.generator.x
  let y ← f.read .generatorY p.generator.y
  let order ← readNumber n .order p.order
  let curve ← Curve.ofCoefficients f a b
  CurveGroup.ofBasePoint p.name curve x y order

end NybergRueppel
