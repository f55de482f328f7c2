import NybergRueppel.Failure
import NybergRueppel.FixedNat.Written

/-!
Elements of a coordinate field: the coefficients of a polynomial, the lowest degree first, each in
Montgomery form. The coefficients at and above the degree of the field are zero, so that equal
elements are equal coefficient by coefficient.
-/
namespace NybergRueppel

/-- The coefficients of an element, the lowest degree first. -/
structure FieldElement (n : Nat) where
  coeffs : Vector (FixedNat n) maxExtensionDegree
  deriving DecidableEq

namespace FieldElement

variable {n : Nat}

/-- The element whose lowest `degree` coefficients are given and whose other coefficients are
zero. -/
def ofCoeffs (degree : Nat) (coeff : Nat → FixedNat n) : FieldElement n :=
  ⟨Vector.ofFn fun i => if i.val < degree then coeff i.val else 0⟩

/-- The coefficient of a power of the variable. -/
def coeff (a : FieldElement n) (i : Nat) : FixedNat n :=
  a.coeffs.toArray.getD i 0

/-- An element of the base field. -/
def ofBase (c : FixedNat n) : FieldElement n :=
  ofCoeffs 1 fun _ => c

instance : Zero (FieldElement n) := ⟨ofCoeffs 0 fun _ => 0⟩

instance : Inhabited (FieldElement n) := ⟨0⟩

def isZero (a : FieldElement n) : Bool :=
  a.coeffs.all FixedNat.isZero

/-- The list of the coefficients as they are kept. -/
def debugText (a : FieldElement n) : String :=
  "[" ++ String.intercalate ", " (a.coeffs.toList.map FixedNat.debugText) ++ "]"

end FieldElement

end NybergRueppel
