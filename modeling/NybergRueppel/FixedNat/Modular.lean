import NybergRueppel.FixedNat.Division

/-!
Addition, subtraction and multiplication modulo an integer that may use the full width. A sum that
leaves the width is told by its carry, and the wrapping subtraction of the modulus then gives the
true residue.
-/
namespace NybergRueppel.FixedNat

variable {n : Nat}

/-- The residue of `a + b` for `a` and `b` below the modulus `m`. -/
def addMod (m a b : FixedNat n) : FixedNat n :=
  let (sum, carry) := a.addCarry b
  if carry || !decide (sum < m) then sum - m else sum

/-- The residue of `a - b` for `a` and `b` below the modulus `m`. -/
def subMod (m a b : FixedNat n) : FixedNat n :=
  let (difference, borrow) := a.subBorrow b
  if borrow then difference + m else difference

/-- Adds `term * 2 ^ i` to the sum for every set bit `i` of the multiplier. -/
def mulBits (m : FixedNat n) : List Bool → FixedNat n → FixedNat n → FixedNat n
  | [], sum, _ => sum
  | bit :: bits, sum, term =>
    mulBits m bits (if bit then addMod m sum term else sum) (addMod m term term)

/-- The residue of `a * b` by shifting and adding, for a modulus that is not zero. -/
def mulMod (m a b : FixedNat n) : FixedNat n :=
  mulBits m ((Limbs.bits a.limbs).take a.bitLength) 0 (b.mod m)

/-- The residue of `a * b`; nothing is reduced modulo zero. -/
def mulMod? (m a b : FixedNat n) : Option (FixedNat n) :=
  if m.isZero then none else some (mulMod m a b)

end NybergRueppel.FixedNat
