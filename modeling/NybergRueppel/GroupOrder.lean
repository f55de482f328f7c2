import NybergRueppel.Failure
import NybergRueppel.Montgomery

/-!
Arithmetic modulo the order of a group. Signatures only add, subtract and multiply here; a product
has one factor in Montgomery form and one plain factor, so that its value is plain.
-/
namespace NybergRueppel

/-- An odd group order with its Montgomery constants. -/
structure GroupOrder (n : Nat) where
  mont : Montgomery n

namespace GroupOrder

variable {n : Nat}

/-- The order has to be odd and at least three. -/
def ofNumber (order : FixedNat n) : Except Failure (GroupOrder n) :=
  match Montgomery.ofModulus? order with
  | some mont => .ok { mont := mont }
  | none => .error (.invalidCurve .unsuitableOrder)

def modulus (order : GroupOrder n) : FixedNat n :=
  order.mont.modulus

/-- The bit length of the order. -/
def bits (order : GroupOrder n) : Nat :=
  order.modulus.bitLength

/-- The words that hold every value below the order. -/
def words (order : GroupOrder n) : Nat :=
  FixedNat.wordsForBits order.bits

/-- The residue of `a + b` for residues `a` and `b`. -/
def add (order : GroupOrder n) (a b : FixedNat n) : FixedNat n :=
  FixedNat.addMod order.modulus a b

/-- The residue of `a - b` for residues `a` and `b`. -/
def sub (order : GroupOrder n) (a b : FixedNat n) : FixedNat n :=
  FixedNat.subMod order.modulus a b

/-- True if `a` lies strictly between zero and the order. -/
def inOpenRange (order : GroupOrder n) (a : FixedNat n) : Bool :=
  !a.isZero && decide (a < order.modulus)

/-- The Montgomery form of an integer. -/
def encode (order : GroupOrder n) (a : FixedNat n) : FixedNat n :=
  order.mont.encode a

/-- The integer of a Montgomery form. -/
def decode (order : GroupOrder n) (a : FixedNat n) : FixedNat n :=
  order.mont.decode a

/-- The Montgomery product; it is the plain product if one factor is encoded and the other plain. -/
def montMul (order : GroupOrder n) (a b : FixedNat n) : FixedNat n :=
  order.mont.mul a b

/-- The residue of `a * b` for a residue `b`. -/
def mul (order : GroupOrder n) (a b : FixedNat n) : FixedNat n :=
  order.montMul (order.encode a) b

/-- The residue of an integer of any size. -/
def reduce (order : GroupOrder n) (a : FixedNat n) : FixedNat n :=
  order.mont.reduce a

end GroupOrder

end NybergRueppel
