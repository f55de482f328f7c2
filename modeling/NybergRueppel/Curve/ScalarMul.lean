import NybergRueppel.Curve.WindowTable

/-!
Scalar multiplication with windows of four bits. The digits of the scalar are taken from the highest
down; each step doubles the sum four times and adds the multiple that the digit selects.
-/
namespace NybergRueppel.Curve

variable {n : Nat}

/-- The number of windows that cover the given bits. -/
def windowCount (bits : Nat) : Nat :=
  (bits + windowBits - 1) / windowBits

/-- Doubles a point as often as a window has bits. -/
def shiftWindow (curve : Curve n) (p : JacobianPoint n) : JacobianPoint n :=
  (List.range windowBits).foldl (fun p _ => curve.double p) p

/-- The multiple that digit `i` of a scalar selects. -/
def selected (table : WindowTable n) (k : FixedNat n) (i : Nat) : JacobianPoint n :=
  table.select (k.window (i * windowBits) windowBits)

/-- Takes in the lowest `count` digits of a scalar, the highest of them first. -/
def mulDigits (curve : Curve n) (table : WindowTable n) (k : FixedNat n) :
    Nat → JacobianPoint n → JacobianPoint n
  | 0, sum => sum
  | i + 1, sum =>
    mulDigits curve table k i (curve.add (curve.shiftWindow sum) (selected table k i))

/-- The multiple of a point by a scalar of at most `bits` bits. The table is overwritten with the
multiples of the point and returned. -/
def mulPoint (curve : Curve n) (k : FixedNat n) (p : JacobianPoint n) (bits : Nat)
    (table : WindowTable n) : JacobianPoint n × WindowTable n :=
  let table := table.fill curve p
  (mulDigits curve table k (windowCount bits) curve.identity, table)

/-- Takes in the lowest `count` digits of two scalars side by side. -/
def mulDigitPairs (curve : Curve n) (tableP tableQ : WindowTable n) (a b : FixedNat n) :
    Nat → JacobianPoint n → JacobianPoint n
  | 0, sum => sum
  | i + 1, sum =>
    let sum := curve.add (curve.shiftWindow sum) (selected tableP a i)
    mulDigitPairs curve tableP tableQ a b i (curve.add sum (selected tableQ b i))

/-- The sum `a * p + b * q` for scalars of at most `bits` bits. Each point has a table of its own.
-/
def mulTwoPoints (curve : Curve n) (a : FixedNat n) (p : JacobianPoint n) (b : FixedNat n)
    (q : JacobianPoint n) (bits : Nat) (tableP tableQ : WindowTable n) :
    JacobianPoint n × WindowTable n × WindowTable n :=
  let tableP := tableP.fill curve p
  let tableQ := tableQ.fill curve q
  (mulDigitPairs curve tableP tableQ a b (windowCount bits) curve.identity, tableP, tableQ)

end NybergRueppel.Curve
