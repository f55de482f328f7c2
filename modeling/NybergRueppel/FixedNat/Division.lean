import NybergRueppel.FixedNat.Basic

/-!
Long division, one bit at a time. The running remainder stays below the divisor, so doubling it can
push at most one bit out of the width, and one subtraction brings it back.
-/
namespace NybergRueppel.FixedNat

variable {n : Nat}

/-- Takes the next bit of the dividend into the remainder; the result also tells whether the divisor
went in. -/
def divideStep (divisor remainder : FixedNat n) (bit : Bool) : FixedNat n × Bool :=
  let (doubled, out) := remainder.double bit
  if out || !decide (doubled < divisor) then (doubled - divisor, true) else (doubled, false)

/-- Divides by taking in the lowest `count` bits of the dividend, the highest of them first. -/
def divideBits (dividend divisor : FixedNat n) :
    Nat → FixedNat n → FixedNat n → FixedNat n × FixedNat n
  | 0, quotient, remainder => (quotient, remainder)
  | i + 1, quotient, remainder =>
    let (remainder, bit) := divideStep divisor remainder (dividend.testBit i)
    divideBits dividend divisor i (quotient.double bit).1 remainder

/-- Quotient and remainder for a divisor that is not zero. -/
def divMod (a d : FixedNat n) : FixedNat n × FixedNat n :=
  if a < d then (0, a) else divideBits a d a.bitLength 0 0

/-- Quotient and remainder; nothing is divided by zero. -/
def divMod? (a d : FixedNat n) : Option (FixedNat n × FixedNat n) :=
  if d.isZero then none else some (a.divMod d)

/-- The remainder for a modulus that is not zero. -/
def mod (a m : FixedNat n) : FixedNat n :=
  (a.divMod m).2

/-- The remainder; nothing is reduced modulo zero. -/
def mod? (a m : FixedNat n) : Option (FixedNat n) :=
  (a.divMod? m).map Prod.snd

end NybergRueppel.FixedNat
