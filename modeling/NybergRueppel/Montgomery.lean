import NybergRueppel.FixedNat.Modular

/-!
Montgomery multiplication modulo an odd number `m` of `n` limbs, with the radix `R = 2 ^ (64 * n)`.
The product of `a` and `b` is the residue of `a * b / R`; a residue `x` is represented by `x * R`.
-/
namespace NybergRueppel

/-- The running sum of a Montgomery product: as many words as the modulus has and one word above. -/
structure MontgomerySum where
  words : List UInt64
  top : UInt64

namespace MontgomerySum

/-- Adds `a * word` to the sum. The bit that leaves the word above is returned. -/
def addRow (a : List UInt64) (sum : MontgomerySum) (word : UInt64) : MontgomerySum × Bool :=
  let (row, carry) := Limbs.mulAdd word sum.words a 0
  let (top, spill) := Word.addCarry sum.top carry false
  ({ words := row, top := top }, spill)

/-- Adds the multiple of the modulus that clears the lowest word, and drops that word. The sum
before it may have the bit `spill` above its top word. -/
def reduceRow (modulus : List UInt64) (negInv : UInt64) (sum : MontgomerySum) (spill : Bool) :
    MontgomerySum :=
  let factor := sum.words.headD 0 * negInv
  let (row, carry) := Limbs.mulAdd factor sum.words modulus 0
  let (last, carry) := Word.addCarry sum.top carry false
  { words := row.tail ++ [last], top := spill.toUInt64 + carry.toUInt64 }

/-- Takes one word of the second factor into the sum. -/
def step (modulus : List UInt64) (negInv : UInt64) (a : List UInt64) (sum : MontgomerySum)
    (word : UInt64) : MontgomerySum :=
  let (sum, spill) := sum.addRow a word
  sum.reduceRow modulus negInv spill

end MontgomerySum

/-- One Newton step towards the inverse of `a`: if `x` is right in its low `k` bits, the result is
right in its low `2 * k` bits. -/
def newtonStep (a x : UInt64) : UInt64 :=
  x * (2 - a * x)

/-- The inverse of an odd word modulo `2 ^ 64`. Each step doubles the number of correct low bits,
of which one is correct at the start. -/
def inverseWord (a : UInt64) : UInt64 :=
  (List.range 6).foldl (fun x _ => newtonStep a x) 1

/-- The Montgomery product of `a` and `b`, which are below the modulus. The sum ends below twice the
modulus, so that one subtraction is enough. -/
def montgomeryProduct {n : Nat} (modulus : FixedNat n) (negInv : UInt64) (a b : FixedNat n) :
    FixedNat n :=
  let sum := b.limbs.foldl (MontgomerySum.step modulus.limbs negInv a.limbs)
    { words := (0 : FixedNat n).limbs, top := 0 }
  let value := FixedNat.ofLimbs n sum.words
  if sum.top != 0 || !decide (value < modulus) then value - modulus else value

/-- The residue of `2 ^ count`, by doubling. -/
def powerOfTwo {n : Nat} (modulus : FixedNat n) : Nat → FixedNat n
  | 0 => 1
  | count + 1 => let r := powerOfTwo modulus count; FixedNat.addMod modulus r r

/-- The power of `base` whose exponent has the given bits, lowest first. -/
def powBits {α : Type} (mul : α → α → α) : List Bool → α → α → α
  | [], result, _ => result
  | bit :: bits, result, base =>
    powBits mul bits (if bit then mul result base else result) (mul base base)

/-- What Montgomery multiplication needs to know about its modulus. -/
structure Montgomery (n : Nat) where
  modulus : FixedNat n
  isOdd_modulus : modulus.isOdd = true
  two_le_bitLength : 2 ≤ modulus.bitLength
  /-- Minus the inverse of the modulus, modulo `2 ^ 64`. -/
  negInv : UInt64
  negInv_eq : negInv = -inverseWord (modulus.limbs.headD 0)
  /-- The residue of `R ^ 2`. -/
  rSquared : FixedNat n
  rSquared_eq : rSquared = powerOfTwo modulus (2 * FixedNat.width n)
  /-- The residue of `R`, which represents one. -/
  one : FixedNat n
  one_eq : one = montgomeryProduct modulus negInv 1 rSquared

namespace Montgomery

variable {n : Nat}

/-- The modulus has to be odd and at least three. -/
def ofModulus? (m : FixedNat n) : Option (Montgomery n) :=
  if h : m.isOdd = true ∧ 2 ≤ m.bitLength then
    let negInv := -inverseWord (m.limbs.headD 0)
    let rSquared := powerOfTwo m (2 * FixedNat.width n)
    some {
      modulus := m
      isOdd_modulus := h.1
      two_le_bitLength := h.2
      negInv := negInv
      negInv_eq := rfl
      rSquared := rSquared
      rSquared_eq := rfl
      one := montgomeryProduct m negInv 1 rSquared
      one_eq := rfl }
  else none

/-- The residue of `a * b / R`, for `a` and `b` below the modulus. -/
def mul (ctx : Montgomery n) (a b : FixedNat n) : FixedNat n :=
  montgomeryProduct ctx.modulus ctx.negInv a b

/-- The residue of an integer of any size. -/
def reduce (ctx : Montgomery n) (a : FixedNat n) : FixedNat n :=
  if a < ctx.modulus then a else a.mod ctx.modulus

/-- The representation of an integer: the residue of `a * R`. -/
def encode (ctx : Montgomery n) (a : FixedNat n) : FixedNat n :=
  ctx.mul (ctx.reduce a) ctx.rSquared

/-- The integer that a residue represents. -/
def decode (ctx : Montgomery n) (a : FixedNat n) : FixedNat n :=
  ctx.mul a 1

/-- The residue of `a * b` for integers of any size. -/
def mulMod (ctx : Montgomery n) (a b : FixedNat n) : FixedNat n :=
  ctx.decode (ctx.mul (ctx.encode a) (ctx.encode b))

/-- A power of a represented residue. The exponent is a list of limbs of any length. -/
def pow (ctx : Montgomery n) (base : FixedNat n) (exponent : List UInt64) : FixedNat n :=
  powBits ctx.mul (Limbs.bits exponent) ctx.one base

/-- The residue of a power of an integer. -/
def powMod (ctx : Montgomery n) (base exponent : FixedNat n) : FixedNat n :=
  ctx.decode (ctx.pow (ctx.encode base) exponent.limbs)

/-- The power by `m - 2`, which is the inverse if the modulus `m` is prime; zero stays zero. -/
def inverse (ctx : Montgomery n) (a : FixedNat n) : FixedNat n :=
  ctx.pow a (ctx.modulus - FixedNat.ofWord 2).limbs

end Montgomery

end NybergRueppel
