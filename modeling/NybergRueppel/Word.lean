/-!
Machine words. A word is a `UInt64`, and every operation here keeps the part of a sum, a difference
or a product that does not fit into one word.
-/
namespace NybergRueppel.Word

/-- The number of values that a word can take. -/
def base : Nat := Nat.pow 2 64

/-- A double word. -/
structure Double where
  low : UInt64
  high : UInt64

/-- The number that a double word stands for. -/
def Double.toNat (d : Double) : Nat :=
  d.low.toNat + base * d.high.toNat

/-- Adds one word to a double word, modulo `2 ^ 128`. -/
@[inline]
def Double.add (d : Double) (w : UInt64) : Double :=
  let low := d.low + w
  { low := low, high := if low < w then d.high + 1 else d.high }

/-- The full product of two words, from the four products of their halves. -/
@[inline]
def product (a b : UInt64) : Double :=
  let aLow := a &&& 0xFFFFFFFF
  let aHigh := a >>> 32
  let bLow := b &&& 0xFFFFFFFF
  let bHigh := b >>> 32
  let cross := aHigh * bLow + ((aLow * bLow) >>> 32)
  let middle := aLow * bHigh + (cross &&& 0xFFFFFFFF)
  { low := a * b, high := aHigh * bHigh + (cross >>> 32) + (middle >>> 32) }

/-- The double word `t + a * b + c`. It never wraps: the largest operands give `2 ^ 128 - 1`. -/
@[inline]
def mulAdd (t a b c : UInt64) : Double :=
  ((product a b).add t).add c

/-- The sum of two words and an incoming carry, with the outgoing carry. -/
@[inline]
def addCarry (a b : UInt64) (carry : Bool) : UInt64 × Bool :=
  let partialSum := a + b
  let sum := partialSum + carry.toUInt64
  (sum, partialSum < a || sum < partialSum)

/-- The difference of two words less an incoming borrow, with the outgoing borrow. -/
@[inline]
def subBorrow (a b : UInt64) (borrow : Bool) : UInt64 × Bool :=
  let partialDifference := a - b
  (partialDifference - borrow.toUInt64, a < b || partialDifference < borrow.toUInt64)

/-- The position after the highest set bit, zero for the word zero. -/
def bitLength (w : UInt64) : Nat :=
  if w = 0 then 0 else w.log2.toNat + 1

/-- Bit `i` of a word, for `i < 64`. -/
@[inline]
def testBit (w : UInt64) (i : Nat) : Bool :=
  (w >>> i.toUInt64) &&& 1 = 1

/-- The 64 bits of a word, lowest first. -/
def bits (w : UInt64) : List Bool :=
  (List.range 64).map (testBit w)

/-- Joins digits of `width` bits, lowest first, into one word. -/
def ofDigits (width : UInt64) (digits : List UInt64) : UInt64 :=
  digits.foldr (fun digit word => (word <<< width) ||| digit) 0

/-- Cuts a word into `count` digits of `width` bits, lowest first. -/
def toDigits (width count : Nat) (w : UInt64) : List UInt64 :=
  (List.range count).map fun i =>
    (w >>> (i * width).toUInt64) &&& ((1 <<< width.toUInt64) - 1)

end NybergRueppel.Word
