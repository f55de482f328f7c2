import NybergRueppel.Limbs

/-!
Unsigned integers of a fixed number of limbs. Sums and differences wrap at the width and come with
the carry or borrow that left it; `FixedNat.toNat` is the number that an integer stands for.
-/
namespace NybergRueppel

/-- An unsigned integer of `n` limbs, the least significant limb first. -/
structure FixedNat (n : Nat) where
  limbs : List UInt64
  length_limbs : limbs.length = n
  deriving DecidableEq

namespace FixedNat

variable {n : Nat}

/-- The number that an integer stands for. -/
def toNat (a : FixedNat n) : Nat :=
  Limbs.toNat a.limbs

/-- The number of bits of the width. -/
def width (n : Nat) : Nat := n * 64

/-- The lowest `n` limbs of a list, which is padded with zeros if it is shorter. -/
def ofLimbs (n : Nat) (xs : List UInt64) : FixedNat n :=
  ⟨Limbs.fit n xs, Limbs.length_fit n xs⟩

/-- The integer with the given limbs. A limb above the width has to be zero. -/
def ofLimbs? (n : Nat) (xs : List UInt64) : Option (FixedNat n) :=
  if Limbs.isZero (xs.drop n) then some (ofLimbs n xs) else none

/-- One word as an integer. -/
def ofWord (w : UInt64) : FixedNat n :=
  ofLimbs n [w]

instance : Zero (FixedNat n) := ⟨ofLimbs n []⟩

instance : One (FixedNat n) := ⟨ofWord 1⟩

instance : Inhabited (FixedNat n) := ⟨0⟩

def isZero (a : FixedNat n) : Bool :=
  Limbs.isZero a.limbs

def isOne (a : FixedNat n) : Bool :=
  a = 1

def isOdd (a : FixedNat n) : Bool :=
  Limbs.testBit a.limbs 0

/-- The position after the highest set bit, zero for the number zero. -/
def bitLength (a : FixedNat n) : Nat :=
  Limbs.bitLength a.limbs

/-- The number of words that a value of the given bit length needs, and at least one. -/
def wordsForBits (bits : Nat) : Nat :=
  max 1 ((bits + 63) / 64)

/-- The number of significant words, and at least one. -/
def wordLength (a : FixedNat n) : Nat :=
  wordsForBits a.bitLength

/-- Bit `i`; the bits above the width are zero. -/
def testBit (a : FixedNat n) (i : Nat) : Bool :=
  Limbs.testBit a.limbs i

/-- The `width` bits that start at bit `start`, as a number. -/
def window (a : FixedNat n) (start width : Nat) : Nat :=
  (List.range width).foldr (fun i digit => 2 * digit + (a.testBit (start + i)).toNat) 0

instance : Ord (FixedNat n) := ⟨fun a b => Limbs.compare a.limbs b.limbs⟩

instance : LT (FixedNat n) := ⟨fun a b => compare a b = .lt⟩

instance (a b : FixedNat n) : Decidable (a < b) :=
  inferInstanceAs (Decidable (compare a b = .lt))

/-- The sum modulo the width, with the carry that leaves it. -/
def addCarry (a b : FixedNat n) : FixedNat n × Bool :=
  let sum := Limbs.addCarry a.limbs b.limbs false
  (⟨sum.1, by simp [sum, Limbs.length_addCarry, a.length_limbs, b.length_limbs]⟩, sum.2)

/-- The difference modulo the width, with the borrow that leaves it. -/
def subBorrow (a b : FixedNat n) : FixedNat n × Bool :=
  let difference := Limbs.subBorrow a.limbs b.limbs false
  (⟨difference.1, by simp [difference, Limbs.length_subBorrow, a.length_limbs, b.length_limbs]⟩,
    difference.2)

instance : Add (FixedNat n) := ⟨fun a b => (a.addCarry b).1⟩

instance : Sub (FixedNat n) := ⟨fun a b => (a.subBorrow b).1⟩

/-- Twice the integer plus a bit, modulo the width, with the bit that leaves it. -/
def double (a : FixedNat n) (bit : Bool) : FixedNat n × Bool :=
  let twice := Limbs.double a.limbs bit
  (⟨twice.1, by simp [twice, Limbs.length_double, a.length_limbs]⟩, twice.2)

/-- Shifts up by `s` bits. For `s < 64` the second part holds the bits that leave the width. -/
def shiftLeft (a : FixedNat n) (s : Nat) : FixedNat n × UInt64 :=
  let (shifted, out) :=
    if s % 64 = 0 then (a.limbs, 0) else Limbs.shiftUp (s % 64).toUInt64 a.limbs 0
  (ofLimbs n (List.replicate (min n (s / 64)) 0 ++ shifted), out)

/-- Shifts down by `s` bits. -/
def shiftRight (a : FixedNat n) (s : Nat) : FixedNat n :=
  let words := a.limbs.drop (s / 64)
  ofLimbs n (if s % 64 = 0 then words else Limbs.shiftDown (s % 64).toUInt64 words)

/-- Reads bytes in big-endian order. What lies above the width is dropped. -/
def ofBytes (n : Nat) (bytes : List UInt8) : FixedNat n :=
  ofLimbs n (Limbs.ofBytes bytes)

/-- The `8 * n` bytes in big-endian order. -/
def toBytes (a : FixedNat n) : List UInt8 :=
  Limbs.toBytes a.limbs

end FixedNat

end NybergRueppel
