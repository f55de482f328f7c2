import NybergRueppel.FixedNat.Basic
import NybergRueppel.Failure

/-!
Signed integers in a buffer. The buffer has a fixed room of words, of which the lowest `size` are
significant. Every operation that makes a number ends in `BufferedInt.normalize`, so that the size
is the least possible, the words above it are zero, and zero is not negative.
-/
namespace NybergRueppel

/-- The sign of a number. -/
inductive Sign where
  | plus
  | minus
  deriving DecidableEq

/-- The opposite sign. -/
def Sign.opposite : Sign → Sign
  | .plus => .minus
  | .minus => .plus

/-- A signed integer whose magnitude is kept in a buffer of words, the least significant first. -/
structure BufferedInt where
  sign : Sign
  size : Nat
  buffer : List UInt64
  deriving DecidableEq

namespace BufferedInt

/-- The capacity in words. -/
def room (a : BufferedInt) : Nat :=
  a.buffer.length

/-- The significant words. -/
def limbs (a : BufferedInt) : List UInt64 :=
  a.buffer.take a.size

/-- The integer that a number stands for. -/
def toInt (a : BufferedInt) : Int :=
  match a.sign with
  | .plus => Limbs.toNat a.limbs
  | .minus => -(Limbs.toNat a.limbs : Int)

def isNegative (a : BufferedInt) : Bool :=
  a.sign = .minus

def isZero (a : BufferedInt) : Bool :=
  a.size == 1 && a.buffer.headD 0 == 0

/-- Shortens the size to the highest word that is not zero, clears the words above it, and gives
zero the sign plus. -/
def normalize (a : BufferedInt) : BufferedInt :=
  let size := Limbs.significant a.limbs
  let buffer := a.buffer.take size ++ List.replicate (a.room - size) 0
  let trimmed : BufferedInt := { a with size := size, buffer := buffer }
  if trimmed.isZero then { trimmed with sign := .plus } else trimmed

/-- Zero with the given room, which is at least one word. -/
def withRoom (words : Nat) : BufferedInt :=
  { sign := .plus, size := 1, buffer := List.replicate (max 1 words) 0 }

/-- A number with the given sign and limbs, whose room is the number of limbs. -/
def ofSignedLimbs (sign : Sign) (limbs : List UInt64) : BufferedInt :=
  let buffer := if limbs.isEmpty then [0] else limbs
  normalize { sign := sign, size := buffer.length, buffer := buffer }

/-- A number that is not negative, whose room is the number of limbs. -/
def ofLimbs (limbs : List UInt64) : BufferedInt :=
  ofSignedLimbs .plus limbs

def ofWord (w : UInt64) : BufferedInt :=
  ofLimbs [w]

/-- A fixed-width integer as a number with room for its width. -/
def ofFixed {n : Nat} (a : FixedNat n) : BufferedInt :=
  ofLimbs a.limbs

/-- Reads bytes in big-endian order. -/
def ofBytes (bytes : List UInt8) : BufferedInt :=
  ofLimbs (Limbs.ofBytes bytes)

/-- The number with the opposite sign; zero stays as it is. -/
def neg (a : BufferedInt) : BufferedInt :=
  normalize { a with sign := a.sign.opposite }

/-- The same number with room for at least the given words. -/
def withMinRoom (a : BufferedInt) (words : Nat) : BufferedInt :=
  { a with buffer := a.buffer ++ List.replicate (words - a.room) 0 }

/-- The position after the highest set bit of the magnitude. -/
def bitLength (a : BufferedInt) : Nat :=
  (a.size - 1) * 64 + Word.bitLength (a.buffer.getD (a.size - 1) 0)

/-- Bit `i` of the magnitude. -/
def testBit (a : BufferedInt) (i : Nat) : Bool :=
  Limbs.testBit a.limbs i

/-- Stores a number that is not negative into the room of another. -/
def setUnsigned (a : BufferedInt) (limbs : List UInt64) : Except Failure BufferedInt :=
  let significant := limbs.take (Limbs.significant limbs)
  if a.room < significant.length then .error .bufferTooSmall
  else .ok (normalize {
    sign := .plus
    size := max 1 significant.length
    buffer := significant ++ List.replicate (a.room - significant.length) 0 })

/-- The magnitude as an integer of `n` limbs, if it fits. -/
def toFixed? (n : Nat) (a : BufferedInt) : Option (FixedNat n) :=
  FixedNat.ofLimbs? n a.limbs

/-- Compares the magnitude with a fixed-width integer. -/
def compareMagnitude {n : Nat} (a : BufferedInt) (b : FixedNat n) : Ordering :=
  match a.toFixed? n with
  | some value => compare value b
  | none => .gt

/-- The shortest big-endian encoding of the magnitude, of at least one byte. -/
def toBytes (a : BufferedInt) : List UInt8 :=
  match (Limbs.toBytes a.limbs).dropWhile (· == 0) with
  | [] => [0]
  | bytes => bytes

/-- The product of the magnitudes. -/
def mul (a b : BufferedInt) : BufferedInt :=
  ofLimbs (Limbs.mul a.limbs b.limbs)

/-- The magnitude less one word, unless the word is larger. -/
def subWord? (a : BufferedInt) (w : UInt64) : Option BufferedInt :=
  let (limbs, borrow) := Limbs.subWord a.limbs w
  if borrow = 0 then some (ofLimbs limbs) else none

/-- True if two numbers have the same sign and the same significant words, whatever their rooms. -/
def sameNumber (a b : BufferedInt) : Bool :=
  a.sign = b.sign && a.limbs == b.limbs

end BufferedInt

end NybergRueppel
