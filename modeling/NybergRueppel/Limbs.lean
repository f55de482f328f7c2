import NybergRueppel.Word

/-!
Unsigned numbers as lists of words, the least significant word first. The operations here are the
carry chains that the fixed-width and the buffered integers share; `toNat` is the one view through
which they are understood.
-/
namespace NybergRueppel.Limbs

/-- The number that a list of limbs stands for. -/
def toNat : List UInt64 → Nat
  | [] => 0
  | x :: xs => x.toNat + Word.base * toNat xs

/-- Adds two lists of one length, with an incoming and an outgoing carry. -/
def addCarry : List UInt64 → List UInt64 → Bool → List UInt64 × Bool
  | x :: xs, y :: ys, carry =>
    let (sum, carry) := Word.addCarry x y carry
    let (rest, carry) := addCarry xs ys carry
    (sum :: rest, carry)
  | _, _, carry => ([], carry)

/-- Subtracts two lists of one length, with an incoming and an outgoing borrow. -/
def subBorrow : List UInt64 → List UInt64 → Bool → List UInt64 × Bool
  | x :: xs, y :: ys, borrow =>
    let (difference, borrow) := Word.subBorrow x y borrow
    let (rest, borrow) := subBorrow xs ys borrow
    (difference :: rest, borrow)
  | _, _, borrow => ([], borrow)

/-- Subtracts one word; the second part is what is still to be taken away at the end. -/
def subWord : List UInt64 → UInt64 → List UInt64 × UInt64
  | [], w => ([], w)
  | x :: xs, w =>
    let (rest, w') := subWord xs (if x < w then 1 else 0)
    ((x - w) :: rest, w')

/-- Adds `w` times the second list and a carry word to the first list. The sum has the length of the
shorter list, and the word that leaves at its top is returned beside it. -/
def mulAdd (w : UInt64) : List UInt64 → List UInt64 → UInt64 → List UInt64 × UInt64
  | t :: ts, a :: as, carry =>
    let step := Word.mulAdd t a w carry
    let (rest, carry) := mulAdd w ts as step.high
    (step.low :: rest, carry)
  | _, _, carry => ([], carry)

/-- Adds the product of `as` and `bs` to a window as long as `bs`. Each row of the product is added
to the window, whose lowest word is then final and leaves it. -/
def mulRows (bs : List UInt64) : List UInt64 → List UInt64 → List UInt64
  | [], window => window
  | a :: as, window =>
    let (row, carry) := mulAdd a window bs 0
    match row ++ [carry] with
    | [] => []
    | low :: window => low :: mulRows bs as window

/-- The product of two lists, as long as both together. -/
def mul (as bs : List UInt64) : List UInt64 :=
  mulRows bs as (bs.map fun _ => 0)

/-- Compares two lists of one length as numbers. -/
def compare : List UInt64 → List UInt64 → Ordering
  | x :: xs, y :: ys => (compare xs ys).then (Ord.compare x y)
  | _, _ => .eq

/-- Doubles a number and puts a bit into the free place; the bit that leaves is returned. -/
def double : List UInt64 → Bool → List UInt64 × Bool
  | [], bit => ([], bit)
  | x :: xs, bit =>
    let (rest, out) := double xs (Word.testBit x 63)
    (((x <<< 1) ||| bit.toUInt64) :: rest, out)

/-- Shifts up by `s` bits, `0 < s < 64`, taking in the bits of `carry`; the bits that leave are
returned. -/
def shiftUp (s : UInt64) : List UInt64 → UInt64 → List UInt64 × UInt64
  | [], carry => ([], carry)
  | x :: xs, carry =>
    let (rest, out) := shiftUp s xs (x >>> (64 - s))
    (((x <<< s) ||| carry) :: rest, out)

/-- Shifts down by `s` bits, `0 < s < 64`. -/
def shiftDown (s : UInt64) : List UInt64 → List UInt64
  | [] => []
  | x :: xs => ((x >>> s) ||| (xs.headD 0 <<< (64 - s))) :: shiftDown s xs

/-- The position after the highest set bit, zero for the number zero. -/
def bitLength : List UInt64 → Nat
  | [] => 0
  | x :: xs =>
    match bitLength xs with
    | 0 => Word.bitLength x
    | k + 1 => k + 1 + 64

/-- Bit `i` of a number; the bits above its limbs are zero. -/
def testBit (xs : List UInt64) (i : Nat) : Bool :=
  Word.testBit (xs.getD (i / 64) 0) (i % 64)

/-- All bits, lowest first. -/
def bits (xs : List UInt64) : List Bool :=
  xs.flatMap Word.bits

/-- True if every limb is zero. -/
def isZero (xs : List UInt64) : Bool :=
  xs.all (· == 0)

/-- The number of limbs up to the highest that is not zero, and at least one. -/
def significant : List UInt64 → Nat
  | [] => 1
  | _ :: xs => if isZero xs then 1 else significant xs + 1

/-- Cuts or pads a list to `n` limbs. -/
def fit : Nat → List UInt64 → List UInt64
  | 0, _ => []
  | n + 1, xs => xs.headD 0 :: fit n xs.tail

/-- Joins digits of `width` bits, lowest first, into limbs of `count` digits. -/
def ofDigits (width : UInt64) (count : Nat) (digits : List UInt64) : List UInt64 :=
  match digits with
  | [] => []
  | d :: ds =>
    Word.ofDigits width (d :: ds.take (count - 1)) :: ofDigits width count (ds.drop (count - 1))
termination_by digits.length
decreasing_by simp only [List.length_drop, List.length_cons]; omega

/-- Reads bytes in big-endian order; the highest limb may be partly filled. -/
def ofBytes (bytes : List UInt8) : List UInt64 :=
  ofDigits 8 8 (bytes.reverse.map UInt8.toUInt64)

/-- Writes every limb as eight bytes, in big-endian order. -/
def toBytes (xs : List UInt64) : List UInt8 :=
  (xs.flatMap fun x => (Word.toDigits 8 8 x).map UInt64.toUInt8).reverse

theorem length_addCarry (xs ys : List UInt64) (carry : Bool) :
    (addCarry xs ys carry).1.length = min xs.length ys.length := by
  induction xs generalizing ys carry with
  | nil => simp [addCarry]
  | cons x xs ih => cases ys <;> simp [addCarry, ih, Nat.succ_min_succ]

theorem length_subBorrow (xs ys : List UInt64) (borrow : Bool) :
    (subBorrow xs ys borrow).1.length = min xs.length ys.length := by
  induction xs generalizing ys borrow with
  | nil => simp [subBorrow]
  | cons x xs ih => cases ys <;> simp [subBorrow, ih, Nat.succ_min_succ]

theorem length_mulAdd (w : UInt64) (ts as : List UInt64) (carry : UInt64) :
    (mulAdd w ts as carry).1.length = min ts.length as.length := by
  induction ts generalizing as carry with
  | nil => simp [mulAdd]
  | cons t ts ih => cases as <;> simp [mulAdd, ih, Nat.succ_min_succ]

theorem length_double (xs : List UInt64) (bit : Bool) :
    (double xs bit).1.length = xs.length := by
  induction xs generalizing bit with
  | nil => rfl
  | cons x xs ih => simp [double, ih]

theorem length_fit (n : Nat) (xs : List UInt64) : (fit n xs).length = n := by
  induction n generalizing xs with
  | zero => rfl
  | succ n ih => simp [fit, ih]

end NybergRueppel.Limbs
