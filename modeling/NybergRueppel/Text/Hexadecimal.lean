import NybergRueppel.Limbs

/-!
Hexadecimal digits: their values, the digit strings of words and limbs, and the pairs of digits that
write bytes.
-/
namespace NybergRueppel.Hexadecimal

/-- The value of an ASCII hexadecimal digit of either case. -/
def digitValue? (c : Char) : Option UInt64 :=
  let v := c.toNat
  if 0x30 ≤ v ∧ v ≤ 0x39 then some (v - 0x30).toUInt64
  else if 0x41 ≤ v ∧ v ≤ 0x46 then some (v - 0x41 + 10).toUInt64
  else if 0x61 ≤ v ∧ v ≤ 0x66 then some (v - 0x61 + 10).toUInt64
  else none

/-- The two alphabets of hexadecimal digits. -/
inductive LetterCase where
  | upper
  | lower

/-- The digit with the given value below sixteen. -/
def digit (letters : LetterCase) (value : UInt64) : Char :=
  if value < 10 then Char.ofNat (0x30 + value.toNat)
  else match letters with
    | .upper => Char.ofNat (0x41 + (value.toNat - 10))
    | .lower => Char.ofNat (0x61 + (value.toNat - 10))

/-- All sixteen digits of a word, the highest first. -/
def fullWord (letters : LetterCase) (w : UInt64) : List Char :=
  ((Word.toDigits 4 16 w).map (digit letters)).reverse

/-- The digits of a word without leading zeros; zero has one digit. -/
def word (letters : LetterCase) (w : UInt64) : List Char :=
  match (fullWord letters w).dropWhile (· == '0') with
  | [] => ['0']
  | cs => cs

/-- Writes limbs given from the highest down: the first of them that is not zero has no leading
zeros, and every limb below it has all its digits. -/
def descending (letters : LetterCase) : List UInt64 → List Char
  | [] => ['0']
  | x :: xs =>
    if x == 0 then descending letters xs
    else word letters x ++ xs.flatMap (fullWord letters)

/-- The digits of a number without leading zeros; zero has one digit. -/
def limbs (letters : LetterCase) (xs : List UInt64) : List Char :=
  descending letters xs.reverse

/-- A text as a hexadecimal number: the trimmed text may start with the mark, which is taken off. -/
def withoutMark : List Char → List Char
  | '0' :: 'x' :: rest => rest
  | '0' :: 'X' :: rest => rest
  | cs => cs

/-- The limbs that a string of digits stands for, or the character closest to its end that is no
digit. Sixteen digits make a limb, counted from the end. -/
def limbsOfDigits (digits : List Char) : Except Char (List UInt64) := do
  let values ← digits.reverse.mapM fun c =>
    match digitValue? c with
    | some v => .ok v
    | none => .error c
  return Limbs.ofDigits 4 16 values

/-- Two lower-case digits for every byte. -/
def ofBytes (bytes : List UInt8) : List Char :=
  bytes.flatMap fun (b : UInt8) =>
    [digit .lower (b.toUInt64 >>> 4), digit .lower (b.toUInt64 &&& 0xF)]

/-- Why a text is no sequence of pairs of digits. -/
inductive BytesDefect where
  | oddLength
  /-- The byte at `position` of the encoded text is no digit; it is shown as the character with its
  number. -/
  | invalidCharacter (c : Char) (position : Nat)
  deriving DecidableEq

/-- Reads pairs of digits; `position` counts the bytes before them. -/
def pairs : Nat → List UInt8 → Except BytesDefect (List UInt8)
  | position, high :: low :: rest =>
    match digitValue? (Char.ofNat high.toNat), digitValue? (Char.ofNat low.toNat) with
    | some h, some l => do return ((h <<< 4) ||| l).toUInt8 :: (← pairs (position + 2) rest)
    | none, _ => .error (.invalidCharacter (Char.ofNat high.toNat) position)
    | some _, none => .error (.invalidCharacter (Char.ofNat low.toNat) (position + 1))
  | _, _ => .ok []

/-- Reads a text of pairs of digits. Its length is that of its UTF-8 encoding. -/
def toBytes (text : String) : Except BytesDefect (List UInt8) :=
  let bytes := text.toUTF8.toList
  if bytes.length % 2 = 1 then .error .oddLength else pairs 0 bytes

end NybergRueppel.Hexadecimal
