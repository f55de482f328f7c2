import NybergRueppel.BufferedInt.Basic
import NybergRueppel.Text.Blank

/-!
The written forms of buffered integers: a minus sign for negative numbers and hexadecimal digits.
The room of a number that is read counts its leading zeros.
-/
namespace NybergRueppel.BufferedInt

/-- Takes a minus sign off the front. -/
def splitSign : List Char → Sign × List Char
  | '-' :: rest => (.minus, rest)
  | cs => (.plus, cs)

/-- Reads a trimmed hexadecimal number with an optional minus sign and an optional mark after it. Of
several characters that are no digits, the one closest to the end is reported. -/
def ofHex (text : String) : Except Failure BufferedInt :=
  let trimmed := Text.trim text.toList
  let (sign, rest) := splitSign trimmed
  match Hexadecimal.withoutMark rest with
  | [] => .error (.undecodable (.emptyNumber (String.ofList trimmed)))
  | digits =>
    match Hexadecimal.limbsOfDigits digits with
    | .ok limbs => .ok (ofSignedLimbs sign limbs)
    | .error c => .error (.undecodable (.invalidDigit c))

/-- The sign of a negative number, and nothing for any other. -/
def signText (a : BufferedInt) : List Char :=
  if a.isNegative then ['-'] else []

/-- The upper-case digits of the magnitude without leading zeros. -/
def digits (a : BufferedInt) : List Char :=
  Hexadecimal.limbs .upper a.limbs

/-- The sign and the upper-case digits. -/
def toHex (a : BufferedInt) : String :=
  String.ofList (a.signText ++ a.digits)

/-- The sign, the mark and the upper-case digits. -/
def displayText (a : BufferedInt) : String :=
  String.ofList (a.signText ++ '0' :: 'x' :: a.digits)

/-- The number and its room. -/
def debugText (a : BufferedInt) : String :=
  "BigNum(0x" ++ a.toHex ++ ", room " ++ toString a.room ++ ")"

end NybergRueppel.BufferedInt
