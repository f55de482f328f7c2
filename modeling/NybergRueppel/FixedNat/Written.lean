import NybergRueppel.FixedNat.Basic
import NybergRueppel.Text.Blank
import NybergRueppel.Text.Hexadecimal

/-!
The written forms of fixed-width integers. Reading allows leading zeros beyond the width, and no
other digit there; writing gives the canonical upper-case form.
-/
namespace NybergRueppel.FixedNat

variable {n : Nat}

/-- Reads a trimmed hexadecimal number with an optional mark. A value that does not fit into the
width is refused. -/
def ofHex? (n : Nat) (text : String) : Option (FixedNat n) :=
  match Hexadecimal.withoutMark (Text.trim text.toList) with
  | [] => none
  | digits =>
    match Hexadecimal.limbsOfDigits digits with
    | .ok limbs => ofLimbs? n limbs
    | .error _ => none

/-- The upper-case digits without leading zeros. -/
def toHex (a : FixedNat n) : String :=
  String.ofList (Hexadecimal.limbs .upper a.limbs)

/-- The lower-case digits without leading zeros, behind the mark. -/
def displayText (a : FixedNat n) : String :=
  String.ofList ('0' :: 'x' :: Hexadecimal.limbs .lower a.limbs)

/-- The width and all digits of all limbs. -/
def debugText (a : FixedNat n) : String :=
  "BigInt<" ++ toString n ++ ">(0x"
    ++ String.ofList (a.limbs.reverse.flatMap (Hexadecimal.fullWord .lower)) ++ ")"

end NybergRueppel.FixedNat
