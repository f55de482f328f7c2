import NybergRueppel.FixedNat.Written
import NybergRueppel.Failure

/-!
Parameter sets of curves as they are written: every number is a hexadecimal text. A coordinate is
one text for a prime field and a list of coefficients, the lowest degree first, for an extension.
-/
namespace NybergRueppel

/-- A field element as it is written. -/
inductive Coordinate where
  | prime (text : String)
  | extension (texts : List String)
  deriving DecidableEq

/-- The affine coordinates of a base point as they are written. -/
structure WrittenPoint where
  x : Coordinate
  y : Coordinate
  deriving DecidableEq

/-- A curve `y ^ 2 = x ^ 3 + a * x + b` with a base point of the given order, as it is written. The
extension holds the low coefficients of a monic polynomial; a prime field has none. -/
structure DomainParameters where
  name : String
  prime : String
  extension : Option (List String)
  a : Coordinate
  b : Coordinate
  generator : WrittenPoint
  order : String
  deriving DecidableEq

/-- Reads a number of `n` limbs. -/
def readNumber (n : Nat) (quantity : Quantity) (text : String) : Except Failure (FixedNat n) :=
  match FixedNat.ofHex? n text with
  | some a => .ok a
  | none => .error (.undecodable (.badNumber quantity text))

/-- Reads every number of a list; the first that cannot be read is reported. -/
def readNumbers (n : Nat) (quantity : Quantity) (texts : List String) :
    Except Failure (List (FixedNat n)) :=
  texts.mapM (readNumber n quantity)

/-- The coefficients of a coordinate. -/
def Coordinate.texts : Coordinate → List String
  | .prime text => [text]
  | .extension texts => texts

/-- Reads every coefficient of a coordinate. -/
def Coordinate.read (n : Nat) (quantity : Quantity) (c : Coordinate) :
    Except Failure (List (FixedNat n)) :=
  readNumbers n quantity c.texts

namespace DomainParameters

/-- The curve over a 256-bit prime field that is also called secp256r1. -/
def p256 : DomainParameters where
  name := "P-256"
  prime := "FFFFFFFF00000001000000000000000000000000FFFFFFFFFFFFFFFFFFFFFFFF"
  extension := none
  a := .prime "FFFFFFFF00000001000000000000000000000000FFFFFFFFFFFFFFFFFFFFFFFC"
  b := .prime "5AC635D8AA3A93E7B3EBBD55769886BC651D06B0CC53B0F63BCE3C3E27D2604B"
  generator := {
    x := .prime "6B17D1F2E12C4247F8BCE6E563A440F277037D812DEB33A0F4A13945D898C296"
    y := .prime "4FE342E2FE1A7F9B8EE7EB4A7C0F9E162BCE33576B315ECECBB6406837BF51F5" }
  order := "FFFFFFFF00000000FFFFFFFFFFFFFFFFBCE6FAADA7179E84F3B9CAC2FC632551"

/-- The curve `y ^ 2 = x ^ 3 + 7` over a 256-bit prime field. -/
def secp256k1 : DomainParameters where
  name := "secp256k1"
  prime := "FFFFFFFFFFFFFFFFFFFFFFFFFFFFFFFFFFFFFFFFFFFFFFFFFFFFFFFEFFFFFC2F"
  extension := none
  a := .prime "0"
  b := .prime "7"
  generator := {
    x := .prime "79BE667EF9DCBBAC55A06295CE870B07029BFCDB2DCE28D959F2815B16F81798"
    y := .prime "483ADA7726A3C4655DA4FBFC0E1108A8FD17B448A68554199C47D08FFB10D4B8" }
  order := "FFFFFFFFFFFFFFFFFFFFFFFFFFFFFFFEBAAEDCE6AF48A03BBFD25E8CD0364141"

/-- The names of the first built-in curve in lower case. -/
def p256Names : List String :=
  ["p-256", "p256", "secp256r1", "prime256v1"]

/-- A text with the ASCII capitals made small. -/
def lowerCase (text : String) : String :=
  String.ofList (text.toList.map Char.toLower)

/-- Looks up a built-in curve by its name; the case of ASCII letters does not matter. -/
def builtin? (name : String) : Option DomainParameters :=
  let name := lowerCase name
  if p256Names.contains name then some p256
  else if name == "secp256k1" then some secp256k1
  else none

end DomainParameters

end NybergRueppel
