/-!
JSON numbers as they are written. A numeral keeps its digits; what it is good for is read off them:
whether it is a natural number of one word, and whether a double holds it without overflow.
-/
namespace NybergRueppel

/-- The exponent of a numeral. -/
structure JsonExponent where
  negative : Bool
  digits : List Nat
  deriving DecidableEq

/-- A number as it is written: the sign, the digits before and after the point, and the exponent. -/
structure JsonNumeral where
  negative : Bool
  whole : List Nat
  fraction : List Nat
  exponent : Option JsonExponent
  deriving DecidableEq

namespace JsonNumeral

/-- The number that decimal digits stand for, the highest first. -/
def ofDecimal (digits : List Nat) : Nat :=
  digits.foldl (fun value d => value * 10 + d) 0

/-- The decimal digits of a number, the highest first. -/
def toDecimal (v : Nat) : List Nat :=
  if v < 10 then [v] else toDecimal (v / 10) ++ [v % 10]
termination_by v
decreasing_by omega

/-- A natural number as a numeral. -/
def ofNat (v : Nat) : JsonNumeral :=
  { negative := false, whole := toDecimal v, fraction := [], exponent := none }

/-- The values of one word. -/
def wordLimit : Nat := Nat.pow 2 64

/-- The natural number that is written without sign, point and exponent and fits into a word. -/
def natural? (x : JsonNumeral) : Option Nat :=
  let v := ofDecimal x.whole
  if x.negative || !x.fraction.isEmpty || x.exponent.isSome || wordLimit ≤ v then none else some v

/-- The leading digits of a numeral as a word, and the power of ten that it stands before. -/
structure Approximation where
  significand : Nat
  power : Int
  deriving DecidableEq

/-- Takes in the digits before the point. From the first that does not fit into the word, they only
count as powers of ten. -/
def approximateWhole : List Nat → Approximation → Approximation
  | [], a => a
  | d :: ds, a =>
    let next := a.significand * 10 + d
    if wordLimit ≤ next then { a with power := a.power + (ds.length + 1) }
    else approximateWhole ds { a with significand := next }

/-- Takes in the digits after the point, up to the first that does not fit into the word. -/
def approximateFraction : List Nat → Approximation → Approximation
  | [], a => a
  | d :: ds, a =>
    let next := a.significand * 10 + d
    if wordLimit ≤ next then a
    else approximateFraction ds { significand := next, power := a.power - 1 }

/-- Rounds a natural number to 53 significant bits, a tie to the even neighbour. -/
def roundToDouble (v : Nat) : Nat :=
  let excess := v.log2 + 1 - 53
  let unit := Nat.pow 2 excess
  let low := v / unit
  let rest := v % unit
  let up := unit < 2 * rest || (2 * rest == unit && low % 2 == 1)
  (if up then low + 1 else low) * unit

/-- The least number that rounds beyond the largest double. -/
def doubleLimit : Nat := Nat.pow 2 1024 - Nat.pow 2 970

/-- The largest power of ten that a double holds. -/
def largestTenPower : Nat := 308

/-- True if the numeral is read as a finite double: the rounded significand times the rounded power
of ten must not round beyond the largest double. -/
def isFinite (x : JsonNumeral) : Bool :=
  let a := approximateFraction x.fraction
    (approximateWhole x.whole { significand := 0, power := 0 })
  let shift : Int :=
    match x.exponent with
    | none => 0
    | some e => if e.negative then -(ofDecimal e.digits : Int) else ofDecimal e.digits
  let power := a.power + shift
  if a.significand = 0 || power ≤ 0 then true
  else if (largestTenPower : Int) < power then false
  else roundToDouble a.significand * roundToDouble (Nat.pow 10 power.toNat) < doubleLimit

end JsonNumeral

end NybergRueppel
