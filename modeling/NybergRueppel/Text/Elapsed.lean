/-!
Spans of time as texts: in the largest of the units seconds, milliseconds, microseconds and
nanoseconds of which the span has at least one, with as many decimals as it takes.
-/
namespace NybergRueppel.Text

/-- The decimals of a fraction given in parts of a power of ten, without zeros at the end. -/
def decimals (places fraction : Nat) : List Char :=
  let digits := Nat.toDigits 10 fraction
  let padded := List.replicate (places - digits.length) '0' ++ digits
  (padded.reverse.dropWhile (· == '0')).reverse

/-- A number of parts of a unit that has `10 ^ places` of them. -/
def inUnit (nanoseconds places : Nat) (unit : String) : String :=
  let parts := Nat.pow 10 places
  let whole := toString (nanoseconds / parts)
  match decimals places (nanoseconds % parts) with
  | [] => whole ++ unit
  | cs => whole ++ "." ++ String.ofList cs ++ unit

/-- A span of time. -/
def elapsed (nanoseconds : Nat) : String :=
  if 1000000000 ≤ nanoseconds then inUnit nanoseconds 9 "s"
  else if 1000000 ≤ nanoseconds then inUnit nanoseconds 6 "ms"
  else if 1000 ≤ nanoseconds then inUnit nanoseconds 3 "µs"
  else inUnit nanoseconds 0 "ns"

end NybergRueppel.Text
