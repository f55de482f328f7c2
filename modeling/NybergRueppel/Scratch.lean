import NybergRueppel.Curve.WindowTable

/-!
The window tables that a caller lends to scalar multiplications: signing needs one, verification two
at once. They hold multiples of points and are wiped after use.
-/
namespace NybergRueppel

/-- The tables that signing needs. -/
def signTables : Nat := 1

/-- The tables that verification needs. -/
def verifyTables : Nat := 2

/-- Window tables for a number of scalar multiplications at once. -/
structure Scratch (n : Nat) where
  tables : List (WindowTable n)

namespace Scratch

variable {n : Nat}

/-- Blank tables for the given number of multiplications. -/
def withCapacity (multiplications : Nat) : Scratch n :=
  { tables := List.replicate multiplications WindowTable.blank }

/-- The points that tables for the given number of multiplications hold. -/
def requiredPoints (multiplications : Nat) : Nat :=
  multiplications * tableLength

/-- The number of scalar multiplications that can run at once. -/
def capacity (scratch : Scratch n) : Nat :=
  scratch.tables.length

/-- Overwrites every table with default points. -/
def wipe (scratch : Scratch n) : Scratch n :=
  { tables := scratch.tables.map fun _ => WindowTable.blank }

end Scratch

end NybergRueppel
