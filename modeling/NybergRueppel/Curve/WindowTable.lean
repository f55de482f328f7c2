import NybergRueppel.Curve.GroupLaw

/-!
Tables of the sixteen multiples that one window of a scalar can ask for. A look-up passes over the
whole table and keeps the wanted entry under a mask, so that it touches every entry whatever the
digit is.
-/
namespace NybergRueppel

/-- The bits that one step of a scalar multiplication takes. -/
def windowBits : Nat := 4

/-- The entries of one table: the multiples from zero to fifteen. -/
def tableLength : Nat := Nat.pow 2 windowBits

/-- A table of multiples of one point. -/
abbrev WindowTable (n : Nat) := Vector (JacobianPoint n) tableLength

namespace WindowTable

variable {n : Nat}

/-- The table that holds nothing but the default point. -/
def blank : WindowTable n :=
  Vector.replicate tableLength default

/-- The next multiple, from the entries before it. -/
def nextMultiple (curve : Curve n) (p : JacobianPoint n) (table : WindowTable n) (i : Nat) :
    JacobianPoint n :=
  if i % 2 = 0 then curve.double (table.toArray.getD (i / 2) default)
  else curve.add (table.toArray.getD (i - 1) default) p

/-- Overwrites a table with the multiples of a point, from the lowest up. -/
def fill (curve : Curve n) (p : JacobianPoint n) (table : WindowTable n) : WindowTable n :=
  let start := (table.setIfInBounds 0 curve.identity).setIfInBounds 1 p
  (List.range' 2 (tableLength - 2)).foldl
    (fun table i => table.setIfInBounds i (nextMultiple curve p table i)) start

/-- The bits of `b` under the mask and those of `a` elsewhere. -/
def blendWord (mask a b : UInt64) : UInt64 :=
  (a &&& ~~~mask) ||| (b &&& mask)

def blendFixed (mask : UInt64) (a b : FixedNat n) : FixedNat n :=
  ⟨a.limbs.zipWith (blendWord mask) b.limbs, by simp [a.length_limbs, b.length_limbs]⟩

def blendElement (mask : UInt64) (a b : FieldElement n) : FieldElement n :=
  ⟨a.coeffs.zipWith (blendFixed mask) b.coeffs⟩

/-- The coordinates of `b` if the mask is full and those of `a` if it is empty. The element length
is that of `a`. -/
def blendPoint (mask : UInt64) (a b : JacobianPoint n) : JacobianPoint n :=
  { a with
    x := blendElement mask a.x b.x
    y := blendElement mask a.y b.y
    z := blendElement mask a.z b.z }

/-- Reads an entry by passing over the whole table. -/
def select (table : WindowTable n) (digit : Nat) : JacobianPoint n :=
  (List.range tableLength).foldl
    (fun chosen i =>
      let mask : UInt64 := -(decide (i = digit)).toUInt64
      blendPoint mask chosen (table.toArray.getD i default))
    (table.toArray.getD 0 default)

end WindowTable

end NybergRueppel
