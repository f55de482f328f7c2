import NybergRueppel.Curve.ScalarMul
import NybergRueppel.Proofs.Checked.Field

/-!
Curves on the checking machine: the formulas of the group law, the tables of multiples and the
scalar multiplications. A table is a list of points here, which has to have an entry wherever one is
read or written.
-/
namespace NybergRueppel

open Checked

namespace Curve

variable {n : Nat} (curve : Curve n)

def checkedIdentity : Checked (JacobianPoint n) := do
  return .infinity (← curve.field.checkedElementLength)

/-- The point with the given affine coordinates. -/
def checkedOfAffine (x y : FieldElement n) : Checked (JacobianPoint n) := do
  let z ← curve.field.checkedOne
  return { x := x, y := y, z := z, elementLength := ← curve.field.checkedElementLength }

/-- Checks `Y ^ 2 = X ^ 3 + a * X * Z ^ 4 + b * Z ^ 6`. -/
def checkedContains (p : JacobianPoint n) : Checked Bool := do
  if p.isInfinity then return true
  else
    let f := curve.field
    let z2 ← f.checkedSqr p.z
    let z4 ← f.checkedSqr z2
    let z6 ← f.checkedMul z4 z2
    let left ← f.checkedSqr p.y
    let cube ← f.checkedMul (← f.checkedSqr p.x) p.x
    let linear ← f.checkedMul (← f.checkedMul curve.a p.x) z4
    let right ← f.checkedAdd (← f.checkedAdd cube linear) (← f.checkedMul curve.b z6)
    return decide (left = right)

/-- The affine coordinates, unless the point is at infinity. -/
def checkedAffine? (p : JacobianPoint n) : Checked (Option (FieldElement n × FieldElement n)) := do
  if p.isInfinity then return none
  else
    let f := curve.field
    let inverse ← f.checkedInverse p.z
    let inverse2 ← f.checkedSqr inverse
    let x ← f.checkedMul p.x inverse2
    let y ← f.checkedMul (← f.checkedMul p.y inverse2) inverse
    return some (x, y)

/-- Twice a point. -/
def checkedDouble (p : JacobianPoint n) : Checked (JacobianPoint n) := do
  if p.isInfinity || p.y.isZero then curve.checkedIdentity
  else
    let f := curve.field
    let xx ← f.checkedSqr p.x
    let yy ← f.checkedSqr p.y
    let yyyy ← f.checkedSqr yy
    let zz ← f.checkedSqr p.z
    let s ← f.checkedDouble
      (← f.checkedSub (← f.checkedSub (← f.checkedSqr (← f.checkedAdd p.x yy)) xx) yyyy)
    let m ← f.checkedAdd (← f.checkedAdd (← f.checkedDouble xx) xx)
      (← f.checkedMul curve.a (← f.checkedSqr zz))
    let x ← f.checkedSub (← f.checkedSqr m) (← f.checkedDouble s)
    let yyyy8 ← f.checkedDouble (← f.checkedDouble (← f.checkedDouble yyyy))
    let y ← f.checkedSub (← f.checkedMul m (← f.checkedSub s x)) yyyy8
    let z ← f.checkedSub (← f.checkedSub (← f.checkedSqr (← f.checkedAdd p.y p.z)) yy) zz
    return { x := x, y := y, z := z, elementLength := p.elementLength }

/-- The sum of two points. -/
def checkedAdd (p q : JacobianPoint n) : Checked (JacobianPoint n) := do
  if p.isInfinity then return q
  else if q.isInfinity then return p
  else
    let f := curve.field
    let zzP ← f.checkedSqr p.z
    let zzQ ← f.checkedSqr q.z
    let u1 ← f.checkedMul p.x zzQ
    let u2 ← f.checkedMul q.x zzP
    let s1 ← f.checkedMul (← f.checkedMul p.y q.z) zzQ
    let s2 ← f.checkedMul (← f.checkedMul q.y p.z) zzP
    let h ← f.checkedSub u2 u1
    let r ← f.checkedDouble (← f.checkedSub s2 s1)
    if h.isZero then
      if r.isZero then curve.checkedDouble p else curve.checkedIdentity
    else
      let i ← f.checkedSqr (← f.checkedDouble h)
      let j ← f.checkedMul h i
      let v ← f.checkedMul u1 i
      let x ← f.checkedSub (← f.checkedSub (← f.checkedSqr r) j) (← f.checkedDouble v)
      let y ← f.checkedSub (← f.checkedMul r (← f.checkedSub v x))
        (← f.checkedDouble (← f.checkedMul s1 j))
      let z ← f.checkedMul
        (← f.checkedSub (← f.checkedSub (← f.checkedSqr (← f.checkedAdd p.z q.z)) zzP) zzQ) h
      return { x := x, y := y, z := z, elementLength := p.elementLength }

/-- The next multiple, from the entries before it. -/
def checkedNextMultiple (p : JacobianPoint n) (table : List (JacobianPoint n)) (i : Nat) :
    Checked (JacobianPoint n) := do
  if i % 2 = 0 then curve.checkedDouble (← Checked.read table (i / 2))
  else curve.checkedAdd (← Checked.read table (← difference i 1)) p

/-- Overwrites a table with the multiples of a point, from the lowest up. -/
def checkedFill (p : JacobianPoint n) (table : List (JacobianPoint n)) :
    Checked (List (JacobianPoint n)) := do
  demand (decide (tableLength ≤ table.length)) .failedAssertion
  let table ← write table 0 (← curve.checkedIdentity)
  let table ← write table 1 p
  (List.range' 2 (tableLength - 2)).foldlM (fun table i => do
    write table i (← curve.checkedNextMultiple p table i)) table

/-- Reads an entry by passing over the whole table. -/
def checkedSelect (table : List (JacobianPoint n)) (digit : Nat) : Checked (JacobianPoint n) := do
  (List.range tableLength).foldlM (fun chosen i => do
    let mask : UInt64 := -(decide (i = digit)).toUInt64
    return WindowTable.blendPoint mask chosen (← Checked.read table i)) (← Checked.read table 0)

/-- Doubles a point as often as a window has bits. -/
def checkedShiftWindow (p : JacobianPoint n) : Checked (JacobianPoint n) :=
  (List.range windowBits).foldlM (fun p _ => curve.checkedDouble p) p

/-- The multiple that digit `i` of a scalar selects. -/
def checkedSelected (table : List (JacobianPoint n)) (k : FixedNat n) (i : Nat) :
    Checked (JacobianPoint n) := do
  checkedSelect table (← k.checkedWindow (i * windowBits) windowBits)

/-- Takes in the lowest `count` digits of a scalar, the highest of them first. -/
def checkedMulDigits (table : List (JacobianPoint n)) (k : FixedNat n) :
    Nat → JacobianPoint n → Checked (JacobianPoint n)
  | 0, sum => return sum
  | i + 1, sum => do
    let sum ← curve.checkedShiftWindow sum
    checkedMulDigits table k i (← curve.checkedAdd sum (← checkedSelected table k i))

/-- The multiple of a point by a scalar of at most `bits` bits, with the table that was used. -/
def checkedMulPoint (k : FixedNat n) (p : JacobianPoint n) (bits : Nat)
    (table : List (JacobianPoint n)) : Checked (JacobianPoint n × List (JacobianPoint n)) := do
  let table ← curve.checkedFill p table
  return (← curve.checkedMulDigits table k (windowCount bits) (← curve.checkedIdentity), table)

/-- Takes in the lowest `count` digits of two scalars side by side. -/
def checkedMulDigitPairs (tableP tableQ : List (JacobianPoint n)) (a b : FixedNat n) :
    Nat → JacobianPoint n → Checked (JacobianPoint n)
  | 0, sum => return sum
  | i + 1, sum => do
    let sum ← curve.checkedShiftWindow sum
    let sum ← curve.checkedAdd sum (← checkedSelected tableP a i)
    checkedMulDigitPairs tableP tableQ a b i (← curve.checkedAdd sum (← checkedSelected tableQ b i))

/-- The sum `a * p + b * q` for scalars of at most `bits` bits, with the tables that were used. -/
def checkedMulTwoPoints (a : FixedNat n) (p : JacobianPoint n) (b : FixedNat n)
    (q : JacobianPoint n) (bits : Nat) (tableP tableQ : List (JacobianPoint n)) :
    Checked (JacobianPoint n × List (JacobianPoint n) × List (JacobianPoint n)) := do
  let tableP ← curve.checkedFill p tableP
  let tableQ ← curve.checkedFill q tableQ
  return (← curve.checkedMulDigitPairs tableP tableQ a b (windowCount bits)
    (← curve.checkedIdentity), tableP, tableQ)

section

variable {curve : Curve n}

theorem checkedIdentity_eq : curve.checkedIdentity = .ok curve.identity := by
  rw [checkedIdentity, curve.field.checkedElementLength_eq]
  rfl

theorem checkedOfAffine_eq (x y : FieldElement n) :
    curve.checkedOfAffine x y = .ok (curve.ofAffine x y) := by
  rw [checkedOfAffine, curve.field.checkedOne_eq, ok_bind, curve.field.checkedElementLength_eq]
  rfl

variable (hf : curve.field.IsBuilt)

include hf

open CoordinateField

theorem checkedContains_eq (p : JacobianPoint n) :
    curve.checkedContains p = .ok (curve.contains p) := by
  rw [checkedContains, contains]
  split
  · rfl
  · simp only [checkedSqr_eq hf, checkedMul_eq hf, checkedAdd_eq hf, ok_bind, pure_eq_ok]

theorem checkedAffine?_eq (p : JacobianPoint n) :
    curve.checkedAffine? p = .ok (curve.affine? p) := by
  rw [checkedAffine?, affine?]
  split
  · rfl
  · simp only [checkedInverse_eq hf, checkedSqr_eq hf, checkedMul_eq hf, ok_bind, pure_eq_ok]

theorem checkedDouble_eq (p : JacobianPoint n) : curve.checkedDouble p = .ok (curve.double p) := by
  rw [checkedDouble, double]
  split
  · exact checkedIdentity_eq
  · simp only [checkedSqr_eq hf, checkedMul_eq hf, checkedAdd_eq hf, checkedSub_eq hf,
      CoordinateField.checkedDouble_eq hf, ok_bind, pure_eq_ok]

theorem checkedAdd_eq (p q : JacobianPoint n) :
    curve.checkedAdd p q = .ok (curve.add p q) := by
  rw [checkedAdd, add]
  split
  · rfl
  · split
    · rfl
    · simp only [checkedSqr_eq hf, checkedMul_eq hf, CoordinateField.checkedAdd_eq hf,
        checkedSub_eq hf, CoordinateField.checkedDouble_eq hf, ok_bind, pure_eq_ok]
      split
      · split
        · exact checkedDouble_eq hf p
        · exact checkedIdentity_eq
      · rfl

theorem checkedShiftWindow_eq (p : JacobianPoint n) :
    curve.checkedShiftWindow p = .ok (curve.shiftWindow p) :=
  (foldlM_eq_foldl (P := fun _ => True) (fun p _ _ _ => ⟨checkedDouble_eq hf p, trivial⟩) trivial).1

end

section Tables

theorem read_toList (table : WindowTable n) {i : Nat} (hi : i < tableLength) :
    Checked.read table.toList i = .ok (table.toArray.getD i default) := by
  rw [read_eq_getD (hi.trans_eq table.length_toList.symm) default, List.getD_eq_getElem?_getD,
    Vector.getElem?_toList, Array.getD_eq_getD_getElem?, Vector.getElem?_toArray]

theorem write_toList (table : WindowTable n) {i : Nat} (hi : i < tableLength)
    (p : JacobianPoint n) : write table.toList i p = .ok (table.setIfInBounds i p).toList := by
  rw [write_eq_ok (hi.trans_eq table.length_toList.symm), Vector.toList_setIfInBounds]

theorem checkedSelect_eq (table : WindowTable n) (digit : Nat) :
    checkedSelect table.toList digit = .ok (table.select digit) := by
  rw [checkedSelect, read_toList table (by decide), ok_bind]
  refine (foldlM_eq_foldl (P := fun _ => True) (fun chosen _ i hi => ?_) trivial).1
  rw [read_toList table (List.mem_range.mp hi)]
  exact ⟨rfl, trivial⟩

theorem checkedSelected_eq (table : WindowTable n) (k : FixedNat n) (i : Nat) :
    checkedSelected table.toList k i = .ok (selected table k i) := by
  rw [checkedSelected, FixedNat.checkedWindow_eq k _ (by decide), ok_bind, checkedSelect_eq,
    selected]

variable {curve : Curve n} (hf : curve.field.IsBuilt)

include hf

theorem checkedNextMultiple_eq (p : JacobianPoint n) (table : WindowTable n) {i : Nat}
    (hPos : 1 ≤ i) (hi : i < tableLength) :
    curve.checkedNextMultiple p table.toList i = .ok (table.nextMultiple curve p i) := by
  rw [checkedNextMultiple, WindowTable.nextMultiple]
  split
  · rw [read_toList table (by omega), ok_bind, checkedDouble_eq hf]
  · rw [difference_eq_ok hPos, ok_bind, read_toList table (by omega), ok_bind, checkedAdd_eq hf]

theorem checkedFill_eq (p : JacobianPoint n) (table : WindowTable n) :
    curve.checkedFill p table.toList = .ok (table.fill curve p).toList := by
  have hLength : decide (tableLength ≤ table.toList.length) = true :=
    decide_eq_true table.length_toList.ge
  rw [checkedFill, demand_eq_ok hLength, ok_bind, checkedIdentity_eq, ok_bind,
    write_toList table (by decide), ok_bind, write_toList _ (by decide), ok_bind, WindowTable.fill]
  refine foldlM_map (f := Vector.toList) (fun table i hi => ?_) _
  have hRange := List.mem_range'_1.mp hi
  rw [checkedNextMultiple_eq hf p table (by omega) (by omega), ok_bind,
    write_toList table (by omega)]

theorem checkedMulDigits_eq (table : WindowTable n) (k : FixedNat n) (count : Nat)
    (sum : JacobianPoint n) :
    curve.checkedMulDigits table.toList k count sum = .ok (curve.mulDigits table k count sum) := by
  induction count generalizing sum with
  | zero => rfl
  | succ i ih =>
      rw [checkedMulDigits, checkedShiftWindow_eq hf, ok_bind, checkedSelected_eq, ok_bind,
        checkedAdd_eq hf, ok_bind, ih, mulDigits]

theorem checkedMulPoint_eq (k : FixedNat n) (p : JacobianPoint n) (bits : Nat)
    (table : WindowTable n) :
    curve.checkedMulPoint k p bits table.toList =
      .ok ((curve.mulPoint k p bits table).1, (curve.mulPoint k p bits table).2.toList) := by
  rw [checkedMulPoint, checkedFill_eq hf, ok_bind, checkedIdentity_eq, ok_bind,
    checkedMulDigits_eq hf]
  rfl

theorem checkedMulDigitPairs_eq (tableP tableQ : WindowTable n) (a b : FixedNat n) (count : Nat)
    (sum : JacobianPoint n) :
    curve.checkedMulDigitPairs tableP.toList tableQ.toList a b count sum =
      .ok (curve.mulDigitPairs tableP tableQ a b count sum) := by
  induction count generalizing sum with
  | zero => rfl
  | succ i ih =>
      rw [checkedMulDigitPairs, checkedShiftWindow_eq hf, ok_bind, checkedSelected_eq, ok_bind,
        checkedAdd_eq hf, ok_bind, checkedSelected_eq, ok_bind, checkedAdd_eq hf, ok_bind, ih,
        mulDigitPairs]

theorem checkedMulTwoPoints_eq (a : FixedNat n) (p : JacobianPoint n) (b : FixedNat n)
    (q : JacobianPoint n) (bits : Nat) (tableP tableQ : WindowTable n) :
    curve.checkedMulTwoPoints a p b q bits tableP.toList tableQ.toList =
      .ok ((curve.mulTwoPoints a p b q bits tableP tableQ).1,
        (curve.mulTwoPoints a p b q bits tableP tableQ).2.1.toList,
        (curve.mulTwoPoints a p b q bits tableP tableQ).2.2.toList) := by
  rw [checkedMulTwoPoints, checkedFill_eq hf, ok_bind, checkedFill_eq hf, ok_bind,
    checkedIdentity_eq, ok_bind, checkedMulDigitPairs_eq hf]
  rfl

end Tables

end Curve

end NybergRueppel
