import NybergRueppel.Curve.ScalarMul
import NybergRueppel.Proofs.Curve.PointGroup
import NybergRueppel.Proofs.Curve.WindowTable
import NybergRueppel.Proofs.FixedNat.Value

/-!
Scalar multiplication with windows is the multiple in the group. One step takes in one digit, and a
run over all digits takes in the scalar modulo the power of two that the windows cover.
-/
namespace NybergRueppel.Curve

open WindowTable

variable {n : Nat} {curve : Curve n}

theorem elementLength_double {p : JacobianPoint n}
    (hp : p.elementLength = curve.field.elementLength) :
    (curve.double p).elementLength = curve.field.elementLength := by
  rw [double]
  split
  · rfl
  · exact hp

theorem elementLength_add {p q : JacobianPoint n}
    (hp : p.elementLength = curve.field.elementLength)
    (hq : q.elementLength = curve.field.elementLength) :
    (curve.add p q).elementLength = curve.field.elementLength := by
  rw [add]
  split
  · exact hq
  · split
    · exact hp
    · dsimp only
      split
      · split
        · exact elementLength_double hp
        · rfl
      · exact hp

/-- The product does not depend on what the table held before. -/
theorem mulPoint_fst_eq (curve : Curve n) (k : FixedNat n) (p : JacobianPoint n) (bits : Nat)
    (table table' : WindowTable n) :
    (curve.mulPoint k p bits table).1 = (curve.mulPoint k p bits table').1 := by
  simp only [mulPoint, fill_eq curve p table table']

theorem mulTwoPoints_fst_eq (curve : Curve n) (a : FixedNat n) (p : JacobianPoint n)
    (b : FixedNat n) (q : JacobianPoint n) (bits : Nat)
    (tableP tableQ tableP' tableQ' : WindowTable n) :
    (curve.mulTwoPoints a p b q bits tableP tableQ).1 =
      (curve.mulTwoPoints a p b q bits tableP' tableQ').1 := by
  simp only [mulTwoPoints, fill_eq curve p tableP tableP', fill_eq curve q tableQ tableQ']

variable {L : Type} [Field L] {r : Realization curve.field L}

/-- A point on the curve that stands for a point of the Weierstrass curve and has the element length
of the curve. -/
structure Holds (r : Realization curve.field L) (p : JacobianPoint n)
    (P : (curve.weierstrass r).Point) : Prop where
  represents : Represents r p P
  elementLength_eq : p.elementLength = curve.field.elementLength

theorem holds_identity (r : Realization curve.field L) : Holds r curve.identity 0 :=
  ⟨represents_identity r, rfl⟩

variable [DecidableEq L]

theorem Holds.double (hCurve : curve.IsAccepted) {p : JacobianPoint n}
    {P : (curve.weierstrass r).Point} (hp : Holds r p P) : Holds r (curve.double p) (P + P) :=
  ⟨hp.represents.double hCurve, elementLength_double hp.elementLength_eq⟩

theorem Holds.add (hCurve : curve.IsAccepted) {p q : JacobianPoint n}
    {P Q : (curve.weierstrass r).Point} (hp : Holds r p P) (hq : Holds r q Q) :
    Holds r (curve.add p q) (P + Q) :=
  ⟨hp.represents.add hCurve hq.represents,
    elementLength_add hp.elementLength_eq hq.elementLength_eq⟩

/-- Doubling once for every bit of a window multiplies by the number of its digits. -/
theorem Holds.shiftWindow (hCurve : curve.IsAccepted) {p : JacobianPoint n}
    {P : (curve.weierstrass r).Point} (hp : Holds r p P) :
    Holds r (curve.shiftWindow p) (tableLength • P) := by
  have hDoublings (count : Nat) :
      Holds r ((List.range count).foldl (fun p _ => curve.double p) p) (2 ^ count • P) := by
    induction count with
    | zero =>
        rw [pow_zero, one_nsmul]
        exact hp
    | succ count ih =>
        rw [List.range_succ, List.foldl_append, List.foldl_cons, List.foldl_nil, pow_succ,
          Nat.mul_two, add_nsmul]
        exact ih.double hCurve
  exact hDoublings windowBits

/-- A table with the multiples of a point, whose first entry has the element length of the curve. -/
structure IsFilled (r : Realization curve.field L) (table : WindowTable n)
    (P : (curve.weierstrass r).Point) : Prop where
  holdsMultiples : HoldsMultiples table P tableLength
  elementLength_eq : (table.entry 0).elementLength = curve.field.elementLength

theorem isFilled_fill (hCurve : curve.IsAccepted) {p : JacobianPoint n}
    {P : (curve.weierstrass r).Point} (hp : Represents r p P) (table : WindowTable n) :
    IsFilled r (table.fill curve p) P := by
  refine ⟨holdsMultiples_fill hCurve hp table, ?_⟩
  rw [entry_zero_fill]
  rfl

theorem window_eq_digit (k : FixedNat n) (i : Nat) :
    k.window (i * windowBits) windowBits = k.toNat / tableLength ^ i % tableLength := by
  have hPower : 2 ^ (i * windowBits) = tableLength ^ i := by
    rw [Nat.mul_comm, pow_mul]
    rfl
  rw [FixedNat.window_eq, hPower]
  rfl

theorem IsFilled.selected {table : WindowTable n} {P : (curve.weierstrass r).Point}
    (hTable : IsFilled r table P) (k : FixedNat n) (i : Nat) :
    Holds r (selected table k i) ((k.toNat / tableLength ^ i % tableLength) • P) := by
  have hDigit : k.toNat / tableLength ^ i % tableLength < tableLength :=
    Nat.mod_lt _ (by decide)
  rw [Curve.selected, window_eq_digit, select_eq table hDigit]
  exact ⟨(hTable.holdsMultiples _ hDigit).withElementLength _, hTable.elementLength_eq⟩

/-- The digits below a position and the digit at it make the number below the next position. -/
theorem add_digit_nsmul {G : Type} [AddCommGroup G] (S P : G) (k i : Nat) :
    tableLength ^ i • (tableLength • S + (k / tableLength ^ i % tableLength) • P) +
      (k % tableLength ^ i) • P =
      tableLength ^ (i + 1) • S + (k % tableLength ^ (i + 1)) • P := by
  rw [Nat.mod_pow_succ, nsmul_add, ← mul_nsmul', ← mul_nsmul', ← pow_succ, add_assoc, ← add_nsmul,
    Nat.add_comm (k % tableLength ^ i)]

theorem Holds.mulDigits (hCurve : curve.IsAccepted) {table : WindowTable n}
    {P : (curve.weierstrass r).Point} (hTable : IsFilled r table P) (k : FixedNat n) (count : Nat)
    {sum : JacobianPoint n} {S : (curve.weierstrass r).Point} (hSum : Holds r sum S) :
    Holds r (mulDigits curve table k count sum)
      (tableLength ^ count • S + (k.toNat % tableLength ^ count) • P) := by
  induction count generalizing sum S with
  | zero =>
      rw [pow_zero, Nat.mod_one, one_nsmul, zero_nsmul, add_zero]
      exact hSum
  | succ i ih =>
      rw [Curve.mulDigits, ← add_digit_nsmul]
      exact ih ((hSum.shiftWindow hCurve).add hCurve (hTable.selected k i))

theorem Holds.mulDigitPairs (hCurve : curve.IsAccepted) {tableP tableQ : WindowTable n}
    {P Q : (curve.weierstrass r).Point} (hTableP : IsFilled r tableP P)
    (hTableQ : IsFilled r tableQ Q) (a b : FixedNat n) (count : Nat) {sum : JacobianPoint n}
    {S : (curve.weierstrass r).Point} (hSum : Holds r sum S) :
    Holds r (mulDigitPairs curve tableP tableQ a b count sum)
      (tableLength ^ count • S + (a.toNat % tableLength ^ count) • P +
        (b.toNat % tableLength ^ count) • Q) := by
  induction count generalizing sum S with
  | zero =>
      rw [pow_zero, Nat.mod_one, Nat.mod_one, one_nsmul, zero_nsmul, zero_nsmul, add_zero, add_zero]
      exact hSum
  | succ i ih =>
      have hStep := ((hSum.shiftWindow hCurve).add hCurve (hTableP.selected a i)).add hCurve
        (hTableQ.selected b i)
      have hDigitQ := add_digit_nsmul 0 Q b.toNat i
      rw [nsmul_zero, nsmul_zero, zero_add, zero_add] at hDigitQ
      rw [Curve.mulDigitPairs, ← add_digit_nsmul, ← hDigitQ, ← add_assoc, add_right_comm _ _
        (tableLength ^ i • _), ← nsmul_add]
      exact ih hStep

theorem tableLength_pow_windowCount (bits : Nat) :
    tableLength ^ windowCount bits = 2 ^ (4 * ((bits + 3) / 4)) := by
  rw [pow_mul]
  rfl

/-- The multiple of a point by the part of the scalar that the windows cover. -/
theorem holds_mulPoint (hCurve : curve.IsAccepted) {p : JacobianPoint n}
    {P : (curve.weierstrass r).Point} (hp : Represents r p P) (k : FixedNat n) (bits : Nat)
    (table : WindowTable n) :
    Holds r (curve.mulPoint k p bits table).1 ((k.toNat % 2 ^ (4 * ((bits + 3) / 4))) • P) := by
  have hRun := (holds_identity r).mulDigits hCurve (isFilled_fill hCurve hp table) k
    (windowCount bits)
  rw [nsmul_zero, zero_add, tableLength_pow_windowCount] at hRun
  exact hRun

/-- The sum of two multiples, each by the part of its scalar that the windows cover. -/
theorem holds_mulTwoPoints (hCurve : curve.IsAccepted) {p q : JacobianPoint n}
    {P Q : (curve.weierstrass r).Point} (hp : Represents r p P) (hq : Represents r q Q)
    (a b : FixedNat n) (bits : Nat) (tableP tableQ : WindowTable n) :
    Holds r (curve.mulTwoPoints a p b q bits tableP tableQ).1
      ((a.toNat % 2 ^ (4 * ((bits + 3) / 4))) • P +
        (b.toNat % 2 ^ (4 * ((bits + 3) / 4))) • Q) := by
  have hRun := (holds_identity r).mulDigitPairs hCurve (isFilled_fill hCurve hp tableP)
    (isFilled_fill hCurve hq tableQ) a b (windowCount bits)
  rw [nsmul_zero, zero_add, tableLength_pow_windowCount] at hRun
  exact hRun

/-- Windowed multiplication is the multiple by the scalar modulo the covered power of two, whatever
the tables held before, and the interleaved multiplication is the sum of two of them. -/
theorem OverGaloisField.windowed_multiplication (h : curve.OverGaloisField) :
    (∀ (k : FixedNat n) (p : JacobianPoint n) (bits : Nat) (table : WindowTable n),
      curve.OnCurve p →
      curve.OnCurve (curve.mulPoint k p bits table).1 ∧
      h.point (curve.mulPoint k p bits table).1 =
        (k.toNat % 2 ^ (4 * ((bits + 3) / 4))) • h.point p ∧
      (curve.mulPoint k p bits table).1.elementLength = curve.field.elementLength) ∧
    (∀ (a b : FixedNat n) (p q : JacobianPoint n) (bits : Nat)
      (tableP tableQ tableP' tableQ' : WindowTable n), curve.OnCurve p → curve.OnCurve q →
      curve.OnCurve (curve.mulTwoPoints a p b q bits tableP tableQ).1 ∧
      curve.samePoint (curve.mulTwoPoints a p b q bits tableP tableQ).1
        (curve.add (curve.mulPoint a p bits tableP').1 (curve.mulPoint b q bits tableQ').1) =
        true) := by
  refine ⟨?_, ?_⟩
  · intro k p bits table hp
    have hProduct := holds_mulPoint h.isAccepted (h.represents hp) k bits table
    exact ⟨hProduct.represents.onCurve, hProduct.represents.point_eq, hProduct.elementLength_eq⟩
  · intro a b p q bits tableP tableQ tableP' tableQ' hp hq
    have hSum := holds_mulTwoPoints h.isAccepted (h.represents hp) (h.represents hq) a b bits
      tableP tableQ
    have hAdded := (holds_mulPoint h.isAccepted (h.represents hp) a bits tableP').add h.isAccepted
      (holds_mulPoint h.isAccepted (h.represents hq) b bits tableQ')
    refine ⟨hSum.represents.onCurve, ?_⟩
    rw [h.samePoint_iff hSum.represents.onCurve hAdded.represents.onCurve]
    exact hSum.represents.point_eq.trans hAdded.represents.point_eq.symm

theorem mulPoint_toyPoint :
    overGaloisField_toyCurve.point (toyCurve.mulPoint (.ofWord 23) toyPoint 5 .blank).1 =
      23 • overGaloisField_toyCurve.point toyPoint := by
  obtain ⟨-, hPoint, -⟩ := overGaloisField_toyCurve.windowed_multiplication.1
    (.ofWord 23) toyPoint 5 .blank onCurve_toyPoint
  rwa [show (FixedNat.ofWord 23 : FixedNat 1).toNat % 2 ^ (4 * ((5 + 3) / 4)) = 23 by
    decide +kernel] at hPoint

end NybergRueppel.Curve
