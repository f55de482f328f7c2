import Mathlib.Tactic.NormNum.Prime
import NybergRueppel.Proofs.Curve.GroupLaw
import NybergRueppel.Proofs.Field.Extension

/-!
The group of the points on a curve. Jacobian points that are the same point are put into one class;
the operations on representatives make the classes an abelian group, which lies in the group of the
Weierstrass curve.
-/
namespace NybergRueppel

namespace Curve

variable {n : Nat} (curve : Curve n)

/-- The points on a curve up to the choice of Jacobian coordinates. -/
def pointSetoid : Setoid {p : JacobianPoint n // curve.OnCurve p} where
  r p q := curve.samePoint p.1 q.1 = true
  iseqv := {
    refl := fun _ => decide_eq_true rfl
    symm := fun h => decide_eq_true (of_decide_eq_true h).symm
    trans := fun h h' => decide_eq_true ((of_decide_eq_true h).trans (of_decide_eq_true h')) }

/-- A point of the curve, whatever its Jacobian coordinates. -/
def PointClass : Type :=
  Quotient curve.pointSetoid

variable {curve}

/-- The class of a point on the curve. -/
def pointClass {p : JacobianPoint n} (hp : curve.OnCurve p) : curve.PointClass :=
  Quotient.mk curve.pointSetoid ⟨p, hp⟩

theorem pointClass_eq_iff {p q : JacobianPoint n} (hp : curve.OnCurve p) (hq : curve.OnCurve q) :
    pointClass hp = pointClass hq ↔ curve.samePoint p q = true :=
  Quotient.eq (r := curve.pointSetoid)

/-- The coordinates form a field with as many elements as the power of a prime, and the curve is one
that the constructor takes. -/
structure OverGaloisField (curve : Curve n) : Prop where
  isGaloisField : curve.field.IsGaloisField
  isAccepted : curve.IsAccepted

namespace OverGaloisField

variable (h : curve.OverGaloisField)

/-- The points of the Weierstrass curve over the remainders modulo the defining polynomial. -/
abbrev Point : Type :=
  (curve.weierstrass h.isGaloisField.realization).Point

/-- The affine point of Jacobian coordinates. -/
noncomputable def point (p : JacobianPoint n) : h.Point :=
  curve.point h.isGaloisField.realization p

theorem represents {p : JacobianPoint n} (hp : curve.OnCurve p) :
    Represents h.isGaloisField.realization p (h.point p) :=
  hp.represents _

theorem point_identity : h.point curve.identity = 0 :=
  Curve.point_identity _

include h in
theorem onCurve_double {p : JacobianPoint n} (hp : curve.OnCurve p) :
    curve.OnCurve (curve.double p) :=
  ((h.represents hp).double h.isAccepted).onCurve

theorem point_double {p : JacobianPoint n} (hp : curve.OnCurve p) :
    h.point (curve.double p) = h.point p + h.point p :=
  ((h.represents hp).double h.isAccepted).point_eq

include h in
theorem onCurve_add {p q : JacobianPoint n} (hp : curve.OnCurve p) (hq : curve.OnCurve q) :
    curve.OnCurve (curve.add p q) :=
  ((h.represents hp).add h.isAccepted (h.represents hq)).onCurve

theorem point_add {p q : JacobianPoint n} (hp : curve.OnCurve p) (hq : curve.OnCurve q) :
    h.point (curve.add p q) = h.point p + h.point q :=
  ((h.represents hp).add h.isAccepted (h.represents hq)).point_eq

include h in
theorem onCurve_negate {p : JacobianPoint n} (hp : curve.OnCurve p) :
    curve.OnCurve (curve.negate p) :=
  ((h.represents hp).negate h.isAccepted).onCurve

theorem point_negate {p : JacobianPoint n} (hp : curve.OnCurve p) :
    h.point (curve.negate p) = -h.point p :=
  ((h.represents hp).negate h.isAccepted).point_eq

theorem samePoint_iff {p q : JacobianPoint n} (hp : curve.OnCurve p) (hq : curve.OnCurve q) :
    curve.samePoint p q = true ↔ h.point p = h.point q :=
  Curve.samePoint_iff _ h.isAccepted hp hq

theorem pointClass_eq_iff_point_eq {p q : JacobianPoint n} (hp : curve.OnCurve p)
    (hq : curve.OnCurve q) : pointClass hp = pointClass hq ↔ h.point p = h.point q := by
  rw [pointClass_eq_iff, h.samePoint_iff hp hq]

/-- The point of the Weierstrass curve that a class stands for. -/
noncomputable def pointOfClass : curve.PointClass → h.Point :=
  Quotient.lift (fun p => h.point p.1) fun p q hSame => (h.samePoint_iff p.2 q.2).mp hSame

theorem pointOfClass_injective : Function.Injective h.pointOfClass := by
  intro P Q hEq
  induction P, Q using Quotient.inductionOn₂ with
  | h p q => exact (h.pointClass_eq_iff_point_eq p.2 q.2).mpr hEq

/-- The class of the sum does not depend on the representatives of the summands. -/
def addClasses : curve.PointClass → curve.PointClass → curve.PointClass :=
  Quotient.lift₂ (fun p q => pointClass (h.onCurve_add p.2 q.2)) fun p q p' q' hp hq => by
    rw [h.pointClass_eq_iff_point_eq, h.point_add p.2 q.2, h.point_add p'.2 q'.2,
      (h.samePoint_iff p.2 p'.2).mp hp, (h.samePoint_iff q.2 q'.2).mp hq]

def negateClass : curve.PointClass → curve.PointClass :=
  Quotient.lift (fun p => pointClass (h.onCurve_negate p.2)) fun p q hSame => by
    rw [h.pointClass_eq_iff_point_eq, h.point_negate p.2, h.point_negate q.2,
      (h.samePoint_iff p.2 q.2).mp hSame]

theorem pointOfClass_addClasses (P Q : curve.PointClass) :
    h.pointOfClass (h.addClasses P Q) = h.pointOfClass P + h.pointOfClass Q := by
  induction P, Q using Quotient.inductionOn₂ with
  | h p q => exact h.point_add p.2 q.2

theorem pointOfClass_negateClass (P : curve.PointClass) :
    h.pointOfClass (h.negateClass P) = -h.pointOfClass P := by
  induction P using Quotient.inductionOn with
  | h p => exact h.point_negate p.2

theorem pointOfClass_identity : h.pointOfClass (pointClass curve.onCurve_identity) = 0 :=
  h.point_identity

/-- The classes are an abelian group, since they lie in the group of the Weierstrass curve. -/
abbrev pointClassGroup : AddCommGroup curve.PointClass where
  add := h.addClasses
  zero := pointClass curve.onCurve_identity
  neg := h.negateClass
  nsmul := @nsmulRec _ ⟨pointClass curve.onCurve_identity⟩ ⟨h.addClasses⟩
  zsmul := @zsmulRec _ ⟨pointClass curve.onCurve_identity⟩ ⟨h.addClasses⟩ ⟨h.negateClass⟩
    (@nsmulRec _ ⟨pointClass curve.onCurve_identity⟩ ⟨h.addClasses⟩)
  add_assoc P Q R := h.pointOfClass_injective (by
    change h.pointOfClass (h.addClasses (h.addClasses P Q) R) =
      h.pointOfClass (h.addClasses P (h.addClasses Q R))
    simp only [pointOfClass_addClasses, add_assoc])
  add_comm P Q := h.pointOfClass_injective (by
    change h.pointOfClass (h.addClasses P Q) = h.pointOfClass (h.addClasses Q P)
    rw [pointOfClass_addClasses, pointOfClass_addClasses, add_comm])
  zero_add P := h.pointOfClass_injective (by
    change h.pointOfClass (h.addClasses (pointClass curve.onCurve_identity) P) = h.pointOfClass P
    rw [pointOfClass_addClasses, pointOfClass_identity, zero_add])
  add_zero P := h.pointOfClass_injective (by
    change h.pointOfClass (h.addClasses P (pointClass curve.onCurve_identity)) = h.pointOfClass P
    rw [pointOfClass_addClasses, pointOfClass_identity, add_zero])
  neg_add_cancel P := h.pointOfClass_injective (by
    change h.pointOfClass (h.addClasses (h.negateClass P) P) =
      h.pointOfClass (pointClass curve.onCurve_identity)
    rw [pointOfClass_addClasses, pointOfClass_negateClass, pointOfClass_identity, neg_add_cancel])

/-- Doubling, addition and negation stay on the curve and are the chord and tangent law of the
affine points, and they make the points up to their representatives an abelian group. -/
theorem group_law :
    (∀ p q, curve.OnCurve p → curve.OnCurve q →
      curve.OnCurve (curve.double p) ∧ h.point (curve.double p) = h.point p + h.point p ∧
      curve.OnCurve (curve.add p q) ∧ h.point (curve.add p q) = h.point p + h.point q ∧
      curve.OnCurve (curve.negate p) ∧ h.point (curve.negate p) = -h.point p ∧
      (curve.samePoint p q = true ↔ h.point p = h.point q)) ∧
    ∃ _ : AddCommGroup curve.PointClass,
      pointClass curve.onCurve_identity = 0 ∧
      ∀ p q (hp : curve.OnCurve p) (hq : curve.OnCurve q) (hDouble : curve.OnCurve (curve.double p))
        (hAdd : curve.OnCurve (curve.add p q)) (hNegate : curve.OnCurve (curve.negate p)),
        pointClass hDouble = pointClass hp + pointClass hp ∧
        pointClass hAdd = pointClass hp + pointClass hq ∧
        pointClass hNegate = -pointClass hp := by
  refine ⟨?_, h.pointClassGroup, rfl, ?_⟩
  · intro p q hp hq
    exact ⟨h.onCurve_double hp, h.point_double hp, h.onCurve_add hp hq, h.point_add hp hq,
      h.onCurve_negate hp, h.point_negate hp, h.samePoint_iff hp hq⟩
  · intro p q hp hq hDouble hAdd hNegate
    refine ⟨?_, rfl, rfl⟩
    have hSame : pointClass hDouble = pointClass (h.onCurve_add hp hp) := by
      rw [h.pointClass_eq_iff_point_eq, h.point_double hp, h.point_add hp hp]
    exact hSame

end OverGaloisField

end Curve

theorem isSome_toyField :
    (CoordinateField.ofPrime (.ofWord 31 : FixedNat 1)).toOption.isSome = true := by
  decide +kernel

/-- The residues modulo 31. -/
def toyField : CoordinateField 1 :=
  (CoordinateField.ofPrime (.ofWord 31)).toOption.get isSome_toyField

/-- The curve `y ^ 2 = x ^ 3 + x + 28` modulo 31. -/
def toyCurve : Curve 1 :=
  { field := toyField, a := toyField.ofWord 1, b := toyField.ofWord 28 }

/-- The point `(0, 11)`, which has order 23. -/
def toyPoint : JacobianPoint 1 :=
  toyCurve.ofAffine 0 (toyField.ofWord 11)

theorem isConstructed_toyField : toyField.IsConstructed :=
  .ofPrime (.ofWord 31) (eq_ok_get_toOption isSome_toyField)

theorem prime_toyField : toyField.modulus.toNat.Prime := by
  rw [show toyField.modulus.toNat = 31 by decide +kernel]
  norm_num

theorem degree_toyField : toyField.degree = 1 := by
  decide +kernel

theorem isAccepted_toyCurve : toyCurve.IsAccepted where
  isElement_a := CoordinateField.isElement_ofWord isConstructed_toyField.isBuilt 1
  isElement_b := CoordinateField.isElement_ofWord isConstructed_toyField.isBuilt 28
  ofCoefficients_eq := (if_neg (by decide +kernel)).trans (if_neg (by decide +kernel))

theorem overGaloisField_toyCurve : toyCurve.OverGaloisField where
  isGaloisField := {
    isConstructed := isConstructed_toyField
    prime := prime_toyField
    irreducible := fun h => absurd h (by rw [toyCurve, degree_toyField]; exact Nat.lt_irrefl 1) }
  isAccepted := isAccepted_toyCurve

theorem onCurve_toyPoint : toyCurve.OnCurve toyPoint where
  isElement_x := CoordinateField.isElement_zero
  isElement_y := CoordinateField.isElement_ofWord isConstructed_toyField.isBuilt 11
  isElement_z := CoordinateField.isElement_one isConstructed_toyField.isBuilt
  contains_eq := by decide +kernel

theorem group_law_toyPoint :
    toyCurve.OnCurve (toyCurve.double toyPoint) ∧
      overGaloisField_toyCurve.point (toyCurve.double toyPoint) =
        overGaloisField_toyCurve.point toyPoint + overGaloisField_toyCurve.point toyPoint := by
  obtain ⟨hDouble, hPoint, -⟩ :=
    overGaloisField_toyCurve.group_law.1 toyPoint toyPoint onCurve_toyPoint onCurve_toyPoint
  exact ⟨hDouble, hPoint⟩

end NybergRueppel
