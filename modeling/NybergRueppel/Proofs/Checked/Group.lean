import NybergRueppel.Group.Basic
import NybergRueppel.Proofs.Checked.BufferedInt
import NybergRueppel.Proofs.Checked.Curve

/-!
Groups on the checking machine: arithmetic modulo the order, and what is taken in as a scalar or as
a point.
-/
namespace NybergRueppel

open Checked

namespace GroupOrder

variable {n : Nat} (order : GroupOrder n)

def checkedAdd (a b : FixedNat n) : Checked (FixedNat n) :=
  FixedNat.checkedAddMod order.modulus a b

def checkedSub (a b : FixedNat n) : Checked (FixedNat n) :=
  FixedNat.checkedSubMod order.modulus a b

/-- True if `a` lies strictly between zero and the order. -/
def checkedInOpenRange (a : FixedNat n) : Checked Bool := do
  if a.isZero then return false else return (← a.checkedCompare order.modulus) == .lt

/-- The product of two residues, of which the first one is taken into Montgomery form. -/
def checkedMul (a b : FixedNat n) : Checked (FixedNat n) := do
  order.mont.checkedMul (← order.mont.checkedEncode a) b

def checkedReduce (a : FixedNat n) : Checked (FixedNat n) :=
  order.mont.checkedReduce a

variable {order}

theorem checkedAdd_eq (a b : FixedNat n) : order.checkedAdd a b = .ok (order.add a b) :=
  FixedNat.checkedAddMod_eq order.modulus a b

theorem checkedSub_eq (a b : FixedNat n) : order.checkedSub a b = .ok (order.sub a b) :=
  FixedNat.checkedSubMod_eq order.modulus a b

theorem checkedInOpenRange_eq (a : FixedNat n) :
    order.checkedInOpenRange a = .ok (order.inOpenRange a) := by
  rw [checkedInOpenRange, inOpenRange, FixedNat.checkedCompare_eq, ok_bind]
  cases a.isZero with
  | true => rfl
  | false =>
      have hLess : (compare a order.modulus == .lt) = decide (a < order.modulus) := by
        rw [← Bool.not_not (decide _), ← FixedNat.bne_lt_eq, bne, Bool.not_not]
      rw [if_neg Bool.false_ne_true, hLess, Bool.not_false, Bool.true_and]
      rfl

theorem checkedMul_eq (a b : FixedNat n) : order.checkedMul a b = .ok (order.mul a b) := by
  rw [checkedMul, order.mont.checkedEncode_eq, ok_bind, order.mont.checkedMul_eq]
  rfl

theorem checkedReduce_eq (a : FixedNat n) : order.checkedReduce a = .ok (order.reduce a) :=
  order.mont.checkedReduce_eq a

end GroupOrder

namespace CurveGroup

variable {n : Nat} (group : CurveGroup n)

/-- The `x` coordinate of a point, reduced modulo the order. -/
def checkedResidue (x : FieldElement n) : Checked (FixedNat n) := do
  group.order.checkedReduce (← group.field.checkedDecodeBase x)

/-- The point with the given canonical coordinates, which has to lie on the curve. -/
def checkedOfAffine (x y : List (FixedNat n)) : Checked (Except Failure (JacobianPoint n)) := do
  match ← group.field.checkedEncode? x, ← group.field.checkedEncode? y with
  | some x, some y =>
    let point ← group.curve.checkedOfAffine x y
    if ← group.curve.checkedContains point then return .ok point else return .error .invalidPoint
  | _, _ => return .error .invalidPoint

/-- The canonical affine coordinates, unless the point is at infinity. -/
def checkedToAffine? (p : JacobianPoint n) :
    Checked (Option (List (FixedNat n) × List (FixedNat n))) := do
  match ← group.curve.checkedAffine? p with
  | some (x, y) => return some (← group.field.checkedDecode x, ← group.field.checkedDecode y)
  | none => return none

/-- A number strictly between zero and the order. -/
def checkedScalar? (v : BufferedInt) : Checked (Option (FixedNat n)) := do
  if v.isNegative then return none
  else if ← v.checkedIsZero then return none
  else if (← v.checkedCompareMagnitude group.order.modulus) = .lt then v.checkedToFixed? n
  else return none

/-- A private key as a scalar. -/
def checkedPrivateScalar (key : BufferedInt) : Checked (Except Failure (FixedNat n)) := do
  match ← group.checkedScalar? key with
  | some k => return .ok k
  | none => return .error .invalidPrivateKey

/-- A message representative as a scalar. -/
def checkedMessageScalar (m : BufferedInt) : Checked (Except Failure (FixedNat n)) := do
  match ← group.checkedScalar? m with
  | some k => return .ok k
  | none => return .error .messageOutOfRange

variable {group}

theorem checkedResidue_eq (x : FieldElement n) :
    group.checkedResidue x = .ok (group.order.reduce (group.field.decodeBase x)) := by
  rw [checkedResidue, CoordinateField.checkedDecodeBase_eq, ok_bind, GroupOrder.checkedReduce_eq]

theorem checkedOfAffine_eq (hf : group.field.IsBuilt) (x y : List (FixedNat n)) :
    group.checkedOfAffine x y = .ok (group.ofAffine x y) := by
  rw [checkedOfAffine, CoordinateField.checkedEncode?_eq hf, ok_bind,
    CoordinateField.checkedEncode?_eq hf, ok_bind, ofAffine]
  cases group.field.encode? x with
  | none => rfl
  | some x =>
      cases group.field.encode? y with
      | none => rfl
      | some y =>
          dsimp only
          rw [Curve.checkedOfAffine_eq, ok_bind, Curve.checkedContains_eq hf, ok_bind]
          exact (apply_ite Except.ok _ _ _).symm

theorem checkedToAffine?_eq (hf : group.field.IsBuilt) (p : JacobianPoint n) :
    group.checkedToAffine? p = .ok (group.toAffine? p) := by
  rw [checkedToAffine?, Curve.checkedAffine?_eq hf, ok_bind, toAffine?]
  cases group.curve.affine? p with
  | none => rfl
  | some xy =>
      obtain ⟨x, y⟩ := xy
      dsimp only
      rw [CoordinateField.checkedDecode_eq hf, ok_bind, CoordinateField.checkedDecode_eq hf]
      rfl

variable {v : BufferedInt} (hv : v.IsNormal)

include hv

theorem checkedScalar?_eq : group.checkedScalar? v = .ok (group.scalar? v) := by
  rw [checkedScalar?, scalar?, BufferedInt.checkedIsZero_eq hv.one_le_room, ok_bind,
    BufferedInt.checkedCompareMagnitude_eq hv.size_le_room, ok_bind,
    BufferedInt.checkedToFixed?_eq hv.size_le_room]
  cases v.isNegative with
  | true => rfl
  | false =>
      cases v.isZero with
      | true => rfl
      | false => exact (apply_ite Except.ok _ _ _).symm

theorem checkedPrivateScalar_eq :
    group.checkedPrivateScalar v = .ok (group.privateScalar v) := by
  rw [checkedPrivateScalar, checkedScalar?_eq hv, ok_bind, privateScalar]
  cases group.scalar? v <;> rfl

theorem checkedMessageScalar_eq :
    group.checkedMessageScalar v = .ok (group.messageScalar v) := by
  rw [checkedMessageScalar, checkedScalar?_eq hv, ok_bind, messageScalar]
  cases group.scalar? v <;> rfl

end CurveGroup

end NybergRueppel
