import NybergRueppel.BufferedInt.Basic
import NybergRueppel.Curve.Basic
import NybergRueppel.FixedNat.Written
import NybergRueppel.GroupOrder
import NybergRueppel.SlotPool

/-!
The group that signatures are made in: a curve, a base point on it and the order of the base point.
Scalars are taken in only between zero and the order, and points only if they lie on the curve.
-/
namespace NybergRueppel

/-- A curve with a base point and its order. -/
structure CurveGroup (n : Nat) where
  name : String
  curve : Curve n
  generator : JacobianPoint n
  order : GroupOrder n

namespace CurveGroup

variable {n : Nat}

/-- The base point has to lie on the curve, and the order has to be odd and at least three. -/
def ofBasePoint (name : String) (curve : Curve n) (x y : FieldElement n) (order : FixedNat n) :
    Except Failure (CurveGroup n) :=
  let generator := curve.ofAffine x y
  if curve.contains generator then
    (GroupOrder.ofNumber order).map fun order =>
      { name := name, curve := curve, generator := generator, order := order }
  else .error (.invalidCurve .basePointOffCurve)

def field (group : CurveGroup n) : CoordinateField n :=
  group.curve.field

def isExtension (group : CurveGroup n) : Bool :=
  group.field.isExtension

/-- The words that one field element takes. -/
def elementLength (group : CurveGroup n) : Nat :=
  group.field.elementLength

/-- The point with the given canonical coordinates, which has to lie on the curve. -/
def ofAffine (group : CurveGroup n) (x y : List (FixedNat n)) : Except Failure (JacobianPoint n) :=
  match group.field.encode? x, group.field.encode? y with
  | some x, some y =>
    let point := group.curve.ofAffine x y
    if group.curve.contains point then .ok point else .error .invalidPoint
  | _, _ => .error .invalidPoint

/-- The canonical affine coordinates, unless the point is at infinity. -/
def toAffine? (group : CurveGroup n) (p : JacobianPoint n) :
    Option (List (FixedNat n) × List (FixedNat n)) :=
  (group.curve.affine? p).map fun (x, y) => (group.field.decode x, group.field.decode y)

/-- A number strictly between zero and the order. -/
def scalar? (group : CurveGroup n) (v : BufferedInt) : Option (FixedNat n) :=
  if v.isNegative || v.isZero then none
  else if v.compareMagnitude group.order.modulus = .lt then v.toFixed? n
  else none

/-- A private key as a scalar. -/
def privateScalar (group : CurveGroup n) (key : BufferedInt) : Except Failure (FixedNat n) :=
  match group.scalar? key with
  | some k => .ok k
  | none => .error .invalidPrivateKey

/-- A message representative as a scalar. -/
def messageScalar (group : CurveGroup n) (m : BufferedInt) : Except Failure (FixedNat n) :=
  match group.scalar? m with
  | some k => .ok k
  | none => .error .messageOutOfRange

/-- The debugging text: the name, the degree, the order and the usage of the pool. -/
def debugText (group : CurveGroup n) (usage : PoolUsage) : String :=
  "CurveContext \x7b name: " ++ Text.quoted group.name
    ++ ", degree: " ++ toString group.field.degree
    ++ ", order: " ++ group.order.modulus.debugText
    ++ ", pool: " ++ usage.debugText ++ " \x7d"

end CurveGroup

end NybergRueppel
