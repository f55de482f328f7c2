import NybergRueppel.Digest.Algorithm
import NybergRueppel.Group.Multiples
import NybergRueppel.Signature.Basic
import NybergRueppel.Signature.Representative

/-!
Checking signatures. For the public key `Q` the point `P = d * G + c * Q` is recomputed; the
signature is valid if `P` is not at infinity and `c` less the `x` coordinate of `P` is the message
representative, modulo the order. A signature that is merely wrong is a verdict and not a failure.
-/
namespace NybergRueppel.CurveGroup

variable {n : Nat}

/-- What has to hold before the numbers are looked at: the field is a prime field, and the window
tables are large enough. -/
def checkVerifying (group : CurveGroup n) (scratch : Scratch n) : Except Failure Unit :=
  if group.isExtension then .error .unsupportedMode
  else if scratch.capacity < verifyTables then .error .bufferTooSmall
  else .ok ()

/-- The public key has to be of the same element length, and no component may be negative. -/
def checkSignature (group : CurveGroup n) (key : JacobianPoint n) (signature : Signature) :
    Except Failure Unit :=
  if key.elementLength ≠ group.elementLength then .error .keyLengthMismatch
  else if signature.c.isNegative || signature.d.isNegative then .error .negativeComponent
  else .ok ()

/-- Recomputes the point of a signature and compares. -/
def verifyScalars (group : CurveGroup n) (m c d : FixedNat n) (key : JacobianPoint n) :
    Call n Verdict :=
  Call.withElements 3 fun elements => do
    Call.setElement elements 0 d
    Call.setElement elements 1 c
    Call.withPoints 1 fun points => do
      let d ← Call.element elements 0
      let c ← Call.element elements 1
      Call.setPoint points 0 (← group.mulBaseAndPoint d c key)
      match group.curve.affine? (← Call.point points 0) with
      | none => return .invalid
      | some (px, _) =>
        let r := group.order.reduce (group.field.decodeBase px)
        Call.setElement elements 2 (group.order.sub (← Call.element elements 1) r)
        return if (← Call.element elements 2) = m then .valid else .invalid

/-- The components as integers strictly between zero and the order. -/
def components? (group : CurveGroup n) (signature : Signature) :
    Option (FixedNat n × FixedNat n) :=
  match signature.c.toFixed? n, signature.d.toFixed? n with
  | some c, some d =>
    if group.order.inOpenRange c && group.order.inOpenRange d then some (c, d) else none
  | _, _ => none

/-- Checks a signature on a message representative. -/
def verify (group : CurveGroup n) (message : BufferedInt) (key : JacobianPoint n)
    (signature : Signature) : Call n Verdict := do
  Call.ofExcept (group.checkVerifying (← get).scratch)
  Call.ofExcept (group.checkSignature key signature)
  let m ← Call.ofExcept (group.messageScalar message)
  match group.components? signature with
  | none => return .invalid
  | some (c, d) => if key.isInfinity then return .invalid else group.verifyScalars m c d key

/-- Hashes a message and checks a signature on its representative. What does not depend on the
message is checked before it is hashed. -/
def verifyMessage (group : CurveGroup n) (algorithm : HashAlgorithm) (message : List UInt8)
    (key : JacobianPoint n) (signature : Signature) : Call n Verdict := do
  Call.ofExcept (group.checkVerifying (← get).scratch)
  Call.ofExcept (group.checkSignature key signature)
  let m ← Call.ofExcept (group.representative (algorithm.digest message))
  group.verify m key signature

end NybergRueppel.CurveGroup
