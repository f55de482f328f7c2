import NybergRueppel.Digest.Algorithm
import NybergRueppel.Group.Multiples
import NybergRueppel.Signature.Basic
import NybergRueppel.Signature.Representative

/-!
Making signatures. For the private key `x`, the nonce `k` and the message representative `m`, all
between zero and the order `n`, let `r` be the `x` coordinate of `k * G` modulo `n`. The signature
is `c = r + m` and `d = k - x * c`, modulo `n`. A nonce with `k * G` at infinity or with `c = 0` is
refused. Every check is made before anything is written.
-/
namespace NybergRueppel.CurveGroup

variable {n : Nat}

/-- What has to hold before the numbers are looked at: the field is a prime field, and the buffers
and the window tables are large enough. -/
def checkSigning (group : CurveGroup n) (out : Signature) (scratch : Scratch n) :
    Except Failure Unit :=
  if group.isExtension then .error .unsupportedMode
  else if out.c.room < group.order.words ∨ out.d.room < group.order.words then
    .error .bufferTooSmall
  else if scratch.capacity < signTables then .error .bufferTooSmall
  else .ok ()

/-- The components for a message representative, a private key and a nonce. -/
def signScalars (group : CurveGroup n) (m x k : FixedNat n) : Call n (FixedNat n × FixedNat n) :=
  Call.withPoints 1 fun slots => do
    Call.setPoint slots 0 (← group.mulBase k)
    match group.curve.affine? (← Call.point slots 0) with
    | none => Call.fail .degenerateSignature
    | some (rx, _) =>
      let r := group.order.reduce (group.field.decodeBase rx)
      let c := group.order.add r m
      if c.isZero then Call.fail .degenerateSignature
      else return (c, group.order.sub k (group.order.mul x c))

/-- The scalars for signing: representative, private key and nonce. The keys are checked first. -/
def signingInputs (group : CurveGroup n) (message key nonce : BufferedInt) (out : Signature)
    (scratch : Scratch n) : Except Failure (FixedNat n × FixedNat n × FixedNat n) := do
  group.checkSigning out scratch
  let x ← group.privateScalar key
  let k ← group.privateScalar nonce
  let m ← group.messageScalar message
  return (m, x, k)

/-- Signs a message representative. The components are written into the buffers of `out`, which are
returned beside the outcome. -/
def sign (group : CurveGroup n) (message key nonce : BufferedInt) (out : Signature) :
    StateM (Workspace n) (Except Stop Unit × Signature) := do
  match group.signingInputs message key nonce out (← get).scratch with
  | .error failure => return (.error (.failure failure), out)
  | .ok (m, x, k) =>
    match ← (group.signScalars m x k).run with
    | .error stop => return (.error stop, out)
    | .ok (c, d) =>
      let (outcome, out) := out.store c d
      return (outcome.mapError .failure, out)

/-- The message representative for signing. What does not depend on the message is checked before it
is hashed. -/
def representativeForSigning (group : CurveGroup n) (algorithm : HashAlgorithm)
    (message : List UInt8) (key nonce : BufferedInt) (out : Signature) (scratch : Scratch n) :
    Except Failure BufferedInt := do
  group.checkSigning out scratch
  let _ ← group.privateScalar key
  let _ ← group.privateScalar nonce
  group.representative (algorithm.digest message)

/-- Hashes a message and signs its representative. -/
def signMessage (group : CurveGroup n) (algorithm : HashAlgorithm) (message : List UInt8)
    (key nonce : BufferedInt) (out : Signature) :
    StateM (Workspace n) (Except Stop Unit × Signature) := do
  match group.representativeForSigning algorithm message key nonce out (← get).scratch with
  | .error failure => return (.error (.failure failure), out)
  | .ok m => group.sign m key nonce out

end NybergRueppel.CurveGroup
