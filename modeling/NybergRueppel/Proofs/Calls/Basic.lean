import NybergRueppel.Signature.Sign
import NybergRueppel.Signature.Verify

/-!
The calls of a group that work on a workspace, each with its arguments, and what they answer.
-/
namespace NybergRueppel

/-- What a call answers: a point, the outcome of signing with the buffers as they are after it, or a
verdict. -/
inductive Answer (n : Nat) where
  | point (result : Except Stop (JacobianPoint n))
  | signature (result : Except Stop Unit) (out : Signature)
  | verdict (result : Except Stop Verdict)

/-- A call with its arguments. -/
inductive GroupCall (n : Nat) where
  | publicKey (key : BufferedInt)
  | mulBase (k : FixedNat n)
  | mulPoint (k : FixedNat n) (p : JacobianPoint n)
  | mulBaseAndPoint (d c : FixedNat n) (q : JacobianPoint n)
  | sign (message key nonce : BufferedInt) (out : Signature)
  | signMessage (algorithm : HashAlgorithm) (message : List UInt8) (key nonce : BufferedInt)
    (out : Signature)
  | verify (message : BufferedInt) (key : JacobianPoint n) (signature : Signature)
  | verifyMessage (algorithm : HashAlgorithm) (message : List UInt8) (key : JacobianPoint n)
    (signature : Signature)

/-- Makes a call in a group. -/
def GroupCall.make {n : Nat} (group : CurveGroup n) :
    GroupCall n → StateM (Workspace n) (Answer n)
  | .publicKey key => Answer.point <$> (group.publicKey key).run
  | .mulBase k => Answer.point <$> (group.mulBase k).run
  | .mulPoint k p => Answer.point <$> (group.mulPoint k p).run
  | .mulBaseAndPoint d c q => Answer.point <$> (group.mulBaseAndPoint d c q).run
  | .sign message key nonce out =>
    (fun answer => .signature answer.1 answer.2) <$> group.sign message key nonce out
  | .signMessage algorithm message key nonce out =>
    (fun answer => .signature answer.1 answer.2) <$>
      group.signMessage algorithm message key nonce out
  | .verify message key signature => Answer.verdict <$> (group.verify message key signature).run
  | .verifyMessage algorithm message key signature =>
    Answer.verdict <$> (group.verifyMessage algorithm message key signature).run

end NybergRueppel
