import NybergRueppel.Group.Basic

/-!
Signatures and verdicts. A signature is a pair of numbers; the buffers that hold them are given by
the caller and are written one after the other.
-/
namespace NybergRueppel

/-- The two components of a signature. -/
structure Signature where
  c : BufferedInt
  d : BufferedInt
  deriving DecidableEq

namespace Signature

variable {n : Nat}

/-- Zero components with room for every value below the order. -/
def blank (group : CurveGroup n) : Signature :=
  { c := .withRoom group.order.words, d := .withRoom group.order.words }

/-- Writes both components into the rooms of a signature, the first one first. What was written
before a failure stays. -/
def store (out : Signature) (c d : FixedNat n) : Except Failure Unit × Signature :=
  match out.c.setUnsigned c.limbs with
  | .error failure => (.error failure, out)
  | .ok storedC =>
    match out.d.setUnsigned d.limbs with
    | .error failure => (.error failure, { out with c := storedC })
    | .ok storedD => (.ok (), { c := storedC, d := storedD })

end Signature

/-- The outcome of a verification that could be carried out. -/
inductive Verdict where
  | valid
  | invalid
  deriving DecidableEq

/-- The word for a verdict. -/
def Verdict.text : Verdict → String
  | .valid => "valid"
  | .invalid => "invalid"

def Verdict.isValid (verdict : Verdict) : Bool :=
  verdict = .valid

end NybergRueppel
