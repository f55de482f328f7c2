import NybergRueppel.Group.Basic

/-!
From digests to message representatives. The leftmost bits of a digest, as many as the order has,
are read as a number and reduced modulo the order; zero cannot be signed.
-/
namespace NybergRueppel.CurveGroup

variable {n : Nat}

/-- The leftmost bits of a digest as a number, at most as many as the order has. -/
def leftmostBits (group : CurveGroup n) (digest : List UInt8) : FixedNat n :=
  let bits := group.order.bits
  let bytes := (bits + 7) / 8
  if bits < digest.length * 8 then
    (FixedNat.ofBytes n (digest.take bytes)).shiftRight (bytes * 8 - bits)
  else FixedNat.ofBytes n digest

/-- The message representative of a digest. -/
def representative (group : CurveGroup n) (digest : List UInt8) : Except Failure BufferedInt :=
  let m := group.order.reduce (group.leftmostBits digest)
  if m.isZero then .error .messageOutOfRange else .ok (.ofFixed m)

end NybergRueppel.CurveGroup
