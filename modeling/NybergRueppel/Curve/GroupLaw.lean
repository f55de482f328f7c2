import NybergRueppel.Curve.Basic

/-!
The group law in Jacobian coordinates. Doubling and addition need no inversion; addition falls back
to doubling for equal points, and the exceptional cases give the neutral element.
-/
namespace NybergRueppel.Curve

variable {n : Nat}

/-- The opposite point. -/
def negate (curve : Curve n) (p : JacobianPoint n) : JacobianPoint n :=
  { p with y := curve.field.neg p.y }

/-- Twice a point. With `S = 4 * X * Y ^ 2` and `M = 3 * X ^ 2 + a * Z ^ 4` the coordinates are
`M ^ 2 - 2 * S`, `M * (S - X') - 8 * Y ^ 4` and `2 * Y * Z`. -/
def double (curve : Curve n) (p : JacobianPoint n) : JacobianPoint n :=
  if p.isInfinity || p.y.isZero then curve.identity
  else
    let f := curve.field
    let xx := f.sqr p.x
    let yy := f.sqr p.y
    let yyyy := f.sqr yy
    let zz := f.sqr p.z
    let s := f.double (f.sub (f.sub (f.sqr (f.add p.x yy)) xx) yyyy)
    let m := f.add (f.add (f.double xx) xx) (f.mul curve.a (f.sqr zz))
    let x := f.sub (f.sqr m) (f.double s)
    let y := f.sub (f.mul m (f.sub s x)) (f.double (f.double (f.double yyyy)))
    let z := f.sub (f.sub (f.sqr (f.add p.y p.z)) yy) zz
    { x := x, y := y, z := z, elementLength := p.elementLength }

/-- The sum of two points. With `H = U2 - U1` and `R = 2 * (S2 - S1)`, where `U` and `S` are the
coordinates over common denominators, `H = 0` means equal or opposite points. -/
def add (curve : Curve n) (p q : JacobianPoint n) : JacobianPoint n :=
  if p.isInfinity then q
  else if q.isInfinity then p
  else
    let f := curve.field
    let zzP := f.sqr p.z
    let zzQ := f.sqr q.z
    let u1 := f.mul p.x zzQ
    let u2 := f.mul q.x zzP
    let s1 := f.mul (f.mul p.y q.z) zzQ
    let s2 := f.mul (f.mul q.y p.z) zzP
    let h := f.sub u2 u1
    let r := f.double (f.sub s2 s1)
    if h.isZero then (if r.isZero then curve.double p else curve.identity)
    else
      let i := f.sqr (f.double h)
      let j := f.mul h i
      let v := f.mul u1 i
      let x := f.sub (f.sub (f.sqr r) j) (f.double v)
      let y := f.sub (f.mul r (f.sub v x)) (f.double (f.mul s1 j))
      let z := f.mul (f.sub (f.sub (f.sqr (f.add p.z q.z)) zzP) zzQ) h
      { x := x, y := y, z := z, elementLength := p.elementLength }

end NybergRueppel.Curve
