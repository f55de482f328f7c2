import NybergRueppel.Curve.ScalarMul
import NybergRueppel.Group.Basic
import NybergRueppel.Workspace

/-!
Multiples of points, computed with the window tables of a workspace. The tables are wiped after
every multiplication, since they hold multiples that depend on what was multiplied.
-/
namespace NybergRueppel.CurveGroup

variable {n : Nat}

/-- The multiple `k * p`, with one window table. -/
def mulPoint (group : CurveGroup n) (k : FixedNat n) (p : JacobianPoint n) :
    Call n (JacobianPoint n) := do
  let ws ← get
  match ws.scratch.tables with
  | table :: rest =>
    let (product, table) := group.curve.mulPoint k p group.order.bits table
    set { ws with scratch := Scratch.wipe { tables := table :: rest } }
    return product
  | [] => Call.fail .bufferTooSmall

/-- The multiple `k * G` of the base point. -/
def mulBase (group : CurveGroup n) (k : FixedNat n) : Call n (JacobianPoint n) :=
  group.mulPoint k group.generator

/-- The sum `d * G + c * q`, with two window tables. -/
def mulBaseAndPoint (group : CurveGroup n) (d c : FixedNat n) (q : JacobianPoint n) :
    Call n (JacobianPoint n) := do
  let ws ← get
  match ws.scratch.tables with
  | first :: second :: rest =>
    let (sum, first, second) :=
      group.curve.mulTwoPoints d group.generator c q group.order.bits first second
    set { ws with scratch := Scratch.wipe { tables := first :: second :: rest } }
    return sum
  | _ => Call.fail .bufferTooSmall

/-- The public key `x * G` of a private key. -/
def publicKey (group : CurveGroup n) (key : BufferedInt) : Call n (JacobianPoint n) := do
  group.mulBase (← Call.ofExcept (group.privateScalar key))

end NybergRueppel.CurveGroup
