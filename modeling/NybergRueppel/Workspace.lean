import NybergRueppel.Scratch
import NybergRueppel.SlotPool

/-!
The state that calls work on: a pool of slots and the window tables. A call may fail; what it has
done to the workspace stays, but the slots that it asked for are always given back.
-/
namespace NybergRueppel

/-- The pool and the window tables that calls use. -/
structure Workspace (n : Nat) where
  pool : SlotPool n
  scratch : Scratch n

/-- A call that works on a workspace and ends with a result, a failure or a fault. -/
abbrev Call (n : Nat) := ExceptT Stop (StateM (Workspace n))

namespace Call

variable {n : Nat} {α : Type}

/-- Ends a call with a failure. -/
def fail (failure : Failure) : Call n α :=
  throw (.failure failure)

/-- Turns a failure of a pure step into the failure of the call. -/
def ofExcept : Except Failure α → Call n α
  | .ok a => pure a
  | .error failure => fail failure

/-- Turns a fault of a pure step into the fault of the call. -/
def ofFaulty : Except Fault α → Call n α
  | .ok a => pure a
  | .error fault => throw (.fault fault)

/-- Lends integer slots to a call and takes them back however it ends. -/
def withElements (count : Nat) (body : SlotRange → Call n α) : Call n α :=
  ExceptT.mk fun ws =>
    match ws.pool.elements.acquire? count with
    | none => (.error (.failure .poolExhausted), ws)
    | some (range, elements) =>
      let (result, ws) := (body range).run { ws with pool := { ws.pool with elements := elements } }
      (result, { ws with pool := { ws.pool with elements := ws.pool.elements.release range } })

/-- Lends point slots to a call and takes them back however it ends. -/
def withPoints (count : Nat) (body : SlotRange → Call n α) : Call n α :=
  ExceptT.mk fun ws =>
    match ws.pool.points.acquire? count with
    | none => (.error (.failure .poolExhausted), ws)
    | some (range, points) =>
      let (result, ws) := (body range).run { ws with pool := { ws.pool with points := points } }
      (result, { ws with pool := { ws.pool with points := ws.pool.points.release range } })

def element (range : SlotRange) (i : Nat) : Call n (FixedNat n) := do
  ofFaulty ((← get).pool.element range i)

def setElement (range : SlotRange) (i : Nat) (value : FixedNat n) : Call n Unit := do
  let ws ← get
  let pool ← ofFaulty (ws.pool.setElement range i value)
  set { ws with pool := pool }

def point (range : SlotRange) (i : Nat) : Call n (JacobianPoint n) := do
  ofFaulty ((← get).pool.point range i)

def setPoint (range : SlotRange) (i : Nat) (value : JacobianPoint n) : Call n Unit := do
  let ws ← get
  let pool ← ofFaulty (ws.pool.setPoint range i value)
  set { ws with pool := pool }

end Call

end NybergRueppel
