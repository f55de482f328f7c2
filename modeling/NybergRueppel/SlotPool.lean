import NybergRueppel.Curve.Point
import NybergRueppel.Failure

/-!
The pool of slots that calls use for their intermediate values. Slots are handed out in ranges from
the top of a stack; giving a range back clears its slots, so that nothing stays behind in them.
-/
namespace NybergRueppel

/-- A stack of slots, of which the lowest `live` are handed out. -/
structure SlotStack (α : Type) where
  slots : List α
  live : Nat

/-- Slots that were handed out together. -/
structure SlotRange where
  start : Nat
  count : Nat
  deriving DecidableEq

namespace SlotStack

variable {α : Type} [Inhabited α]

/-- A stack of cleared slots. -/
def withCapacity (capacity : Nat) : SlotStack α :=
  { slots := List.replicate capacity default, live := 0 }

def capacity (stack : SlotStack α) : Nat :=
  stack.slots.length

/-- Hands out the next slots, if so many are free. -/
def acquire? (stack : SlotStack α) (count : Nat) : Option (SlotRange × SlotStack α) :=
  if stack.capacity < stack.live + count then none
  else some ({ start := stack.live, count := count }, { stack with live := stack.live + count })

/-- Reads a slot of a range. -/
def get? (stack : SlotStack α) (range : SlotRange) (i : Nat) : Option α :=
  if i < range.count then stack.slots[range.start + i]? else none

/-- Writes a slot of a range. -/
def set? (stack : SlotStack α) (range : SlotRange) (i : Nat) (value : α) : Option (SlotStack α) :=
  if i < range.count ∧ range.start + i < stack.capacity then
    some { stack with slots := stack.slots.set (range.start + i) value }
  else none

/-- Clears the slots of the newest range and takes it back. -/
def release (stack : SlotStack α) (range : SlotRange) : SlotStack α :=
  { slots := stack.slots.mapIdx fun i value =>
      if range.start ≤ i ∧ i < range.start + range.count then default else value
    live := range.start }

end SlotStack

/-- The numbers of slots that are handed out. -/
structure PoolUsage where
  elements : Nat
  points : Nat
  deriving DecidableEq

/-- True if every slot was given back. -/
def PoolUsage.isBalanced (usage : PoolUsage) : Bool :=
  usage.elements == 0 && usage.points == 0

/-- How the debugging text of a group shows the usage of its pool. -/
def PoolUsage.debugText (usage : PoolUsage) : String :=
  "PoolUsage \x7b elements: " ++ toString usage.elements ++ ", points: " ++ toString usage.points
    ++ " \x7d"

/-- The slots for integers and those for points. -/
structure SlotPool (n : Nat) where
  elements : SlotStack (FixedNat n)
  points : SlotStack (JacobianPoint n)

namespace SlotPool

variable {n : Nat}

/-- The integer slots of a pool of the usual size. -/
def elementSlots : Nat := 8

/-- The point slots of a pool of the usual size. -/
def pointSlots : Nat := 4

def withCapacity (elements points : Nat) : SlotPool n :=
  { elements := .withCapacity elements, points := .withCapacity points }

/-- A pool of the usual size. -/
def empty : SlotPool n :=
  withCapacity elementSlots pointSlots

def usage (pool : SlotPool n) : PoolUsage :=
  { elements := pool.elements.live, points := pool.points.live }

/-- Reads an integer slot. -/
def element (pool : SlotPool n) (range : SlotRange) (i : Nat) : Except Fault (FixedNat n) :=
  match pool.elements.get? range i with
  | some value => .ok value
  | none => .error (.elementSlot i range.count)

/-- Writes an integer slot. -/
def setElement (pool : SlotPool n) (range : SlotRange) (i : Nat) (value : FixedNat n) :
    Except Fault (SlotPool n) :=
  match pool.elements.set? range i value with
  | some elements => .ok { pool with elements := elements }
  | none => .error (.elementSlot i range.count)

/-- Reads a point slot. -/
def point (pool : SlotPool n) (range : SlotRange) (i : Nat) : Except Fault (JacobianPoint n) :=
  match pool.points.get? range i with
  | some value => .ok value
  | none => .error (.pointSlot i range.count)

/-- Writes a point slot. -/
def setPoint (pool : SlotPool n) (range : SlotRange) (i : Nat) (value : JacobianPoint n) :
    Except Fault (SlotPool n) :=
  match pool.points.set? range i value with
  | some points => .ok { pool with points := points }
  | none => .error (.pointSlot i range.count)

end SlotPool

end NybergRueppel
