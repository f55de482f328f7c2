import NybergRueppel.Proofs.Checked.Group
import NybergRueppel.Proofs.Group.Multiples

/-!
Calls on the checking machine. The memory of the machine has the entries of all window tables one
after the other; the slots of a range are reached by their places in the pool, and a range is given
back only while it is the newest. A call of the machine refines one of the running definitions if,
from every workspace in which the given ranges are the newest, it runs through without a trap, ends
in the same way and leaves the same memory.
-/
namespace NybergRueppel

open Checked

namespace SlotStack

variable {α : Type}

/-- The range was handed out last, and it lies inside the stack. -/
structure IsNewest (stack : SlotStack α) (range : SlotRange) : Prop where
  live_eq : stack.live = range.start + range.count
  covers : stack.Covers range

/-- Reads a slot of a range. -/
def checkedGet (stack : SlotStack α) (range : SlotRange) (i : Nat) : Checked α := do
  demand (decide (i < range.count)) .failedAssertion
  Checked.read stack.slots (range.start + i)

/-- Writes a slot of a range. -/
def checkedSet (stack : SlotStack α) (range : SlotRange) (i : Nat) (value : α) :
    Checked (SlotStack α) := do
  demand (decide (i < range.count)) .failedAssertion
  return { stack with slots := ← Checked.write stack.slots (range.start + i) value }

/-- Clears the slots of the newest range and takes it back. -/
def checkedRelease [Inhabited α] (stack : SlotStack α) (range : SlotRange) :
    Checked (SlotStack α) := do
  demand (decide (stack.live = range.start + range.count)) .failedAssertion
  let _ ← slice stack.slots range.start (range.start + range.count)
  return stack.release range

variable {stack : SlotStack α} {range : SlotRange}

theorem isNewest_lent {count : Nat} (hFree : stack.live + count ≤ stack.capacity) :
    { stack with live := stack.live + count }.IsNewest ⟨stack.live, count⟩ :=
  ⟨rfl, hFree⟩

theorem IsNewest.write (h : stack.IsNewest range) (position : Nat) (value : α) :
    (stack.write position value).IsNewest range :=
  ⟨h.live_eq, h.covers.write position value⟩

theorem exists_checkedGet_eq (h : stack.Covers range) {i : Nat} (hi : i < range.count) :
    ∃ value, stack.checkedGet range i = .ok value ∧ stack.get? range i = some value := by
  have hPosition : range.start + i < stack.slots.length := by
    rw [Covers, capacity] at h
    omega
  refine ⟨stack.slots[range.start + i], ?_, ?_⟩
  · rw [checkedGet, demand_eq_ok (decide_eq_true hi), ok_bind, read_eq_ok hPosition]
  · rw [get?, if_pos hi, List.getElem?_eq_getElem hPosition]

theorem checkedSet_eq (h : stack.Covers range) {i : Nat} (hi : i < range.count) (value : α) :
    stack.checkedSet range i value = .ok (stack.write (range.start + i) value) := by
  have hPosition : range.start + i < stack.slots.length := by
    rw [Covers, capacity] at h
    omega
  rw [checkedSet, demand_eq_ok (decide_eq_true hi), ok_bind, write_eq_ok hPosition]
  rfl

theorem checkedRelease_eq [Inhabited α] (h : stack.IsNewest range) :
    stack.checkedRelease range = .ok (stack.release range) := by
  rw [checkedRelease, demand_eq_ok (decide_eq_true h.live_eq), ok_bind, slice,
    if_pos ⟨Nat.le_add_right _ _, h.covers⟩]
  rfl

end SlotStack

/-- The memory that calls work on: the pool and the entries of all window tables. -/
structure Memory (n : Nat) where
  pool : SlotPool n
  entries : List (JacobianPoint n)

variable {n : Nat}

/-- The number of window tables. -/
def Memory.capacity (memory : Memory n) : Nat :=
  memory.entries.length / tableLength

namespace Workspace

/-- A workspace as the machine has it. -/
def memory (ws : Workspace n) : Memory n :=
  { pool := ws.pool, entries := ws.scratch.tables.flatMap Vector.toList }

theorem length_entries (ws : Workspace n) :
    ws.memory.entries.length = ws.scratch.capacity * tableLength := by
  have hTables (tables : List (WindowTable n)) :
      (tables.flatMap Vector.toList).length = tables.length * tableLength := by
    induction tables with
    | nil => exact (Nat.zero_mul _).symm
    | cons table tables ih =>
        rw [List.flatMap_cons, List.length_append, ih, table.length_toList, List.length_cons,
          Nat.succ_mul, Nat.add_comm]
  exact hTables ws.scratch.tables

theorem capacity_memory (ws : Workspace n) : ws.memory.capacity = ws.scratch.capacity := by
  rw [Memory.capacity, length_entries, Nat.mul_div_cancel _ (by decide)]

theorem memory_wipe (ws : Workspace n) :
    { ws with scratch := ws.scratch.wipe }.memory =
      { pool := ws.pool, entries := List.replicate ws.memory.entries.length default } := by
  have hBlank : (WindowTable.blank : WindowTable n).toList =
      List.replicate tableLength default := Vector.toList_replicate
  have hTables (tables : List (WindowTable n)) :
      (tables.map fun _ => (WindowTable.blank : WindowTable n)).flatMap Vector.toList =
        List.replicate (tables.flatMap Vector.toList).length default := by
    induction tables with
    | nil => rfl
    | cons table tables ih =>
        rw [List.map_cons, List.flatMap_cons, ih, hBlank, List.flatMap_cons, List.length_append,
          table.length_toList, List.replicate_add]
  rw [memory, memory, Scratch.wipe, hTables]

/-- The given ranges, if any, were handed out last. -/
structure Holds (elements points : Option SlotRange) (ws : Workspace n) : Prop where
  elements : ∀ range ∈ elements, ws.pool.elements.IsNewest range
  points : ∀ range ∈ points, ws.pool.points.IsNewest range

theorem holds_none (ws : Workspace n) : ws.Holds none none :=
  ⟨fun _ h => (by cases h), fun _ h => (by cases h)⟩

section

variable {ws : Workspace n} {range : SlotRange} {e p : Option SlotRange}

theorem holds_elements (h : ws.pool.elements.IsNewest range)
    (hPoints : ∀ range ∈ p, ws.pool.points.IsNewest range) : ws.Holds (some range) p :=
  ⟨fun _ hRange => Option.mem_some.mp hRange ▸ h, hPoints⟩

theorem holds_points (hElements : ∀ range ∈ e, ws.pool.elements.IsNewest range)
    (h : ws.pool.points.IsNewest range) : ws.Holds e (some range) :=
  ⟨hElements, fun _ hRange => Option.mem_some.mp hRange ▸ h⟩

end

end Workspace

/-- A call on the machine, which ends with a result or a failure if no trap stops it. -/
abbrev CheckedCall (n : Nat) := ExceptT Failure (StateT (Memory n) Checked)

namespace CheckedCall

variable {α β : Type}

/-- Ends a call with a failure. -/
def fail (failure : Failure) : CheckedCall n α :=
  throw failure

/-- A step that needs no memory. -/
def lift (step : Checked α) : CheckedCall n α :=
  ExceptT.lift (StateT.lift step)

/-- A step that needs no memory and may fail. -/
def ofStep (step : Checked (Except Failure α)) : CheckedCall n α :=
  ExceptT.mk (StateT.lift step)

/-- The number of window tables. -/
def capacity : CheckedCall n Nat := do
  return (← get).capacity

/-- Lends integer slots to a call and takes them back however it ends. -/
def withElements (count : Nat) (body : SlotRange → CheckedCall n α) : CheckedCall n α :=
  ExceptT.mk fun memory =>
    match memory.pool.elements.acquire? count with
    | none => .ok (.error .poolExhausted, memory)
    | some (range, elements) => do
      let (answer, memory) ←
        (body range).run { memory with pool := { memory.pool with elements := elements } }
      let elements ← memory.pool.elements.checkedRelease range
      return (answer, { memory with pool := { memory.pool with elements := elements } })

/-- Lends point slots to a call and takes them back however it ends. -/
def withPoints (count : Nat) (body : SlotRange → CheckedCall n α) : CheckedCall n α :=
  ExceptT.mk fun memory =>
    match memory.pool.points.acquire? count with
    | none => .ok (.error .poolExhausted, memory)
    | some (range, points) => do
      let (answer, memory) ←
        (body range).run { memory with pool := { memory.pool with points := points } }
      let points ← memory.pool.points.checkedRelease range
      return (answer, { memory with pool := { memory.pool with points := points } })

def element (range : SlotRange) (i : Nat) : CheckedCall n (FixedNat n) := do
  lift ((← get).pool.elements.checkedGet range i)

def setElement (range : SlotRange) (i : Nat) (value : FixedNat n) : CheckedCall n Unit := do
  let memory ← get
  let elements ← lift (memory.pool.elements.checkedSet range i value)
  set { memory with pool := { memory.pool with elements := elements } }

def point (range : SlotRange) (i : Nat) : CheckedCall n (JacobianPoint n) := do
  lift ((← get).pool.points.checkedGet range i)

def setPoint (range : SlotRange) (i : Nat) (value : JacobianPoint n) : CheckedCall n Unit := do
  let memory ← get
  let points ← lift (memory.pool.points.checkedSet range i value)
  set { memory with pool := { memory.pool with points := points } }

/-- From the first memory the call runs through, gives the answer and leaves the second memory. -/
def Runs (checked : CheckedCall n α) (memory : Memory n) (answer : Except Failure α)
    (memory' : Memory n) : Prop :=
  checked.run.run memory = .ok (answer, memory')

variable {memory memory' memory'' : Memory n} {answer : Except Failure β}

theorem runs_pure (a : α) : Runs (pure a) memory (.ok a) memory :=
  rfl

theorem runs_get (memory : Memory n) : Runs get memory (.ok memory) memory :=
  rfl

theorem runs_set : Runs (set memory') memory (.ok ()) memory' :=
  rfl

theorem runs_fail (failure : Failure) :
    Runs (fail failure : CheckedCall n α) memory (.error failure) memory :=
  rfl

theorem runs_lift {step : Checked α} {a : α} (h : step = .ok a) :
    Runs (lift step) memory (.ok a) memory := by
  rw [h]
  rfl

theorem Runs.bind {checked : CheckedCall n α} {next : α → CheckedCall n β} {a : α}
    (h : Runs checked memory (.ok a) memory') (hNext : Runs (next a) memory' answer memory'') :
    Runs (checked >>= next) memory answer memory'' := by
  have hRun : checked.run.run memory = .ok (.ok a, memory') := h
  rw [Runs, ExceptT.run_bind, StateT.run_bind, hRun, ok_bind]
  exact hNext

/-- What stops the first part of a sequence stops the sequence. -/
theorem Runs.bind_error {checked : CheckedCall n α} {next : α → CheckedCall n β} {failure : Failure}
    (h : Runs checked memory (.error failure) memory') :
    Runs (checked >>= next) memory (.error failure) memory' := by
  have hRun : checked.run.run memory = .ok (.error failure, memory') := h
  rw [Runs, ExceptT.run_bind, StateT.run_bind, hRun, ok_bind]
  rfl

/-- From every workspace in which the ranges are the newest, the call of the machine runs through
and ends in the same way as the other call does from there, with a result that has the property. The
ranges are still the newest then. -/
def Refines (e p : Option SlotRange) (checked : CheckedCall n α) (call : Call n α)
    (Q : α → Prop) : Prop :=
  ∀ ws, ws.Holds e p → ∃ answer ws', ws'.Holds e p ∧ (∀ a, answer = .ok a → Q a) ∧
    Runs checked ws.memory answer ws'.memory ∧ call.Ends ws (answer.mapError .failure) ws'

variable {e p : Option SlotRange} {Q : α → Prop} {R : β → Prop}

theorem refines_of_ok {checked : CheckedCall n α} {call : Call n α}
    (h : ∀ ws, ws.Holds e p → ∃ a ws', ws'.Holds e p ∧ Q a ∧
      Runs checked ws.memory (.ok a) ws'.memory ∧ call.Ends ws (.ok a) ws') :
    Refines e p checked call Q := by
  intro ws hws
  obtain ⟨a, ws', hws', ha, hRuns, hEnds⟩ := h ws hws
  refine ⟨.ok a, ws', hws', ?_, hRuns, hEnds⟩
  rintro b hb
  cases hb
  exact ha

theorem refines_pure {a : α} (ha : Q a) :
    Refines e p (pure a : CheckedCall n α) (pure a) Q :=
  refines_of_ok fun ws hws => ⟨a, ws, hws, ha, runs_pure a, Call.ends_pure a⟩

theorem refines_fail (failure : Failure) :
    Refines e p (fail failure : CheckedCall n α) (Call.fail failure) Q :=
  fun ws hws => ⟨.error failure, ws, hws, fun _ h => (by cases h), runs_fail failure,
    Call.ends_fail failure⟩

theorem refines_ofStep {step : Checked (Except Failure α)} {result : Except Failure α}
    (h : step = .ok result) (hQ : ∀ a, result = .ok a → Q a) :
    Refines e p (ofStep step : CheckedCall n α) (Call.ofExcept result) Q := by
  rw [h]
  cases result with
  | error failure => exact refines_fail failure
  | ok a => exact refines_pure (hQ a rfl)

theorem Refines.bind {checked : CheckedCall n α} {call : Call n α}
    {checkedNext : α → CheckedCall n β} {next : α → Call n β} (h : Refines e p checked call Q)
    (hNext : ∀ a, Q a → Refines e p (checkedNext a) (next a) R) :
    Refines e p (checked >>= checkedNext) (call >>= next) R := by
  intro ws hws
  obtain ⟨answer, ws', hws', hQ, hRuns, hEnds⟩ := h ws hws
  cases answer with
  | error failure =>
      exact ⟨.error failure, ws', hws', fun _ h => (by cases h), hRuns.bind_error, hEnds.bind_error⟩
  | ok a =>
      obtain ⟨answer, ws'', hws'', hR, hRuns', hEnds'⟩ := hNext a (hQ a rfl) ws' hws'
      exact ⟨answer, ws'', hws'', hR, hRuns.bind hRuns', hEnds.bind hEnds'⟩

/-- A step that runs through is its result. -/
theorem lift_bind {step : Checked α} {a : α} (h : step = .ok a) (next : α → CheckedCall n β) :
    (lift step : CheckedCall n α) >>= next = next a := by
  rw [h]
  rfl

/-- Both calls look at the number of window tables. -/
theorem refines_capacity {checkedNext : Nat → CheckedCall n β} {next : Workspace n → Call n β}
    (h : ∀ ws : Workspace n, Refines e p (checkedNext ws.scratch.capacity) (next ws) R) :
    Refines e p (capacity >>= checkedNext) (get >>= next) R := by
  intro ws hws
  obtain ⟨answer, ws', hws', hR, hRuns, hEnds⟩ := h ws ws hws
  have hCapacity : Runs capacity ws.memory (.ok ws.scratch.capacity) ws.memory := by
    rw [← ws.capacity_memory]
    exact (runs_get _).bind (runs_pure _)
  exact ⟨answer, ws', hws', hR, hCapacity.bind hRuns, (Call.ends_get ws).bind hEnds⟩

section Slots

variable {range : SlotRange} {i : Nat}

theorem refines_element (hi : i < range.count) :
    Refines (some range) p (element range i : CheckedCall n _) (Call.element range i)
      fun _ => True := by
  refine refines_of_ok fun ws hws => ?_
  obtain ⟨value, hRead, hGet⟩ :=
    SlotStack.exists_checkedGet_eq (hws.elements range rfl).covers hi
  exact ⟨value, ws, hws, trivial, (runs_get _).bind (runs_lift hRead), Call.ends_element ws hGet⟩

theorem refines_point (hi : i < range.count) :
    Refines e (some range) (point range i : CheckedCall n _) (Call.point range i)
      fun _ => True := by
  refine refines_of_ok fun ws hws => ?_
  obtain ⟨value, hRead, hGet⟩ :=
    SlotStack.exists_checkedGet_eq (hws.points range rfl).covers hi
  exact ⟨value, ws, hws, trivial, (runs_get _).bind (runs_lift hRead), Call.ends_point ws hGet⟩

theorem refines_setElement (hi : i < range.count) (value : FixedNat n) :
    Refines (some range) p (setElement range i value) (Call.setElement range i value)
      fun _ => True := by
  refine refines_of_ok fun ws hws => ?_
  have hNewest := hws.elements range rfl
  exact ⟨(), ws.withElementStack (ws.pool.elements.write (range.start + i) value),
    Workspace.holds_elements (hNewest.write _ value) hws.points, trivial,
    (runs_get _).bind ((runs_lift (SlotStack.checkedSet_eq hNewest.covers hi value)).bind runs_set),
    Call.ends_setElement ws hNewest.covers hi value⟩

theorem refines_setPoint (hi : i < range.count) (value : JacobianPoint n) :
    Refines e (some range) (setPoint range i value) (Call.setPoint range i value)
      fun _ => True := by
  refine refines_of_ok fun ws hws => ?_
  have hNewest := hws.points range rfl
  exact ⟨(), ws.withPointStack (ws.pool.points.write (range.start + i) value),
    Workspace.holds_points hws.elements (hNewest.write _ value), trivial,
    (runs_get _).bind ((runs_lift (SlotStack.checkedSet_eq hNewest.covers hi value)).bind runs_set),
    Call.ends_setPoint ws hNewest.covers hi value⟩

theorem runs_withElements_of_full (ws : Workspace n) {count : Nat}
    {body : SlotRange → CheckedCall n α}
    (hFull : ws.pool.elements.capacity < ws.pool.elements.live + count) :
    Runs (withElements count body) ws.memory (.error .poolExhausted) ws.memory := by
  have hAcquire : ws.memory.pool.elements.acquire? count = none := SlotStack.acquire?_eq_none hFull
  rw [Runs, withElements, ExceptT.run_mk, StateT.run, hAcquire]

theorem Runs.withElements {ws ws' : Workspace n} {count : Nat} {body : SlotRange → CheckedCall n β}
    (hBody : Runs (body ⟨ws.pool.elements.live, count⟩)
      (ws.withElementStack { ws.pool.elements with live := ws.pool.elements.live + count }).memory
      answer ws'.memory)
    (hFree : ws.pool.elements.live + count ≤ ws.pool.elements.capacity)
    (hNewest : ws'.pool.elements.IsNewest ⟨ws.pool.elements.live, count⟩) :
    Runs (CheckedCall.withElements count body) ws.memory answer (ws'.withElementStack
      (ws'.pool.elements.release ⟨ws.pool.elements.live, count⟩)).memory := by
  have hAcquire : ws.memory.pool.elements.acquire? count = some (⟨ws.pool.elements.live, count⟩,
      { ws.memory.pool.elements with live := ws.memory.pool.elements.live + count }) :=
    SlotStack.acquire?_eq_some hFree
  have hRelease : ws'.memory.pool.elements.checkedRelease ⟨ws.pool.elements.live, count⟩ =
      .ok (ws'.pool.elements.release ⟨ws.pool.elements.live, count⟩) :=
    SlotStack.checkedRelease_eq hNewest
  have hRun : (body ⟨ws.pool.elements.live, count⟩).run { ws.memory with
      pool := { ws.memory.pool with
        elements := { ws.memory.pool.elements with
          live := ws.memory.pool.elements.live + count } } } =
      .ok (answer, ws'.memory) := hBody
  simp only [Runs, CheckedCall.withElements, ExceptT.run_mk, StateT.run, hAcquire, hRun, ok_bind,
    hRelease]
  rfl

/-- Lent slots are the newest while the block runs, and it leaves them so. -/
theorem refines_withElements (count : Nat) {checkedBody : SlotRange → CheckedCall n α}
    {body : SlotRange → Call n α}
    (hBody : ∀ range, range.count = count →
      Refines (some range) p (checkedBody range) (body range) Q) :
    Refines none p (withElements count checkedBody) (Call.withElements count body) Q := by
  intro ws hws
  by_cases hFull : ws.pool.elements.capacity < ws.pool.elements.live + count
  · exact ⟨.error .poolExhausted, ws, hws, fun _ h => (by cases h),
      runs_withElements_of_full ws hFull, Call.ends_withElements_of_full ws hFull⟩
  · have hFree := Nat.le_of_not_lt hFull
    have hLent : (ws.withElementStack { ws.pool.elements with
        live := ws.pool.elements.live + count }).Holds (some ⟨ws.pool.elements.live, count⟩) p :=
      Workspace.holds_elements (SlotStack.isNewest_lent hFree) hws.points
    -- However the block ends, its range is still the newest, so that it can be given back.
    obtain ⟨answer, ws', hws', hQ, hRuns, hEnds⟩ := hBody _ rfl _ hLent
    let released := ws'.pool.elements.release ⟨ws.pool.elements.live, count⟩
    exact ⟨answer, ws'.withElementStack released, ⟨fun _ h => (by cases h), hws'.points⟩, hQ,
      hRuns.withElements hFree (hws'.elements _ rfl), hEnds.withElements hFree⟩

theorem runs_withPoints_of_full (ws : Workspace n) {count : Nat}
    {body : SlotRange → CheckedCall n α}
    (hFull : ws.pool.points.capacity < ws.pool.points.live + count) :
    Runs (withPoints count body) ws.memory (.error .poolExhausted) ws.memory := by
  have hAcquire : ws.memory.pool.points.acquire? count = none := SlotStack.acquire?_eq_none hFull
  rw [Runs, withPoints, ExceptT.run_mk, StateT.run, hAcquire]

theorem Runs.withPoints {ws ws' : Workspace n} {count : Nat} {body : SlotRange → CheckedCall n β}
    (hBody : Runs (body ⟨ws.pool.points.live, count⟩)
      (ws.withPointStack { ws.pool.points with live := ws.pool.points.live + count }).memory
      answer ws'.memory)
    (hFree : ws.pool.points.live + count ≤ ws.pool.points.capacity)
    (hNewest : ws'.pool.points.IsNewest ⟨ws.pool.points.live, count⟩) :
    Runs (CheckedCall.withPoints count body) ws.memory answer (ws'.withPointStack
      (ws'.pool.points.release ⟨ws.pool.points.live, count⟩)).memory := by
  have hAcquire : ws.memory.pool.points.acquire? count = some (⟨ws.pool.points.live, count⟩,
      { ws.memory.pool.points with live := ws.memory.pool.points.live + count }) :=
    SlotStack.acquire?_eq_some hFree
  have hRelease : ws'.memory.pool.points.checkedRelease ⟨ws.pool.points.live, count⟩ =
      .ok (ws'.pool.points.release ⟨ws.pool.points.live, count⟩) :=
    SlotStack.checkedRelease_eq hNewest
  have hRun : (body ⟨ws.pool.points.live, count⟩).run { ws.memory with
      pool := { ws.memory.pool with
        points := { ws.memory.pool.points with live := ws.memory.pool.points.live + count } } } =
      .ok (answer, ws'.memory) := hBody
  simp only [Runs, CheckedCall.withPoints, ExceptT.run_mk, StateT.run, hAcquire, hRun, ok_bind,
    hRelease]
  rfl

theorem refines_withPoints (count : Nat) {checkedBody : SlotRange → CheckedCall n α}
    {body : SlotRange → Call n α}
    (hBody : ∀ range, range.count = count →
      Refines e (some range) (checkedBody range) (body range) Q) :
    Refines e none (withPoints count checkedBody) (Call.withPoints count body) Q := by
  intro ws hws
  by_cases hFull : ws.pool.points.capacity < ws.pool.points.live + count
  · exact ⟨.error .poolExhausted, ws, hws, fun _ h => (by cases h),
      runs_withPoints_of_full ws hFull, Call.ends_withPoints_of_full ws hFull⟩
  · have hFree := Nat.le_of_not_lt hFull
    have hLent : (ws.withPointStack { ws.pool.points with
        live := ws.pool.points.live + count }).Holds e (some ⟨ws.pool.points.live, count⟩) :=
      Workspace.holds_points hws.elements (SlotStack.isNewest_lent hFree)
    obtain ⟨answer, ws', hws', hQ, hRuns, hEnds⟩ := hBody _ rfl _ hLent
    let released := ws'.pool.points.release ⟨ws.pool.points.live, count⟩
    exact ⟨answer, ws'.withPointStack released, ⟨hws'.elements, fun _ h => (by cases h)⟩, hQ,
      hRuns.withPoints hFree (hws'.points _ rfl), hEnds.withPoints hFree⟩

end Slots

end CheckedCall

end NybergRueppel
