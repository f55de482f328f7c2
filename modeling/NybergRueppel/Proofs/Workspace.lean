import NybergRueppel.Proofs.SlotPool
import NybergRueppel.Workspace

/-!
Runs of calls. A run starts in a workspace and ends with a result in another one; the runs of a
sequence and of a block with lent slots are put together from the runs of their parts.
-/
namespace NybergRueppel

/-- A sequence of steps succeeds only through the success of each. -/
theorem exists_of_bind_eq_ok {ε α β : Type} {step : Except ε α} {next : α → Except ε β} {b : β}
    (h : (step >>= next) = .ok b) : ∃ a, step = .ok a ∧ next a = .ok b := by
  cases step with
  | error e => cases h
  | ok a => exact ⟨a, rfl, h⟩

namespace Workspace

variable {n : Nat}

/-- The workspace with another stack of integer slots. -/
def withElementStack (ws : Workspace n) (stack : SlotStack (FixedNat n)) : Workspace n :=
  { ws with pool := { ws.pool with elements := stack } }

/-- The workspace with another stack of point slots. -/
def withPointStack (ws : Workspace n) (stack : SlotStack (JacobianPoint n)) : Workspace n :=
  { ws with pool := { ws.pool with points := stack } }

/-- The workspace has the window tables and the free slots that signing and verification use. -/
structure IsReady (ws : Workspace n) : Prop where
  tables : verifyTables ≤ ws.scratch.capacity
  elements : ws.pool.elements.live + 3 ≤ ws.pool.elements.capacity
  points : ws.pool.points.live + 1 ≤ ws.pool.points.capacity

/-- The workspace has the window table and the free slot that signing uses. -/
structure IsReadyToSign (ws : Workspace n) : Prop where
  tables : signTables ≤ ws.scratch.capacity
  points : ws.pool.points.live + 1 ≤ ws.pool.points.capacity

theorem IsReady.toSign {ws : Workspace n} (h : ws.IsReady) : ws.IsReadyToSign :=
  ⟨Nat.le_of_succ_le h.tables, h.points⟩

end Workspace

namespace Call

variable {n : Nat} {α β : Type}

/-- Running the call from the first workspace gives the result and leaves the second workspace. -/
def Ends (call : Call n α) (ws : Workspace n) (result : Except Stop α) (ws' : Workspace n) : Prop :=
  call.run.run ws = (result, ws')

variable {ws ws' ws'' : Workspace n} {result : Except Stop β}

/-- A call ends in one way from a workspace. -/
theorem Ends.unique {call : Call n β} {result' : Except Stop β} (h : Ends call ws result ws')
    (h' : Ends call ws result' ws'') : result = result' :=
  (Prod.mk.inj (h.symm.trans h')).1

theorem ends_pure (a : α) : Ends (pure a) ws (.ok a) ws :=
  rfl

theorem ends_get (ws : Workspace n) : Ends get ws (.ok ws) ws :=
  rfl

theorem ends_set : Ends (set ws') ws (.ok ()) ws' :=
  rfl

theorem ends_fail (failure : Failure) :
    Ends (fail failure : Call n α) ws (.error (.failure failure)) ws :=
  rfl

theorem Ends.bind {call : Call n α} {next : α → Call n β} {a : α} (h : Ends call ws (.ok a) ws')
    (hNext : Ends (next a) ws' result ws'') : Ends (call >>= next) ws result ws'' := by
  have hRun : call.run.run ws = (.ok a, ws') := h
  rw [Ends, ExceptT.run_bind, StateT.run_bind, hRun]
  exact hNext

/-- What stops the first part of a sequence stops the sequence. -/
theorem Ends.bind_error {call : Call n α} {next : α → Call n β} {stop : Stop}
    (h : Ends call ws (.error stop) ws') : Ends (call >>= next) ws (.error stop) ws' := by
  have hRun : call.run.run ws = (.error stop, ws') := h
  rw [Ends, ExceptT.run_bind, StateT.run_bind, hRun]
  rfl

theorem ends_ofExcept_ok (a : α) : Ends (ofExcept (.ok a) : Call n α) ws (.ok a) ws :=
  rfl

theorem ends_ofExcept_error (failure : Failure) :
    Ends (ofExcept (.error failure) : Call n α) ws (.error (.failure failure)) ws :=
  rfl

/-- A step that cannot stop is a call with its result. -/
theorem ends_liftM {step : StateM (Workspace n) α} {a : α} (h : step.run ws = (a, ws')) :
    Ends (liftM step : Call n α) ws (.ok a) ws' := by
  have hRun : (liftM step : Call n α).run = Except.ok <$> step := rfl
  rw [Ends, hRun, StateT.run_map, h]
  rfl

/-- Steps that may fail can be taken together before they become a call. -/
theorem ofExcept_bind (step : Except Failure α) (next : α → Except Failure β) :
    (ofExcept (step >>= next) : Call n β) = ofExcept step >>= fun a => ofExcept (next a) := by
  cases step <;> rfl

section Inputs

variable {step : Scratch n → Except Failure α} {next : α → Call n β}

/-- A failure of the inputs, which may depend on the window tables, is the failure of the call. -/
theorem run_of_inputs_eq_error {failure : Failure} (h : step ws.scratch = .error failure) :
    (do next (← ofExcept (step (← get).scratch))).run.run ws =
      (.error (.failure failure), ws) := by
  apply (ends_get ws).bind
  rw [h]
  exact (ends_ofExcept_error failure).bind_error

theorem run_of_inputs_eq_ok {a : α} (h : step ws.scratch = .ok a) :
    (do next (← ofExcept (step (← get).scratch))).run.run ws = (next a).run.run ws := by
  apply (ends_get ws).bind
  rw [h]
  exact (ends_ofExcept_ok a).bind rfl

end Inputs

/-- Slots that are free can be lent; they are taken back from whatever the block leaves. -/
theorem Ends.withElements {count : Nat} {body : SlotRange → Call n β}
    (hBody : Ends (body ⟨ws.pool.elements.live, count⟩)
      (ws.withElementStack { ws.pool.elements with live := ws.pool.elements.live + count })
      result ws')
    (hFree : ws.pool.elements.live + count ≤ ws.pool.elements.capacity) :
    Ends (withElements count body) ws result
      (ws'.withElementStack (ws'.pool.elements.release ⟨ws.pool.elements.live, count⟩)) := by
  have hRun : (body ⟨ws.pool.elements.live, count⟩).run { ws with
      pool := { ws.pool with
        elements := { ws.pool.elements with live := ws.pool.elements.live + count } } } =
      (result, ws') := hBody
  rw [Ends, Call.withElements, ExceptT.run_mk, StateT.run, SlotStack.acquire?_eq_some hFree]
  simp only [hRun]
  rfl

theorem Ends.withPoints {count : Nat} {body : SlotRange → Call n β}
    (hBody : Ends (body ⟨ws.pool.points.live, count⟩)
      (ws.withPointStack { ws.pool.points with live := ws.pool.points.live + count })
      result ws')
    (hFree : ws.pool.points.live + count ≤ ws.pool.points.capacity) :
    Ends (withPoints count body) ws result
      (ws'.withPointStack (ws'.pool.points.release ⟨ws.pool.points.live, count⟩)) := by
  have hRun : (body ⟨ws.pool.points.live, count⟩).run { ws with
      pool := { ws.pool with
        points := { ws.pool.points with live := ws.pool.points.live + count } } } =
      (result, ws') := hBody
  rw [Ends, Call.withPoints, ExceptT.run_mk, StateT.run, SlotStack.acquire?_eq_some hFree]
  simp only [hRun]
  rfl

/-- Slots that are not free are not lent, and the block does not run. -/
theorem ends_withElements_of_full (ws : Workspace n) {count : Nat} {body : SlotRange → Call n α}
    (hFull : ws.pool.elements.capacity < ws.pool.elements.live + count) :
    Ends (withElements count body) ws (.error (.failure .poolExhausted)) ws := by
  rw [Ends, withElements, ExceptT.run_mk, StateT.run, SlotStack.acquire?_eq_none hFull]

theorem ends_withPoints_of_full (ws : Workspace n) {count : Nat} {body : SlotRange → Call n α}
    (hFull : ws.pool.points.capacity < ws.pool.points.live + count) :
    Ends (withPoints count body) ws (.error (.failure .poolExhausted)) ws := by
  rw [Ends, withPoints, ExceptT.run_mk, StateT.run, SlotStack.acquire?_eq_none hFull]

/-- Running the call from the workspace gives the result, whatever workspace it leaves. -/
def Gives (call : Call n α) (ws : Workspace n) (result : Except Stop α) : Prop :=
  ∃ ws', Ends call ws result ws'

theorem Ends.gives {call : Call n β} (h : Ends call ws result ws') : Gives call ws result :=
  ⟨ws', h⟩

theorem Ends.bind_gives {call : Call n α} {next : α → Call n β} {a : α}
    (h : Ends call ws (.ok a) ws') (hNext : Gives (next a) ws' result) :
    Gives (call >>= next) ws result := by
  obtain ⟨ws'', hEnds⟩ := hNext
  exact ⟨ws'', h.bind hEnds⟩

theorem Gives.withElements (ws : Workspace n) {count : Nat} {body : SlotRange → Call n β}
    (hFree : ws.pool.elements.live + count ≤ ws.pool.elements.capacity)
    (hBody : Gives (body ⟨ws.pool.elements.live, count⟩)
      (ws.withElementStack { ws.pool.elements with live := ws.pool.elements.live + count })
      result) :
    Gives (withElements count body) ws result := by
  obtain ⟨ws', hEnds⟩ := hBody
  exact (hEnds.withElements hFree).gives

theorem Gives.withPoints (ws : Workspace n) {count : Nat} {body : SlotRange → Call n β}
    (hFree : ws.pool.points.live + count ≤ ws.pool.points.capacity)
    (hBody : Gives (body ⟨ws.pool.points.live, count⟩)
      (ws.withPointStack { ws.pool.points with live := ws.pool.points.live + count }) result) :
    Gives (withPoints count body) ws result := by
  obtain ⟨ws', hEnds⟩ := hBody
  exact (hEnds.withPoints hFree).gives

variable {range : SlotRange} {i : Nat}

theorem ends_setElement (ws : Workspace n) (h : ws.pool.elements.Covers range)
    (hi : i < range.count) (value : FixedNat n) :
    Ends (setElement range i value) ws (.ok ())
      (ws.withElementStack (ws.pool.elements.write (range.start + i) value)) := by
  have hWritten : ws.pool.setElement range i value =
      .ok { ws.pool with elements := ws.pool.elements.write (range.start + i) value } := by
    rw [SlotPool.setElement, SlotStack.set?_eq_some h hi]
  rw [setElement]
  apply (ends_get ws).bind
  rw [hWritten]
  exact (ends_pure _).bind ends_set

theorem ends_setPoint (ws : Workspace n) (h : ws.pool.points.Covers range) (hi : i < range.count)
    (value : JacobianPoint n) :
    Ends (setPoint range i value) ws (.ok ())
      (ws.withPointStack (ws.pool.points.write (range.start + i) value)) := by
  have hWritten : ws.pool.setPoint range i value =
      .ok { ws.pool with points := ws.pool.points.write (range.start + i) value } := by
    rw [SlotPool.setPoint, SlotStack.set?_eq_some h hi]
  rw [setPoint]
  apply (ends_get ws).bind
  rw [hWritten]
  exact (ends_pure _).bind ends_set

theorem ends_element (ws : Workspace n) {value : FixedNat n}
    (h : ws.pool.elements.get? range i = some value) :
    Ends (element range i) ws (.ok value) ws := by
  have hRead : ws.pool.element range i = .ok value := by
    rw [SlotPool.element, h]
  rw [element]
  apply (ends_get ws).bind
  rw [hRead]
  exact ends_pure _

theorem ends_point (ws : Workspace n) {value : JacobianPoint n}
    (h : ws.pool.points.get? range i = some value) :
    Ends (point range i) ws (.ok value) ws := by
  have hRead : ws.pool.point range i = .ok value := by
    rw [SlotPool.point, h]
  rw [point]
  apply (ends_get ws).bind
  rw [hRead]
  exact ends_pure _

end Call

end NybergRueppel
