import NybergRueppel.Proofs.SlotPool.Mirrors

/-!
The pool as its callers see it. All slots of a kind lie in one block, and a slot is lent many times.
Still a caller who takes slots, reads and writes those that it holds and gives the newest ones back
can not tell the pool from a stack of guards that own an array each.
-/
namespace NybergRueppel

variable {n : Nat}

/-- What the holder of a pool can ask for. Guards are counted from the newest on. -/
inductive PoolRequest (n : Nat) where
  | acquireElements (count : Nat)
  | acquirePoints (count : Nat)
  | get (guard i : Nat)
  | setElement (guard i : Nat) (value : FixedNat n)
  | setPoint (guard i : Nat) (value : JacobianPoint n)
  | release
  | usage

inductive PoolAnswer (n : Nat) where
  | done
  | element (value : FixedNat n)
  | point (value : JacobianPoint n)
  | usage (usage : PoolUsage)
  | failed (failure : Failure)
  | refused (fault : Fault)
  /-- The request names a guard that is not held, or one of the other kind. -/
  | noGuard

/-- The slots of one acquisition. -/
inductive SlotGuard where
  | elements (range : SlotRange)
  | points (range : SlotRange)

namespace SlotGuard

def elements? : SlotGuard → Option SlotRange
  | .elements range => some range
  | .points _ => none

def points? : SlotGuard → Option SlotRange
  | .elements _ => none
  | .points range => some range

theorem eq_elements {guard : SlotGuard} {range : SlotRange} (h : guard.elements? = some range) :
    guard = .elements range := by
  cases guard with
  | elements held => rw [Option.some.inj h]
  | points held => cases h

theorem eq_points {guard : SlotGuard} {range : SlotRange} (h : guard.points? = some range) :
    guard = .points range := by
  cases guard with
  | elements held => cases h
  | points held => rw [Option.some.inj h]

end SlotGuard

/-- A pool and the guards that are held on it, the newest first. -/
structure GuardedPool (n : Nat) where
  pool : SlotPool n
  guards : List SlotGuard

namespace GuardedPool

def step (guarded : GuardedPool n) : PoolRequest n → PoolAnswer n × GuardedPool n
  | .acquireElements count =>
    match guarded.pool.elements.acquire? count with
    | some (range, elements) =>
      (.done, { pool := { guarded.pool with elements := elements }
                guards := .elements range :: guarded.guards })
    | none => (.failed .poolExhausted, guarded)
  | .acquirePoints count =>
    match guarded.pool.points.acquire? count with
    | some (range, points) =>
      (.done, { pool := { guarded.pool with points := points }
                guards := .points range :: guarded.guards })
    | none => (.failed .poolExhausted, guarded)
  | .get guard i =>
    match guarded.guards[guard]? with
    | some (.elements range) =>
      match guarded.pool.element range i with
      | .ok value => (.element value, guarded)
      | .error fault => (.refused fault, guarded)
    | some (.points range) =>
      match guarded.pool.point range i with
      | .ok value => (.point value, guarded)
      | .error fault => (.refused fault, guarded)
    | none => (.noGuard, guarded)
  | .setElement guard i value =>
    match guarded.guards[guard]? with
    | some (.elements range) =>
      match guarded.pool.setElement range i value with
      | .ok pool => (.done, { guarded with pool := pool })
      | .error fault => (.refused fault, guarded)
    | _ => (.noGuard, guarded)
  | .setPoint guard i value =>
    match guarded.guards[guard]? with
    | some (.points range) =>
      match guarded.pool.setPoint range i value with
      | .ok pool => (.done, { guarded with pool := pool })
      | .error fault => (.refused fault, guarded)
    | _ => (.noGuard, guarded)
  | .release =>
    match guarded.guards with
    | .elements range :: guards =>
      (.done, { pool := { guarded.pool with elements := guarded.pool.elements.release range }
                guards := guards })
    | .points range :: guards =>
      (.done, { pool := { guarded.pool with points := guarded.pool.points.release range }
                guards := guards })
    | [] => (.noGuard, guarded)
  | .usage => (.usage guarded.pool.usage, guarded)

/-- The answers to requests that are made one after the other, and the state after them. -/
def run (guarded : GuardedPool n) : List (PoolRequest n) → List (PoolAnswer n) × GuardedPool n
  | [] => ([], guarded)
  | request :: requests =>
    let (answer, next) := guarded.step request
    let (answers, last) := next.run requests
    (answer :: answers, last)

end GuardedPool

/-- An array that belongs to one guard. -/
inductive PrivateArray (n : Nat) where
  | elements (values : List (FixedNat n))
  | points (values : List (JacobianPoint n))

namespace PrivateArray

def elements? : PrivateArray n → Option (List (FixedNat n))
  | .elements values => some values
  | .points _ => none

def points? : PrivateArray n → Option (List (JacobianPoint n))
  | .elements _ => none
  | .points values => some values

end PrivateArray

theorem map_set_eq_of_getElem? {α β : Type} (f : α → β) {items : List α} {i : Nat} {item : α}
    (replacement : α) (hItem : items[i]? = some item) (hSame : f replacement = f item) :
    (items.set i replacement).map f = items.map f := by
  obtain ⟨hi, rfl⟩ := List.getElem?_eq_some_iff.mp hItem
  rw [List.map_set, hSame, ← List.map_set, List.set_getElem_self]

/-- Guards that own an array each, the newest first, within a limit on the values of either kind. -/
structure PrivateArrays (n : Nat) where
  elementSlots : Nat
  pointSlots : Nat
  arrays : List (PrivateArray n)

namespace PrivateArrays

def usage (owned : PrivateArrays n) : PoolUsage :=
  { elements := SlotStack.totalLength (owned.arrays.map PrivateArray.elements?)
    points := SlotStack.totalLength (owned.arrays.map PrivateArray.points?) }

def step (owned : PrivateArrays n) : PoolRequest n → PoolAnswer n × PrivateArrays n
  | .acquireElements count =>
    if owned.elementSlots < owned.usage.elements + count then (.failed .poolExhausted, owned)
    else (.done, { owned with arrays := .elements (.replicate count 0) :: owned.arrays })
  | .acquirePoints count =>
    if owned.pointSlots < owned.usage.points + count then (.failed .poolExhausted, owned)
    else (.done, { owned with arrays := .points (.replicate count default) :: owned.arrays })
  | .get guard i =>
    match owned.arrays[guard]? with
    | some (.elements values) =>
      match values[i]? with
      | some value => (.element value, owned)
      | none => (.refused (.elementSlot i values.length), owned)
    | some (.points values) =>
      match values[i]? with
      | some value => (.point value, owned)
      | none => (.refused (.pointSlot i values.length), owned)
    | none => (.noGuard, owned)
  | .setElement guard i value =>
    match owned.arrays[guard]? with
    | some (.elements values) =>
      if i < values.length then
        (.done, { owned with arrays := owned.arrays.set guard (.elements (values.set i value)) })
      else (.refused (.elementSlot i values.length), owned)
    | _ => (.noGuard, owned)
  | .setPoint guard i value =>
    match owned.arrays[guard]? with
    | some (.points values) =>
      if i < values.length then
        (.done, { owned with arrays := owned.arrays.set guard (.points (values.set i value)) })
      else (.refused (.pointSlot i values.length), owned)
    | _ => (.noGuard, owned)
  | .release =>
    match owned.arrays with
    | _ :: older => (.done, { owned with arrays := older })
    | [] => (.noGuard, owned)
  | .usage => (.usage owned.usage, owned)

/-- The answers to requests that are made one after the other, and the arrays after them. -/
def run (owned : PrivateArrays n) : List (PoolRequest n) → List (PoolAnswer n) × PrivateArrays n
  | [] => ([], owned)
  | request :: requests =>
    let (answer, next) := owned.step request
    let (answers, last) := next.run requests
    (answer :: answers, last)

end PrivateArrays

namespace GuardedPool

/-- The guards hold the slots in which the pool keeps the private arrays. -/
structure Agrees (guarded : GuardedPool n) (owned : PrivateArrays n) : Prop where
  elements : guarded.pool.elements.Mirrors owned.elementSlots
    (guarded.guards.map SlotGuard.elements?) (owned.arrays.map PrivateArray.elements?)
  points : guarded.pool.points.Mirrors owned.pointSlots
    (guarded.guards.map SlotGuard.points?) (owned.arrays.map PrivateArray.points?)

/-- Both give the same answer and agree afterwards. -/
structure GoesOnLike (left : PoolAnswer n × GuardedPool n)
    (right : PoolAnswer n × PrivateArrays n) : Prop where
  answer_eq : left.1 = right.1
  agrees : left.2.Agrees right.2

namespace Agrees

variable {guarded : GuardedPool n} {owned : PrivateArrays n} (h : guarded.Agrees owned)

include h

theorem usage_eq : guarded.pool.usage = owned.usage := by
  rw [SlotPool.usage, h.elements.live_eq, h.points.live_eq, PrivateArrays.usage]

theorem length_eq : guarded.guards.length = owned.arrays.length := by
  simpa using h.elements.layered.length_eq

/-- The guard of an integer array holds the slots that store it. -/
theorem exists_elements {guard : Nat} {values : List (FixedNat n)}
    (hArray : owned.arrays[guard]? = some (.elements values)) :
    ∃ range : SlotRange, guarded.guards[guard]? = some (.elements range) ∧
      guarded.pool.elements.Stores range values := by
  obtain ⟨held, range, hHeld, hRange, hStores⟩ := h.elements.exists_guard hArray rfl
  rw [SlotGuard.eq_elements hRange] at hHeld
  exact ⟨range, hHeld, hStores⟩

/-- The guard of a point array holds the slots that store it. -/
theorem exists_points {guard : Nat} {values : List (JacobianPoint n)}
    (hArray : owned.arrays[guard]? = some (.points values)) :
    ∃ range : SlotRange, guarded.guards[guard]? = some (.points range) ∧
      guarded.pool.points.Stores range values := by
  obtain ⟨held, range, hHeld, hRange, hStores⟩ := h.points.exists_guard hArray rfl
  rw [SlotGuard.eq_points hRange] at hHeld
  exact ⟨range, hHeld, hStores⟩

theorem guard_eq_none {guard : Nat} (hArray : owned.arrays[guard]? = none) :
    guarded.guards[guard]? = none := by
  rw [List.getElem?_eq_none_iff] at hArray ⊢
  rwa [h.length_eq]

theorem writeElement {guard i : Nat} {range : SlotRange} {values : List (FixedNat n)}
    (hGuard : guarded.guards[guard]? = some (.elements range))
    (hArray : owned.arrays[guard]? = some (.elements values)) (hi : i < range.count)
    (value : FixedNat n) :
    Agrees
      { guarded with
        pool := { guarded.pool with
          elements := guarded.pool.elements.write (range.start + i) value } }
      { owned with arrays := owned.arrays.set guard (.elements (values.set i value)) } := by
  refine ⟨?_, ?_⟩
  · rw [List.map_set]
    exact h.elements.write (by simp [hGuard, SlotGuard.elements?])
      (by simp [hArray, PrivateArray.elements?]) hi value
  · have hSame :=
      map_set_eq_of_getElem? PrivateArray.points? (.elements (values.set i value)) hArray rfl
    exact hSame.symm ▸ h.points

theorem writePoint {guard i : Nat} {range : SlotRange} {values : List (JacobianPoint n)}
    (hGuard : guarded.guards[guard]? = some (.points range))
    (hArray : owned.arrays[guard]? = some (.points values)) (hi : i < range.count)
    (value : JacobianPoint n) :
    Agrees
      { guarded with
        pool := { guarded.pool with
          points := guarded.pool.points.write (range.start + i) value } }
      { owned with arrays := owned.arrays.set guard (.points (values.set i value)) } := by
  refine ⟨?_, ?_⟩
  · have hSame :=
      map_set_eq_of_getElem? PrivateArray.elements? (.points (values.set i value)) hArray rfl
    exact hSame.symm ▸ h.elements
  · rw [List.map_set]
    exact h.points.write (by simp [hGuard, SlotGuard.points?])
      (by simp [hArray, PrivateArray.points?]) hi value

theorem acquireElements (count : Nat) :
    GoesOnLike (guarded.step (.acquireElements count)) (owned.step (.acquireElements count)) := by
  rw [step, PrivateArrays.step, PrivateArrays.usage]
  rcases h.elements.acquire?_cases count with
    ⟨hFull, hAcquire⟩ | ⟨hFree, range, grown, hAcquire, hMirrors⟩
  · rw [hAcquire, if_pos hFull]
    exact ⟨rfl, h⟩
  · rw [hAcquire, if_neg hFree]
    exact ⟨rfl, hMirrors, h.points.absent⟩

theorem acquirePoints (count : Nat) :
    GoesOnLike (guarded.step (.acquirePoints count)) (owned.step (.acquirePoints count)) := by
  rw [step, PrivateArrays.step, PrivateArrays.usage]
  rcases h.points.acquire?_cases count with
    ⟨hFull, hAcquire⟩ | ⟨hFree, range, grown, hAcquire, hMirrors⟩
  · rw [hAcquire, if_pos hFull]
    exact ⟨rfl, h⟩
  · rw [hAcquire, if_neg hFree]
    exact ⟨rfl, h.elements.absent, hMirrors⟩

theorem get (guard i : Nat) :
    GoesOnLike (guarded.step (.get guard i)) (owned.step (.get guard i)) := by
  rw [step, PrivateArrays.step]
  cases hArray : owned.arrays[guard]? with
  | none =>
      rw [h.guard_eq_none hArray]
      exact ⟨rfl, h⟩
  | some array =>
      cases array with
      | elements values =>
          obtain ⟨range, hGuard, hStores⟩ := h.exists_elements hArray
          rw [hGuard]
          simp only [SlotPool.element, hStores.get?_eq i, hStores.length_eq]
          cases values[i]? <;> exact ⟨rfl, h⟩
      | points values =>
          obtain ⟨range, hGuard, hStores⟩ := h.exists_points hArray
          rw [hGuard]
          simp only [SlotPool.point, hStores.get?_eq i, hStores.length_eq]
          cases values[i]? <;> exact ⟨rfl, h⟩

theorem setElement (guard i : Nat) (value : FixedNat n) :
    GoesOnLike (guarded.step (.setElement guard i value))
      (owned.step (.setElement guard i value)) := by
  rw [step, PrivateArrays.step]
  cases hArray : owned.arrays[guard]? with
  | none =>
      rw [h.guard_eq_none hArray]
      exact ⟨rfl, h⟩
  | some array =>
      cases array with
      | elements values =>
          obtain ⟨range, hGuard, hStores⟩ := h.exists_elements hArray
          simp only [hGuard, SlotPool.setElement, hStores.length_eq]
          by_cases hi : i < range.count
          · rw [hStores.set?_eq_some hi, if_pos hi]
            exact ⟨rfl, h.writeElement hGuard hArray hi value⟩
          · rw [SlotStack.set?_eq_none hi, if_neg hi]
            exact ⟨rfl, h⟩
      | points values =>
          obtain ⟨range, hGuard, -⟩ := h.exists_points hArray
          rw [hGuard]
          exact ⟨rfl, h⟩

theorem setPoint (guard i : Nat) (value : JacobianPoint n) :
    GoesOnLike (guarded.step (.setPoint guard i value))
      (owned.step (.setPoint guard i value)) := by
  rw [step, PrivateArrays.step]
  cases hArray : owned.arrays[guard]? with
  | none =>
      rw [h.guard_eq_none hArray]
      exact ⟨rfl, h⟩
  | some array =>
      cases array with
      | elements values =>
          obtain ⟨range, hGuard, -⟩ := h.exists_elements hArray
          rw [hGuard]
          exact ⟨rfl, h⟩
      | points values =>
          obtain ⟨range, hGuard, hStores⟩ := h.exists_points hArray
          simp only [hGuard, SlotPool.setPoint, hStores.length_eq]
          by_cases hi : i < range.count
          · rw [hStores.set?_eq_some hi, if_pos hi]
            exact ⟨rfl, h.writePoint hGuard hArray hi value⟩
          · rw [SlotStack.set?_eq_none hi, if_neg hi]
            exact ⟨rfl, h⟩

/-- The newest guard and the newest array go together. -/
theorem release : GoesOnLike (guarded.step .release) (owned.step .release) := by
  obtain ⟨pool, guards⟩ := guarded
  obtain ⟨elementSlots, pointSlots, arrays⟩ := owned
  have hLength := h.length_eq
  obtain ⟨hElements, hPoints⟩ := h
  cases arrays with
  | nil =>
      obtain rfl : guards = [] := List.length_eq_zero_iff.mp hLength
      exact ⟨rfl, hElements, hPoints⟩
  | cons array arrays =>
      cases guards with
      | nil => cases hLength
      | cons guard guards =>
          cases guard with
          | elements range =>
              cases array with
              | elements values => exact ⟨rfl, hElements.release, hPoints.of_absent⟩
              | points values => cases hElements.layered
          | points range =>
              cases array with
              | elements values => cases hPoints.layered
              | points values => exact ⟨rfl, hElements.of_absent, hPoints.release⟩

theorem step (request : PoolRequest n) :
    GoesOnLike (guarded.step request) (owned.step request) := by
  cases request with
  | acquireElements count => exact h.acquireElements count
  | acquirePoints count => exact h.acquirePoints count
  | get guard i => exact h.get guard i
  | setElement guard i value => exact h.setElement guard i value
  | setPoint guard i value => exact h.setPoint guard i value
  | release => exact h.release
  | usage => exact ⟨congrArg PoolAnswer.usage h.usage_eq, h⟩

omit h in
theorem run (h : guarded.Agrees owned) (requests : List (PoolRequest n)) :
    (guarded.run requests).1 = (owned.run requests).1 ∧
      (guarded.run requests).2.Agrees (owned.run requests).2 := by
  induction requests generalizing guarded owned with
  | nil => exact ⟨rfl, h⟩
  | cons request requests ih =>
      obtain ⟨hAnswer, hNext⟩ := h.step request
      obtain ⟨hAnswers, hLast⟩ := ih hNext
      exact ⟨List.cons_eq_cons.mpr ⟨hAnswer, hAnswers⟩, hLast⟩

end Agrees

end GuardedPool

end NybergRueppel
