import Mathlib.Algebra.GroupWithZero.Nat
import NybergRueppel.Proofs.SlotPool

/-!
Arrays that are kept in the slots of a stack. Ranges lie one on top of the other; a write through
one of them stays inside it, and a new one finds clear slots. So every guard has an array to itself.
-/
namespace NybergRueppel.SlotStack

variable {α : Type}

/-- The values in arrays of which some are absent. -/
def totalLength (arrays : List (Option (List α))) : Nat :=
  (arrays.map fun values? => (values?.map List.length).getD 0).sum

/-- The slots of a range hold these values. -/
structure Stores (stack : SlotStack α) (range : SlotRange) (values : List α) : Prop where
  length_eq : values.length = range.count
  getElem?_eq : ∀ i < range.count, stack.slots[range.start + i]? = values[i]?

variable {stack : SlotStack α} {range : SlotRange} {values : List α}

namespace Stores

theorem congr (h : stack.Stores range values) {other : SlotStack α}
    (hSame : ∀ i < range.count, other.slots[range.start + i]? = stack.slots[range.start + i]?) :
    other.Stores range values :=
  ⟨h.length_eq, fun i hi => (hSame i hi).trans (h.getElem?_eq i hi)⟩

theorem slot_lt (h : stack.Stores range values) {i : Nat} (hi : i < range.count) :
    range.start + i < stack.capacity := by
  have hLength : i < values.length := h.length_eq.symm ▸ hi
  have hValue := h.getElem?_eq i hi
  rw [List.getElem?_eq_getElem hLength] at hValue
  exact (List.getElem?_eq_some_iff.mp hValue).1

theorem get?_eq (h : stack.Stores range values) (i : Nat) : stack.get? range i = values[i]? := by
  rw [get?]
  split
  · rename_i hi
    exact h.getElem?_eq i hi
  · rename_i hi
    exact (List.getElem?_eq_none (h.length_eq ▸ Nat.le_of_not_lt hi)).symm

theorem set?_eq_some (h : stack.Stores range values) {i : Nat} (hi : i < range.count) (value : α) :
    stack.set? range i value = some (stack.write (range.start + i) value) :=
  if_pos ⟨hi, h.slot_lt hi⟩

theorem write (h : stack.Stores range values) {i : Nat} (hi : i < range.count) (value : α) :
    (stack.write (range.start + i) value).Stores range (values.set i value) := by
  have hLength : i < values.length := h.length_eq.symm ▸ hi
  refine ⟨List.length_set.trans h.length_eq, ?_⟩
  intro j hj
  rw [SlotStack.write]
  by_cases hij : i = j
  · subst hij
    rw [List.getElem?_set_self (h.slot_lt hi), List.getElem?_set_self hLength]
  · rw [List.getElem?_set_ne (by omega), List.getElem?_set_ne hij]
    exact h.getElem?_eq j hj

end Stores

/-- Ranges lie one on top of the other from the bottom up to a height, the newest on top, and store
the arrays of their guards. A guard that holds no slots of this stack is absent from both lists. -/
inductive Layered (stack : SlotStack α) :
    List (Option SlotRange) → List (Option (List α)) → Nat → Prop where
  | nothing : Layered stack [] [] 0
  | absent {held : List (Option SlotRange)} {arrays : List (Option (List α))} {height : Nat}
      (below : Layered stack held arrays height) :
      Layered stack (none :: held) (none :: arrays) height
  | layer {held : List (Option SlotRange)} {arrays : List (Option (List α))} {range : SlotRange}
      {values : List α} (below : Layered stack held arrays range.start)
      (stores : stack.Stores range values) :
      Layered stack (some range :: held) (some values :: arrays) (range.start + range.count)

namespace Layered

variable {held : List (Option SlotRange)} {arrays : List (Option (List α))} {height : Nat}

theorem length_eq (h : stack.Layered held arrays height) : held.length = arrays.length := by
  induction h with
  | nothing => rfl
  | absent below ih => simp [ih]
  | layer below stores ih => simp [ih]

theorem totalLength_eq (h : stack.Layered held arrays height) : totalLength arrays = height := by
  induction h with
  | nothing => rfl
  | absent below ih => simpa [totalLength] using ih
  | layer below stores ih =>
      rw [← ih, ← stores.length_eq]
      simp [totalLength, Nat.add_comm]

/-- The slots from the height on do not matter. -/
theorem congr (h : stack.Layered held arrays height) {other : SlotStack α}
    (hSame : ∀ i < height, other.slots[i]? = stack.slots[i]?) :
    other.Layered held arrays height := by
  induction h with
  | nothing => exact .nothing
  | absent below ih => exact .absent (ih hSame)
  | layer below stores ih =>
      refine .layer (ih fun i hi => hSame i (by omega)) (stores.congr ?_)
      intro i hi
      exact hSame _ (Nat.add_lt_add_left hi _)

/-- Every array is stored in a range below the height. -/
theorem exists_range (h : stack.Layered held arrays height) {guard : Nat}
    (hValues : arrays[guard]? = some (some values)) :
    ∃ range : SlotRange, held[guard]? = some (some range) ∧ stack.Stores range values ∧
      range.start + range.count ≤ height := by
  induction h generalizing guard with
  | nothing => cases hValues
  | absent below ih =>
      cases guard with
      | zero => cases hValues
      | succ older => exact ih hValues
  | @layer held arrays newest stored below stores ih =>
      cases guard with
      | zero =>
          obtain rfl : stored = values := by simpa using hValues
          exact ⟨newest, rfl, stores, Nat.le_refl _⟩
      | succ older =>
          obtain ⟨range, hRange, hStores, hTop⟩ := ih hValues
          exact ⟨range, hRange, hStores, Nat.le_add_right_of_le hTop⟩

/-- A write through one guard changes the array of that guard and no other. -/
theorem write (h : stack.Layered held arrays height) {guard i : Nat}
    (hRange : held[guard]? = some (some range)) (hValues : arrays[guard]? = some (some values))
    (hi : i < range.count) (value : α) :
    (stack.write (range.start + i) value).Layered held
      (arrays.set guard (some (values.set i value))) height := by
  induction h generalizing guard with
  | nothing => cases hValues
  | absent below ih =>
      cases guard with
      | zero => cases hValues
      | succ older => exact .absent (ih hRange hValues)
  | @layer held arrays newest stored below stores ih =>
      cases guard with
      | zero =>
          obtain rfl : newest = range := by simpa using hRange
          obtain rfl : stored = values := by simpa using hValues
          refine .layer (below.congr ?_) (stores.write hi value)
          intro j hj
          exact List.getElem?_set_ne (by omega)
      | succ older =>
          obtain ⟨found, hFound, -, hTop⟩ := below.exists_range hValues
          obtain rfl : found = range := by simpa [hFound] using hRange
          refine .layer (ih hRange hValues) (stores.congr ?_)
          intro j hj
          exact List.getElem?_set_ne (by omega)

end Layered

variable [Inhabited α]

/-- The stack stores the arrays in the slots that it has handed out; the other slots are clear. -/
structure Mirrors (stack : SlotStack α) (limit : Nat) (held : List (Option SlotRange))
    (arrays : List (Option (List α))) : Prop where
  layered : stack.Layered held arrays stack.live
  live_le : stack.live ≤ stack.capacity
  isClean : stack.IsClean
  capacity_eq : stack.capacity = limit

namespace Mirrors

variable {limit : Nat} {held : List (Option SlotRange)} {arrays : List (Option (List α))}

theorem live_eq (h : stack.Mirrors limit held arrays) : stack.live = totalLength arrays :=
  h.layered.totalLength_eq.symm

theorem full_iff (h : stack.Mirrors limit held arrays) (count : Nat) :
    limit < totalLength arrays + count ↔ stack.capacity < stack.live + count := by
  rw [h.live_eq, h.capacity_eq]

theorem absent (h : stack.Mirrors limit held arrays) :
    stack.Mirrors limit (none :: held) (none :: arrays) :=
  ⟨.absent h.layered, h.live_le, h.isClean, h.capacity_eq⟩

theorem of_absent (h : stack.Mirrors limit (none :: held) (none :: arrays)) :
    stack.Mirrors limit held arrays := by
  have hLayered := h.layered
  cases hLayered with
  | absent below => exact ⟨below, h.live_le, h.isClean, h.capacity_eq⟩

/-- New slots are clear, since everything above the handed out ones is. -/
theorem acquire (h : stack.Mirrors limit held arrays) {count : Nat}
    (hFree : stack.live + count ≤ stack.capacity) :
    { stack with live := stack.live + count : SlotStack α }.Mirrors limit
      (some ⟨stack.live, count⟩ :: held) (some (.replicate count default) :: arrays) := by
  have hStores : { stack with live := stack.live + count : SlotStack α }.Stores
      ⟨stack.live, count⟩ (.replicate count default) := by
    refine ⟨List.length_replicate, ?_⟩
    intro i hi
    have hSlot : stack.live + i < stack.slots.length :=
      Nat.lt_of_lt_of_le (Nat.add_lt_add_left hi _) hFree
    rw [List.getElem?_replicate_of_lt hi]
    have hFound := List.getElem?_eq_getElem hSlot
    exact hFound.trans (congrArg some (h.isClean _ (Nat.le_add_right _ _) _ hFound))
  refine ⟨.layer (h.layered.congr fun _ _ => rfl) hStores, hFree, ?_, h.capacity_eq⟩
  intro i hi
  exact h.isClean i (Nat.le_of_add_right_le hi)

/-- An acquisition fails exactly if the arrays would pass the limit; else they get a clear one. -/
theorem acquire?_cases (h : stack.Mirrors limit held arrays) (count : Nat) :
    (limit < totalLength arrays + count ∧ stack.acquire? count = none) ∨
      (¬limit < totalLength arrays + count ∧ ∃ range grown,
        stack.acquire? count = some (range, grown) ∧
        grown.Mirrors limit (some range :: held) (some (.replicate count default) :: arrays)) := by
  rw [h.full_iff count]
  by_cases hFull : stack.capacity < stack.live + count
  · exact .inl ⟨hFull, acquire?_eq_none hFull⟩
  · have hFree := Nat.le_of_not_lt hFull
    exact .inr ⟨hFull, _, _, acquire?_eq_some hFree, h.acquire hFree⟩

/-- The guard in the place of an array holds the slots that store it. -/
theorem exists_guard {σ τ : Type} {range? : σ → Option SlotRange} {values? : τ → Option (List α)}
    {guards : List σ} {owned : List τ}
    (h : stack.Mirrors limit (guards.map range?) (owned.map values?)) {place : Nat} {array : τ}
    (hArray : owned[place]? = some array) (hValues : values? array = some values) :
    ∃ guard range, guards[place]? = some guard ∧ range? guard = some range ∧
      stack.Stores range values := by
  have hStored : (owned.map values?)[place]? = some (some values) := by
    rw [List.getElem?_map, hArray, Option.map_some, hValues]
  obtain ⟨range, hRange, hStores, -⟩ := h.layered.exists_range hStored
  rw [List.getElem?_map] at hRange
  obtain ⟨guard, hGuard, hHeld⟩ := Option.map_eq_some_iff.mp hRange
  exact ⟨guard, range, hGuard, hHeld, hStores⟩

theorem write (h : stack.Mirrors limit held arrays) {guard i : Nat}
    (hRange : held[guard]? = some (some range)) (hValues : arrays[guard]? = some (some values))
    (hi : i < range.count) (value : α) :
    (stack.write (range.start + i) value).Mirrors limit held
      (arrays.set guard (some (values.set i value))) := by
  obtain ⟨found, hFound, -, hTop⟩ := h.layered.exists_range hValues
  obtain rfl : found = range := by simpa [hFound] using hRange
  have hBelow : found.start + i < stack.live := by omega
  refine ⟨h.layered.write hRange hValues hi value, ?_, h.isClean.write hBelow value, ?_⟩
  · rw [capacity_write]
    exact h.live_le
  · rw [capacity_write]
    exact h.capacity_eq

theorem release (h : stack.Mirrors limit (some range :: held) (some values :: arrays)) :
    (stack.release range).Mirrors limit held arrays := by
  obtain ⟨hLayered, hLive, hClean, hCapacity⟩ := h
  generalize hTop : stack.live = height at hLayered
  cases hLayered with
  | layer below stores =>
      refine ⟨below.congr ?_, ?_, hClean.release hTop.symm, ?_⟩
      · intro i hi
        have hBelow : ¬(range.start ≤ i ∧ i < range.start + range.count) := by omega
        rw [getElem?_release]
        simp [hBelow]
      · rw [capacity_release]
        exact Nat.le_trans (Nat.le_of_add_right_le (Nat.le_of_eq hTop.symm)) hLive
      · rw [capacity_release]
        exact hCapacity

end Mirrors

end NybergRueppel.SlotStack
