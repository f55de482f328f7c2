import NybergRueppel.SlotPool

/-!
Stacks of slots. A slot of a range that lies inside the stack can be written, is read back as it was
written, and keeps its value when another slot is written. A stack whose free slots are cleared is
the same again after slots were lent, written and given back.
-/
namespace NybergRueppel.SlotStack

variable {α : Type}

/-- The stack with another value in one slot. -/
def write (stack : SlotStack α) (position : Nat) (value : α) : SlotStack α :=
  { stack with slots := stack.slots.set position value }

/-- The range lies inside the stack. -/
def Covers (stack : SlotStack α) (range : SlotRange) : Prop :=
  range.start + range.count ≤ stack.capacity

variable {stack : SlotStack α} {range : SlotRange}

theorem acquire?_eq_some {count : Nat} (hFree : stack.live + count ≤ stack.capacity) :
    stack.acquire? count =
      some ({ start := stack.live, count := count }, { stack with live := stack.live + count }) :=
  if_neg (Nat.not_lt.mpr hFree)

theorem acquire?_eq_none {count : Nat} (hFull : stack.capacity < stack.live + count) :
    stack.acquire? count = none :=
  if_pos hFull

@[simp]
theorem capacity_write (position : Nat) (value : α) :
    (stack.write position value).capacity = stack.capacity :=
  List.length_set

theorem Covers.write (h : stack.Covers range) (position : Nat) (value : α) :
    (stack.write position value).Covers range := by
  rw [Covers, capacity_write]
  exact h

theorem set?_eq_some (h : stack.Covers range) {i : Nat} (hi : i < range.count) (value : α) :
    stack.set? range i value = some (stack.write (range.start + i) value) := by
  have hPosition : range.start + i < stack.capacity := by
    rw [Covers] at h
    omega
  exact if_pos ⟨hi, hPosition⟩

theorem set?_eq_none {i : Nat} (hi : ¬i < range.count) (value : α) :
    stack.set? range i value = none :=
  if_neg fun h => hi h.1

theorem get?_write_self (h : stack.Covers range) {i : Nat} (hi : i < range.count) (value : α) :
    (stack.write (range.start + i) value).get? range i = some value := by
  have hPosition : range.start + i < stack.slots.length := by
    rw [Covers, capacity] at h
    omega
  rw [get?, if_pos hi, write, List.getElem?_set_self hPosition]

theorem get?_write_of_ne {i j : Nat} (hij : i ≠ j) (value : α) :
    (stack.write (range.start + i) value).get? range j = stack.get? range j := by
  rw [get?, get?, write, List.getElem?_set_ne (by omega)]

theorem eq_write_of_set?_eq {i : Nat} {value : α} {written : SlotStack α}
    (h : stack.set? range i value = some written) :
    i < range.count ∧ written = stack.write (range.start + i) value := by
  rw [set?] at h
  split at h <;> rename_i hRange
  · exact ⟨hRange.1, (Option.some.inj h).symm⟩
  · cases h

theorem getElem?_release [Inhabited α] (stack : SlotStack α) (range : SlotRange) (i : Nat) :
    (stack.release range).slots[i]? = stack.slots[i]?.map fun value =>
      if range.start ≤ i ∧ i < range.start + range.count then default else value :=
  List.getElem?_mapIdx

/-- The slots that are not handed out are cleared. -/
def IsClean [Inhabited α] (stack : SlotStack α) : Prop :=
  ∀ i, stack.live ≤ i → ∀ value, stack.slots[i]? = some value → value = default

/-- Slots that are not handed out stay clear while those below them are written. -/
theorem IsClean.write [Inhabited α] (h : stack.IsClean) {position : Nat}
    (hPosition : position < stack.live) (value : α) : (stack.write position value).IsClean := by
  intro i hi found hFound
  have hAbove : stack.live ≤ i := hi
  rw [SlotStack.write, List.getElem?_set_ne (by omega)] at hFound
  exact h i hi found hFound

/-- Giving the newest range back clears its slots. -/
theorem IsClean.release [Inhabited α] (h : stack.IsClean)
    (hTop : range.start + range.count = stack.live) : (stack.release range).IsClean := by
  intro i hi value hValue
  rw [getElem?_release] at hValue
  obtain ⟨found, hFound, rfl⟩ := Option.map_eq_some_iff.mp hValue
  split
  · rfl
  · rename_i hOutside
    have hAbove : range.start ≤ i := hi
    exact h i (by omega) found hFound

@[simp]
theorem capacity_release [Inhabited α] (stack : SlotStack α) (range : SlotRange) :
    (stack.release range).capacity = stack.capacity :=
  List.length_mapIdx

/-- The second stack is the first one with `count` more slots handed out. Only these may have been
written. -/
structure Lends (base : SlotStack α) (count : Nat) (stack : SlotStack α) : Prop where
  live_eq : stack.live = base.live + count
  getElem?_eq : ∀ i, i < base.live ∨ base.live + count ≤ i → stack.slots[i]? = base.slots[i]?
  capacity_eq : stack.capacity = base.capacity

namespace Lends

variable {base : SlotStack α} {count : Nat}

theorem lent (base : SlotStack α) (count : Nat) :
    base.Lends count { base with live := base.live + count } :=
  ⟨rfl, fun _ _ => rfl, rfl⟩

theorem refl (base : SlotStack α) : base.Lends 0 base :=
  lent base 0

/-- A stack that has lent nothing is what it was. -/
theorem eq_of_zero (h : base.Lends 0 stack) : stack = base := by
  have hSlots : stack.slots = base.slots := by
    apply List.ext_getElem?
    intro i
    exact h.getElem?_eq i (Nat.lt_or_ge i base.live)
  obtain ⟨slots, live⟩ := stack
  obtain rfl : live = base.live := h.live_eq
  obtain rfl : slots = base.slots := hSlots
  rfl

theorem write (h : base.Lends count stack) {i : Nat} (hi : i < count) (value : α) :
    base.Lends count (stack.write (base.live + i) value) := by
  refine ⟨h.live_eq, ?_, (capacity_write _ _).trans h.capacity_eq⟩
  intro j hj
  rw [SlotStack.write, List.getElem?_set_ne (by omega)]
  exact h.getElem?_eq j hj

/-- Giving the slots back clears them, and they were clear before. -/
theorem release [Inhabited α] (h : base.Lends count stack) (hClean : base.IsClean) :
    stack.release ⟨base.live, count⟩ = base := by
  have hLength : (stack.release ⟨base.live, count⟩).slots.length = base.slots.length :=
    List.length_mapIdx.trans h.capacity_eq
  have hSlots : (stack.release ⟨base.live, count⟩).slots = base.slots := by
    apply List.ext_getElem hLength
    intro i hi hBase
    have hStack : i < stack.slots.length := Nat.lt_of_lt_of_eq hBase h.capacity_eq.symm
    rw [← Option.some.injEq, ← List.getElem?_eq_getElem hi, getElem?_release,
      List.getElem?_eq_getElem hStack, Option.map_some, Option.some.injEq]
    by_cases hLent : base.live ≤ i ∧ i < base.live + count
    · rw [if_pos hLent]
      exact (hClean i hLent.1 _ (List.getElem?_eq_getElem hBase)).symm
    · have hSame := h.getElem?_eq i (by omega)
      rw [List.getElem?_eq_getElem hStack, List.getElem?_eq_getElem hBase] at hSame
      rw [if_neg hLent]
      exact Option.some.inj hSame
  have hRelease : stack.release ⟨base.live, count⟩ =
      { slots := (stack.release ⟨base.live, count⟩).slots, live := base.live } := rfl
  rw [hRelease, hSlots]

end Lends

end NybergRueppel.SlotStack
