import NybergRueppel.Proofs.BufferedInt.Normal
import NybergRueppel.Proofs.Checked.FixedNat

/-!
Buffered integers on the checking machine. A number that is normal has a word wherever one is read,
and what is normalized needs only a size between one and its room.
-/
namespace NybergRueppel

open Checked Word

/-- Lowers a number of words as long as it is above one and the highest word is zero. -/
def Limbs.checkedTrim (xs : List UInt64) : Nat → Checked Nat
  | 0 => return 0
  | 1 => return 1
  | size + 2 => do
    if (← read xs (size + 1)) = 0 then checkedTrim xs (size + 1) else return size + 2

theorem Limbs.significant_concat {xs : List UInt64} (hPos : 1 ≤ xs.length) (x : UInt64) :
    significant (xs ++ [x]) = if x = 0 then significant xs else xs.length + 1 := by
  induction xs with
  | nil => cases hPos
  | cons y xs ih =>
      cases xs with
      | nil => simp [significant, isZero]
      | cons z xs =>
          have hHead (ys : List UInt64) :
              significant (y :: ys) = if isZero ys then 1 else significant ys + 1 := rfl
          have hZero : isZero (z :: xs ++ [x]) = (isZero (z :: xs) && x == 0) := by
            simp [isZero, Bool.and_assoc]
          rw [List.cons_append, hHead, hHead, ih (Nat.le_add_left 1 _), hZero]
          by_cases hx : x = 0 <;> simp [hx]

theorem Limbs.checkedTrim_eq_significant (xs : List UInt64) {size : Nat} (hPos : 1 ≤ size)
    (hSize : size ≤ xs.length) : checkedTrim xs size = .ok (significant (xs.take size)) := by
  induction size with
  | zero => cases hPos
  | succ size ih =>
      cases size with
      | zero =>
          obtain ⟨x, xs, rfl⟩ := List.exists_cons_of_length_pos hSize
          rfl
      | succ size =>
          have hPlace : size + 1 < xs.length := hSize
          have hLength : (xs.take (size + 1)).length = size + 1 :=
            List.length_take_of_le hPlace.le
          rw [checkedTrim, read_eq_ok hPlace, ok_bind, ih (Nat.le_add_left 1 size) hPlace.le,
            List.take_succ_eq_append_getElem hPlace,
            significant_concat (hLength.ge.trans' (Nat.le_add_left 1 size)), hLength]
          exact (apply_ite Except.ok _ _ _).symm

/-- Nothing is trimmed off an empty list, although its number of significant words is one. -/
theorem Limbs.checkedTrim_length (xs : List UInt64) :
    checkedTrim xs xs.length = .ok (xs.take (significant xs)).length := by
  cases xs with
  | nil => rfl
  | cons x xs =>
      have hPos : 1 ≤ (x :: xs).length := Nat.le_add_left 1 _
      have hAll : significant (x :: xs) ≤ (x :: xs).length :=
        (significant_le_iff _ hPos).mpr (toNat_lt _)
      rw [checkedTrim_eq_significant _ hPos (Nat.le_refl _), List.take_length,
        List.length_take_of_le hAll]

namespace BufferedInt

variable {n : Nat} {a : BufferedInt}

def checkedIsZero (a : BufferedInt) : Checked Bool := do
  if a.size = 1 then return (← read a.buffer 0) == 0 else return false

theorem checkedIsZero_eq (hRoom : 1 ≤ a.room) : a.checkedIsZero = .ok a.isZero := by
  obtain ⟨sign, size, buffer⟩ := a
  cases buffer with
  | nil => cases hRoom
  | cons x xs =>
      rw [checkedIsZero, isZero, read_zero, List.headD_cons]
      by_cases hSize : size = 1 <;> simp [hSize]

/-- The significant words. -/
def checkedLimbs (a : BufferedInt) : Checked (List UInt64) :=
  slice a.buffer 0 a.size

theorem checkedLimbs_eq (hRoom : a.size ≤ a.room) : a.checkedLimbs = .ok a.limbs :=
  slice_zero hRoom

/-- Shortens the size, clears the words above it, and gives zero the sign plus. -/
def checkedNormalize (a : BufferedInt) : Checked BufferedInt := do
  let size ← Limbs.checkedTrim a.buffer (max (min a.size a.room) 1)
  let above ← slice a.buffer size a.room
  let trimmed : BufferedInt :=
    { a with size := size, buffer := a.buffer.take size ++ above.map fun _ => 0 }
  if ← trimmed.checkedIsZero then return { trimmed with sign := .plus } else return trimmed

theorem checkedNormalize_eq (hSize : 1 ≤ a.size) (hRoom : a.size ≤ a.room) :
    a.checkedNormalize = .ok a.normalize := by
  have hStart : max (min a.size a.room) 1 = a.size := by
    rw [Nat.min_eq_left hRoom, Nat.max_eq_left hSize]
  have hSignificant := significant_limbs_le hSize hRoom
  have hWithin : Limbs.significant a.limbs ≤ a.room := hSignificant.trans hRoom
  have hAbove : (a.buffer.drop (Limbs.significant a.limbs)).map (fun _ => (0 : UInt64)) =
      List.replicate (a.room - Limbs.significant a.limbs) 0 := by
    rw [List.map_const', List.length_drop, room]
  have hZero := checkedIsZero_eq (a := { a with
    size := Limbs.significant a.limbs
    buffer := a.buffer.take (Limbs.significant a.limbs) ++
      List.replicate (a.room - Limbs.significant a.limbs) 0 }) <| by
    rw [room, List.length_append, List.length_take_of_le hWithin]
    exact (Limbs.one_le_significant _).trans (Nat.le_add_right _ _)
  rw [checkedNormalize, hStart, Limbs.checkedTrim_eq_significant _ hSize hRoom, ok_bind, ← limbs,
    room, slice_length hWithin, ok_bind, hAbove]
  simp only [hZero, ok_bind, pure_eq_ok]
  exact (apply_ite Except.ok _ _ _).symm

/-- A buffer whose words all count is normalized to the number with these limbs. -/
theorem checkedNormalize_eq_ofSignedLimbs (sign : Sign) {limbs : List UInt64}
    (hPos : 1 ≤ limbs.length) :
    checkedNormalize { sign := sign, size := limbs.length, buffer := limbs } =
      .ok (ofSignedLimbs sign limbs) := by
  have hSome : ¬limbs.isEmpty = true := by
    rw [List.isEmpty_iff_length_eq_zero]
    omega
  rw [checkedNormalize_eq hPos (Nat.le_refl _), ofSignedLimbs, if_neg hSome]

/-- A number that is not negative, whose room is the number of limbs. -/
def checkedOfLimbs (limbs : List UInt64) : Checked BufferedInt := do
  let buffer ← overwrite (withRoom limbs.length).buffer limbs
  checkedNormalize { sign := .plus, size := buffer.length, buffer := buffer }

theorem checkedOfLimbs_eq (limbs : List UInt64) :
    checkedOfLimbs limbs = .ok (ofLimbs limbs) := by
  cases limbs with
  | nil => exact checkedNormalize_eq_ofSignedLimbs .plus (show 1 ≤ [(0 : UInt64)].length by decide)
  | cons x xs =>
      have hRoom : (withRoom (x :: xs).length).buffer.length = (x :: xs).length := by
        rw [withRoom, List.length_replicate, List.length_cons]
        omega
      rw [checkedOfLimbs, overwrite_eq_ok hRoom.ge, ok_bind, List.drop_of_length_le hRoom.le,
        List.append_nil, checkedNormalize_eq_ofSignedLimbs .plus (Nat.le_add_left 1 _), ofLimbs]

/-- A fixed-width integer as a number with room for its width. -/
def checkedOfFixed (a : FixedNat n) : Checked BufferedInt :=
  checkedOfLimbs a.limbs

theorem checkedOfFixed_eq (a : FixedNat n) : checkedOfFixed a = .ok (ofFixed a) :=
  checkedOfLimbs_eq a.limbs

/-- Stores a number that is not negative into the room of another. -/
def checkedSetUnsigned (a : BufferedInt) (limbs : List UInt64) :
    Checked (Except Failure BufferedInt) := do
  let length ← Limbs.checkedTrim limbs limbs.length
  if a.room < length then return .error .bufferTooSmall
  else
    let buffer ← overwrite (a.buffer.map fun _ => 0) (← slice limbs 0 length)
    return .ok (← checkedNormalize { sign := .plus, size := max 1 length, buffer := buffer })

theorem checkedSetUnsigned_eq (hRoom : 1 ≤ a.room) (limbs : List UInt64) :
    a.checkedSetUnsigned limbs = .ok (a.setUnsigned limbs) := by
  have hTaken : limbs.take (limbs.take (Limbs.significant limbs)).length =
      limbs.take (Limbs.significant limbs) := by
    rw [List.length_take, ← List.take_take, List.take_length]
  have hWithin := List.length_take_le' (Limbs.significant limbs) limbs
  rw [checkedSetUnsigned, Limbs.checkedTrim_length, ok_bind, setUnsigned]
  generalize limbs.take (Limbs.significant limbs) = stored at hTaken hWithin
  split <;> rename_i hFits
  · rfl
  · have hStored : stored.length ≤ a.room := Nat.le_of_not_lt hFits
    have hCleared : (a.buffer.map fun _ => (0 : UInt64)).drop stored.length =
        List.replicate (a.room - stored.length) 0 := by
      rw [List.map_const', List.drop_replicate, room]
    have hFilled : max 1 stored.length ≤
        (stored ++ List.replicate (a.room - stored.length) (0 : UInt64)).length := by
      rw [List.length_append, List.length_replicate, Nat.add_sub_of_le hStored]
      exact Nat.max_le.mpr ⟨hRoom, hStored⟩
    rw [slice_zero hWithin, ok_bind, hTaken, overwrite_eq_ok (by rwa [List.length_map]), ok_bind,
      hCleared, checkedNormalize_eq (Nat.le_max_left 1 _) hFilled]
    rfl

/-- The magnitude as an integer of `n` limbs, if it fits. -/
def checkedToFixed? (n : Nat) (a : BufferedInt) : Checked (Option (FixedNat n)) := do
  return FixedNat.ofLimbs? n (← a.checkedLimbs)

theorem checkedToFixed?_eq (hRoom : a.size ≤ a.room) :
    a.checkedToFixed? n = .ok (a.toFixed? n) := by
  rw [checkedToFixed?, checkedLimbs_eq hRoom]
  rfl

/-- Compares the magnitude with a fixed-width integer. -/
def checkedCompareMagnitude (a : BufferedInt) (b : FixedNat n) : Checked Ordering := do
  match ← a.checkedToFixed? n with
  | some value => value.checkedCompare b
  | none => return .gt

theorem checkedCompareMagnitude_eq (hRoom : a.size ≤ a.room) (b : FixedNat n) :
    a.checkedCompareMagnitude b = .ok (a.compareMagnitude b) := by
  rw [checkedCompareMagnitude, checkedToFixed?_eq hRoom, ok_bind, compareMagnitude]
  cases a.toFixed? n with
  | none => rfl
  | some value => exact FixedNat.checkedCompare_eq value b

end BufferedInt

end NybergRueppel
