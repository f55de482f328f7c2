import Mathlib.Data.List.GetD
import Mathlib.Order.Bounds.Basic
import NybergRueppel.Proofs.BufferedInt.Value

/-!
Normal buffered integers: the size is the least possible, the words above it are zero, and zero is
not negative. Whatever makes a number leaves it normal, and a normal number is determined by its
sign, its magnitude and its room.
-/
namespace NybergRueppel

open Word

/-- Only the number of a list of limbs decides how many of them are significant. -/
theorem Limbs.significant_eq_of_toNat_eq {xs ys : List UInt64} (h : toNat xs = toNat ys) :
    significant xs = significant ys := by
  have hLe {xs ys : List UInt64} (h : toNat xs = toNat ys) : significant xs ≤ significant ys := by
    rw [significant_le_iff xs (one_le_significant ys), h]
    exact (significant_le_iff ys (one_le_significant ys)).mp (Nat.le_refl _)
  exact Nat.le_antisymm (hLe h) (hLe h.symm)

namespace BufferedInt

/-- The form that every operation leaves a number in. -/
structure IsNormal (a : BufferedInt) : Prop where
  size_eq : a.size = Limbs.significant a.limbs
  size_le_room : a.size ≤ a.room
  buffer_eq : a.buffer = a.limbs ++ List.replicate (a.room - a.size) 0
  sign_eq_plus : a.magnitude = 0 → a.sign = .plus

variable {a b : BufferedInt}

theorem IsNormal.one_le_size (h : a.IsNormal) : 1 ≤ a.size := by
  rw [h.size_eq]
  exact Limbs.one_le_significant a.limbs

theorem IsNormal.one_le_room (h : a.IsNormal) : 1 ≤ a.room :=
  h.one_le_size.trans h.size_le_room

theorem length_limbs (h : a.size ≤ a.room) : a.limbs.length = a.size :=
  List.length_take_of_le h

/-- Zero has one significant word, so that its lowest word tells it apart. -/
theorem isZero_iff (hSize : a.size = Limbs.significant a.limbs) :
    a.isZero = true ↔ a.magnitude = 0 := by
  constructor
  · intro hZero
    by_contra hNonzero
    rw [isZero_eq_false_of_pos (Nat.pos_of_ne_zero hNonzero)] at hZero
    cases hZero
  · intro hZero
    have hShort : Limbs.significant a.limbs ≤ 1 := by
      rw [Limbs.significant_le_iff a.limbs (Nat.le_refl 1), ← magnitude, hZero, pow_one]
      exact base_pos
    have hOne : a.size = 1 := by
      have := Limbs.one_le_significant a.limbs
      omega
    have hHead : a.buffer.headD 0 = 0 := by
      rw [magnitude, limbs, hOne] at hZero
      cases hBuffer : a.buffer with
      | nil => rfl
      | cons x xs =>
          rw [hBuffer, List.take_succ_cons, List.take_zero, Limbs.toNat_cons, Limbs.toNat_nil,
            Nat.mul_zero, Nat.add_zero] at hZero
          exact UInt64.toNat_inj.mp hZero
    rw [isZero, hOne, hHead]
    rfl

/-- What is not negative by its sign is not negative as an integer. -/
theorem IsNormal.isNegative_iff (h : a.IsNormal) : a.isNegative = true ↔ a.toInt < 0 := by
  have hPlus := h.sign_eq_plus
  obtain ⟨sign, size, buffer⟩ := a
  cases sign with
  | plus =>
      refine iff_of_false (by simp [isNegative]) ?_
      simp only [toInt]
      omega
  | minus =>
      refine iff_of_true (by simp [isNegative]) ?_
      have hNonzero : magnitude ⟨.minus, size, buffer⟩ ≠ 0 := fun hZero => by cases hPlus hZero
      rw [magnitude] at hNonzero
      simp only [toInt]
      omega

/-- The size is the least number of words that the magnitude needs, and at least one. -/
theorem IsNormal.isLeast_size (h : a.IsNormal) :
    IsLeast {size | 1 ≤ size ∧ a.magnitude < base ^ size} a.size := by
  constructor
  · refine ⟨h.one_le_size, ?_⟩
    rw [← length_limbs h.size_le_room]
    exact Limbs.toNat_lt a.limbs
  · rintro size ⟨hOne, hFits⟩
    rw [h.size_eq]
    exact (Limbs.significant_le_iff a.limbs hOne).mpr hFits

theorem IsNormal.getD_buffer_eq_zero (h : a.IsNormal) {i : Nat} (hi : a.size ≤ i) :
    a.buffer.getD i 0 = 0 := by
  rw [h.buffer_eq, List.getD_append_right _ _ _ _ ((length_limbs h.size_le_room).trans_le hi),
    List.getD_eq_getElem?_getD, List.getElem?_getD_replicate_default_eq]

theorem IsNormal.size_eq_of_magnitude_eq (ha : a.IsNormal) (hb : b.IsNormal)
    (hMagnitude : a.magnitude = b.magnitude) : a.size = b.size := by
  rw [ha.size_eq, hb.size_eq]
  exact Limbs.significant_eq_of_toNat_eq hMagnitude

theorem IsNormal.limbs_eq_of_magnitude_eq (ha : a.IsNormal) (hb : b.IsNormal)
    (hMagnitude : a.magnitude = b.magnitude) : a.limbs = b.limbs := by
  apply Limbs.eq_of_toNat_eq _ hMagnitude
  rw [length_limbs ha.size_le_room, length_limbs hb.size_le_room,
    ha.size_eq_of_magnitude_eq hb hMagnitude]

/-- The rooms of two numbers do not matter for whether they are the same. -/
theorem IsNormal.sameNumber_iff (ha : a.IsNormal) (hb : b.IsNormal) :
    a.sameNumber b = true ↔ a.toInt = b.toInt := by
  rw [sameNumber, Bool.and_eq_true, decide_eq_true_iff, beq_iff_eq]
  constructor
  · rintro ⟨hSign, hLimbs⟩
    rw [toInt, toInt, hSign, hLimbs]
  · intro hValue
    have hMagnitude : a.magnitude = b.magnitude := by
      rw [← natAbs_toInt, ← natAbs_toInt, hValue]
    have hNegative : a.isNegative = b.isNegative := by
      rw [Bool.eq_iff_iff, ha.isNegative_iff, hb.isNegative_iff, hValue]
    refine ⟨?_, ha.limbs_eq_of_magnitude_eq hb hMagnitude⟩
    rw [isNegative, isNegative, decide_eq_decide] at hNegative
    generalize a.sign = s at hNegative
    generalize b.sign = t at hNegative
    cases s <;> cases t <;> simp at hNegative <;> rfl

/-- A normal number is determined by its sign, its magnitude and its room. -/
theorem IsNormal.eq (ha : a.IsNormal) (hb : b.IsNormal) (hSign : a.sign = b.sign)
    (hMagnitude : a.magnitude = b.magnitude) (hRoom : a.room = b.room) : a = b := by
  have hSize : a.size = b.size := ha.size_eq_of_magnitude_eq hb hMagnitude
  have hLimbs : a.limbs = b.limbs := ha.limbs_eq_of_magnitude_eq hb hMagnitude
  have hBuffer : a.buffer = b.buffer := by
    rw [ha.buffer_eq, hb.buffer_eq, hLimbs, hSize, hRoom]
  obtain ⟨sign, size, buffer⟩ := a
  obtain ⟨sign', size', buffer'⟩ := b
  cases hSign
  cases hSize
  cases hBuffer
  rfl

theorem isNormal_normalize (hSize : 1 ≤ a.size) (hRoom : a.size ≤ a.room) :
    a.normalize.IsNormal := by
  have hLimbs := limbs_normalize hSize hRoom
  have hSignificant := significant_limbs_le hSize hRoom
  have hNewSize : a.normalize.size = Limbs.significant a.limbs := by
    rw [normalize]
    split <;> rfl
  have hNewRoom := room_normalize hSize hRoom
  have hSizeEq : a.normalize.size = Limbs.significant a.normalize.limbs := by
    rw [hNewSize, hLimbs]
    exact (Limbs.significant_eq_of_toNat_eq (Limbs.toNat_take_significant a.limbs)).symm
  refine ⟨hSizeEq, ?_, ?_, ?_⟩
  · rw [hNewSize, hNewRoom]
    exact hSignificant.trans hRoom
  · rw [hLimbs, hNewRoom, hNewSize, take_limbs hSignificant, normalize]
    split <;> rfl
  · intro hZero
    have hIsZero := (isZero_iff hSizeEq).mpr hZero
    rw [normalize] at hIsZero ⊢
    split <;> rename_i hTrimmed
    · rfl
    · rw [if_neg hTrimmed] at hIsZero
      exact absurd hIsZero hTrimmed

theorem isNormal_ofSignedLimbs (sign : Sign) (xs : List UInt64) :
    (ofSignedLimbs sign xs).IsNormal := by
  rw [ofSignedLimbs]
  cases xs with
  | nil => exact isNormal_normalize (Nat.le_refl 1) (Nat.le_refl 1)
  | cons x xs => exact isNormal_normalize (Nat.le_add_left 1 _) (Nat.le_refl _)

/-- Only zero loses its sign. -/
theorem sign_normalize (h : a.normalize.magnitude ≠ 0) : a.normalize.sign = a.sign := by
  have hNonzero := isZero_eq_false_of_pos (Nat.pos_of_ne_zero h)
  rw [normalize] at hNonzero ⊢
  split <;> rename_i hTrimmed
  · rw [if_pos hTrimmed] at hNonzero
    exact absurd hTrimmed (Bool.eq_false_iff.mp hNonzero)
  · rfl

/-- The sign of zero does not matter. -/
theorem toInt_ofSignedLimbs (sign : Sign) (xs : List UInt64) :
    (ofSignedLimbs sign xs).toInt = sign.apply (Limbs.toNat xs) := by
  have hMagnitude := magnitude_ofSignedLimbs sign xs
  by_cases hZero : Limbs.toNat xs = 0
  · rw [hZero] at hMagnitude ⊢
    rw [← natAbs_toInt, Int.natAbs_eq_zero] at hMagnitude
    rw [hMagnitude]
    cases sign <;> rfl
  · have hSign : (ofSignedLimbs sign xs).sign = sign := sign_normalize (hMagnitude.trans_ne hZero)
    rw [toInt_eq_apply, hSign, hMagnitude]

theorem IsNormal.normalize_eq (h : a.IsNormal) : a.normalize = a := by
  have hNormal := isNormal_normalize h.one_le_size h.size_le_room
  have hMagnitude := magnitude_normalize h.one_le_size h.size_le_room
  apply hNormal.eq h _ hMagnitude (room_normalize h.one_le_size h.size_le_room)
  by_cases hZero : a.magnitude = 0
  · rw [h.sign_eq_plus hZero, hNormal.sign_eq_plus (hMagnitude.trans hZero)]
  · exact sign_normalize (hMagnitude.trans_ne hZero)

/-- Zero is normal in every room. -/
theorem isNormal_withRoom (words : Nat) : (withRoom words).IsNormal := by
  obtain ⟨more, hMore⟩ := Nat.exists_eq_add_of_le' (Nat.le_max_left 1 words)
  have hZero : withRoom words = ⟨.plus, 1, 0 :: List.replicate more 0⟩ := by
    rw [withRoom, hMore, List.replicate_succ]
  rw [hZero]
  refine ⟨rfl, Nat.le_add_left 1 _, ?_, fun _ => rfl⟩
  rw [room, List.length_cons, List.length_replicate]
  rfl

theorem isNormal_ofWord (w : UInt64) : (ofWord w).IsNormal :=
  isNormal_ofSignedLimbs .plus [w]

theorem isNormal_ofFixed {n : Nat} (v : FixedNat n) : (ofFixed v).IsNormal :=
  isNormal_ofSignedLimbs .plus v.limbs

theorem IsNormal.neg (h : a.IsNormal) : a.neg.IsNormal :=
  isNormal_normalize h.one_le_size h.size_le_room

theorem IsNormal.magnitude_neg (h : a.IsNormal) : a.neg.magnitude = a.magnitude :=
  magnitude_normalize (a := { a with sign := a.sign.opposite }) h.one_le_size h.size_le_room

theorem IsNormal.room_neg (h : a.IsNormal) : a.neg.room = a.room :=
  room_normalize (a := { a with sign := a.sign.opposite }) h.one_le_size h.size_le_room

theorem IsNormal.sign_neg (h : a.IsNormal) (hNonzero : a.magnitude ≠ 0) :
    a.neg.sign = a.sign.opposite :=
  sign_normalize (a := { a with sign := a.sign.opposite }) (h.magnitude_neg.trans_ne hNonzero)

/-- A larger room puts zeros above the significant words. -/
theorem limbs_withMinRoom (h : a.size ≤ a.room) (words : Nat) :
    (a.withMinRoom words).limbs = a.limbs :=
  List.take_append_of_le_length h

theorem room_withMinRoom (a : BufferedInt) (words : Nat) :
    (a.withMinRoom words).room = max a.room words := by
  rw [withMinRoom, room, List.length_append, List.length_replicate, ← room]
  omega

theorem IsNormal.withMinRoom (h : a.IsNormal) (words : Nat) : (a.withMinRoom words).IsNormal := by
  have hLimbs := limbs_withMinRoom h.size_le_room words
  have hRoom := room_withMinRoom a words
  have hSize : (a.withMinRoom words).size = a.size := rfl
  refine ⟨?_, ?_, ?_, ?_⟩
  · rw [hLimbs, hSize]
    exact h.size_eq
  · rw [hRoom, hSize]
    exact h.size_le_room.trans (Nat.le_max_left _ _)
  · have hZeros : List.replicate (max a.room words - a.size) (0 : UInt64) =
        List.replicate (a.room - a.size) 0 ++ List.replicate (words - a.room) 0 := by
      have := h.size_le_room
      rw [List.replicate_append_replicate]
      congr 1
      omega
    rw [hLimbs, hRoom, hSize, hZeros, ← List.append_assoc, ← h.buffer_eq]
    rfl
  · intro hZero
    rw [magnitude, hLimbs] at hZero
    exact h.sign_eq_plus hZero

/-- A number that is not negative stands in a room. -/
structure IsStored (a : BufferedInt) (value room : Nat) : Prop where
  isNormal : a.IsNormal
  isNegative_eq : a.isNegative = false
  magnitude_eq : a.magnitude = value
  room_eq : a.room = room

theorem IsStored.toInt_eq {value room : Nat} (h : a.IsStored value room) : a.toInt = value := by
  rw [toInt_eq_magnitude h.isNegative_eq, h.magnitude_eq]

/-- A number that has no more digits than the room is stored, and the room stays as it is. -/
theorem setUnsigned_eq_ok {xs : List UInt64} (hRoom : 1 ≤ a.room)
    (hFits : Limbs.toNat xs < base ^ a.room) :
    ∃ r, a.setUnsigned xs = .ok r ∧ r.IsStored (Limbs.toNat xs) a.room := by
  have hLength : (xs.take (Limbs.significant xs)).length ≤ a.room :=
    (List.length_take_le _ _).trans ((Limbs.significant_le_iff xs hRoom).mpr hFits)
  rw [setUnsigned, if_neg (Nat.not_lt.mpr hLength)]
  generalize hStored : xs.take (Limbs.significant xs) = stored at hLength
  have hValue : Limbs.toNat stored = Limbs.toNat xs := by
    rw [← hStored, Limbs.toNat_take_significant]
  let written : BufferedInt := {
    sign := .plus
    size := max 1 stored.length
    buffer := stored ++ List.replicate (a.room - stored.length) 0 }
  have hWrittenRoom : written.room = a.room := by
    simp only [written, room, List.length_append, List.length_replicate]
    exact Nat.add_sub_of_le hLength
  have hWrittenSize : 1 ≤ written.size := Nat.le_max_left 1 _
  have hWritten : written.size ≤ written.room := by
    rw [hWrittenRoom]
    exact Nat.max_le.mpr ⟨hRoom, hLength⟩
  have hMagnitude : written.magnitude = Limbs.toNat stored := by
    simp only [written, magnitude, limbs]
    rw [List.take_append, List.take_of_length_le (Nat.le_max_right 1 _), List.take_replicate,
      Limbs.toNat_append, Limbs.toNat_replicate_zero, Nat.mul_zero, Nat.add_zero]
  refine ⟨_, rfl, isNormal_normalize hWrittenSize hWritten, isNegative_normalize_of_plus rfl, ?_,
    ?_⟩
  · rw [magnitude_normalize hWrittenSize hWritten, hMagnitude, hValue]
  · rw [room_normalize hWrittenSize hWritten, hWrittenRoom]

/-- Whatever is stored without a failure fits. -/
theorem of_setUnsigned_eq {xs : List UInt64} (hRoom : 1 ≤ a.room)
    (h : a.setUnsigned xs = .ok b) : b.IsStored (Limbs.toNat xs) a.room := by
  have hFits : Limbs.toNat xs < base ^ a.room := by
    rw [setUnsigned] at h
    split at h <;> rename_i hLength
    · cases h
    · have hLess := Limbs.toNat_lt (xs.take (Limbs.significant xs))
      rw [Limbs.toNat_take_significant] at hLess
      exact hLess.trans_le (Nat.pow_le_pow_right base_pos (Nat.le_of_not_lt hLength))
  obtain ⟨r, hStored, hIsStored⟩ := setUnsigned_eq_ok hRoom hFits
  rw [h, Except.ok.injEq] at hStored
  rw [hStored]
  exact hIsStored

/-- A store fails exactly if the room has too few words for the number. -/
theorem setUnsigned_eq_error_iff {xs : List UInt64} (hRoom : 1 ≤ a.room) :
    a.setUnsigned xs = .error .bufferTooSmall ↔ base ^ a.room ≤ Limbs.toNat xs := by
  constructor
  · intro hError
    by_contra hFits
    obtain ⟨r, hStored, -⟩ := setUnsigned_eq_ok hRoom (Nat.lt_of_not_le hFits)
    rw [hStored] at hError
    cases hError
  · intro hLarge
    cases hResult : a.setUnsigned xs with
    | error failure =>
        rw [setUnsigned] at hResult
        split at hResult
        · exact hResult.symm
        · cases hResult
    | ok r =>
        obtain ⟨hNormal, -, hMagnitude, hSameRoom⟩ := of_setUnsigned_eq hRoom hResult
        have hFits := hNormal.isLeast_size.1.2
        have hPower := Nat.pow_le_pow_right base_pos hNormal.size_le_room
        rw [hMagnitude] at hFits
        rw [hSameRoom] at hPower
        omega

end BufferedInt

end NybergRueppel
