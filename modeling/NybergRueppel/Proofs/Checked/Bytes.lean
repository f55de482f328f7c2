import NybergRueppel.Proofs.Checked.FixedNat
import NybergRueppel.Proofs.FixedNat.Bytes
import NybergRueppel.Proofs.FixedNat.Shift

/-!
Bytes taken in and bits shifted out on the checking machine. A byte is put into its place as long as
the width has that place, and a shift writes each limb from at most two limbs above it.
-/
namespace NybergRueppel.FixedNat

open Checked Word

variable {n : Nat}

/-- Reads bytes from the lowest up, the first of them into place `i`. What the width has no place
for is dropped. -/
def checkedReadBytes (n : Nat) : List UInt64 → Nat → List UInt8 → Checked (List UInt64)
  | xs, _, [] => return xs
  | xs, i, b :: bs => do
    if i / 8 < n then checkedReadBytes n (← Limbs.checkedPut 8 8 xs i b.toUInt64) (i + 1) bs
    else checkedReadBytes n xs (i + 1) bs

/-- The bytes are added above the number that was there, modulo the width. -/
theorem exists_checkedReadBytes_eq {xs : List UInt64} {i : Nat} (hLength : xs.length = n)
    (hBelow : Limbs.toNat xs < 256 ^ i) (bytes : List UInt8) :
    ∃ ys, checkedReadBytes n xs i bytes = .ok ys ∧ ys.length = n ∧
      Limbs.toNat ys =
        (Limbs.toNat xs + 256 ^ i * Nat.ofDigits 256 (bytes.map UInt8.toNat)) % base ^ n := by
  induction bytes generalizing xs i with
  | nil =>
      refine ⟨xs, rfl, hLength, ?_⟩
      rw [List.map_nil, Nat.ofDigits_nil, Nat.mul_zero, Nat.add_zero,
        Nat.mod_eq_of_lt (hLength ▸ Limbs.toNat_lt xs)]
  | cons b bs ih =>
      rw [checkedReadBytes, List.map_cons, Nat.ofDigits_cons]
      split <;> rename_i hPlace
      · obtain ⟨zs, hPut, hzs, hValue, hNext⟩ := Limbs.exists_checkedPut_eq 8 8 (by decide)
          rfl (hLength ▸ hPlace) (v := b.toUInt64) b.toNat_lt hBelow
        obtain ⟨ys, hRun, hys, hSum⟩ := ih (hzs.trans hLength) hNext
        refine ⟨ys, by rw [hPut, ok_bind, hRun], hys, ?_⟩
        rw [hSum, hValue, UInt8.toNat_toUInt64]
        congr 1
        ring
      · -- The place of the byte is a multiple of the width.
        obtain ⟨ys, hRun, hys, hSum⟩ :=
          ih hLength (hBelow.trans_le (Nat.pow_le_pow_right (by decide) (Nat.le_succ i)))
        have hAbove : base ^ n ∣ 256 ^ i := by
          rw [base_eq, show 2 ^ 64 = 256 ^ 8 from rfl, ← pow_mul]
          exact pow_dvd_pow 256 (by omega)
        obtain ⟨k, hk⟩ := hAbove
        refine ⟨ys, hRun, hys, ?_⟩
        rw [hSum, pow_succ, hk, Nat.mul_assoc, Nat.mul_assoc, Nat.mul_assoc,
          Nat.add_mul_mod_self_left, Nat.add_mul_mod_self_left]

/-- Reads bytes in big-endian order. -/
def checkedOfBytes (n : Nat) (bytes : List UInt8) : Checked (FixedNat n) := do
  return ofLimbs n (← checkedReadBytes n (0 : FixedNat n).limbs 0 bytes.reverse)

theorem checkedOfBytes_eq (n : Nat) (bytes : List UInt8) :
    checkedOfBytes n bytes = .ok (ofBytes n bytes) := by
  have hEmpty : Limbs.toNat (0 : FixedNat n).limbs = 0 := toNat_zero
  obtain ⟨ys, hRun, hLength, hValue⟩ := exists_checkedReadBytes_eq (0 : FixedNat n).length_limbs
    (hEmpty.trans_lt (Nat.pow_pos (n := 0) (by decide))) bytes.reverse
  rw [hEmpty, pow_zero, Nat.one_mul, Nat.zero_add, ← bigEndian, ← toNat_ofBytes_eq_mod] at hValue
  rw [checkedOfBytes, hRun, ok_bind, pure_eq_ok, Except.ok.injEq]
  exact eq_of_toNat_eq ((toNat_ofLimbs_of_length hLength).trans hValue)

/-- Writes a limb from the one that is `words` places above it. -/
def checkedMoveLimb (a : FixedNat n) (words : Nat) (result : List UInt64) (i : Nat) :
    Checked (List UInt64) := do
  write result i (← read a.limbs (i + words))

/-- Writes a limb from the two that are `words` places above it, of which the higher one can be
above the width. -/
def checkedShiftLimb (a : FixedNat n) (words bits : Nat) (result : List UInt64) (i : Nat) :
    Checked (List UInt64) := do
  let source := i + words
  let result ← write result i (← shiftDown (← read a.limbs source) bits)
  if source + 1 < n then
    let high ← shiftUp (← read a.limbs (source + 1)) (← difference 64 bits)
    update result i (· ||| high)
  else return result

/-- The limbs that come down over whole words and over fewer bits than a word has. -/
def checkedShiftLimbs (a : FixedNat n) (words bits : Nat) : Checked (List UInt64) := do
  let count ← difference n words
  if bits = 0 then (List.range count).foldlM (a.checkedMoveLimb words) (0 : FixedNat n).limbs
  else (List.range count).foldlM (a.checkedShiftLimb words bits) (0 : FixedNat n).limbs

/-- Shifts down by any number of bits. -/
def checkedShiftRight (a : FixedNat n) (s : Nat) : Checked (FixedNat n) := do
  if s = 0 then return a
  else if width n ≤ s then return 0
  else return ofLimbs n (← a.checkedShiftLimbs (s / 64) (s % 64))

theorem checkedMoveLimb_eq (a : FixedNat n) {words i : Nat} (hi : i < (a.limbs.drop words).length)
    {done : List UInt64} (hDone : done.length = i) (blank : UInt64) (rest : List UInt64) :
    a.checkedMoveLimb words (done ++ blank :: rest) i =
      .ok (done ++ (a.limbs.drop words)[i] :: rest) := by
  have hSource : words + i < a.limbs.length := by
    rw [List.length_drop] at hi
    omega
  rw [checkedMoveLimb, Nat.add_comm, read_eq_ok hSource, ok_bind, write_append hDone,
    List.getElem_drop]

theorem checkedShiftLimb_eq (a : FixedNat n) {words bits i : Nat} (hBits : bits < 64)
    (hPos : 0 < bits) (hi : i < (Limbs.shiftDown bits.toUInt64 (a.limbs.drop words)).length)
    {done : List UInt64} (hDone : done.length = i) (blank : UInt64) (rest : List UInt64) :
    a.checkedShiftLimb words bits (done ++ blank :: rest) i =
      .ok (done ++ (Limbs.shiftDown bits.toUInt64 (a.limbs.drop words))[i] :: rest) := by
  have hSource : i + words < n := by
    rw [Limbs.length_shiftDown, List.length_drop, a.length_limbs] at hi
    omega
  have hDrop (j : Nat) : (a.limbs.drop words).getD j 0 = a.limbs.getD (j + words) 0 := by
    rw [List.getD_eq_getElem?_getD, List.getElem?_drop, Nat.add_comm words j,
      List.getD_eq_getElem?_getD]
  have hAmount : (64 - bits).toUInt64 = 64 - bits.toUInt64 := UInt64.ofNat_sub hBits.le
  rw [checkedShiftLimb, read_limbs a hSource, ok_bind, shiftDown_eq_ok _ hBits, ok_bind,
    write_append hDone, ok_bind, Limbs.getElem_shiftDown, hDrop, hDrop, Nat.add_right_comm i 1]
  split <;> rename_i hAbove
  · rw [read_limbs a hAbove, ok_bind, difference_eq_ok hBits.le, ok_bind,
      shiftUp_eq_ok _ (by omega), ok_bind, update_append hDone, hAmount]
  · have hNone : a.limbs.getD (i + words + 1) 0 = 0 := by
      rw [List.getD_eq_getElem?_getD, List.getElem?_eq_none, Option.getD_none]
      rw [a.length_limbs]
      omega
    rw [hNone, UInt64.zero_shiftLeft, UInt64.or_zero]
    rfl

/-- The loops fill the lowest places; the places above them are zero. -/
theorem checkedShiftLimbs_eq (a : FixedNat n) {words bits : Nat} (hWords : words ≤ n)
    (hBits : bits < 64) {shifted : List UInt64} (hShifted : shifted = if bits = 0 then
      a.limbs.drop words else Limbs.shiftDown bits.toUInt64 (a.limbs.drop words)) :
    a.checkedShiftLimbs words bits =
      .ok (shifted ++ List.replicate (n - shifted.length) 0) := by
  have hDrop : (a.limbs.drop words).length = n - words := by rw [List.length_drop, a.length_limbs]
  rw [checkedShiftLimbs, difference_eq_ok hWords, ok_bind, limbs_zero]
  split at hShifted <;> rename_i hWhole
  · subst hShifted
    rw [if_pos hWhole, ← hDrop]
    refine foldlM_fill (hDrop.trans_le (Nat.sub_le n words)) ?_
    intro i hi done rest hDone
    exact a.checkedMoveLimb_eq hi hDone 0 rest
  · subst hShifted
    have hLength : (Limbs.shiftDown bits.toUInt64 (a.limbs.drop words)).length = n - words :=
      (Limbs.length_shiftDown _ _).trans hDrop
    rw [if_neg hWhole, ← hLength]
    refine foldlM_fill (hLength.trans_le (Nat.sub_le n words)) ?_
    intro i hi done rest hDone
    exact a.checkedShiftLimb_eq hBits (Nat.pos_of_ne_zero hWhole) hi hDone 0 rest

/-- Zeros above a number do not change it. -/
theorem ofLimbs_append_replicate (xs : List UInt64) (count : Nat) :
    ofLimbs n (xs ++ List.replicate count 0) = ofLimbs n xs := by
  apply eq_of_toNat_eq
  rw [toNat_ofLimbs, toNat_ofLimbs, Limbs.toNat_append, Limbs.toNat_replicate_zero, Nat.mul_zero,
    Nat.add_zero]

/-- The shifts that the machine answers without a loop are those by nothing and by the width. -/
theorem checkedShiftRight_eq (a : FixedNat n) (s : Nat) :
    a.checkedShiftRight s = .ok (a.shiftRight s) := by
  have hValue := toNat_shiftRight a s
  rw [checkedShiftRight]
  split <;> rename_i hZero
  · rw [hZero, pow_zero, Nat.div_one] at hValue
    rw [hZero]
    exact congrArg Except.ok (eq_of_toNat_eq hValue.symm)
  split <;> rename_i hWide <;> rw [width] at hWide
  · have hSmall : a.toNat < 2 ^ s :=
      calc
        a.toNat < base ^ n := a.toNat_lt
        _ = 2 ^ (64 * n) := base_pow_eq n
        _ ≤ 2 ^ s := Nat.pow_le_pow_right (by decide) (by omega)
    rw [Nat.div_eq_of_lt hSmall] at hValue
    exact congrArg Except.ok (eq_of_toNat_eq (toNat_zero.trans hValue.symm))
  · rw [a.checkedShiftLimbs_eq (by omega) (Nat.mod_lt s (by decide)) rfl, ok_bind, pure_eq_ok,
      ofLimbs_append_replicate]
    rfl

end NybergRueppel.FixedNat
