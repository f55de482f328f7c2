import NybergRueppel.Proofs.BufferedInt.Bytes
import NybergRueppel.Proofs.Checked.Numerals
import NybergRueppel.Proofs.Checked.Origin

/-!
Bytes written and read on the checking machine. The limbs are written from the highest down, and
what is written for a buffered number is cut off in front of the first byte that is not zero, which
may lie within the highest limb. Readers and writers are inverse to each other, up to the zeros that
the shortest encoding does not keep.
-/
namespace NybergRueppel

open Checked

/-- Writes every limb, the highest of them first. -/
def FixedNat.checkedToBytes {n : Nat} (a : FixedNat n) : Checked (List UInt8) := do
  let limbs ← (List.range n).reverse.mapM (read a.limbs)
  return limbs.flatMap Word.toBytes

theorem FixedNat.checkedToBytes_eq {n : Nat} (a : FixedNat n) :
    a.checkedToBytes = .ok a.toBytes := by
  rw [checkedToBytes, mapM_read_range a.length_limbs.ge, ok_bind,
    List.take_of_length_le a.length_limbs.le, ← Limbs.toBytes_eq_flatMap]
  rfl

/-- A cut in front of the first byte that is not zero takes off the zeros in front. Of zeros alone
the last one is left. -/
theorem slice_eq_withoutLeadingZeros {bytes : List UInt8} (hBytes : bytes ≠ []) :
    slice bytes ((bytes.findIdx? (· != 0)).getD (bytes.length - 1)) bytes.length =
      .ok (withoutLeadingZeros bytes) := by
  cases hFirst : bytes.findIdx? (· != 0) with
  | none =>
      have hZero : ∀ b ∈ bytes, b = 0 := by simpa using List.findIdx?_eq_none_iff.mp hFirst
      have hRest : bytes.dropWhile (· == 0) = [] :=
        List.dropWhile_eq_nil_iff.mpr fun b hb => beq_iff_eq.mpr (hZero b hb)
      have hPos : 1 ≤ bytes.length := List.length_pos_iff.mpr hBytes
      have hLast : bytes.drop (bytes.length - 1) = [0] := by
        rw [List.eq_replicate_of_mem hZero, List.drop_replicate, List.length_replicate,
          Nat.sub_sub_self hPos, List.replicate_one]
      rw [Option.getD_none, slice_length (Nat.sub_le _ _), hLast, withoutLeadingZeros, hRest]
  | some i =>
      obtain ⟨hPlace, hIndex⟩ := List.findIdx?_eq_some_iff_findIdx_eq.mp hFirst
      have hRest : bytes.dropWhile (· == 0) = bytes.drop i := by
        rw [List.dropWhile_eq_drop_findIdx_not, ← hIndex]
        rfl
      rw [Option.getD_some, slice_length hPlace.le, withoutLeadingZeros, hRest,
        List.drop_eq_getElem_cons hPlace]

namespace BufferedInt

/-- Writes the significant words, the highest of them first, and cuts off the zeros in front. -/
def checkedToBytes (a : BufferedInt) : Checked (List UInt8) := do
  let bytes := (← a.checkedLimbs).reverse.flatMap Word.toBytes
  -- The last place is computed in any case, also where a byte before it is not zero.
  let last ← difference bytes.length 1
  slice bytes ((bytes.findIdx? (· != 0)).getD last) bytes.length

theorem checkedToBytes_eq {a : BufferedInt} (h : a.IsNormal) :
    a.checkedToBytes = .ok a.toBytes := by
  have hLength : (Limbs.toBytes a.limbs).length = 8 * a.size := by
    rw [Limbs.length_toBytes, length_limbs h.size_le_room]
  have hPos : 1 ≤ (Limbs.toBytes a.limbs).length := by
    have := h.one_le_size
    omega
  rw [checkedToBytes, checkedLimbs_eq h.size_le_room, ok_bind, ← Limbs.toBytes_eq_flatMap]
  dsimp only
  rw [difference_eq_ok hPos, ok_bind, slice_eq_withoutLeadingZeros (List.length_pos_iff.mp hPos),
    toBytes_eq]

end BufferedInt

/-- Bytes of any length are read as their number, by the one reader modulo its width and by the
other into the words that they fill. Fixed-width integers are written with all their bytes and read
back; of a buffered number the shortest encoding of the absolute value is written, which is read
back as the absolute value. What is read and written again loses the zeros in front. No reader and
no writer stops. -/
theorem byte_codecs_exact (n : Nat) :
    (∀ bytes : List UInt8,
      (FixedNat.checkedOfBytes n bytes = .ok (FixedNat.ofBytes n bytes) ∧
        (FixedNat.ofBytes n bytes).toNat = bigEndian bytes % 2 ^ (64 * n)) ∧
      (BufferedInt.checkedOfBytes bytes = .ok (BufferedInt.ofBytes bytes) ∧
        (BufferedInt.ofBytes bytes).toInt = bigEndian bytes ∧
        (BufferedInt.ofBytes bytes).room = max 1 ((bytes.length + 7) / 8)) ∧
      (BufferedInt.ofBytes bytes).checkedToBytes = .ok (BufferedInt.ofBytes bytes).toBytes ∧
      (BufferedInt.ofBytes bytes).toBytes = withoutLeadingZeros bytes) ∧
    (∀ a : FixedNat n, a.checkedToBytes = .ok a.toBytes ∧ a.toBytes.length = 8 * n ∧
      bigEndian a.toBytes = a.toNat ∧ FixedNat.ofBytes n a.toBytes = a) ∧
    ∀ a : BufferedInt, a.IsNormal →
      a.checkedToBytes = .ok a.toBytes ∧ IsShortestEncoding a.toBytes a.toInt.natAbs ∧
      (BufferedInt.ofBytes a.toBytes).toInt = a.toInt.natAbs ∧
      ∀ b : BufferedInt, b.IsNormal → b.toInt = a.toInt.natAbs →
        (BufferedInt.ofBytes a.toBytes).sameNumber b = true := by
  refine ⟨fun bytes => ⟨⟨FixedNat.checkedOfBytes_eq n bytes, ?_⟩,
    ⟨BufferedInt.checkedOfBytes_eq bytes, BufferedInt.toInt_ofBytes bytes,
      BufferedInt.room_ofBytes bytes⟩,
    BufferedInt.checkedToBytes_eq (BufferedInt.isNormal_ofBytes bytes),
    BufferedInt.toBytes_ofBytes bytes⟩,
    fun a => ⟨a.checkedToBytes_eq, a.length_toBytes, a.bigEndian_toBytes, a.ofBytes_toBytes⟩,
    fun a h => ⟨BufferedInt.checkedToBytes_eq h, ?_, a.toInt_ofBytes_toBytes,
      fun b hb hValue => ?_⟩⟩
  · rw [FixedNat.toNat_ofBytes_eq_mod, Word.base_pow_eq]
  · rw [a.natAbs_toInt]
    exact a.isShortestEncoding_toBytes
  · rw [(BufferedInt.isNormal_ofBytes _).sameNumber_iff hb, a.toInt_ofBytes_toBytes, hValue]

/-- The ten bytes begin with a zero and are longer than a word, so that the reader of one limb drops
the byte that the other keeps. The number `-258` has six zero bytes above its two. -/
theorem byte_codecs_exact_across_words :
    let bytes : List UInt8 := [0, 9, 8, 7, 6, 5, 4, 3, 2, 1]
    let a := BufferedInt.ofSignedLimbs .minus [258, 0]
    (FixedNat.ofBytes 1 bytes).toNat = 0x0807060504030201 ∧
    (BufferedInt.ofBytes bytes).toInt = 0x090807060504030201 ∧
    (BufferedInt.ofBytes bytes).toBytes = [9, 8, 7, 6, 5, 4, 3, 2, 1] ∧
    a.checkedToBytes = .ok [1, 2] ∧
    (BufferedInt.ofBytes [1, 2]).sameNumber (BufferedInt.ofWord 258) = true := by
  intro bytes a
  have ha : a.IsNormal := BufferedInt.isNormal_ofSignedLimbs .minus [258, 0]
  have hWritten : a.toBytes = [1, 2] := by decide
  obtain ⟨hRead, -, hNumbers⟩ := byte_codecs_exact 1
  obtain ⟨⟨-, hFixed⟩, ⟨-, hBuffered, -⟩, -, hAgain⟩ := hRead bytes
  obtain ⟨hRun, -, -, hSame⟩ := hNumbers a ha
  rw [hWritten] at hRun hSame
  exact ⟨hFixed.trans (by decide), hBuffered.trans (by decide), hAgain.trans (by decide), hRun,
    hSame _ (BufferedInt.isNormal_ofWord 258) (by decide)⟩

end NybergRueppel
