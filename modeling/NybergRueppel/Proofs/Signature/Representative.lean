import NybergRueppel.Proofs.Checked.Bytes
import NybergRueppel.Proofs.Checked.Group
import NybergRueppel.Proofs.Signature.Hashed

/-!
The representative of a digest of any length. The order has any bit length up to the width, so that
the cut falls within a byte or between two, within a limb or between two; in every case no byte that
is read lies above the width, and what is left of the digest is reduced to a number that is either
zero or a scalar.
-/
namespace NybergRueppel.CurveGroup

open Checked

variable {n : Nat}

/-- The leftmost bits of a digest as a number, at most as many as the order has. -/
def checkedLeftmostBits (group : CurveGroup n) (digest : List UInt8) : Checked (FixedNat n) := do
  let bits := group.order.bits
  let bytes := (bits + 7) / 8
  if bits < digest.length * 8 then
    let extra ← difference (bytes * 8) bits
    (← FixedNat.checkedOfBytes n (← slice digest 0 bytes)).checkedShiftRight extra
  else FixedNat.checkedOfBytes n digest

theorem checkedLeftmostBits_eq (group : CurveGroup n) (digest : List UInt8) :
    group.checkedLeftmostBits digest = .ok (group.leftmostBits digest) := by
  rw [checkedLeftmostBits, leftmostBits]
  split <;> rename_i hLong
  · rw [difference_eq_ok (by omega), ok_bind, slice_zero (by omega), ok_bind,
      FixedNat.checkedOfBytes_eq, ok_bind, FixedNat.checkedShiftRight_eq]
  · exact FixedNat.checkedOfBytes_eq n digest

/-- The message representative of a digest. -/
def checkedRepresentative (group : CurveGroup n) (digest : List UInt8) :
    Checked (Except Failure BufferedInt) := do
  let m ← group.order.checkedReduce (← group.checkedLeftmostBits digest)
  if m.isZero then return .error .messageOutOfRange
  else return .ok (← BufferedInt.checkedOfFixed m)

theorem checkedRepresentative_eq (group : CurveGroup n) (digest : List UInt8) :
    group.checkedRepresentative digest = .ok (group.representative digest) := by
  rw [checkedRepresentative, checkedLeftmostBits_eq, ok_bind, GroupOrder.checkedReduce_eq, ok_bind,
    representative, BufferedInt.checkedOfFixed_eq]
  exact (apply_ite Except.ok _ _ _).symm

/-- A residue that is not zero is the scalar of the message that it gives. -/
theorem messageScalar_ofFixed {group : CurveGroup n} {v : FixedNat n} (hPos : 0 < v.toNat)
    (hLess : v.toNat < group.order.modulus.toNat) : group.messageScalar (.ofFixed v) = .ok v := by
  have hValue := BufferedInt.toInt_ofFixed v
  obtain ⟨k, hScalar, hNumber⟩ : ∃ k, group.scalar? (.ofFixed v) = some k ∧
      (k.toNat : Int) = (BufferedInt.ofFixed v).toInt :=
    scalar?_eq_some (by omega) (by omega)
  have hSame : k = v := FixedNat.eq_of_toNat_eq (by omega)
  rw [messageScalar, hScalar, hSame]

/-- A digest of any length is read without stopping and without dropping a byte. Its representative
is its leftmost bits as a number modulo the order, which is a message that can be signed, and there
is none just where this number is zero. -/
theorem representative_exact (group : CurveGroup n) (digest : List UInt8) :
    group.checkedRepresentative digest = .ok (group.representative digest) ∧
    ((group.leadingBytes digest).length ≤ 8 * n ∧
      (FixedNat.ofBytes n (group.leadingBytes digest)).toNat =
        bigEndian (group.leadingBytes digest) ∧
      (group.leftmostBits digest).toNat =
        bigEndian digest / 2 ^ (8 * digest.length - group.order.modulus.toNat.size)) ∧
    (group.truncatedDigest digest = 0 →
      group.representative digest = .error .messageOutOfRange) ∧
    (group.truncatedDigest digest ≠ 0 → ∃ v : FixedNat n,
      group.representative digest = .ok (.ofFixed v) ∧
      (BufferedInt.ofFixed v).toInt = group.truncatedDigest digest ∧
      group.messageScalar (.ofFixed v) = .ok v ∧
      group.checkedMessageScalar (.ofFixed v) = .ok (.ok v)) := by
  have hPlaces := group.length_leadingBytes_le digest
  have hLeftmost := group.toNat_leftmostBits digest
  rw [GroupOrder.bits_eq_size] at hLeftmost
  have hValue : (group.order.reduce (group.leftmostBits digest)).toNat =
      group.truncatedDigest digest := by
    rw [GroupOrder.toNat_reduce, hLeftmost, truncatedDigest]
  have hLess : group.truncatedDigest digest < group.order.modulus.toNat :=
    Nat.mod_lt _ group.order.modulus_pos
  refine ⟨group.checkedRepresentative_eq digest,
    ⟨hPlaces, FixedNat.toNat_ofBytes (bigEndian_lt_base_pow hPlaces), hLeftmost⟩, ?_, ?_⟩
  · intro hZero
    rw [representative, if_pos ((FixedNat.isZero_iff _).mpr (hValue.trans hZero))]
  · intro hNonzero
    have hScalar := messageScalar_ofFixed (hValue ▸ Nat.pos_of_ne_zero hNonzero) (hValue ▸ hLess)
    refine ⟨group.order.reduce (group.leftmostBits digest), ?_, ?_, hScalar, ?_⟩
    · rw [representative, if_neg fun hZero => hNonzero (hValue ▸ (FixedNat.isZero_iff _).mp hZero)]
    · rw [BufferedInt.toInt_ofFixed, hValue]
    · rw [checkedMessageScalar_eq (BufferedInt.isNormal_ofFixed _), hScalar]

/-- The order 23 has five bits. Those of the byte `0x40` are 8, and those of `0xb8` are the order
itself. -/
theorem representative_exact_toyGroup :
    (∃ v, toyGroup.representative [0x40] = .ok (.ofFixed v) ∧
      (BufferedInt.ofFixed v).toInt = 8 ∧ toyGroup.messageScalar (.ofFixed v) = .ok v) ∧
    toyGroup.representative [0xb8] = .error .messageOutOfRange := by
  have hEight : toyGroup.truncatedDigest [0x40] = 8 := by decide +kernel
  have hOrder : toyGroup.truncatedDigest [0xb8] = 0 := by decide +kernel
  obtain ⟨-, -, -, hAccepted⟩ := toyGroup.representative_exact [0x40]
  obtain ⟨-, -, hRefused, -⟩ := toyGroup.representative_exact [0xb8]
  rw [hEight] at hAccepted
  obtain ⟨v, hRepresentative, hValue, hScalar, -⟩ := hAccepted (by decide)
  exact ⟨⟨v, hRepresentative, hValue, hScalar⟩, hRefused hOrder⟩

end NybergRueppel.CurveGroup
