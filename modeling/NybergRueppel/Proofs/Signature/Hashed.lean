import Mathlib.Data.Nat.Size
import NybergRueppel.Proofs.FixedNat.Bytes
import NybergRueppel.Proofs.FixedNat.Shift
import NybergRueppel.Proofs.Signature.Checks

/-!
Signatures on messages that are hashed. The representative of a message is its digest, cut to the
bit length of the order and reduced. Hashing stands between two rounds of the same checks, so that a
call with a message does in every state what the call with the representative does.
-/
namespace NybergRueppel

theorem GroupOrder.bits_eq_size {n : Nat} (order : GroupOrder n) :
    order.bits = order.modulus.toNat.size := by
  apply Nat.le_antisymm
  · exact (order.modulus.bitLength_le_iff _).mpr (Nat.lt_size_self _)
  · exact Nat.size_le.mpr order.modulus_lt

namespace CurveGroup

open Call

variable {n : Nat} {group : CurveGroup n}

/-- The leftmost bits of a digest, as many as the order has, as a number modulo the order. -/
def truncatedDigest (group : CurveGroup n) (digest : List UInt8) : Nat :=
  bigEndian digest / 2 ^ (8 * digest.length - group.order.modulus.toNat.size) %
    group.order.modulus.toNat

/-- The first bytes of a digest, as many as the order has; the last of them can have bits that the
order has not. -/
def leadingBytes (group : CurveGroup n) (digest : List UInt8) : List UInt8 :=
  digest.take ((group.order.bits + 7) / 8)

/-- The width has a place for each of them. -/
theorem length_leadingBytes_le (group : CurveGroup n) (digest : List UInt8) :
    (group.leadingBytes digest).length ≤ 8 * n := by
  have hTaken : (group.leadingBytes digest).length ≤ (group.order.bits + 7) / 8 :=
    List.length_take_le _ _
  have hBits := group.order.bits_le_width
  omega

/-- A short digest is taken as it is, and of a long one the bits that are too many in the last byte
are shifted out. -/
theorem leftmostBits_eq (group : CurveGroup n) (digest : List UInt8) :
    group.leftmostBits digest =
      if group.order.bits < digest.length * 8 then
        (FixedNat.ofBytes n (group.leadingBytes digest)).shiftRight
          ((group.order.bits + 7) / 8 * 8 - group.order.bits)
      else FixedNat.ofBytes n (group.leadingBytes digest) := by
  rw [leftmostBits, leadingBytes]
  split <;> rename_i hLong
  · rfl
  · rw [List.take_of_length_le (by omega)]

/-- Taking bytes first and shifting bits out afterwards cuts the digest at its leftmost bits. -/
theorem toNat_leftmostBits (group : CurveGroup n) (digest : List UInt8) :
    (group.leftmostBits digest).toNat =
      bigEndian digest / 2 ^ (8 * digest.length - group.order.bits) := by
  have hFits := bigEndian_lt_base_pow (group.length_leadingBytes_le digest)
  rw [leftmostBits_eq]
  split <;> rename_i hLong
  · rw [FixedNat.toNat_shiftRight, FixedNat.toNat_ofBytes hFits, leadingBytes, bigEndian_take,
      Nat.div_div_eq_div_mul, show 256 = 2 ^ 8 from rfl, ← pow_mul, ← pow_add]
    congr 2
    omega
  · rw [FixedNat.toNat_ofBytes hFits, leadingBytes, List.take_of_length_le (by omega),
      Nat.sub_eq_zero_of_le (by omega), pow_zero, Nat.div_one]

theorem digestNumber_eq (group : CurveGroup n) (digest : List UInt8) :
    group.digestNumber digest = group.truncatedDigest digest := by
  rw [digestNumber, truncatedDigest, toNat_leftmostBits, GroupOrder.bits_eq_size]

section Representative

variable {m key nonce : BufferedInt} {out : Signature} {digest : List UInt8}

/-- Only the number of a message counts, and not its room. -/
theorem messageScalar_eq_of_toInt_eq {m' : BufferedInt} (hm : m.IsNormal) (hm' : m'.IsNormal)
    (h : m'.toInt = m.toInt) : group.messageScalar m' = group.messageScalar m := by
  rw [messageScalar, messageScalar]
  by_cases hRange : 0 < m.toInt ∧ m.toInt < group.order.modulus.toNat
  · obtain ⟨k, hk, hValue⟩ := scalar?_eq_some hRange.1 hRange.2
    rw [← h] at hRange
    obtain ⟨k', hk', hValue'⟩ := scalar?_eq_some hRange.1 hRange.2
    have hEq : k' = k := FixedNat.eq_of_toNat_eq (by omega)
    rw [hk, hk', hEq]
  · rw [scalar?_eq_none hm hRange, scalar?_eq_none hm' (by rwa [h])]

/-- The representative of a digest is taken for the number of the digest, and where there is none,
the number is refused too. -/
theorem representative_cases (hm : m.IsNormal) (h : m.toInt = group.truncatedDigest digest) :
    (∃ m', group.representative digest = .ok m' ∧
      group.messageScalar m' = group.messageScalar m) ∨
    (group.representative digest = .error .messageOutOfRange ∧
      group.messageScalar m = .error .messageOutOfRange) := by
  rw [← digestNumber_eq] at h
  have hDigest : FailsLike (group.representative digest) _ := failsLike_representative digest
  have hNumber : FailsLike (group.messageScalar m) _ := failsLike_messageScalar hm
  rw [h] at hNumber
  cases hRepresentative : group.representative digest with
  | ok m' =>
      obtain ⟨hNormal, hValue⟩ := of_representative_eq hRepresentative
      exact .inl ⟨m', rfl, messageScalar_eq_of_toInt_eq hm hNormal (hValue.trans h.symm)⟩
  | error failure =>
      have hRefused := hDigest.eq_error hRepresentative
      obtain ⟨check, hCheck, rfl⟩ := exists_of_firstFailure_eq_error hRefused
      rw [List.mem_singleton] at hCheck
      subst hCheck
      exact .inr ⟨rfl, hNumber.step_eq_error hRefused⟩

/-- Signing repeats on the representative the checks that were made before the message was
hashed. -/
theorem representativeForSigning_cases {algorithm : HashAlgorithm} {text : List UInt8}
    (key nonce : BufferedInt) (out : Signature) (hm : m.IsNormal)
    (h : m.toInt = group.truncatedDigest (algorithm.digest text)) (scratch : Scratch n) :
    (∃ m', group.representativeForSigning algorithm text key nonce out scratch = .ok m' ∧
      group.signingInputs m' key nonce out scratch = group.signingInputs m key nonce out scratch) ∨
    (∃ failure,
      group.representativeForSigning algorithm text key nonce out scratch = .error failure ∧
      group.signingInputs m key nonce out scratch = .error failure) := by
  simp only [representativeForSigning, signingInputs]
  cases group.checkSigning out scratch with
  | error failure => exact .inr ⟨failure, rfl, rfl⟩
  | ok _ =>
      cases group.privateScalar key with
      | error failure => exact .inr ⟨failure, rfl, rfl⟩
      | ok x =>
          cases group.privateScalar nonce with
          | error failure => exact .inr ⟨failure, rfl, rfl⟩
          | ok k =>
              rcases representative_cases hm h with ⟨m', hNumber, hScalar⟩ | ⟨hNumber, hScalar⟩
              · exact .inl ⟨m', hNumber, by rw [hScalar]⟩
              · exact .inr ⟨.messageOutOfRange, hNumber, by rw [hScalar]; rfl⟩

theorem signMessage_eq_sign (algorithm : HashAlgorithm) (text : List UInt8)
    (key nonce : BufferedInt) (out : Signature) (hm : m.IsNormal)
    (h : m.toInt = group.truncatedDigest (algorithm.digest text)) :
    group.signMessage algorithm text key nonce out = group.sign m key nonce out := by
  funext ws
  change (group.signMessage algorithm text key nonce out).run ws =
    (group.sign m key nonce out).run ws
  rw [signMessage, StateT.run_bind, StateT.run_get, pure_bind]
  rcases representativeForSigning_cases key nonce out hm h ws.scratch with
    ⟨m', hNumber, hInputs⟩ | ⟨failure, hNumber, hInputs⟩
  · rw [hNumber]
    simp only [sign, StateT.run_bind, StateT.run_get, pure_bind, hInputs]
  · rw [hNumber, run_sign_of_error hInputs]
    rfl

/-- Verification, too, repeats on the representative the checks that were made before. -/
theorem representativeForVerifying_cases {algorithm : HashAlgorithm} {text : List UInt8}
    (key : JacobianPoint n) (signature : Signature) (hm : m.IsNormal)
    (h : m.toInt = group.truncatedDigest (algorithm.digest text)) (scratch : Scratch n) :
    (∃ m', group.representativeForVerifying algorithm text key signature scratch = .ok m' ∧
      group.verifyingInputs m' key signature scratch =
        group.verifyingInputs m key signature scratch) ∨
    (∃ failure,
      group.representativeForVerifying algorithm text key signature scratch = .error failure ∧
      group.verifyingInputs m key signature scratch = .error failure) := by
  simp only [representativeForVerifying, verifyingInputs]
  cases group.checkVerifying scratch with
  | error failure => exact .inr ⟨failure, rfl, rfl⟩
  | ok _ =>
      cases group.checkSignature key signature with
      | error failure => exact .inr ⟨failure, rfl, rfl⟩
      | ok _ =>
          rcases representative_cases hm h with ⟨m', hNumber, hScalar⟩ | ⟨hNumber, hScalar⟩
          · exact .inl ⟨m', hNumber, by rw [hScalar]⟩
          · exact .inr ⟨.messageOutOfRange, hNumber, by rw [hScalar]; rfl⟩

theorem verifyMessage_eq_verify (algorithm : HashAlgorithm) (text : List UInt8)
    (key : JacobianPoint n) (signature : Signature) (hm : m.IsNormal)
    (h : m.toInt = group.truncatedDigest (algorithm.digest text)) :
    group.verifyMessage algorithm text key signature = group.verify m key signature := by
  funext ws
  change (group.verifyMessage algorithm text key signature).run.run ws =
    (group.verify m key signature).run.run ws
  rw [verifyMessage_eq]
  rcases representativeForVerifying_cases key signature hm h ws.scratch with
    ⟨m', hNumber, hInputs⟩ | ⟨failure, hNumber, hInputs⟩
  · rw [run_of_inputs_eq_ok hNumber, verify_eq, verify_eq]
    cases hScalar : group.verifyingInputs m key signature ws.scratch with
    | error failure =>
        rw [run_of_inputs_eq_error hScalar, run_of_inputs_eq_error (hInputs.trans hScalar)]
    | ok k => rw [run_of_inputs_eq_ok hScalar, run_of_inputs_eq_ok (hInputs.trans hScalar)]
  · rw [run_of_inputs_eq_error hNumber, verify_eq, run_of_inputs_eq_error hInputs]

end Representative

/-- A call with a message that is hashed does in every workspace what the call with the truncated
digest as representative does: the outcome, the buffers and the workspace afterwards are the same,
also where the digest gives zero or several checks would refuse the call. -/
theorem hashed_calls_eq (group : CurveGroup n) (algorithm : HashAlgorithm) (text : List UInt8)
    {m : BufferedInt} (hm : m.IsNormal)
    (h : m.toInt = group.truncatedDigest (algorithm.digest text)) :
    (∀ (key nonce : BufferedInt) (out : Signature),
      group.signMessage algorithm text key nonce out = group.sign m key nonce out) ∧
    (∀ (key : JacobianPoint n) (signature : Signature),
      group.verifyMessage algorithm text key signature = group.verify m key signature) := by
  constructor
  · intro key nonce out
    exact signMessage_eq_sign algorithm text key nonce out hm h
  · intro key signature
    exact verifyMessage_eq_verify algorithm text key signature hm h

end CurveGroup

/-- The text `abc`. -/
def shortText : List UInt8 :=
  [0x61, 0x62, 0x63]

/-- The leftmost five bits of the SHA-256 digest of `abc` are the order 23 of the toy group, and
give zero; those of its SHA-512 digest give 4. -/
theorem hashed_calls_toyGroup :
    toyGroup.signMessage .sha256 shortText (.ofWord 5) (.ofWord 7) (.blank toyGroup) =
      toyGroup.sign (.ofWord 0) (.ofWord 5) (.ofWord 7) (.blank toyGroup) ∧
    toyGroup.verifyMessage .sha512 shortText toyGroup.generator toySignature =
      toyGroup.verify (.ofWord 4) toyGroup.generator toySignature := by
  have hZero : (BufferedInt.ofWord 0).toInt =
      toyGroup.truncatedDigest (HashAlgorithm.sha256.digest shortText) := by decide +kernel
  have hOther : (BufferedInt.ofWord 4).toInt =
      toyGroup.truncatedDigest (HashAlgorithm.sha512.digest shortText) := by decide +kernel
  obtain ⟨hSign, -⟩ :=
    toyGroup.hashed_calls_eq .sha256 shortText (BufferedInt.isNormal_ofWord 0) hZero
  obtain ⟨-, hVerify⟩ :=
    toyGroup.hashed_calls_eq .sha512 shortText (BufferedInt.isNormal_ofWord 4) hOther
  exact ⟨hSign _ _ _, hVerify _ _⟩

end NybergRueppel
