import NybergRueppel.Proofs.Signature.Sign

/-!
The equations of signing. Whatever the buffers held before, they hold the two components afterwards,
as integers that are normal, not negative and below the order.
-/
namespace NybergRueppel

namespace CurveGroup.OverPrimeField

variable {n : Nat} {group : CurveGroup n} (h : group.OverPrimeField) {ws : Workspace n}

/-- The first component over the integers. -/
theorem intCast_firstComponent {m : Int} (hm : 0 ≤ m) (P : h.Point) :
    (h.firstComponent m.toNat P : Int) =
      ((h.xNumber P % group.order.modulus.toNat : Nat) + m) % group.order.modulus.toNat := by
  rw [firstComponent, Int.natCast_emod, Nat.cast_add, Int.toNat_of_nonneg hm]

/-- Signing refuses a nonce exactly if its multiple `R` of the base point is at infinity or the
first component is zero. Otherwise it stores `c = (x(R) mod n + m) mod n` and `d = (k - x * c) mod n`
and keeps the rooms. -/
theorem sign_computes_equations (hReady : ws.IsReadyToSign) {message key nonce : BufferedInt}
    (hMessage : 0 < message.toInt ∧ message.toInt < group.order.modulus.toNat)
    (hKey : 0 < key.toInt ∧ key.toInt < group.order.modulus.toNat)
    (hNonce : 0 < nonce.toInt ∧ nonce.toInt < group.order.modulus.toNat) {out : Signature}
    (hRoomC : group.order.words ≤ out.c.room) (hRoomD : group.order.words ≤ out.d.room) :
    ∃ result signature ws',
      (group.sign message key nonce out).run ws = ((result, signature), ws') ∧
      let R := nonce.toInt.toNat • h.basePoint
      let order : Int := group.order.modulus.toNat
      let c : Int := ((h.xNumber R % group.order.modulus.toNat : Nat) + message.toInt) % order
      (result = .error (.failure .degenerateSignature) ↔ R = 0 ∨ c = 0) ∧
      (¬(R = 0 ∨ c = 0) → result = .ok () ∧
        (signature.c.IsNormal ∧ signature.c.isNegative = false ∧
          signature.c.room = out.c.room ∧ signature.c.toInt = c ∧ 0 < c ∧ c < order) ∧
        (signature.d.IsNormal ∧ signature.d.isNegative = false ∧
          signature.d.room = out.d.room ∧
          signature.d.toInt = (nonce.toInt - key.toInt * c) % order ∧
          0 ≤ signature.d.toInt ∧ signature.d.toInt < order)) := by
  obtain ⟨result, signature, ws', hRun, hCases⟩ :=
    h.run_sign_stores hReady hMessage hKey hNonce hRoomC hRoomD
  refine ⟨result, signature, ws', hRun, ?_⟩
  dsimp only at hCases ⊢
  rw [← h.intCast_firstComponent hMessage.1.le, Nat.cast_eq_zero]
  rcases hCases with ⟨hDegenerate, hResult⟩ |
    ⟨hRegular, hResult, hStoredC, d, hStoredD, hd, hEquation⟩
  · exact ⟨iff_of_true hResult hDegenerate, fun hNot => absurd hDegenerate hNot⟩
  · rw [hResult]
    refine ⟨iff_of_false (fun hEq => by cases hEq) (not_or.mpr hRegular), fun _ => ⟨rfl, ?_, ?_⟩⟩
    · refine ⟨hStoredC.isNormal, hStoredC.isNegative_eq, hStoredC.room_eq, hStoredC.toInt_eq, ?_,
        ?_⟩
      · exact Int.natCast_pos.mpr (Nat.pos_of_ne_zero hRegular.2)
      · exact Nat.cast_lt.mpr (Nat.mod_lt _ group.order.modulus_pos)
    · refine ⟨hStoredD.isNormal, hStoredD.isNegative_eq, hStoredD.room_eq, ?_, ?_, ?_⟩
      · rw [hStoredD.toInt_eq, hEquation]
      · rw [hStoredD.toInt_eq]
        exact Int.natCast_nonneg d
      · rw [hStoredD.toInt_eq]
        exact Nat.cast_lt.mpr hd

end CurveGroup.OverPrimeField

/-- Buffers of two words that hold a number of two words and a negative one. -/
def usedSignature : Signature :=
  { c := .ofLimbs [5, 6], d := (BufferedInt.ofLimbs [7, 8]).neg }

theorem sign_usedSignature :
    ∃ signature ws',
      (toyGroup.sign (.ofWord 1) (.ofWord 5) (.ofWord 2) usedSignature).run toyWorkspace =
        ((.ok (), signature), ws') ∧
      let c : Int := ((overPrimeField_toyGroup.xNumber (2 • overPrimeField_toyGroup.basePoint) %
        23 : Nat) + 1) % 23
      signature.c.toInt = c ∧ signature.d.toInt = (2 - 5 * c) % 23 ∧
        signature.c.room = 2 ∧ signature.d.room = 2 := by
  have hOrder : toyGroup.order.modulus.toNat = 23 := by decide +kernel
  have hMessage : (BufferedInt.ofWord 1).toInt = 1 := BufferedInt.toInt_ofWord 1
  have hKey : (BufferedInt.ofWord 5).toInt = 5 := BufferedInt.toInt_ofWord 5
  have hNonce : (BufferedInt.ofWord 2).toInt = 2 := BufferedInt.toInt_ofWord 2
  have hMessageRange : 0 < (BufferedInt.ofWord 1).toInt ∧
      (BufferedInt.ofWord 1).toInt < toyGroup.order.modulus.toNat := by
    omega
  have hKeyRange : 0 < (BufferedInt.ofWord 5).toInt ∧
      (BufferedInt.ofWord 5).toInt < toyGroup.order.modulus.toNat := by
    omega
  have hNonceRange : 0 < (BufferedInt.ofWord 2).toInt ∧
      (BufferedInt.ofWord 2).toInt < toyGroup.order.modulus.toNat := by
    omega
  have hRoom : toyGroup.order.words ≤ usedSignature.c.room := by decide +kernel
  have hRoom' : toyGroup.order.words ≤ usedSignature.d.room := by decide +kernel
  obtain ⟨result, signature, ws', hRun, hDegenerate, hRegular⟩ :=
    overPrimeField_toyGroup.sign_computes_equations isReady_toyWorkspace.toSign hMessageRange
      hKeyRange hNonceRange hRoom hRoom'
  have hSigned : ((toyGroup.sign (.ofWord 1) (.ofWord 5) (.ofWord 2) usedSignature).run
      toyWorkspace).1.1.toBool = true := by
    decide +kernel
  rw [hRun] at hSigned
  have hOk : ¬(result = .error (.failure .degenerateSignature)) := by
    intro hError
    rw [hError] at hSigned
    cases hSigned
  obtain ⟨hResult, ⟨-, -, hRoomC, hc, -⟩, -, -, hRoomD, hd, -⟩ :=
    hRegular (mt hDegenerate.mpr hOk)
  rw [hOrder, hMessage, hNonce] at hc
  rw [hOrder, hMessage, hNonce, hKey] at hd
  rw [hResult] at hRun
  exact ⟨signature, ws', hRun, hc, hd, hRoomC, hRoomD⟩

end NybergRueppel
