import Mathlib.Data.Int.ModEq
import NybergRueppel.Proofs.Group.Builtin
import NybergRueppel.Proofs.Signature.Sign

/-!
Changed signatures. Verification compares nothing but an `x` coordinate, which two opposite points
share, and which is reduced modulo the order. Relative to a signature it recomputes the multiple by
the nonce, shifted by what was added to the components; this decides which changes are noticed, and
for the built-in groups which flipped bits are.
-/
namespace NybergRueppel

/-- A number that is not negative and differs from another one in one bit of the magnitude. -/
structure BufferedInt.FlipsBit (flipped a : BufferedInt) (i : Nat) : Prop where
  isNegative_eq : flipped.isNegative = false
  magnitude_eq : flipped.magnitude = a.magnitude ^^^ 2 ^ i

theorem BufferedInt.FlipsBit.magnitude_ne {flipped a : BufferedInt} {i : Nat}
    (h : flipped.FlipsBit a i) : flipped.magnitude ≠ a.magnitude := by
  intro hEq
  have hBit := congrArg (a.magnitude ^^^ ·) (h.magnitude_eq.symm.trans hEq)
  simp only [← Nat.xor_assoc, Nat.xor_self, Nat.zero_xor] at hBit
  exact (Nat.two_pow_pos i).ne' hBit

namespace CurveGroup.OverPrimeField

open Call

variable {n : Nat} {group : CurveGroup n} (h : group.OverPrimeField) {ws : Workspace n}

/-- The points with one `x` coordinate are a point and its opposite. -/
theorem xNumber_eq_iff {P Q : h.Point} (hP : P ≠ 0) (hQ : Q ≠ 0) :
    h.xNumber P = h.xNumber Q ↔ P = Q ∨ P = -Q := by
  cases P with
  | zero => exact absurd rfl hP
  | some x y hPoint =>
      cases Q with
      | zero => exact absurd rfl hQ
      | some x' y' hPoint' =>
          rw [← WeierstrassCurve.Affine.Point.X_eq_iff]
          exact h.isPrimeField.toNat_inj

/-- The recomputed point is shifted by what is added to the components. -/
theorem recomputed_eq_add (c d c' d' : Nat) (Q : h.Point) :
    h.recomputed c' d' Q =
      h.recomputed c d Q + ((d' : Int) - d) • h.basePoint + ((c' : Int) - c) • Q := by
  simp only [recomputed, sub_zsmul, natCast_zsmul]
  abel

/-- The equation of a valid signature, relative to the first component that belongs to a point. -/
theorem satisfies_iff {m : Nat} (hm : m < group.order.modulus.toNat) (c' d' : Nat)
    (Q R : h.Point) :
    h.Satisfies m c' d' Q ↔ h.recomputed c' d' Q ≠ 0 ∧
      (h.xNumber (h.recomputed c' d' Q) : Int) ≡
        h.xNumber R + ((c' : Int) - h.firstComponent m R) [ZMOD group.order.modulus.toNat] := by
  let P := h.recomputed c' d' Q
  have hEquation : ((c' : Int) - (h.xNumber P % group.order.modulus.toNat : Nat)) %
      group.order.modulus.toNat = m ↔
        (c' : Int) - h.xNumber P ≡ m [ZMOD group.order.modulus.toNat] := by
    rw [Int.natCast_emod, Int.sub_emod_emod, Int.ModEq, ← Int.natCast_emod, Nat.mod_eq_of_lt hm]
  have hFirst : (h.firstComponent m R : Int) ≡ h.xNumber R + m [ZMOD group.order.modulus.toNat] := by
    rw [firstComponent, Int.natCast_emod, Nat.cast_add, Int.natCast_emod, Int.emod_add_emod]
    exact Int.mod_modEq _ _
  rw [Satisfies, hEquation, Int.modEq_iff_dvd, Int.modEq_iff_dvd]
  rw [Int.modEq_iff_dvd] at hFirst
  refine and_congr_right fun _ => ?_
  have hDifference : (m : Int) - (c' - h.xNumber P) =
      h.xNumber R + m - h.firstComponent m R -
        (h.xNumber R + (c' - h.firstComponent m R) - h.xNumber P) := by
    ring
  rw [hDifference]
  exact dvd_sub_right hFirst

/-- A multiple that a nonzero difference below the order shifts comes to an `x` coordinate of the
same residue in two ways: it is turned into its opposite, or the coordinates are different numbers
of one residue. -/
theorem xNumber_add_zsmul_modEq_iff (hOrder : addOrderOf h.basePoint = group.order.modulus.toNat)
    {k : Nat} (hk : 0 < k ∧ k < group.order.modulus.toNat) {shift : Int}
    (hShift : ¬(group.order.modulus.toNat : Int) ∣ shift) :
    let R := k • h.basePoint
    let P := R + shift • h.basePoint
    (P ≠ 0 ∧ (h.xNumber P : Int) ≡ h.xNumber R [ZMOD group.order.modulus.toNat]) ↔
      (group.order.modulus.toNat : Int) ∣ 2 * k + shift ∨
        (P ≠ 0 ∧ h.xNumber P ≠ h.xNumber R ∧
          (h.xNumber P : Int) ≡ h.xNumber R [ZMOD group.order.modulus.toNat]) := by
  intro R P
  have hR : R ≠ 0 := h.nsmul_basePoint_ne_zero hOrder hk.1 hk.2
  have hSame : P ≠ R := by
    rwa [ne_eq, add_eq_left, ← addOrderOf_dvd_iff_zsmul_eq_zero, hOrder]
  have hOpposite : P = -R ↔ (group.order.modulus.toNat : Int) ∣ 2 * k + shift := by
    rw [← hOrder, addOrderOf_dvd_iff_zsmul_eq_zero, add_zsmul, two_mul, add_zsmul, natCast_zsmul,
      eq_neg_iff_add_eq_zero, add_right_comm]
  rw [← hOpposite]
  constructor
  · rintro ⟨hP, hCongruent⟩
    by_cases hEqual : h.xNumber P = h.xNumber R
    · exact .inl (((h.xNumber_eq_iff hP hR).mp hEqual).resolve_left hSame)
    · exact .inr ⟨hP, hEqual, hCongruent⟩
  · rintro (hNeg | ⟨hP, -, hCongruent⟩)
    · have hP : P ≠ 0 := by
        rw [hNeg]
        exact neg_ne_zero.mpr hR
      rw [(h.xNumber_eq_iff hP hR).mpr (.inr hNeg)]
      exact ⟨hP, Int.ModEq.refl _⟩
    · exact ⟨hP, hCongruent⟩

section Change

variable (hOrder : addOrderOf h.basePoint = group.order.modulus.toNat) (hReady : ws.IsReady)
  {message : BufferedInt} (hMessage : 0 < message.toInt ∧ message.toInt < group.order.modulus.toNat)
  {x k : Nat} (hx : 0 < x ∧ x < group.order.modulus.toNat) {key : JacobianPoint n}
  (hKey : h.Holds key (x • h.basePoint)) {signature : Signature}
  (hSigns : h.Signs signature message.toInt.toNat x k)

include hOrder hReady hMessage hx hKey hSigns

/-- Verification of any components, relative to a signature of the message: the recomputed point is
the multiple by the nonce, shifted by the differences of the components. -/
theorem gives_verify_of_change (changed : Signature) (hc : changed.c.isNegative = false)
    (hd : changed.d.isNegative = false) :
    ∃ verdict, Gives (group.verify message key changed) ws (.ok verdict) ∧
      (verdict = .valid ↔ group.InOpenRange changed.c.magnitude ∧
        group.InOpenRange changed.d.magnitude ∧
        let R := k • h.basePoint
        let P := R + (changed.d.toInt - signature.d.toInt) • h.basePoint +
          (changed.c.toInt - signature.c.toInt) • x • h.basePoint
        P ≠ 0 ∧ (h.xNumber P : Int) ≡ h.xNumber R + (changed.c.toInt - signature.c.toInt)
          [ZMOD group.order.modulus.toNat]) := by
  obtain ⟨m, hScalar, hm⟩ := exists_messageScalar hMessage.1 hMessage.2
  obtain ⟨verdict, hGives, hVerdict⟩ := h.gives_verify hReady hScalar hKey.represents.onCurve
    (checkSignature_eq_ok hKey.elementLength_eq hc hd)
  refine ⟨verdict, hGives, hVerdict.trans ?_⟩
  have hPoint : h.point key = x • h.basePoint := hKey.represents.point_eq
  have hNumber : message.toInt.toNat = m.toNat := by omega
  have hShift := h.recomputed_eq_add signature.c.magnitude signature.d.magnitude
    changed.c.magnitude changed.d.magnitude (x • h.basePoint)
  rw [h.recomputed_eq hOrder hSigns.equation] at hShift
  rw [hPoint, and_iff_right (h.nsmul_basePoint_ne_zero hOrder hx.1 hx.2),
    h.satisfies_iff (m := m.toNat) (by omega) changed.c.magnitude changed.d.magnitude _
      (k • h.basePoint), hShift, BufferedInt.toInt_eq_magnitude hc,
    BufferedInt.toInt_eq_magnitude hd, BufferedInt.toInt_eq_magnitude hSigns.isNegative_c,
    BufferedInt.toInt_eq_magnitude hSigns.isNegative_d, hSigns.magnitude_c, hNumber]

/-- A changed second component shifts the point by a multiple of the base point. -/
theorem gives_verify_of_change_d (hk : 0 < k ∧ k < group.order.modulus.toNat)
    {d : BufferedInt} (hd : d.isNegative = false) (hNe : d.magnitude ≠ signature.d.magnitude) :
    ∃ verdict, Gives (group.verify message key { signature with d := d }) ws (.ok verdict) ∧
      (verdict = .valid ↔ (0 < d.toInt ∧ d.toInt < group.order.modulus.toNat) ∧
        let shift := d.toInt - signature.d.toInt
        let R := k • h.basePoint
        let P := R + shift • h.basePoint
        (group.order.modulus.toNat : Int) ∣ 2 * k + shift ∨
          (P ≠ 0 ∧ h.xNumber P ≠ h.xNumber R ∧
            (h.xNumber P : Int) ≡ h.xNumber R [ZMOD group.order.modulus.toNat])) := by
  obtain ⟨verdict, hGives, hVerdict⟩ := h.gives_verify_of_change hOrder hReady hMessage hx hKey
    hSigns { signature with d := d } hSigns.isNegative_c hd
  refine ⟨verdict, hGives, hVerdict.trans ?_⟩
  have hRangeC : group.InOpenRange signature.c.magnitude := by
    refine ⟨Nat.pos_of_ne_zero hSigns.magnitude_c_ne_zero, ?_⟩
    rw [hSigns.magnitude_c]
    exact Nat.mod_lt _ group.order.modulus_pos
  have hMagnitude := BufferedInt.toInt_eq_magnitude hd
  have hMagnitudeD := BufferedInt.toInt_eq_magnitude hSigns.isNegative_d
  have hLess := hSigns.magnitude_d_lt
  simp only [sub_self, zero_zsmul, add_zero, and_iff_right hRangeC]
  rw [InOpenRange, ← Int.natCast_pos, ← Int.ofNat_lt, ← hMagnitude]
  refine and_congr_right fun hRange => ?_
  apply h.xNumber_add_zsmul_modEq_iff hOrder hk
  -- Two numbers below the order differ by a multiple of it only if they are equal.
  intro hDvd
  have hZero := Int.eq_zero_of_abs_lt_dvd hDvd (abs_lt.mpr ⟨by omega, by omega⟩)
  omega

/-- A changed first component shifts the point by a multiple of the public key, and the `x`
coordinate that is expected by the same number. -/
theorem gives_verify_of_change_c {c : BufferedInt} (hc : c.isNegative = false) :
    ∃ verdict, Gives (group.verify message key { signature with c := c }) ws (.ok verdict) ∧
      (verdict = .valid ↔ (0 < c.toInt ∧ c.toInt < group.order.modulus.toNat) ∧
        0 < signature.d.toInt ∧
        let shift := c.toInt - signature.c.toInt
        let R := k • h.basePoint
        let P := R + shift • x • h.basePoint
        P ≠ 0 ∧ (h.xNumber P : Int) ≡ h.xNumber R + shift [ZMOD group.order.modulus.toNat]) := by
  obtain ⟨verdict, hGives, hVerdict⟩ := h.gives_verify_of_change hOrder hReady hMessage hx hKey
    hSigns { signature with c := c } hc hSigns.isNegative_d
  refine ⟨verdict, hGives, hVerdict.trans ?_⟩
  have hMagnitude := BufferedInt.toInt_eq_magnitude hc
  have hMagnitudeD := BufferedInt.toInt_eq_magnitude hSigns.isNegative_d
  simp only [sub_self, zero_zsmul, add_zero]
  rw [InOpenRange, InOpenRange, and_iff_left hSigns.magnitude_d_lt, ← Int.natCast_pos,
    ← Int.natCast_pos, ← Int.ofNat_lt, ← hMagnitude, ← hMagnitudeD]

end Change

end CurveGroup.OverPrimeField

/-- A pool of the usual size and two window tables, for numbers of four words. -/
def p256Workspace : Workspace 4 :=
  { pool := .empty, scratch := .withCapacity 2 }

theorem isReady_p256Workspace : p256Workspace.IsReady :=
  ⟨by decide, by decide, by decide⟩

/-- One lies in the range of the scalars. -/
theorem one_inRange_p256Group : 0 < (BufferedInt.ofWord 1).toInt ∧
    (BufferedInt.ofWord 1).toInt < p256Group.order.modulus.toNat := by
  rw [hasNumbers_p256Group.order_eq]
  decide +kernel

/-- With the private key one and the nonce one, the second component of the signature on the message
one is the opposite of the `x` coordinate of the base point. -/
theorem exists_sign_p256Group :
    ∃ signature ws', (p256Group.sign (.ofWord 1) (.ofWord 1) (.ofWord 1) (.blank p256Group)).run
        p256Workspace = ((.ok (), signature), ws') ∧
      signature.d.IsStored (CurveNumbers.p256.order - CurveNumbers.p256.x)
        (Signature.blank p256Group).d.room := by
  let h := isBuiltin_p256Group.overPrimeField
  have hOne : (BufferedInt.ofWord 1).toInt = 1 := BufferedInt.toInt_ofWord 1
  obtain ⟨hRoomC, hRoomD⟩ := Signature.room_blank p256Group
  obtain ⟨result, signature, ws', hRun, hCases⟩ :=
    h.run_sign_stores isReady_p256Workspace.toSign one_inRange_p256Group one_inRange_p256Group
      one_inRange_p256Group hRoomC hRoomD
  have hFirst : h.firstComponent 1 h.basePoint = CurveNumbers.p256.x + 1 := by
    rw [CurveGroup.OverPrimeField.firstComponent, hasNumbers_p256Group.xNumber_basePoint,
      hasNumbers_p256Group.order_eq]
    decide +kernel
  have hBase : h.basePoint ≠ 0 := by
    obtain ⟨hNonsingular, hPoint⟩ := hasNumbers_p256Group.basePoint_eq
    rw [hPoint]
    exact WeierstrassCurve.Affine.Point.some_ne_zero hNonsingular
  simp only [hOne, Int.toNat_one, one_nsmul, hFirst, hasNumbers_p256Group.order_eq] at hCases
  rcases hCases with ⟨hZero | hZero, -⟩ | ⟨-, hResult, -, d, hStored, -, hEquation⟩
  · exact absurd hZero hBase
  · exact absurd hZero (Nat.succ_ne_zero _)
  · have hValue : d = CurveNumbers.p256.order - CurveNumbers.p256.x := by
      have hNumber : (1 - 1 * ((CurveNumbers.p256.x + 1 : Nat) : Int)) % CurveNumbers.p256.order =
          (CurveNumbers.p256.order - CurveNumbers.p256.x : Nat) := by
        decide +kernel
      rw [hNumber] at hEquation
      exact Nat.cast_inj.mp hEquation
    rw [hResult] at hRun
    rw [hValue] at hStored
    exact ⟨signature, ws', hRun, hStored⟩

/-- In the built-in groups a signature with a flipped bit always gets a verdict. A flipped bit of the
second component is overlooked exactly if the component stays in range and the recomputed point has
an `x` coordinate of the same residue, as the opposite of the multiple by the nonce has; a flipped
bit of the first component is overlooked exactly if the `x` coordinate moves by the same number. -/
theorem CurveGroup.IsBuiltin.verdicts_on_flipped_bits {group : CurveGroup 4} (h : group.IsBuiltin)
    {message key nonce : BufferedInt}
    (hMessage : 0 < message.toInt ∧ message.toInt < group.order.modulus.toNat)
    (hKey : 0 < key.toInt ∧ key.toInt < group.order.modulus.toNat)
    (hNonce : 0 < nonce.toInt ∧ nonce.toInt < group.order.modulus.toNat)
    {out signature : Signature} {ws ws' wsKey wsVerify : Workspace 4}
    (hSigned : (group.sign message key nonce out).run ws = ((.ok (), signature), ws'))
    (hReadyKey : wsKey.IsReady) (hReadyVerify : wsVerify.IsReady) :
    ∃ publicKey wsKey', (group.publicKey key).run.run wsKey = (.ok publicKey, wsKey') ∧
      let order : Int := group.order.modulus.toNat
      let G := h.overPrimeField.basePoint
      let R := nonce.toInt • G
      let x := h.overPrimeField.xNumber
      (∀ c i, BufferedInt.FlipsBit c signature.c i → ∃ verdict wsVerify',
        (group.verify message publicKey { signature with c := c }).run.run wsVerify =
          (.ok verdict, wsVerify') ∧
        (verdict = .valid ↔ (0 < c.toInt ∧ c.toInt < order) ∧ 0 < signature.d.toInt ∧
          let shift := c.toInt - signature.c.toInt
          let P := R + shift • key.toInt • G
          P ≠ 0 ∧ (x P : Int) ≡ x R + shift [ZMOD order])) ∧
      (∀ d i, BufferedInt.FlipsBit d signature.d i → ∃ verdict wsVerify',
        (group.verify message publicKey { signature with d := d }).run.run wsVerify =
          (.ok verdict, wsVerify') ∧
        (verdict = .valid ↔ (0 < d.toInt ∧ d.toInt < order) ∧
          let shift := d.toInt - signature.d.toInt
          let P := R + shift • G
          order ∣ 2 * nonce.toInt + shift ∨
            (P ≠ 0 ∧ x P ≠ x R ∧ (x P : Int) ≡ x R [ZMOD order]))) := by
  let hOver := h.overPrimeField
  have hOrder := h.addOrderOf_basePoint
  have hSigns := hOver.signs_of_run_sign_eq_ok hMessage hKey hNonce hSigned
  obtain ⟨publicKey, hPublic, hEnds⟩ :=
    hOver.ends_publicKey wsKey hKey.1 hKey.2 (Nat.le_of_succ_le hReadyKey.tables)
  obtain ⟨x, hx⟩ := Int.eq_ofNat_of_zero_le hKey.1.le
  obtain ⟨k, hk⟩ := Int.eq_ofNat_of_zero_le hNonce.1.le
  rw [hx, Int.toNat_natCast] at hPublic
  rw [hx, hk, Int.toNat_natCast, Int.toNat_natCast] at hSigns
  rw [hx] at hKey
  rw [hk] at hNonce
  have hxRange : 0 < x ∧ x < group.order.modulus.toNat := by omega
  have hkRange : 0 < k ∧ k < group.order.modulus.toNat := by omega
  refine ⟨publicKey, _, hEnds, ?_⟩
  simp only [hx, hk, natCast_zsmul]
  constructor
  · intro c i hFlip
    obtain ⟨verdict, ⟨wsVerify', hVerified⟩, hVerdict⟩ := hOver.gives_verify_of_change_c hOrder
      hReadyVerify hMessage hxRange hPublic hSigns hFlip.isNegative_eq
    exact ⟨verdict, wsVerify', hVerified, hVerdict⟩
  · intro d i hFlip
    obtain ⟨verdict, ⟨wsVerify', hVerified⟩, hVerdict⟩ := hOver.gives_verify_of_change_d hOrder
      hReadyVerify hMessage hxRange hPublic hSigns hkRange hFlip.isNegative_eq hFlip.magnitude_ne
    exact ⟨verdict, wsVerify', hVerified, hVerdict⟩

/-- Flipping the lowest bit of that component makes the recomputed point vanish. -/
theorem verify_lowestBit_p256Group :
    ∃ signature ws' publicKey wsKey',
      (p256Group.sign (.ofWord 1) (.ofWord 1) (.ofWord 1) (.blank p256Group)).run p256Workspace =
        ((.ok (), signature), ws') ∧
      (p256Group.publicKey (.ofWord 1)).run.run p256Workspace = (.ok publicKey, wsKey') ∧
      ∀ d, BufferedInt.FlipsBit d signature.d 0 → ∃ wsVerify',
        (p256Group.verify (.ofWord 1) publicKey { signature with d := d }).run.run p256Workspace =
          (.ok .invalid, wsVerify') := by
  have hOne : (BufferedInt.ofWord 1).toInt = 1 := BufferedInt.toInt_ofWord 1
  obtain ⟨signature, ws', hSigned, hStored⟩ := exists_sign_p256Group
  obtain ⟨publicKey, wsKey', hPublic, -, hVerdicts⟩ :=
    isBuiltin_p256Group.verdicts_on_flipped_bits one_inRange_p256Group one_inRange_p256Group
      one_inRange_p256Group hSigned isReady_p256Workspace isReady_p256Workspace
  refine ⟨signature, ws', publicKey, wsKey', hSigned, hPublic, fun d hFlip => ?_⟩
  obtain ⟨verdict, wsVerify', hVerified, hVerdict⟩ := hVerdicts d 0 hFlip
  have hShift : d.toInt - signature.d.toInt = -1 := by
    have hMagnitude := hFlip.magnitude_eq
    rw [hStored.magnitude_eq] at hMagnitude
    rw [BufferedInt.toInt_eq_magnitude hFlip.isNegative_eq, hStored.toInt_eq, hMagnitude]
    decide +kernel
  have hNotValid : verdict ≠ .valid := by
    rw [ne_eq, hVerdict, hShift, hOne, hasNumbers_p256Group.order_eq, one_zsmul]
    rintro ⟨-, hDvd | ⟨hNonzero, -⟩⟩
    · exact absurd hDvd (by decide +kernel)
    · exact hNonzero (by rw [neg_one_zsmul, add_neg_cancel])
  cases verdict with
  | valid => exact absurd rfl hNotValid
  | invalid => exact ⟨wsVerify', hVerified⟩

/-- The second component of that signature with bit 1 flipped. -/
def flippedComponent : BufferedInt :=
  .ofLimbs [0xFF18917D23CA62B9, 0x45E37D2C792C6AE3, 0x0743191A9C5BBF0D, 0x94E82E0C1ED3BDB9]

/-- The flipped bit takes two from the component, so that the opposite of the multiple by the nonce
is recomputed and the change is overlooked. -/
theorem verify_flippedComponent :
    p256Group.IsBuiltin ∧ ∃ signature ws' publicKey wsKey' wsVerify',
      (p256Group.sign (.ofWord 1) (.ofWord 1) (.ofWord 1) (.blank p256Group)).run p256Workspace =
        ((.ok (), signature), ws') ∧
      (p256Group.publicKey (.ofWord 1)).run.run p256Workspace = (.ok publicKey, wsKey') ∧
      flippedComponent.FlipsBit signature.d 1 ∧
      (p256Group.verify (.ofWord 1) publicKey { signature with d := flippedComponent }).run.run
        p256Workspace = (.ok .valid, wsVerify') := by
  let h := isBuiltin_p256Group.overPrimeField
  have hOne : (BufferedInt.ofWord 1).toInt = 1 := BufferedInt.toInt_ofWord 1
  obtain ⟨signature, ws', hSigned, hStored⟩ := exists_sign_p256Group
  have hSigns := h.signs_of_run_sign_eq_ok one_inRange_p256Group one_inRange_p256Group
    one_inRange_p256Group hSigned
  obtain ⟨publicKey, hPublic, hEnds⟩ := h.ends_publicKey p256Workspace one_inRange_p256Group.1
    one_inRange_p256Group.2 (Nat.le_of_succ_le isReady_p256Workspace.tables)
  have hFlip : flippedComponent.FlipsBit signature.d 1 := by
    refine ⟨by decide +kernel, ?_⟩
    rw [hStored.magnitude_eq]
    decide +kernel
  have hRange := one_inRange_p256Group
  rw [hOne] at hSigns hPublic hRange
  have hRange' : 0 < 1 ∧ 1 < p256Group.order.modulus.toNat := by omega
  obtain ⟨verdict, ⟨wsVerify', hVerified⟩, hVerdict⟩ := h.gives_verify_of_change_d
    isBuiltin_p256Group.addOrderOf_basePoint isReady_p256Workspace one_inRange_p256Group hRange'
    hPublic hSigns hRange' hFlip.isNegative_eq hFlip.magnitude_ne
  have hValid : verdict = .valid := by
    have hShift : flippedComponent.toInt - signature.d.toInt = -2 := by
      rw [hStored.toInt_eq]
      decide +kernel
    rw [hVerdict, hShift, hasNumbers_p256Group.order_eq]
    exact ⟨by decide +kernel, .inl (dvd_zero _)⟩
  rw [hValid] at hVerified
  exact ⟨isBuiltin_p256Group, signature, ws', publicKey, _, wsVerify', hSigned, hEnds, hFlip,
    hVerified⟩

end NybergRueppel
