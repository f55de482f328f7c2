import Mathlib.GroupTheory.OrderOfElement
import NybergRueppel.Proofs.BufferedInt.Normal
import NybergRueppel.Proofs.Signature.Verify
import NybergRueppel.Signature.Sign

/-!
Signing agrees with verification. The components of a signature make verification recompute the
multiple of the base point by the nonce, so that every signature is accepted unless its second
component is zero, which verification refuses.
-/
namespace NybergRueppel

/-- A signature with room for numbers below the order stores them. -/
theorem Signature.store_eq {n : Nat} {order : GroupOrder n} {out : Signature}
    (hRoomC : order.words ≤ out.c.room) (hRoomD : order.words ≤ out.d.room) {c d : FixedNat n}
    (hc : c.toNat < order.modulus.toNat) (hd : d.toNat < order.modulus.toNat) :
    ∃ stored, out.store c d = (.ok (), stored) ∧ stored.c.IsStored c.toNat out.c.room ∧
      stored.d.IsStored d.toNat out.d.room := by
  have hFits {k room : Nat} (hk : k < order.modulus.toNat) (hRoom : order.words ≤ room) :
      k < Word.base ^ room :=
    (order.lt_base_pow_words hk).trans_le (Nat.pow_le_pow_right Word.base_pos hRoom)
  obtain ⟨storedC, hStoreC, hStoredC⟩ := BufferedInt.setUnsigned_eq_ok
    (order.one_le_words.trans hRoomC) (hFits hc hRoomC)
  obtain ⟨storedD, hStoreD, hStoredD⟩ := BufferedInt.setUnsigned_eq_ok
    (order.one_le_words.trans hRoomD) (hFits hd hRoomD)
  refine ⟨⟨storedC, storedD⟩, ?_, hStoredC, hStoredD⟩
  rw [store, hStoreC, hStoreD]

/-- Blank buffers have room for numbers below the order. -/
theorem Signature.room_blank {n : Nat} (group : CurveGroup n) :
    group.order.words ≤ (blank group).c.room ∧ group.order.words ≤ (blank group).d.room := by
  have hRoom : (BufferedInt.withRoom group.order.words).room = max 1 group.order.words :=
    List.length_replicate
  exact ⟨hRoom.ge.trans' (Nat.le_max_right _ _), hRoom.ge.trans' (Nat.le_max_right _ _)⟩

/-- What is stored without a failure stands in the rooms of the buffers. -/
theorem Signature.of_store_eq {n : Nat} {out stored : Signature} {c d : FixedNat n}
    (hRoomC : 1 ≤ out.c.room) (hRoomD : 1 ≤ out.d.room) (h : out.store c d = (.ok (), stored)) :
    stored.c.IsStored c.toNat out.c.room ∧ stored.d.IsStored d.toNat out.d.room := by
  rw [store] at h
  split at h
  · cases h
  · rename_i hStoredC
    split at h
    · cases h
    · rename_i hStoredD
      cases h
      exact ⟨BufferedInt.of_setUnsigned_eq hRoomC hStoredC,
        BufferedInt.of_setUnsigned_eq hRoomD hStoredD⟩

namespace CurveGroup

open Call

variable {n : Nat} {group : CurveGroup n}

/-- What signing returns for the outcome of its computation. -/
def finish (out : Signature) : Except Stop (FixedNat n × FixedNat n) → Except Stop Unit × Signature
  | .error stop => (.error stop, out)
  | .ok (c, d) => ((out.store c d).1.mapError .failure, (out.store c d).2)

theorem run_sign_of_ends {message key nonce : BufferedInt} {out : Signature} {m x k : FixedNat n}
    {ws ws' : Workspace n} {result : Except Stop (FixedNat n × FixedNat n)}
    (hInputs : group.signingInputs message key nonce out ws.scratch = .ok (m, x, k))
    (hEnds : Ends (group.signScalars m x k) ws result ws') :
    (group.sign message key nonce out).run ws = (finish out result, ws') := by
  have hRun : (group.signScalars m x k).run.run ws = (result, ws') := hEnds
  rw [sign, StateT.run_bind, StateT.run_get]
  simp only [pure_bind, hInputs]
  rw [StateT.run_bind, hRun]
  cases result with
  | error stop => rfl
  | ok components => rfl

theorem run_sign {message key nonce : BufferedInt} {out : Signature} {m x k : FixedNat n}
    {ws : Workspace n} {result : Except Stop (FixedNat n × FixedNat n)}
    (hInputs : group.signingInputs message key nonce out ws.scratch = .ok (m, x, k))
    (hGives : Gives (group.signScalars m x k) ws result) :
    ∃ ws', (group.sign message key nonce out).run ws = (finish out result, ws') := by
  obtain ⟨ws', hEnds⟩ := hGives
  exact ⟨ws', run_sign_of_ends hInputs hEnds⟩

theorem run_sign_of_error {message key nonce : BufferedInt} {out : Signature} {ws : Workspace n}
    {failure : Failure}
    (h : group.signingInputs message key nonce out ws.scratch = .error failure) :
    (group.sign message key nonce out).run ws = ((.error (.failure failure), out), ws) := by
  rw [sign, StateT.run_bind, StateT.run_get]
  simp only [pure_bind, h]
  rfl

/-- Signing that succeeds has stored two components. -/
theorem of_run_sign_eq_ok {message key nonce : BufferedInt} {out signature : Signature}
    {ws ws' : Workspace n}
    (h : (group.sign message key nonce out).run ws = ((.ok (), signature), ws')) :
    ∃ c d : FixedNat n, out.store c d = (.ok (), signature) := by
  cases hInputs : group.signingInputs message key nonce out ws.scratch with
  | error failure =>
      rw [run_sign_of_error hInputs] at h
      cases h
  | ok scalars =>
      obtain ⟨m, x, k⟩ := scalars
      obtain ⟨result, wsScalars, hScalars⟩ : ∃ result wsScalars,
          (group.signScalars m x k).Ends ws result wsScalars := ⟨_, _, rfl⟩
      obtain ⟨ws'', hRun⟩ := run_sign hInputs hScalars.gives
      rw [hRun, Prod.mk.injEq] at h
      replace h := h.1
      cases result with
      | error stop => cases h
      | ok components =>
          obtain ⟨c, d⟩ := components
          refine ⟨c, d, ?_⟩
          rw [finish, Prod.mk.injEq] at h
          cases hStored : out.store c d with
          | mk outcome stored =>
              rw [hStored] at h
              obtain ⟨hOutcome, rfl⟩ := h
              cases outcome with
              | error failure => cases hOutcome
              | ok u => rfl

/-- The components of a signature with the given multiple of the base point. -/
def componentsOf (group : CurveGroup n) (m x k : FixedNat n) (product : JacobianPoint n) :
    Except Stop (FixedNat n × FixedNat n) :=
  match group.curve.affine? product with
  | none => .error (.failure .degenerateSignature)
  | some (rx, _) =>
    let c := group.order.add (group.order.reduce (group.field.decodeBase rx)) m
    if c.isZero then .error (.failure .degenerateSignature)
    else .ok (c, group.order.sub k (group.order.mul x c))

/-- The components depend on the `x` coordinate of the product: with the message it makes the first
component, unless the sum vanishes. -/
theorem componentsOf_cases {m k : FixedNat n} (x : FixedNat n)
    (hm : m.toNat < group.order.modulus.toNat) (hk : k.toNat < group.order.modulus.toNat)
    (product : JacobianPoint n) :
    (group.curve.affine? product = none ∧
      group.componentsOf m x k product = .error (.failure .degenerateSignature)) ∨
    ∃ rx ry, group.curve.affine? product = some (rx, ry) ∧
      let sum := ((group.field.decodeBase rx).toNat % group.order.modulus.toNat + m.toNat) %
        group.order.modulus.toNat
      (sum = 0 ∧ group.componentsOf m x k product = .error (.failure .degenerateSignature)) ∨
      (sum ≠ 0 ∧ ∃ c d : FixedNat n, group.componentsOf m x k product = .ok (c, d) ∧
        c.toNat = sum ∧ d = group.order.sub k (group.order.mul x c) ∧
        c.toNat < group.order.modulus.toNat ∧ d.toNat < group.order.modulus.toNat) := by
  rw [componentsOf]
  cases hAffine : group.curve.affine? product with
  | none => exact .inl ⟨rfl, rfl⟩
  | some coordinates =>
      obtain ⟨rx, ry⟩ := coordinates
      refine .inr ⟨rx, ry, rfl, ?_⟩
      have hReduced := group.order.toNat_reduce (group.field.decodeBase rx)
      have hReducedLess : (group.order.reduce (group.field.decodeBase rx)).toNat <
          group.order.modulus.toNat := by
        rw [hReduced]
        exact Nat.mod_lt _ group.order.modulus_pos
      have hc := group.order.toNat_add hReducedLess hm
      rw [hReduced] at hc
      dsimp only
      split <;> rename_i hIsZero <;> rw [FixedNat.isZero_iff, hc] at hIsZero
      · exact .inl ⟨hIsZero, rfl⟩
      · refine .inr ⟨hIsZero, _, _, rfl, hc, rfl, ?_, ?_⟩
        · rw [hc]
          exact Nat.mod_lt _ group.order.modulus_pos
        · exact group.order.mont.subMod_lt hk (group.order.mul_lt _ _)

variable {ws : Workspace n}

theorem gives_signScalars (hReady : ws.IsReadyToSign) (m x k : FixedNat n) :
    Gives (group.signScalars m x k) ws
      (group.componentsOf m x k (group.multiple k group.generator)) := by
  let points : SlotRange := ⟨ws.pool.points.live, 1⟩
  let ws₁ := ws.withPointStack { ws.pool.points with live := ws.pool.points.live + 1 }
  have hCovers : ws₁.pool.points.Covers points := hReady.points
  let product := group.multiple k group.generator
  let ws₂ : Workspace n := { ws₁ with scratch := ws₁.scratch.wipe }
  let ws₃ := ws₂.withPointStack (ws₂.pool.points.write (points.start + 0) product)
  have hRead : ws₃.pool.points.get? points 0 = some product :=
    SlotStack.get?_write_self hCovers (Nat.succ_pos 0) product
  apply Gives.withPoints ws hReady.points
  apply (ends_mulPoint ws₁ k group.generator hReady.tables).bind_gives
  apply (ends_setPoint ws₂ hCovers (Nat.succ_pos 0) product).bind_gives
  apply (ends_point ws₃ hRead).bind_gives
  rw [componentsOf]
  cases group.curve.affine? product with
  | none => exact (ends_fail _).gives
  | some coordinates =>
      dsimp only
      split
      · exact (ends_fail _).gives
      · exact (ends_pure _).gives

theorem gives_signScalars_of_full (hFull : ws.pool.points.capacity < ws.pool.points.live + 1)
    (m x k : FixedNat n) :
    Gives (group.signScalars m x k) ws (.error (.failure .poolExhausted)) :=
  (ends_withPoints_of_full ws hFull).gives

/-- Signing succeeds only in a workspace and into buffers that are large enough. -/
theorem isReadyToSign_of_run_sign_eq_ok {message key nonce : BufferedInt}
    {out signature : Signature} {ws' : Workspace n}
    (h : (group.sign message key nonce out).run ws = ((.ok (), signature), ws')) :
    ws.IsReadyToSign ∧ group.order.words ≤ out.c.room ∧ group.order.words ≤ out.d.room := by
  cases hInputs : group.signingInputs message key nonce out ws.scratch with
  | error failure =>
      rw [run_sign_of_error hInputs] at h
      cases h
  | ok scalars =>
      obtain ⟨m, x, k⟩ := scalars
      by_cases hFull : ws.pool.points.capacity < ws.pool.points.live + 1
      · obtain ⟨ws'', hRun⟩ := run_sign hInputs (gives_signScalars_of_full hFull m x k)
        rw [hRun] at h
        cases h
      · obtain ⟨u, hCheck, -⟩ := exists_of_bind_eq_ok hInputs
        rw [checkSigning] at hCheck
        split at hCheck
        · cases hCheck
        · split at hCheck <;> rename_i hRooms
          · cases hCheck
          · split at hCheck <;> rename_i hTables
            · cases hCheck
            · exact ⟨⟨Nat.le_of_not_lt hTables, Nat.le_of_not_lt hFull⟩, by omega, by omega⟩

namespace OverPrimeField

variable (h : group.OverPrimeField)

/-- The first component that signing computes from the multiple of the base point. -/
def firstComponent (m : Nat) (P : h.Point) : Nat :=
  (h.xNumber P % group.order.modulus.toNat + m) % group.order.modulus.toNat

/-- The components are those of the equations: the first is the `x` coordinate and the message, the
second is what is missing to the nonce. The point at infinity and a first component of zero are
refused. -/
theorem componentsOf_cases {m x k : FixedNat n} (hm : m.toNat < group.order.modulus.toNat)
    (hk : k.toNat < group.order.modulus.toNat) {product : JacobianPoint n} {P : h.Point}
    (hProduct : h.Holds product P) :
    ((P = 0 ∨ h.firstComponent m.toNat P = 0) ∧
      group.componentsOf m x k product = .error (.failure .degenerateSignature)) ∨
    ((P ≠ 0 ∧ h.firstComponent m.toNat P ≠ 0) ∧
      ∃ c d : FixedNat n, group.componentsOf m x k product = .ok (c, d) ∧
        c.toNat = h.firstComponent m.toNat P ∧ d.toNat < group.order.modulus.toNat ∧
        (d.toNat : Int) = ((k.toNat : Int) - x.toNat * c.toNat) % group.order.modulus.toNat) := by
  rcases h.affine?_eq hProduct, group.componentsOf_cases x hm hk product with
    ⟨⟨hZero, hNone⟩ | ⟨hNe, rx, ry, hSome, hx⟩,
      ⟨hAffine, hComponents⟩ | ⟨rx', ry', hAffine, hCases⟩⟩
  · exact .inl ⟨.inl hZero, hComponents⟩
  · rw [hNone] at hAffine
    cases hAffine
  · rw [hSome] at hAffine
    cases hAffine
  · rw [hSome] at hAffine
    cases hAffine
    rw [hx] at hCases
    rcases hCases with ⟨hSum, hComponents⟩ | ⟨hSum, c, d, hComponents, hc, rfl, -, hd⟩
    · exact .inl ⟨.inr hSum, hComponents⟩
    · exact .inr ⟨⟨hNe, hSum⟩, c, _, hComponents, hc, hd, group.order.intCast_sub_mul x c hk⟩

/-- The signature holds the two components of the signing equations, for the message, the private
key and the nonce. -/
structure Signs (signature : Signature) (m x k : Nat) : Prop where
  isNegative_c : signature.c.isNegative = false
  isNegative_d : signature.d.isNegative = false
  magnitude_c : signature.c.magnitude = h.firstComponent m (k • h.basePoint)
  magnitude_c_ne_zero : signature.c.magnitude ≠ 0
  magnitude_d_lt : signature.d.magnitude < group.order.modulus.toNat
  equation : signature.d.magnitude + signature.c.magnitude * x ≡ k [MOD group.order.modulus.toNat]

section InRange

variable (hReady : ws.IsReadyToSign) {message key nonce : BufferedInt}
  (hMessage : 0 < message.toInt ∧ message.toInt < group.order.modulus.toNat)
  (hKey : 0 < key.toInt ∧ key.toInt < group.order.modulus.toNat)
  (hNonce : 0 < nonce.toInt ∧ nonce.toInt < group.order.modulus.toNat) {out : Signature}
  (hRoomC : group.order.words ≤ out.c.room) (hRoomD : group.order.words ≤ out.d.room)

include h hReady hMessage hKey hNonce hRoomC hRoomD

theorem exists_signingInputs :
    ∃ m x k, group.signingInputs message key nonce out ws.scratch = .ok (m, x, k) ∧
      (m.toNat : Int) = message.toInt ∧ (x.toNat : Int) = key.toInt ∧
      (k.toNat : Int) = nonce.toInt := by
  obtain ⟨x, hScalarX, hx⟩ := exists_privateScalar hKey.1 hKey.2
  obtain ⟨k, hScalarK, hk⟩ := exists_privateScalar hNonce.1 hNonce.2
  obtain ⟨m, hScalarM, hm⟩ := exists_messageScalar hMessage.1 hMessage.2
  have hTables : ¬ws.scratch.capacity < signTables := Nat.not_lt.mpr hReady.tables
  have hCheck : group.checkSigning out ws.scratch = .ok () := by
    rw [checkSigning, h.not_isExtension, if_neg Bool.false_ne_true,
      if_neg (not_or.mpr ⟨Nat.not_lt.mpr hRoomC, Nat.not_lt.mpr hRoomD⟩), if_neg hTables]
  refine ⟨m, x, k, ?_, hm, hx, hk⟩
  rw [signingInputs, hCheck, hScalarX, hScalarK, hScalarM]
  rfl

/-- Signing in the range of the scalars refuses only degenerate nonces, and otherwise the components
of the equations stand in the rooms of the buffers. -/
theorem run_sign_stores :
    ∃ result signature ws',
      (group.sign message key nonce out).run ws = ((result, signature), ws') ∧
      let P := nonce.toInt.toNat • h.basePoint
      let c := h.firstComponent message.toInt.toNat P
      ((P = 0 ∨ c = 0) ∧ result = .error (.failure .degenerateSignature)) ∨
      ((P ≠ 0 ∧ c ≠ 0) ∧ result = .ok () ∧ signature.c.IsStored c out.c.room ∧
        ∃ d : Nat, signature.d.IsStored d out.d.room ∧ d < group.order.modulus.toNat ∧
          (d : Int) = (nonce.toInt - key.toInt * c) % group.order.modulus.toNat) := by
  obtain ⟨m, x, k, hInputs, hm, hx, hk⟩ :=
    h.exists_signingInputs hReady hMessage hKey hNonce hRoomC hRoomD
  have hProduct := h.holds_multiple (k := k) (by omega) h.onCurve_generator
  obtain ⟨ws', hRun⟩ := run_sign hInputs (gives_signScalars hReady m x k)
  rw [← hm, ← hx, ← hk, Int.toNat_natCast, Int.toNat_natCast]
  rcases h.componentsOf_cases (m := m) (x := x) (k := k) (by omega) (by omega) hProduct with
    ⟨hDegenerate, hComponents⟩ | ⟨hRegular, c, d, hComponents, hc, hd, hEquation⟩
  · rw [hComponents] at hRun
    exact ⟨_, _, ws', hRun, .inl ⟨hDegenerate, rfl⟩⟩
  · have hLess : c.toNat < group.order.modulus.toNat := by
      rw [hc]
      exact Nat.mod_lt _ group.order.modulus_pos
    obtain ⟨stored, hStore, hStoredC, hStoredD⟩ := Signature.store_eq hRoomC hRoomD hLess hd
    rw [hComponents, finish, hStore] at hRun
    rw [hc] at hStoredC hEquation
    exact ⟨_, _, ws', hRun, .inr ⟨hRegular, rfl, hStoredC, d.toNat, hStoredD, hd, hEquation⟩⟩

theorem run_sign_cases :
    ∃ result signature ws',
      (group.sign message key nonce out).run ws = ((result, signature), ws') ∧
      let P := nonce.toInt.toNat • h.basePoint
      ((P = 0 ∨ h.firstComponent message.toInt.toNat P = 0) ∧
        result = .error (.failure .degenerateSignature)) ∨
      ((P ≠ 0 ∧ h.firstComponent message.toInt.toNat P ≠ 0) ∧ result = .ok () ∧
        h.Signs signature message.toInt.toNat key.toInt.toNat nonce.toInt.toNat) := by
  obtain ⟨result, signature, ws', hRun, hCases⟩ :=
    h.run_sign_stores hReady hMessage hKey hNonce hRoomC hRoomD
  refine ⟨result, signature, ws', hRun, hCases.imp_right ?_⟩
  rintro ⟨hRegular, hOk, hStoredC, d, hStoredD, hd, hEquation⟩
  refine ⟨hRegular, hOk, {
    isNegative_c := hStoredC.isNegative_eq
    isNegative_d := hStoredD.isNegative_eq
    magnitude_c := hStoredC.magnitude_eq
    magnitude_c_ne_zero := ?_
    magnitude_d_lt := ?_
    equation := ?_ }⟩
  · rw [hStoredC.magnitude_eq]
    exact hRegular.2
  · rw [hStoredD.magnitude_eq]
    exact hd
  · have hNumberK := Int.toNat_of_nonneg hNonce.1.le
    have hNumberX := Int.toNat_of_nonneg hKey.1.le
    rw [hStoredC.magnitude_eq, hStoredD.magnitude_eq, ← Int.natCast_modEq_iff, Nat.cast_add,
      Nat.cast_mul, hNumberK, hNumberX, hEquation, Int.ModEq, Int.emod_add_emod, Int.mul_comm,
      sub_add_cancel]

end InRange

/-- Signing that succeeds has stored the components of the equations. -/
theorem signs_of_run_sign_eq_ok {message key nonce : BufferedInt}
    (hMessage : 0 < message.toInt ∧ message.toInt < group.order.modulus.toNat)
    (hKey : 0 < key.toInt ∧ key.toInt < group.order.modulus.toNat)
    (hNonce : 0 < nonce.toInt ∧ nonce.toInt < group.order.modulus.toNat)
    {out signature : Signature} {ws' : Workspace n}
    (hSigned : (group.sign message key nonce out).run ws = ((.ok (), signature), ws')) :
    h.Signs signature message.toInt.toNat key.toInt.toNat nonce.toInt.toNat := by
  obtain ⟨hReady, hRoomC, hRoomD⟩ := isReadyToSign_of_run_sign_eq_ok hSigned
  obtain ⟨result, stored, ws'', hRun, hCases⟩ :=
    h.run_sign_cases hReady hMessage hKey hNonce hRoomC hRoomD
  rw [hSigned, Prod.mk.injEq, Prod.mk.injEq] at hRun
  obtain ⟨⟨rfl, rfl⟩, -⟩ := hRun
  rcases hCases with ⟨-, hError⟩ | ⟨-, -, hSigns⟩
  · cases hError
  · exact hSigns

/-- Below the exact order of the base point no multiple vanishes. -/
theorem nsmul_basePoint_ne_zero (hOrder : addOrderOf h.basePoint = group.order.modulus.toNat)
    {k : Nat} (hPos : 0 < k) (hLess : k < group.order.modulus.toNat) : k • h.basePoint ≠ 0 := by
  rw [ne_eq, ← addOrderOf_dvd_iff_nsmul_eq_zero, hOrder]
  exact Nat.not_dvd_of_pos_of_lt hPos hLess

/-- Verification recomputes the multiple of the base point by the nonce. -/
theorem recomputed_eq (hOrder : addOrderOf h.basePoint = group.order.modulus.toNat) {c d x k : Nat}
    (hEquation : d + c * x ≡ k [MOD group.order.modulus.toNat]) :
    h.recomputed c d (x • h.basePoint) = k • h.basePoint := by
  rw [recomputed, ← mul_nsmul', ← add_nsmul, nsmul_eq_nsmul_iff_modEq, hOrder]
  exact hEquation

theorem firstComponent_sub_emod {m : Nat} (hm : m < group.order.modulus.toNat) (P : h.Point) :
    ((h.firstComponent m P : Int) - (h.xNumber P % group.order.modulus.toNat : Nat)) %
      group.order.modulus.toNat = m := by
  rw [firstComponent, Int.natCast_emod, Int.emod_sub_emod, Nat.cast_add, add_sub_cancel_left,
    ← Int.natCast_emod, Nat.mod_eq_of_lt hm]

/-- A signature that satisfies the equations of signing is accepted, unless verification refuses its
second component for being zero. -/
theorem gives_verify_of_signs (hOrder : addOrderOf h.basePoint = group.order.modulus.toNat)
    (hReady : ws.IsReady) {message : BufferedInt}
    (hMessage : 0 < message.toInt ∧ message.toInt < group.order.modulus.toNat)
    {x k : Nat} (hx : 0 < x ∧ x < group.order.modulus.toNat)
    (hk : 0 < k ∧ k < group.order.modulus.toNat) {key : JacobianPoint n}
    (hKey : h.Holds key (x • h.basePoint)) {signature : Signature}
    (hSigns : h.Signs signature message.toInt.toNat x k) :
    Gives (group.verify message key signature) ws
      (.ok (if signature.d.toInt = 0 then .invalid else .valid)) := by
  have hPoint : h.point key = x • h.basePoint := hKey.represents.point_eq
  have hLess : signature.c.magnitude < group.order.modulus.toNat := by
    rw [hSigns.magnitude_c]
    exact Nat.mod_lt _ group.order.modulus_pos
  obtain ⟨m, hScalar, hm⟩ := exists_messageScalar hMessage.1 hMessage.2
  obtain ⟨verdict, hGives, hVerdict⟩ := h.gives_verify hReady hScalar hKey.represents.onCurve
    (checkSignature_eq_ok hKey.elementLength_eq hSigns.isNegative_c hSigns.isNegative_d)
  rw [hPoint] at hVerdict
  have hResult : verdict = if signature.d.toInt = 0 then .invalid else .valid := by
    rw [BufferedInt.toInt_eq_magnitude hSigns.isNegative_d]
    split <;> rename_i hdZero
    · have hNot : verdict ≠ .valid := by
        intro hValid
        have hPos := (hVerdict.mp hValid).2.1.1
        omega
      cases verdict with
      | valid => exact absurd rfl hNot
      | invalid => rfl
    · rw [hVerdict]
      refine ⟨⟨Nat.pos_of_ne_zero hSigns.magnitude_c_ne_zero, hLess⟩,
        ⟨by omega, hSigns.magnitude_d_lt⟩, h.nsmul_basePoint_ne_zero hOrder hx.1 hx.2, ?_⟩
      rw [Satisfies, h.recomputed_eq hOrder hSigns.equation]
      refine ⟨h.nsmul_basePoint_ne_zero hOrder hk.1 hk.2, ?_⟩
      have hNumber : message.toInt.toNat = m.toNat := by omega
      rw [hSigns.magnitude_c, hNumber]
      exact h.firstComponent_sub_emod (by omega) _
  rw [← hResult]
  exact hGives

/-- Signing refuses a nonce only if the first component would be zero, and otherwise its signature
is accepted under the public key, unless the second component is zero. -/
theorem sign_agrees_with_verify
    (hOrder : addOrderOf h.basePoint = group.order.modulus.toNat) (hReady : ws.IsReady)
    {message key nonce : BufferedInt}
    (hMessage : 0 < message.toInt ∧ message.toInt < group.order.modulus.toNat)
    (hKey : 0 < key.toInt ∧ key.toInt < group.order.modulus.toNat)
    (hNonce : 0 < nonce.toInt ∧ nonce.toInt < group.order.modulus.toNat) {out : Signature}
    (hRoomC : group.order.words ≤ out.c.room) (hRoomD : group.order.words ≤ out.d.room) :
    ∃ result signature ws', (group.sign message key nonce out).run ws = ((result, signature), ws') ∧
      (∀ stop, result = .error stop → stop = .failure .degenerateSignature) ∧
      (result = .error (.failure .degenerateSignature) ↔
        ((h.xNumber (nonce.toInt.toNat • h.basePoint) % group.order.modulus.toNat : Nat) +
          message.toInt) % group.order.modulus.toNat = 0) ∧
      (result = .ok () → ∀ wsKey wsVerify : Workspace n, wsKey.IsReady → wsVerify.IsReady →
        ∃ publicKey wsKey' wsVerify',
          (group.publicKey key).run.run wsKey = (.ok publicKey, wsKey') ∧
          (group.verify message publicKey signature).run.run wsVerify =
            (.ok (if signature.d.toInt = 0 then .invalid else .valid), wsVerify')) := by
  obtain ⟨result, signature, ws', hRun, hCases⟩ :=
    h.run_sign_cases hReady.toSign hMessage hKey hNonce hRoomC hRoomD
  have hNonceRange : 0 < nonce.toInt.toNat ∧ nonce.toInt.toNat < group.order.modulus.toNat := by
    omega
  have hKeyRange : 0 < key.toInt.toNat ∧ key.toInt.toNat < group.order.modulus.toNat := by
    omega
  have hNe := h.nsmul_basePoint_ne_zero hOrder hNonceRange.1 hNonceRange.2
  have hDegenerate :
      ((h.xNumber (nonce.toInt.toNat • h.basePoint) % group.order.modulus.toNat : Nat) +
        message.toInt) % group.order.modulus.toNat = 0 ↔
      h.firstComponent message.toInt.toNat (nonce.toInt.toNat • h.basePoint) = 0 := by
    rw [firstComponent, ← Int.toNat_of_nonneg hMessage.1.le, Int.toNat_natCast]
    norm_cast
  refine ⟨result, signature, ws', hRun, ?_⟩
  rw [hDegenerate]
  rcases hCases with ⟨hZero, rfl⟩ | ⟨⟨-, hNonzero⟩, rfl, hSigns⟩
  · refine ⟨?_, iff_of_true rfl (hZero.resolve_left hNe), ?_⟩
    · intro stop hStop
      exact (Except.error.inj hStop).symm
    · intro hOk
      cases hOk
  · refine ⟨?_, iff_of_false ?_ hNonzero, ?_⟩
    · intro stop hStop
      cases hStop
    · intro hError
      cases hError
    · intro _ wsKey wsVerify hReadyKey hReadyVerify
      obtain ⟨publicKey, hPublic, hEnds⟩ :=
        h.ends_publicKey wsKey hKey.1 hKey.2 (Nat.le_of_succ_le hReadyKey.tables)
      obtain ⟨wsVerify', hVerified⟩ := h.gives_verify_of_signs hOrder hReadyVerify hMessage
        hKeyRange hNonceRange hPublic hSigns
      exact ⟨publicKey, _, wsVerify', hEnds, hVerified⟩

end OverPrimeField

end CurveGroup

theorem addOrderOf_basePoint_toyGroup :
    addOrderOf overPrimeField_toyGroup.basePoint = toyGroup.order.modulus.toNat := by
  have : Fact (Nat.Prime 23) := ⟨by norm_num⟩
  have hMultiple := Curve.holds_mulPoint overPrimeField_toyGroup.isAccepted
    (overPrimeField_toyGroup.represents overPrimeField_toyGroup.onCurve_generator) (.ofWord 23) 5
    .blank
  have hInfinity : (toyGroup.curve.mulPoint (.ofWord 23) toyGroup.generator 5 .blank).1.isInfinity =
      true := by
    decide +kernel
  have hGenerator : toyGroup.generator.isInfinity = false := by decide +kernel
  have hZero :=
    (overPrimeField_toyGroup.point_eq_zero_iff hMultiple.represents.onCurve).mp hInfinity
  rw [show (FixedNat.ofWord 23 : FixedNat 1).toNat % 2 ^ (4 * ((5 + 3) / 4)) = 23 by
    decide +kernel] at hMultiple
  have hNonzero : overPrimeField_toyGroup.basePoint ≠ 0 := by
    intro hEq
    have hAt := (overPrimeField_toyGroup.point_eq_zero_iff
      overPrimeField_toyGroup.onCurve_generator).mpr hEq
    rw [hGenerator] at hAt
    cases hAt
  rw [show toyGroup.order.modulus.toNat = 23 by decide +kernel]
  exact addOrderOf_eq_prime (hMultiple.represents.point_eq.symm.trans hZero) hNonzero

theorem sign_toyGroup :
    ∃ signature ws' publicKey wsKey' wsVerify',
      (toyGroup.sign (.ofWord 1) (.ofWord 5) (.ofWord 2) (.blank toyGroup)).run toyWorkspace =
        ((.ok (), signature), ws') ∧
      (toyGroup.publicKey (.ofWord 5)).run.run toyWorkspace = (.ok publicKey, wsKey') ∧
      (toyGroup.verify (.ofWord 1) publicKey signature).run.run toyWorkspace =
        (.ok (if signature.d.toInt = 0 then .invalid else .valid), wsVerify') := by
  have hMessage : 0 < (BufferedInt.ofWord 1).toInt ∧
      (BufferedInt.ofWord 1).toInt < toyGroup.order.modulus.toNat := by
    decide +kernel
  have hKey : 0 < (BufferedInt.ofWord 5).toInt ∧
      (BufferedInt.ofWord 5).toInt < toyGroup.order.modulus.toNat := by
    decide +kernel
  have hNonce : 0 < (BufferedInt.ofWord 2).toInt ∧
      (BufferedInt.ofWord 2).toInt < toyGroup.order.modulus.toNat := by
    decide +kernel
  have hRoom : toyGroup.order.words ≤ (Signature.blank toyGroup).c.room := by decide +kernel
  have hRoom' : toyGroup.order.words ≤ (Signature.blank toyGroup).d.room := by decide +kernel
  obtain ⟨result, signature, ws', hRun, -, -, hVerified⟩ :=
    overPrimeField_toyGroup.sign_agrees_with_verify addOrderOf_basePoint_toyGroup
      isReady_toyWorkspace hMessage hKey hNonce hRoom hRoom'
  have hSigned : ((toyGroup.sign (.ofWord 1) (.ofWord 5) (.ofWord 2) (.blank toyGroup)).run
      toyWorkspace).1.1.toBool = true := by
    decide +kernel
  rw [hRun] at hSigned
  cases result with
  | error stop => cases hSigned
  | ok u =>
      obtain ⟨publicKey, wsKey', wsVerify', hPublic, hVerdict⟩ :=
        hVerified rfl toyWorkspace toyWorkspace isReady_toyWorkspace isReady_toyWorkspace
      exact ⟨signature, ws', publicKey, wsKey', wsVerify', hRun, hPublic, hVerdict⟩

end NybergRueppel
