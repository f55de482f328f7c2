import NybergRueppel.Proofs.Group.Multiples
import NybergRueppel.Signature.Verify

/-!
Verification accepts exactly the signatures that satisfy the equation. Numbers of any width and keys
anywhere on the curve give a verdict and never a failure.
-/
namespace NybergRueppel

namespace CurveGroup

open Call

variable {n : Nat} {group : CurveGroup n}

/-- The number lies strictly between zero and the order. -/
def InOpenRange (group : CurveGroup n) (k : Nat) : Prop :=
  0 < k ∧ k < group.order.modulus.toNat

theorem components?_of_inOpenRange {signature : Signature}
    (hc : group.InOpenRange signature.c.magnitude) (hd : group.InOpenRange signature.d.magnitude) :
    ∃ c d, group.components? signature = some (c, d) := by
  have hWidth := group.order.modulus.toNat_lt
  obtain ⟨c, hFixedC, hValueC⟩ := BufferedInt.exists_toFixed? (hc.2.trans hWidth)
  obtain ⟨d, hFixedD, hValueD⟩ := BufferedInt.exists_toFixed? (hd.2.trans hWidth)
  have hRangeC : group.order.inOpenRange c = true := by
    rw [GroupOrder.inOpenRange_iff, hValueC]
    exact hc
  have hRangeD : group.order.inOpenRange d = true := by
    rw [GroupOrder.inOpenRange_iff, hValueD]
    exact hd
  refine ⟨c, d, ?_⟩
  rw [components?, hFixedC, hFixedD]
  simp only [hRangeC, hRangeD, Bool.and_self, if_true]

theorem inOpenRange_of_components?_eq {signature : Signature} {c d : FixedNat n}
    (h : group.components? signature = some (c, d)) :
    (signature.c.magnitude = c.toNat ∧ group.InOpenRange c.toNat) ∧
      signature.d.magnitude = d.toNat ∧ group.InOpenRange d.toNat := by
  rw [components?] at h
  split at h
  · rename_i c' d' hFixedC hFixedD
    split at h <;> rename_i hRange
    · cases h
      rw [Bool.and_eq_true, GroupOrder.inOpenRange_iff, GroupOrder.inOpenRange_iff] at hRange
      exact ⟨⟨(BufferedInt.toFixed?_eq_some_iff _ _).mp hFixedC, hRange.1⟩,
        (BufferedInt.toFixed?_eq_some_iff _ _).mp hFixedD, hRange.2⟩
    · cases h
  · cases h

theorem checkSignature_eq_ok {key : JacobianPoint n}
    (hLength : key.elementLength = group.elementLength) {signature : Signature}
    (hc : signature.c.isNegative = false) (hd : signature.d.isNegative = false) :
    group.checkSignature key signature = .ok () := by
  rw [checkSignature, if_neg (not_not.mpr hLength), hc, hd, Bool.or_self,
    if_neg Bool.false_ne_true]

/-- What verification does with the components once the checks have passed. -/
def verifyComponents (group : CurveGroup n) (m : FixedNat n) (key : JacobianPoint n) :
    Option (FixedNat n × FixedNat n) → Call n Verdict
  | none => return .invalid
  | some (c, d) => if key.isInfinity then return .invalid else group.verifyScalars m c d key

/-- The verdict on a recomputed point. -/
def verdictOf (group : CurveGroup n) (m c : FixedNat n) (sum : JacobianPoint n) : Verdict :=
  match group.curve.affine? sum with
  | none => .invalid
  | some (px, _) =>
    if group.order.sub c (group.order.reduce (group.field.decodeBase px)) = m then .valid
    else .invalid

variable {ws : Workspace n}

/-- The slots hold the components until they are compared, and the point between. -/
theorem gives_verifyScalars (hReady : ws.IsReady) (m c d : FixedNat n) (key : JacobianPoint n) :
    Gives (group.verifyScalars m c d key) ws
      (.ok (group.verdictOf m c (group.combination d c key))) := by
  -- The workspaces between the steps, each with one slot lent or written more than the last.
  let elements : SlotRange := ⟨ws.pool.elements.live, 3⟩
  let ws₁ := ws.withElementStack { ws.pool.elements with live := ws.pool.elements.live + 3 }
  have hCovers₁ : ws₁.pool.elements.Covers elements := hReady.elements
  let ws₂ := ws₁.withElementStack (ws₁.pool.elements.write (elements.start + 0) d)
  have hCovers₂ : ws₂.pool.elements.Covers elements := hCovers₁.write _ d
  let ws₃ := ws₂.withElementStack (ws₂.pool.elements.write (elements.start + 1) c)
  have hCovers₃ : ws₃.pool.elements.Covers elements := hCovers₂.write _ c
  have hReadD : ws₃.pool.elements.get? elements 0 = some d :=
    (SlotStack.get?_write_of_ne (by decide) c).trans
      (SlotStack.get?_write_self hCovers₁ (Nat.succ_pos 2) d)
  have hReadC : ws₃.pool.elements.get? elements 1 = some c :=
    SlotStack.get?_write_self hCovers₂ (Nat.one_lt_succ_succ 1) c
  let points : SlotRange := ⟨ws.pool.points.live, 1⟩
  let ws₄ := ws₃.withPointStack { ws.pool.points with live := ws.pool.points.live + 1 }
  have hCovers₄ : ws₄.pool.points.Covers points := hReady.points
  let sum := group.combination d c key
  let ws₅ : Workspace n := { ws₄ with scratch := ws₄.scratch.wipe }
  let ws₆ := ws₅.withPointStack (ws₅.pool.points.write (points.start + 0) sum)
  have hReadSum : ws₆.pool.points.get? points 0 = some sum :=
    SlotStack.get?_write_self hCovers₄ (Nat.succ_pos 0) sum
  apply Gives.withElements ws hReady.elements
  apply (ends_setElement ws₁ hCovers₁ (Nat.succ_pos 2) d).bind_gives
  apply (ends_setElement ws₂ hCovers₂ (Nat.one_lt_succ_succ 1) c).bind_gives
  apply Gives.withPoints ws₃ hReady.points
  apply (ends_element ws₄ hReadD).bind_gives
  apply (ends_element ws₄ hReadC).bind_gives
  apply (ends_mulBaseAndPoint ws₄ d c key hReady.tables).bind_gives
  apply (ends_setPoint ws₅ hCovers₄ (Nat.succ_pos 0) sum).bind_gives
  apply (ends_point ws₆ hReadSum).bind_gives
  rw [verdictOf]
  cases group.curve.affine? sum with
  | none => exact (ends_pure _).gives
  | some coordinates =>
      apply (ends_element ws₆ hReadC).bind_gives
      apply (ends_setElement ws₆ hCovers₃ (Nat.lt_succ_self 2) _).bind_gives
      apply (ends_element _ (SlotStack.get?_write_self hCovers₃ (Nat.lt_succ_self 2) _)).bind_gives
      exact (ends_pure _).gives

/-- The components cannot be compared without the slots, whatever they are. -/
theorem gives_verifyScalars_of_full
    (hFull : ws.pool.elements.capacity < ws.pool.elements.live + 3 ∨
      ws.pool.points.capacity < ws.pool.points.live + 1) (m c d : FixedNat n)
    (key : JacobianPoint n) :
    Gives (group.verifyScalars m c d key) ws (.error (.failure .poolExhausted)) := by
  by_cases hElements : ws.pool.elements.capacity < ws.pool.elements.live + 3
  · exact (ends_withElements_of_full ws hElements).gives
  · let elements : SlotRange := ⟨ws.pool.elements.live, 3⟩
    let ws₁ := ws.withElementStack { ws.pool.elements with live := ws.pool.elements.live + 3 }
    have hCovers₁ : ws₁.pool.elements.Covers elements := Nat.le_of_not_lt hElements
    let ws₂ := ws₁.withElementStack (ws₁.pool.elements.write (elements.start + 0) d)
    have hCovers₂ : ws₂.pool.elements.Covers elements := hCovers₁.write _ d
    let ws₃ := ws₂.withElementStack (ws₂.pool.elements.write (elements.start + 1) c)
    apply Gives.withElements ws (Nat.le_of_not_lt hElements)
    apply (ends_setElement ws₁ hCovers₁ (Nat.succ_pos 2) d).bind_gives
    apply (ends_setElement ws₂ hCovers₂ (Nat.one_lt_succ_succ 1) c).bind_gives
    exact (ends_withPoints_of_full ws₃ (hFull.resolve_left hElements)).gives

namespace OverPrimeField

variable (h : group.OverPrimeField)

/-- The point that verification recomputes. -/
noncomputable def recomputed (c d : Nat) (Q : h.Point) : h.Point :=
  d • h.basePoint + c • Q

/-- The equation of a valid signature, over the integers modulo the order. -/
def Satisfies (m : Int) (c d : Nat) (Q : h.Point) : Prop :=
  h.recomputed c d Q ≠ 0 ∧
    ((c : Int) - (h.xNumber (h.recomputed c d Q) % group.order.modulus.toNat : Nat)) %
      group.order.modulus.toNat = m

theorem verdictOf_eq_valid_iff {m c : FixedNat n} (hc : c.toNat < group.order.modulus.toNat)
    {d : Nat} {Q : h.Point} {sum : JacobianPoint n}
    (hSum : h.Holds sum (h.recomputed c.toNat d Q)) :
    group.verdictOf m c sum = .valid ↔ h.Satisfies m.toNat c.toNat d Q := by
  rw [verdictOf, Satisfies]
  rcases h.affine?_eq hSum with ⟨hZero, hAffine⟩ | ⟨hNe, x, y, hAffine, hx⟩
  · rw [hAffine]
    simp [hZero]
  · have hReduced : (group.order.reduce (group.field.decodeBase x)).toNat <
        group.order.modulus.toNat := by
      rw [GroupOrder.toNat_reduce]
      exact Nat.mod_lt _ group.order.modulus_pos
    rw [hAffine, and_iff_right hNe, ← hx, ← GroupOrder.toNat_reduce,
      ← GroupOrder.intCast_sub _ hc hReduced, Nat.cast_inj, FixedNat.toNat_inj]
    dsimp only
    split <;> rename_i hEq <;> simp [hEq]

include h in
theorem checkVerifying_eq_ok (hReady : ws.IsReady) :
    group.checkVerifying ws.scratch = .ok () := by
  rw [checkVerifying, h.not_isExtension, if_neg Bool.false_ne_true,
    if_neg (Nat.not_lt.mpr hReady.tables)]

theorem point_eq_zero_iff {p : JacobianPoint n} (hp : group.curve.OnCurve p) :
    p.isInfinity = true ↔ h.point p = 0 := by
  rw [JacobianPoint.isInfinity, h.isPrimeField.realization.isZero_iff hp.isElement_z]
  rcases hp.point_eq h.isPrimeField.realization h.isAccepted with
    ⟨hZero, hPoint⟩ | ⟨hNe, hNonsingular, hPoint⟩
  · exact iff_of_true hZero hPoint
  · refine iff_of_false hNe fun hEq => ?_
    exact WeierstrassCurve.Affine.Point.some_ne_zero hNonsingular (hPoint.symm.trans hEq)

include h in
/-- The checks come first; what is left depends on the components. -/
theorem gives_verify_of_rest (hReady : ws.IsReady) {message : BufferedInt} {m : FixedNat n}
    (hMessage : group.messageScalar message = .ok m) {key : JacobianPoint n} {signature : Signature}
    (hCheck : group.checkSignature key signature = .ok ()) {verdict : Verdict}
    (hRest : Gives (group.verifyComponents m key (group.components? signature)) ws (.ok verdict)) :
    Gives (group.verify message key signature) ws (.ok verdict) := by
  rw [verify, hCheck, hMessage]
  apply (ends_get ws).bind_gives
  rw [h.checkVerifying_eq_ok hReady]
  apply (ends_ofExcept_ok ()).bind_gives
  apply (ends_ofExcept_ok ()).bind_gives
  apply (ends_ofExcept_ok m).bind_gives
  exact hRest

/-- What a verification gives once the message is a scalar and the checks have passed. -/
theorem gives_verify (hReady : ws.IsReady) {message : BufferedInt} {m : FixedNat n}
    (hMessage : group.messageScalar message = .ok m) {key : JacobianPoint n}
    (hKey : group.curve.OnCurve key) {signature : Signature}
    (hCheck : group.checkSignature key signature = .ok ()) :
    ∃ verdict, Gives (group.verify message key signature) ws (.ok verdict) ∧
      (verdict = .valid ↔ group.InOpenRange signature.c.magnitude ∧
        group.InOpenRange signature.d.magnitude ∧ h.point key ≠ 0 ∧
        h.Satisfies m.toNat signature.c.magnitude signature.d.magnitude (h.point key)) := by
  have hStart (verdict : Verdict) :
      Gives (group.verifyComponents m key (group.components? signature)) ws (.ok verdict) →
        Gives (group.verify message key signature) ws (.ok verdict) :=
    h.gives_verify_of_rest hReady hMessage hCheck
  cases hComponents : group.components? signature with
  | none =>
      rw [hComponents] at hStart
      refine ⟨.invalid, hStart _ (ends_pure _).gives, ?_⟩
      refine iff_of_false (fun hEq => by cases hEq) ?_
      rintro ⟨hc, hd, -⟩
      obtain ⟨c, d, hSome⟩ := components?_of_inOpenRange hc hd
      rw [hComponents] at hSome
      cases hSome
  | some components =>
      obtain ⟨c, d⟩ := components
      obtain ⟨⟨hc, hRangeC⟩, hd, hRangeD⟩ := inOpenRange_of_components?_eq hComponents
      rw [hComponents, verifyComponents] at hStart
      rw [hc, hd, and_iff_right hRangeC, and_iff_right hRangeD]
      by_cases hInfinity : key.isInfinity = true
      · rw [if_pos hInfinity] at hStart
        refine ⟨.invalid, hStart _ (ends_pure _).gives, ?_⟩
        refine iff_of_false (fun hEq => by cases hEq) fun hAll => ?_
        exact hAll.1 ((h.point_eq_zero_iff hKey).mp hInfinity)
      · rw [if_neg hInfinity] at hStart
        refine ⟨_, hStart _ (gives_verifyScalars hReady m c d key), ?_⟩
        rw [and_iff_right (mt (h.point_eq_zero_iff hKey).mpr hInfinity)]
        exact h.verdictOf_eq_valid_iff hRangeC.2 (h.holds_combination hRangeD.2 hRangeC.2 hKey)

/-- Verification never fails on components that are not negative, and it accepts exactly if they lie
between zero and the order, the key and the recomputed point are not at infinity, and the first
component less the `x` coordinate of the point is the message, modulo the order. -/
theorem verify_eq_valid_iff (hReady : ws.IsReady) {message : BufferedInt}
    (hPos : 0 < message.toInt) (hLess : message.toInt < group.order.modulus.toNat)
    {key : JacobianPoint n} (hKey : group.curve.OnCurve key)
    (hLength : key.elementLength = group.elementLength) {signature : Signature}
    (hc : signature.c.isNegative = false) (hd : signature.d.isNegative = false) :
    ∃ verdict ws', (group.verify message key signature).run.run ws = (.ok verdict, ws') ∧
      (verdict = .valid ↔
        (0 < signature.c.toInt ∧ signature.c.toInt < group.order.modulus.toNat) ∧
        (0 < signature.d.toInt ∧ signature.d.toInt < group.order.modulus.toNat) ∧
        h.point key ≠ 0 ∧
        let P := signature.d.toInt.toNat • h.basePoint + signature.c.toInt.toNat • h.point key
        P ≠ 0 ∧
        (signature.c.toInt - (h.xNumber P % group.order.modulus.toNat : Nat)) %
          group.order.modulus.toNat = message.toInt) := by
  obtain ⟨m, hMessage, hm⟩ := exists_messageScalar hPos hLess
  obtain ⟨verdict, ⟨ws', hEnds⟩, hVerdict⟩ :=
    h.gives_verify hReady hMessage hKey (checkSignature_eq_ok hLength hc hd)
  have hMagnitudeC := BufferedInt.toInt_eq_magnitude hc
  have hMagnitudeD := BufferedInt.toInt_eq_magnitude hd
  refine ⟨verdict, ws', hEnds, hVerdict.trans ?_⟩
  rw [hMagnitudeC, hMagnitudeD, Int.toNat_natCast, Int.toNat_natCast, ← hm]
  simp only [InOpenRange, Satisfies, recomputed, Int.natCast_pos, Nat.cast_lt]

end OverPrimeField

end CurveGroup

theorem isSome_toyGroup :
    (CurveGroup.ofBasePoint "toy" toyCurve 0 (toyField.ofWord 11) (.ofWord 23)).toOption.isSome =
      true := by
  decide +kernel

/-- The group of the point `(0, 11)` on the toy curve. -/
def toyGroup : CurveGroup 1 :=
  (CurveGroup.ofBasePoint "toy" toyCurve 0 (toyField.ofWord 11) (.ofWord 23)).toOption.get
    isSome_toyGroup

/-- A pool of the usual size and two window tables. -/
def toyWorkspace : Workspace 1 :=
  { pool := .empty, scratch := .withCapacity 2 }

theorem overPrimeField_toyGroup : toyGroup.OverPrimeField :=
  CurveGroup.overPrimeField_of_ofBasePoint
    ⟨⟨.ofWord 31, eq_ok_get_toOption isSome_toyField⟩, prime_toyField⟩ isAccepted_toyCurve
    CoordinateField.isElement_zero
    (CoordinateField.isElement_ofWord isConstructed_toyField.isBuilt 11)
    (eq_ok_get_toOption isSome_toyGroup)

theorem isReady_toyWorkspace : toyWorkspace.IsReady :=
  ⟨by decide, by decide, by decide⟩

/-- A signature on the message 1 under the base point as public key. -/
def toySignature : Signature :=
  { c := .ofWord 19, d := .ofWord 6 }

theorem verify_toySignature :
    let P := 6 • overPrimeField_toyGroup.basePoint +
      19 • overPrimeField_toyGroup.point toyGroup.generator
    P ≠ 0 ∧ (19 - (overPrimeField_toyGroup.xNumber P % 23 : Nat) : Int) % 23 = 1 := by
  have hOrder : toyGroup.order.modulus.toNat = 23 := by decide +kernel
  have hMessage : (BufferedInt.ofWord 1).toInt = 1 := by decide +kernel
  have hc : toySignature.c.toInt = 19 := by decide +kernel
  have hd : toySignature.d.toInt = 6 := by decide +kernel
  have hPos : 0 < (BufferedInt.ofWord 1).toInt := by decide +kernel
  have hLess : (BufferedInt.ofWord 1).toInt < toyGroup.order.modulus.toNat := by decide +kernel
  have hPlusC : toySignature.c.isNegative = false := by decide +kernel
  have hPlusD : toySignature.d.isNegative = false := by decide +kernel
  obtain ⟨verdict, ws', hRun, hVerdict⟩ := overPrimeField_toyGroup.verify_eq_valid_iff
    isReady_toyWorkspace hPos hLess overPrimeField_toyGroup.onCurve_generator (by decide +kernel)
    hPlusC hPlusD
  have hAccepted : ((toyGroup.verify (.ofWord 1) toyGroup.generator toySignature).run.run
      toyWorkspace).1.toOption.map Verdict.isValid = some true := by
    decide +kernel
  rw [hRun] at hAccepted
  have hValid : verdict = .valid := of_decide_eq_true (Option.some.inj hAccepted)
  obtain ⟨-, -, -, hEquation⟩ := hVerdict.mp hValid
  rw [hOrder, hMessage, hc, hd] at hEquation
  exact hEquation

end NybergRueppel
