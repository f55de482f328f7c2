import NybergRueppel.Proofs.Signature.Sign

/-!
The order of the checks. However many conditions of a call are violated at once, the failure that it
reports is that of the first one in a fixed order, also where a message is hashed between two
checks; and signing that fails leaves the buffers of the signature as they were.
-/
namespace NybergRueppel

/-- A condition under which a call is refused, and the failure that reports it. -/
structure Check where
  refuses : Bool
  failure : Failure

/-- Makes checks one after the other; the first that refuses ends them. -/
def firstFailure : List Check → Except Failure Unit
  | [] => .ok ()
  | check :: checks => if check.refuses then .error check.failure else firstFailure checks

theorem firstFailure_append (checks checks' : List Check) :
    firstFailure (checks ++ checks') = (firstFailure checks >>= fun _ => firstFailure checks') := by
  induction checks with
  | nil => rfl
  | cons check checks ih =>
      rw [List.cons_append, firstFailure, firstFailure, ih]
      split <;> rfl

theorem firstFailure_eq_ok_iff (checks : List Check) :
    firstFailure checks = .ok () ↔ ∀ check ∈ checks, check.refuses = false := by
  induction checks with
  | nil => simp [firstFailure]
  | cons check checks ih =>
      rw [firstFailure, List.forall_mem_cons, ← ih]
      cases check.refuses <;> simp

theorem exists_of_firstFailure_eq_error {checks : List Check} {failure : Failure}
    (h : firstFailure checks = .error failure) : ∃ check ∈ checks, check.failure = failure := by
  induction checks with
  | nil => cases h
  | cons check checks ih =>
      rw [firstFailure] at h
      split at h
      · cases h
        exact ⟨check, List.mem_cons_self, rfl⟩
      · obtain ⟨found, hFound, hFailure⟩ := ih h
        exact ⟨found, List.mem_cons_of_mem check hFound, hFailure⟩

/-- A step fails where checks do, and with their failure. -/
def FailsLike {α : Type} (step : Except Failure α) (checks : List Check) : Prop :=
  step.map (fun _ => ()) = firstFailure checks

namespace FailsLike

variable {α β : Type} {step : Except Failure α} {checks checks' : List Check}

theorem of_eq {step : Except Failure Unit} (h : step = firstFailure checks) :
    FailsLike step checks := by
  rw [FailsLike, h]
  cases firstFailure checks <;> rfl

/-- The checks of a sequence are those of its parts. -/
theorem bind (h : FailsLike step checks) {next : α → Except Failure β}
    (hNext : ∀ a, step = .ok a → FailsLike (next a) checks') :
    FailsLike (step >>= next) (checks ++ checks') := by
  rw [FailsLike] at h
  rw [FailsLike, firstFailure_append, ← h]
  cases step with
  | error failure => rfl
  | ok a => exact hNext a rfl

theorem eq_ok {a : α} (h : FailsLike step checks) (hStep : step = .ok a) :
    firstFailure checks = .ok () := by
  rw [← h, hStep]
  rfl

theorem eq_error {failure : Failure} (h : FailsLike step checks) (hStep : step = .error failure) :
    firstFailure checks = .error failure := by
  rw [← h, hStep]
  rfl

theorem step_eq_error {failure : Failure} (h : FailsLike step checks)
    (hChecks : firstFailure checks = .error failure) : step = .error failure := by
  rw [← h] at hChecks
  cases step with
  | error failure' =>
      cases hChecks
      rfl
  | ok a => cases hChecks

/-- One check for every element of a list: what fails is the first element that the step fails
for. -/
theorem mapM {ε : Type} {toFailure : ε → Failure} {each : α → Except ε β} {check : α → Check}
    (h : ∀ a, FailsLike ((each a).mapError toFailure) [check a]) (as : List α) :
    FailsLike ((as.mapM each).mapError toFailure) (as.map check) := by
  induction as with
  | nil => rfl
  | cons a as ih =>
      have hSteps : ((a :: as).mapM each).mapError toFailure = (do
          let b ← (each a).mapError toFailure
          let bs ← (as.mapM each).mapError toFailure
          return b :: bs) := by
        rw [List.mapM_cons]
        cases each a <;> cases as.mapM each <;> rfl
      rw [hSteps, List.map_cons]
      refine (h a).bind fun b _ => ?_
      rw [← List.append_nil (as.map check)]
      exact ih.bind fun _ _ => rfl

end FailsLike

namespace CurveGroup

open Call

variable {n : Nat} {group : CurveGroup n}

/-- The number lies strictly between zero and the order. -/
def isScalar (group : CurveGroup n) (v : Int) : Bool :=
  decide (0 < v ∧ v < group.order.modulus.toNat)

/-- The nonce gives no signature: its multiple of the base point is at infinity, or the `x`
coordinate and the message cancel. -/
def isDegenerate (group : CurveGroup n) (message : Int) (nonce : BufferedInt) : Bool :=
  match group.curve.affine? (group.multiple (.ofLimbs n nonce.limbs) group.generator) with
  | none => true
  | some (rx, _) =>
    (((group.field.decodeBase rx).toNat : Int) + message) % group.order.modulus.toNat == 0

/-- The checks that signing makes before it multiplies. -/
def signInputChecks (group : CurveGroup n) (scratch : Scratch n) (message : Int)
    (key nonce : BufferedInt) (out : Signature) : List Check := [
  ⟨group.isExtension, .unsupportedMode⟩,
  ⟨decide (out.c.room < group.order.words ∨ out.d.room < group.order.words), .bufferTooSmall⟩,
  ⟨decide (scratch.capacity < signTables), .bufferTooSmall⟩,
  ⟨!group.isScalar key.toInt, .invalidPrivateKey⟩,
  ⟨!group.isScalar nonce.toInt, .invalidPrivateKey⟩,
  ⟨!group.isScalar message, .messageOutOfRange⟩]

/-- The checks of signing in their order. -/
def signChecks (group : CurveGroup n) (ws : Workspace n) (message : Int) (key nonce : BufferedInt)
    (out : Signature) : List Check :=
  group.signInputChecks ws.scratch message key nonce out ++ [
  ⟨decide (ws.pool.points.capacity < ws.pool.points.live + 1), .poolExhausted⟩,
  ⟨group.isDegenerate message nonce, .degenerateSignature⟩]

/-- Verification answers without computing: a component is not between zero and the order, or the
public key is at infinity. -/
def answersAtOnce (group : CurveGroup n) (key : JacobianPoint n) (signature : Signature) : Bool :=
  !(group.isScalar signature.c.toInt && group.isScalar signature.d.toInt) || key.isInfinity

/-- The checks that verification makes before it looks at the ranges of the components. -/
def verifyInputChecks (group : CurveGroup n) (scratch : Scratch n) (message : Int)
    (key : JacobianPoint n) (signature : Signature) : List Check := [
  ⟨group.isExtension, .unsupportedMode⟩,
  ⟨decide (scratch.capacity < verifyTables), .bufferTooSmall⟩,
  ⟨decide (key.elementLength ≠ group.elementLength), .keyLengthMismatch⟩,
  ⟨decide (signature.c.toInt < 0 ∨ signature.d.toInt < 0), .negativeComponent⟩,
  ⟨!group.isScalar message, .messageOutOfRange⟩]

/-- The checks of verification in their order. A full pool matters only if there is something to
compute. -/
def verifyChecks (group : CurveGroup n) (ws : Workspace n) (message : Int) (key : JacobianPoint n)
    (signature : Signature) : List Check :=
  group.verifyInputChecks ws.scratch message key signature ++ [
  ⟨!group.answersAtOnce key signature && decide (
    ws.pool.elements.capacity < ws.pool.elements.live + 3 ∨
    ws.pool.points.capacity < ws.pool.points.live + 1), .poolExhausted⟩]

/-- The number that signing and verification take from a digest. -/
def digestNumber (group : CurveGroup n) (digest : List UInt8) : Nat :=
  (group.leftmostBits digest).toNat % group.order.modulus.toNat

theorem isScalar_iff (v : Int) :
    group.isScalar v = true ↔ 0 < v ∧ v < group.order.modulus.toNat :=
  decide_eq_true_iff

section Inputs

variable {v : BufferedInt}

theorem isSome_scalar? (hNormal : v.IsNormal) :
    (group.scalar? v).isSome = group.isScalar v.toInt := by
  cases hScalar : group.isScalar v.toInt with
  | true =>
      obtain ⟨hPos, hLess⟩ := (isScalar_iff v.toInt).mp hScalar
      obtain ⟨k, hSome, -⟩ := scalar?_eq_some hPos hLess
      rw [hSome]
      rfl
  | false =>
      have hOutside := mt (isScalar_iff v.toInt).mpr (Bool.eq_false_iff.mp hScalar)
      rw [scalar?_eq_none hNormal hOutside]
      rfl

theorem failsLike_privateScalar (hNormal : v.IsNormal) :
    FailsLike (group.privateScalar v) [⟨!group.isScalar v.toInt, .invalidPrivateKey⟩] := by
  rw [← isSome_scalar? hNormal, privateScalar]
  cases group.scalar? v <;> rfl

theorem failsLike_messageScalar (hNormal : v.IsNormal) :
    FailsLike (group.messageScalar v) [⟨!group.isScalar v.toInt, .messageOutOfRange⟩] := by
  rw [← isSome_scalar? hNormal, messageScalar]
  cases group.scalar? v <;> rfl

theorem of_privateScalar_eq {k : FixedNat n} (h : group.privateScalar v = .ok k) :
    (k.toNat : Int) = v.toInt ∧ k.toNat < group.order.modulus.toNat := by
  rw [privateScalar] at h
  split at h <;> rename_i hScalar
  · cases h
    exact of_scalar?_eq_some hScalar
  · cases h

theorem of_messageScalar_eq {k : FixedNat n} (h : group.messageScalar v = .ok k) :
    (k.toNat : Int) = v.toInt ∧ k.toNat < group.order.modulus.toNat := by
  rw [messageScalar] at h
  split at h <;> rename_i hScalar
  · cases h
    exact of_scalar?_eq_some hScalar
  · cases h

/-- A digest whose number vanishes has no representative. -/
theorem failsLike_representative (digest : List UInt8) :
    FailsLike (group.representative digest)
      [⟨!group.isScalar (group.digestNumber digest), .messageOutOfRange⟩] := by
  have hValue := group.order.toNat_reduce (group.leftmostBits digest)
  have hLess : group.digestNumber digest < group.order.modulus.toNat :=
    Nat.mod_lt _ group.order.modulus_pos
  have hScalar : (!group.isScalar (group.digestNumber digest)) =
      (group.order.reduce (group.leftmostBits digest)).isZero := by
    rw [Bool.eq_iff_iff, Bool.not_eq_true', Bool.eq_false_iff, ne_eq, isScalar_iff,
      FixedNat.isZero_iff, hValue, ← digestNumber]
    omega
  rw [hScalar, representative]
  split <;> rename_i hZero
  · rw [hZero]
    rfl
  · rw [Bool.eq_false_iff.mpr hZero]
    rfl

theorem of_representative_eq {digest : List UInt8} (h : group.representative digest = .ok v) :
    v.IsNormal ∧ v.toInt = group.digestNumber digest := by
  rw [representative] at h
  split at h
  · cases h
  · cases h
    refine ⟨BufferedInt.isNormal_ofFixed _, ?_⟩
    rw [BufferedInt.toInt_ofFixed, GroupOrder.toNat_reduce, digestNumber]

end Inputs

section Signing

variable {ws : Workspace n} {message key nonce : BufferedInt} {out : Signature}

theorem failsLike_checkSigning (scratch : Scratch n) :
    FailsLike (group.checkSigning out scratch) [
      ⟨group.isExtension, .unsupportedMode⟩,
      ⟨decide (out.c.room < group.order.words ∨ out.d.room < group.order.words), .bufferTooSmall⟩,
      ⟨decide (scratch.capacity < signTables), .bufferTooSmall⟩] := by
  apply FailsLike.of_eq
  simp only [checkSigning, firstFailure, decide_eq_true_iff]

theorem failsLike_signingInputs (group : CurveGroup n) (scratch : Scratch n) (out : Signature)
    (hMessage : message.IsNormal) (hKey : key.IsNormal) (hNonce : nonce.IsNormal) :
    FailsLike (group.signingInputs message key nonce out scratch)
      (group.signInputChecks scratch message.toInt key nonce out) := by
  rw [signingInputs]
  refine (failsLike_checkSigning scratch).bind fun _ _ => ?_
  refine (failsLike_privateScalar hKey).bind fun x _ => ?_
  refine (failsLike_privateScalar hNonce).bind fun k _ => ?_
  refine (failsLike_messageScalar hMessage).bind fun m _ => ?_
  rfl

theorem failsLike_representativeForSigning (group : CurveGroup n) (algorithm : HashAlgorithm)
    (text : List UInt8) (scratch : Scratch n) (out : Signature) (hKey : key.IsNormal)
    (hNonce : nonce.IsNormal) :
    FailsLike (group.representativeForSigning algorithm text key nonce out scratch)
      (group.signInputChecks scratch (group.digestNumber (algorithm.digest text)) key nonce
        out) := by
  rw [representativeForSigning]
  refine (failsLike_checkSigning scratch).bind fun _ _ => ?_
  refine (failsLike_privateScalar hKey).bind fun x _ => ?_
  refine (failsLike_privateScalar hNonce).bind fun k _ => ?_
  exact failsLike_representative _

theorem of_representativeForSigning_eq {algorithm : HashAlgorithm} {text : List UInt8}
    {scratch : Scratch n} (h : group.representativeForSigning algorithm text key nonce out scratch =
      .ok message) :
    message.IsNormal ∧ message.toInt = group.digestNumber (algorithm.digest text) := by
  rw [representativeForSigning] at h
  obtain ⟨-, -, h⟩ := exists_of_bind_eq_ok h
  obtain ⟨-, -, h⟩ := exists_of_bind_eq_ok h
  obtain ⟨-, -, h⟩ := exists_of_bind_eq_ok h
  exact of_representative_eq h

/-- The inputs of signing are the numbers that it is given. -/
theorem of_signingInputs_eq {scratch : Scratch n} {m x k : FixedNat n}
    (h : group.signingInputs message key nonce out scratch = .ok (m, x, k)) :
    ((m.toNat : Int) = message.toInt ∧ m.toNat < group.order.modulus.toNat) ∧
      (k.toNat : Int) = nonce.toInt ∧ k.toNat < group.order.modulus.toNat := by
  rw [signingInputs] at h
  obtain ⟨-, -, h⟩ := exists_of_bind_eq_ok h
  obtain ⟨x', -, h⟩ := exists_of_bind_eq_ok h
  obtain ⟨k', hNonce, h⟩ := exists_of_bind_eq_ok h
  obtain ⟨m', hMessage, h⟩ := exists_of_bind_eq_ok h
  cases h
  exact ⟨of_messageScalar_eq hMessage, of_privateScalar_eq hNonce⟩

/-- A nonce is refused by the computation exactly if it is degenerate. -/
theorem componentsOf_isDegenerate {m k : FixedNat n} (x : FixedNat n)
    (hm : (m.toNat : Int) = message.toInt ∧ m.toNat < group.order.modulus.toNat)
    (hk : (k.toNat : Int) = nonce.toInt ∧ k.toNat < group.order.modulus.toNat)
    (hNonce : nonce.isNegative = false) :
    (group.isDegenerate message.toInt nonce = true ∧
      group.componentsOf m x k (group.multiple k group.generator) =
        .error (.failure .degenerateSignature)) ∨
    (group.isDegenerate message.toInt nonce = false ∧ ∃ c d,
      group.componentsOf m x k (group.multiple k group.generator) = .ok (c, d) ∧
        c.toNat < group.order.modulus.toNat ∧ d.toNat < group.order.modulus.toNat) := by
  have hScalar : FixedNat.ofLimbs n nonce.limbs = k := by
    have hMagnitude := BufferedInt.toInt_eq_magnitude hNonce
    rw [← hk.1, Nat.cast_inj] at hMagnitude
    apply FixedNat.eq_of_toNat_eq
    rw [FixedNat.toNat_ofLimbs, ← BufferedInt.magnitude, ← hMagnitude, Nat.mod_eq_of_lt k.toNat_lt]
  rw [isDegenerate, hScalar, ← hm.1]
  rcases group.componentsOf_cases x hm.2 hk.2 (group.multiple k group.generator) with
    ⟨hAffine, hComponents⟩ | ⟨rx, ry, hAffine, hCases⟩
  · rw [hAffine]
    exact .inl ⟨rfl, hComponents⟩
  · rw [hAffine]
    dsimp only at hCases ⊢
    rw [Nat.mod_add_mod] at hCases
    rw [← Nat.cast_add, ← Int.natCast_emod, beq_iff_eq, Nat.cast_eq_zero, beq_eq_false_iff_ne,
      Nat.cast_ne_zero]
    rcases hCases with ⟨hZero, hComponents⟩ | ⟨hNonzero, c, d, hComponents, -, -, hc, hd⟩
    · exact .inl ⟨hZero, hComponents⟩
    · exact .inr ⟨hNonzero, c, d, hComponents, hc, hd⟩

/-- The outcome of signing is that of its checks, and a failure leaves the buffers alone. -/
def EndsInOrder (run : (Except Stop Unit × Signature) × Workspace n) (checks : List Check)
    (out : Signature) : Prop :=
  run.1.1 = (firstFailure checks).mapError .failure ∧ (run.1.1 ≠ .ok () → run.1.2 = out)

theorem sign_endsInOrder (hMessage : message.IsNormal) (hKey : key.IsNormal)
    (hNonce : nonce.IsNormal) :
    EndsInOrder ((group.sign message key nonce out).run ws)
      (group.signChecks ws message.toInt key nonce out) out := by
  have hInputs := failsLike_signingInputs group ws.scratch out hMessage hKey hNonce
  rw [signChecks, EndsInOrder, firstFailure_append]
  cases hScalars : group.signingInputs message key nonce out ws.scratch with
  | error failure =>
      rw [run_sign_of_error hScalars, hInputs.eq_error hScalars]
      exact ⟨rfl, fun _ => rfl⟩
  | ok scalars =>
      obtain ⟨m, x, k⟩ := scalars
      have hPassed := (firstFailure_eq_ok_iff _).mp (hInputs.eq_ok hScalars)
      simp only [signInputChecks, List.forall_mem_cons, decide_eq_false_iff_not, not_or,
        Nat.not_lt, Bool.not_eq_false', isScalar_iff] at hPassed
      obtain ⟨-, ⟨hRoomC, hRoomD⟩, hTables, -, ⟨hPos, -⟩, -⟩ := hPassed
      obtain ⟨hm, hk⟩ := of_signingInputs_eq hScalars
      rw [hInputs.eq_ok hScalars]
      by_cases hFull : ws.pool.points.capacity < ws.pool.points.live + 1
      · obtain ⟨ws', hRun⟩ := run_sign hScalars (gives_signScalars_of_full hFull m x k)
        rw [hRun, firstFailure, if_pos (decide_eq_true hFull)]
        exact ⟨rfl, fun _ => rfl⟩
      · obtain ⟨ws', hRun⟩ :=
          run_sign hScalars (gives_signScalars ⟨hTables, Nat.le_of_not_lt hFull⟩ m x k)
        rw [hRun, firstFailure, if_neg (mt of_decide_eq_true hFull), firstFailure]
        rcases componentsOf_isDegenerate x hm hk (BufferedInt.isNegative_eq_false_of_pos hPos) with
          ⟨hDegenerate, hComponents⟩ | ⟨hRegular, c, d, hComponents, hc, hd⟩
        · rw [hComponents, if_pos hDegenerate]
          exact ⟨rfl, fun _ => rfl⟩
        · obtain ⟨stored, hStore, -⟩ := Signature.store_eq hRoomC hRoomD hc hd
          rw [hComponents, finish, hStore, if_neg (Bool.eq_false_iff.mp hRegular)]
          exact ⟨rfl, fun hStopped => absurd rfl hStopped⟩

/-- Signing that succeeds was given a message, a key and a nonce strictly between zero and the
order. -/
theorem inRange_of_run_sign_eq_ok (hMessage : message.IsNormal) (hKey : key.IsNormal)
    (hNonce : nonce.IsNormal) {signature : Signature} {ws' : Workspace n}
    (h : (group.sign message key nonce out).run ws = ((.ok (), signature), ws')) :
    (0 < message.toInt ∧ message.toInt < group.order.modulus.toNat) ∧
      (0 < key.toInt ∧ key.toInt < group.order.modulus.toNat) ∧
      0 < nonce.toInt ∧ nonce.toInt < group.order.modulus.toNat := by
  obtain ⟨hOutcome, -⟩ : EndsInOrder ((group.sign message key nonce out).run ws)
    (group.signChecks ws message.toInt key nonce out) out :=
      sign_endsInOrder hMessage hKey hNonce
  rw [h] at hOutcome
  cases hChecks : firstFailure (group.signChecks ws message.toInt key nonce out) with
  | error failure =>
      rw [hChecks] at hOutcome
      cases hOutcome
  | ok u =>
      have hPassed := (firstFailure_eq_ok_iff _).mp hChecks
      simp only [signChecks, signInputChecks, List.cons_append, List.forall_mem_cons,
        Bool.not_eq_false', isScalar_iff] at hPassed
      obtain ⟨-, -, -, hKeyRange, hNonceRange, hMessageRange, -⟩ := hPassed
      exact ⟨hMessageRange, hKeyRange, hNonceRange⟩

/-- The digest is taken after the checks that do not depend on the message, and signing makes these
again; the order of the failures is that of signing. -/
theorem signMessage_endsInOrder (algorithm : HashAlgorithm) (text : List UInt8)
    (hKey : key.IsNormal) (hNonce : nonce.IsNormal) :
    EndsInOrder ((group.signMessage algorithm text key nonce out).run ws)
      (group.signChecks ws (group.digestNumber (algorithm.digest text)) key nonce out) out := by
  have hInputs :=
    failsLike_representativeForSigning group algorithm text ws.scratch out hKey hNonce
  rw [signMessage, StateT.run_bind, StateT.run_get, pure_bind]
  cases hNumber : group.representativeForSigning algorithm text key nonce out ws.scratch with
  | error failure =>
      rw [signChecks, EndsInOrder, firstFailure_append, hInputs.eq_error hNumber]
      exact ⟨rfl, fun _ => rfl⟩
  | ok message =>
      obtain ⟨hMessage, hValue⟩ := of_representativeForSigning_eq hNumber
      rw [← hValue]
      exact sign_endsInOrder hMessage hKey hNonce

end Signing

section Verifying

variable {ws : Workspace n} {message : BufferedInt} {key : JacobianPoint n} {signature : Signature}

/-- The representative, after everything that verification checks before the ranges of the
components. -/
def verifyingInputs (group : CurveGroup n) (message : BufferedInt) (key : JacobianPoint n)
    (signature : Signature) (scratch : Scratch n) : Except Failure (FixedNat n) := do
  group.checkVerifying scratch
  group.checkSignature key signature
  group.messageScalar message

/-- The representative of a digest, after the checks that do not depend on it. -/
def representativeForVerifying (group : CurveGroup n) (algorithm : HashAlgorithm)
    (text : List UInt8) (key : JacobianPoint n) (signature : Signature) (scratch : Scratch n) :
    Except Failure BufferedInt := do
  group.checkVerifying scratch
  group.checkSignature key signature
  group.representative (algorithm.digest text)

theorem verify_eq (message : BufferedInt) (key : JacobianPoint n) (signature : Signature) :
    group.verify message key signature = (do
      group.verifyComponents
        (← ofExcept (group.verifyingInputs message key signature (← get).scratch)) key
        (group.components? signature)) := by
  simp only [verifyingInputs, ofExcept_bind, bind_assoc]
  rfl

theorem verifyMessage_eq (algorithm : HashAlgorithm) (text : List UInt8) (key : JacobianPoint n)
    (signature : Signature) :
    group.verifyMessage algorithm text key signature = (do
      group.verify (← ofExcept
        (group.representativeForVerifying algorithm text key signature (← get).scratch)) key
        signature) := by
  simp only [representativeForVerifying, ofExcept_bind, bind_assoc]
  rfl

theorem failsLike_checkVerifying (scratch : Scratch n) :
    FailsLike (group.checkVerifying scratch) [
      ⟨group.isExtension, .unsupportedMode⟩,
      ⟨decide (scratch.capacity < verifyTables), .bufferTooSmall⟩] := by
  apply FailsLike.of_eq
  simp only [checkVerifying, firstFailure, decide_eq_true_iff]

theorem failsLike_checkSignature (key : JacobianPoint n) (hc : signature.c.IsNormal)
    (hd : signature.d.IsNormal) :
    FailsLike (group.checkSignature key signature) [
      ⟨decide (key.elementLength ≠ group.elementLength), .keyLengthMismatch⟩,
      ⟨decide (signature.c.toInt < 0 ∨ signature.d.toInt < 0), .negativeComponent⟩] := by
  apply FailsLike.of_eq
  simp only [checkSignature, firstFailure, decide_eq_true_iff, Bool.or_eq_true, hc.isNegative_iff,
    hd.isNegative_iff]

theorem failsLike_verifyingInputs (group : CurveGroup n) (scratch : Scratch n)
    (key : JacobianPoint n) (hMessage : message.IsNormal) (hc : signature.c.IsNormal)
    (hd : signature.d.IsNormal) :
    FailsLike (group.verifyingInputs message key signature scratch)
      (group.verifyInputChecks scratch message.toInt key signature) := by
  refine (failsLike_checkVerifying scratch).bind fun _ _ => ?_
  refine (failsLike_checkSignature key hc hd).bind fun _ _ => ?_
  exact failsLike_messageScalar hMessage

theorem failsLike_representativeForVerifying (group : CurveGroup n) (algorithm : HashAlgorithm)
    (text : List UInt8) (scratch : Scratch n) (key : JacobianPoint n)
    (hc : signature.c.IsNormal) (hd : signature.d.IsNormal) :
    FailsLike (group.representativeForVerifying algorithm text key signature scratch)
      (group.verifyInputChecks scratch (group.digestNumber (algorithm.digest text)) key
        signature) := by
  refine (failsLike_checkVerifying scratch).bind fun _ _ => ?_
  refine (failsLike_checkSignature key hc hd).bind fun _ _ => ?_
  exact failsLike_representative _

theorem of_representativeForVerifying_eq {algorithm : HashAlgorithm} {text : List UInt8}
    {scratch : Scratch n}
    (h : group.representativeForVerifying algorithm text key signature scratch = .ok message) :
    message.IsNormal ∧ message.toInt = group.digestNumber (algorithm.digest text) := by
  rw [representativeForVerifying] at h
  obtain ⟨-, -, h⟩ := exists_of_bind_eq_ok h
  obtain ⟨-, -, h⟩ := exists_of_bind_eq_ok h
  exact of_representative_eq h

/-- Components that are not negative are taken exactly if both are scalars. -/
theorem isSome_components? (hc : signature.c.isNegative = false)
    (hd : signature.d.isNegative = false) :
    (group.components? signature).isSome =
      (group.isScalar signature.c.toInt && group.isScalar signature.d.toInt) := by
  rw [Bool.eq_iff_iff, Bool.and_eq_true, isScalar_iff, isScalar_iff,
    BufferedInt.toInt_eq_magnitude hc, BufferedInt.toInt_eq_magnitude hd]
  norm_cast
  constructor
  · intro hSome
    obtain ⟨⟨c, d⟩, hComponents⟩ := Option.isSome_iff_exists.mp hSome
    obtain ⟨⟨hValueC, hRangeC⟩, hValueD, hRangeD⟩ := inOpenRange_of_components?_eq hComponents
    rw [hValueC, hValueD]
    exact ⟨hRangeC, hRangeD⟩
  · rintro ⟨hRangeC, hRangeD⟩
    obtain ⟨c, d, hComponents⟩ := components?_of_inOpenRange hRangeC hRangeD
    rw [hComponents]
    rfl

/-- The outcome of a verification is that of its checks, and what is answered at once is answered
with a refusal. -/
def AnswersInOrder (result : Except Stop Verdict) (checks : List Check) (atOnce : Bool) : Prop :=
  result.map (fun _ => ()) = (firstFailure checks).mapError .failure ∧
    (atOnce = true → ∀ verdict, result = .ok verdict → verdict = .invalid)

/-- What is left after the checks of the inputs fails only if there is something to compute and no
room for it. -/
theorem gives_verifyComponents (key : JacobianPoint n)
    (hTables : verifyTables ≤ ws.scratch.capacity) (m : FixedNat n)
    (hc : signature.c.isNegative = false) (hd : signature.d.isNegative = false) :
    ∃ result, Gives (group.verifyComponents m key (group.components? signature)) ws result ∧
      AnswersInOrder result [
        ⟨!group.answersAtOnce key signature && decide (
          ws.pool.elements.capacity < ws.pool.elements.live + 3 ∨
          ws.pool.points.capacity < ws.pool.points.live + 1), .poolExhausted⟩]
        (group.answersAtOnce key signature) := by
  rw [answersAtOnce, ← isSome_components? hc hd]
  cases group.components? signature with
  | none => exact ⟨.ok .invalid, (ends_pure _).gives, rfl, fun _ _ h => (Except.ok.inj h).symm⟩
  | some components =>
      obtain ⟨c, d⟩ := components
      rw [verifyComponents]
      cases hInfinity : key.isInfinity with
      | true => exact ⟨.ok .invalid, (ends_pure _).gives, rfl, fun _ _ h => (Except.ok.inj h).symm⟩
      | false =>
          rw [if_neg Bool.false_ne_true]
          by_cases hFull : ws.pool.elements.capacity < ws.pool.elements.live + 3 ∨
              ws.pool.points.capacity < ws.pool.points.live + 1
          · refine ⟨_, gives_verifyScalars_of_full hFull m c d key, ?_, fun h => by cases h⟩
            rw [decide_eq_true hFull]
            rfl
          · have hReady : ws.IsReady := ⟨hTables, by omega, by omega⟩
            refine ⟨_, gives_verifyScalars hReady m c d key, ?_, fun h => by cases h⟩
            rw [decide_eq_false hFull]
            rfl

theorem verify_answersInOrder (key : JacobianPoint n) (hMessage : message.IsNormal)
    (hc : signature.c.IsNormal) (hd : signature.d.IsNormal) :
    AnswersInOrder ((group.verify message key signature).run.run ws).1
      (group.verifyChecks ws message.toInt key signature) (group.answersAtOnce key signature) := by
  have hInputs := failsLike_verifyingInputs group ws.scratch key hMessage hc hd
  rw [verifyChecks, verify_eq, AnswersInOrder, firstFailure_append]
  cases hScalar : group.verifyingInputs message key signature ws.scratch with
  | error failure =>
      rw [run_of_inputs_eq_error hScalar, hInputs.eq_error hScalar]
      exact ⟨rfl, fun _ _ hOk => by cases hOk⟩
  | ok m =>
      have hPassed := (firstFailure_eq_ok_iff _).mp (hInputs.eq_ok hScalar)
      simp only [verifyInputChecks, List.forall_mem_cons, decide_eq_false_iff_not, not_or,
        Nat.not_lt, ← hc.isNegative_iff, ← hd.isNegative_iff, Bool.not_eq_true] at hPassed
      obtain ⟨-, hTables, -, ⟨hPlusC, hPlusD⟩, -⟩ := hPassed
      obtain ⟨result, ⟨ws', hEnds⟩, hAnswers⟩ :=
        gives_verifyComponents key hTables m hPlusC hPlusD
      rw [run_of_inputs_eq_ok hScalar, hEnds, hInputs.eq_ok hScalar]
      exact hAnswers

theorem verifyMessage_answersInOrder (algorithm : HashAlgorithm) (text : List UInt8)
    (key : JacobianPoint n) (hc : signature.c.IsNormal) (hd : signature.d.IsNormal) :
    AnswersInOrder ((group.verifyMessage algorithm text key signature).run.run ws).1
      (group.verifyChecks ws (group.digestNumber (algorithm.digest text)) key signature)
      (group.answersAtOnce key signature) := by
  have hInputs := failsLike_representativeForVerifying group algorithm text ws.scratch key hc hd
  rw [verifyMessage_eq]
  cases hNumber : group.representativeForVerifying algorithm text key signature ws.scratch with
  | error failure =>
      rw [verifyChecks, AnswersInOrder, firstFailure_append, run_of_inputs_eq_error hNumber,
        hInputs.eq_error hNumber]
      exact ⟨rfl, fun _ _ hOk => by cases hOk⟩
  | ok message =>
      obtain ⟨hMessage, hValue⟩ := of_representativeForVerifying_eq hNumber
      rw [run_of_inputs_eq_ok hNumber, ← hValue]
      exact verify_answersInOrder key hMessage hc hd

end Verifying

/-- However many checks of a call would refuse it, the first one in the order of the list decides
about the failure, and without one the call succeeds. Signing that fails leaves the buffers as they
were; a verification whose components are out of range or whose key is at infinity answers before
the pool matters. -/
theorem calls_fail_in_order (group : CurveGroup n) (ws : Workspace n) :
    (∀ (message key nonce : BufferedInt) (out : Signature),
      message.IsNormal → key.IsNormal → nonce.IsNormal →
      let run := (group.sign message key nonce out).run ws
      run.1.1 =
        (firstFailure (group.signChecks ws message.toInt key nonce out)).mapError .failure ∧
      (run.1.1 ≠ .ok () → run.1.2 = out)) ∧
    (∀ (algorithm : HashAlgorithm) (text : List UInt8) (key nonce : BufferedInt) (out : Signature),
      key.IsNormal → nonce.IsNormal →
      let run := (group.signMessage algorithm text key nonce out).run ws
      run.1.1 =
        (firstFailure (group.signChecks ws (group.digestNumber (algorithm.digest text)) key nonce
          out)).mapError .failure ∧
      (run.1.1 ≠ .ok () → run.1.2 = out)) ∧
    (∀ (message : BufferedInt) (key : JacobianPoint n) (signature : Signature),
      message.IsNormal → signature.c.IsNormal → signature.d.IsNormal →
      let result := ((group.verify message key signature).run.run ws).1
      result.map (fun _ => ()) =
        (firstFailure (group.verifyChecks ws message.toInt key signature)).mapError .failure ∧
      (group.answersAtOnce key signature = true →
        ∀ verdict, result = .ok verdict → verdict = .invalid)) ∧
    (∀ (algorithm : HashAlgorithm) (text : List UInt8) (key : JacobianPoint n)
      (signature : Signature), signature.c.IsNormal → signature.d.IsNormal →
      let result := ((group.verifyMessage algorithm text key signature).run.run ws).1
      result.map (fun _ => ()) =
        (firstFailure (group.verifyChecks ws (group.digestNumber (algorithm.digest text)) key
          signature)).mapError .failure ∧
      (group.answersAtOnce key signature = true →
        ∀ verdict, result = .ok verdict → verdict = .invalid)) := by
  refine ⟨?_, ?_, ?_, ?_⟩
  · intro message key nonce out hMessage hKey hNonce
    exact sign_endsInOrder hMessage hKey hNonce
  · intro algorithm text key nonce out hKey hNonce
    exact signMessage_endsInOrder algorithm text hKey hNonce
  · intro message key signature hMessage hc hd
    exact verify_answersInOrder key hMessage hc hd
  · intro algorithm text key signature hc hd
    exact verifyMessage_answersInOrder algorithm text key hc hd

end CurveGroup

/-- A signature with a negative component. -/
def negativeSignature : Signature :=
  { c := (BufferedInt.ofWord 1).neg, d := .ofWord 1 }

theorem failures_toyGroup :
    let zero := BufferedInt.ofWord 0
    let out := Signature.blank toyGroup
    ((toyGroup.sign zero zero zero out).run toyWorkspace).1 =
      (.error (.failure .invalidPrivateKey), out) ∧
    ((toyGroup.signMessage .sha256 [] zero zero out).run toyWorkspace).1 =
      (.error (.failure .invalidPrivateKey), out) ∧
    ((toyGroup.verify zero toyGroup.generator negativeSignature).run.run toyWorkspace).1.map (fun _ => ()) =
      .error (.failure .negativeComponent) ∧
    ((toyGroup.verifyMessage .sha256 [] (.infinity 2) negativeSignature).run.run toyWorkspace).1.map
      (fun _ => ()) = .error (.failure .keyLengthMismatch) := by
  have hZero := BufferedInt.isNormal_ofWord 0
  have hNormalC : negativeSignature.c.IsNormal := (BufferedInt.isNormal_ofWord 1).neg
  have hNormalD : negativeSignature.d.IsNormal := BufferedInt.isNormal_ofWord 1
  obtain ⟨hSign, hSignMessage, hVerify, hVerifyMessage⟩ :=
    CurveGroup.calls_fail_in_order toyGroup toyWorkspace
  dsimp only at hSign hSignMessage hVerify hVerifyMessage ⊢
  refine ⟨?_, ?_, ?_, ?_⟩
  · obtain ⟨hFailed, hKept⟩ := hSign _ _ _ (.blank toyGroup) hZero hZero hZero
    have hFirst : firstFailure (toyGroup.signChecks toyWorkspace (BufferedInt.ofWord 0).toInt
        (.ofWord 0) (.ofWord 0) (.blank toyGroup)) = .error .invalidPrivateKey := by decide +kernel
    rw [hFirst] at hFailed
    exact Prod.ext hFailed (hKept (by rw [hFailed]; rintro ⟨⟩))
  · obtain ⟨hFailed, hKept⟩ := hSignMessage .sha256 [] _ _ (.blank toyGroup) hZero hZero
    have hFirst : firstFailure (toyGroup.signChecks toyWorkspace
        (toyGroup.digestNumber (HashAlgorithm.sha256.digest [])) (.ofWord 0) (.ofWord 0)
        (.blank toyGroup)) = .error .invalidPrivateKey := by decide +kernel
    rw [hFirst] at hFailed
    exact Prod.ext hFailed (hKept (by rw [hFailed]; rintro ⟨⟩))
  · obtain ⟨hFailed, -⟩ := hVerify _ toyGroup.generator negativeSignature hZero hNormalC hNormalD
    have hFirst : firstFailure (toyGroup.verifyChecks toyWorkspace (BufferedInt.ofWord 0).toInt
        toyGroup.generator negativeSignature) = .error .negativeComponent := by decide +kernel
    rw [hFirst] at hFailed
    exact hFailed
  · obtain ⟨hFailed, -⟩ := hVerifyMessage .sha256 [] (.infinity 2) negativeSignature hNormalC hNormalD
    have hFirst : firstFailure (toyGroup.verifyChecks toyWorkspace
        (toyGroup.digestNumber (HashAlgorithm.sha256.digest [])) (.infinity 2) negativeSignature) =
        .error .keyLengthMismatch := by
      decide +kernel
    rw [hFirst] at hFailed
    exact hFailed

end NybergRueppel
