import NybergRueppel.Exchange.Handler
import NybergRueppel.Proofs.BufferedInt.Written
import NybergRueppel.Proofs.Parameters
import NybergRueppel.Proofs.Signature.Checks

/-!
Signatures that are sent back. A component is read back as the number that signing stored, with its
room, unless the room is beyond the width of the group; then it is refused. Everything else that a
request to check the signature holds can be read.
-/
namespace NybergRueppel

namespace SentNumber

variable {n : Nat}

/-- A decoder bounds the room that is declared, and it gives the number that was written. -/
theorem decode_ofNumber {a : BufferedInt} (h : a.IsNormal) :
    (ofNumber a).decode n =
      if n < a.room then .error (.undecodable (.roomTooLarge a.room n)) else .ok a := by
  obtain ⟨b, hRead, hRoom⟩ := BufferedInt.ofHex_toHex h
  rw [decode, ofNumber, hRead]
  dsimp only [bind, Except.bind]
  split
  · rfl
  · rw [hRoom]
    rfl

theorem isNormal_of_decode_eq {sent : SentNumber} {a : BufferedInt} (h : sent.decode n = .ok a) :
    a.IsNormal := by
  obtain ⟨b, hRead, h⟩ := exists_of_bind_eq_ok h
  have hNormal := BufferedInt.isNormal_of_ofHex_eq hRead
  split at h
  · cases h
    exact hNormal
  · split at h
    · cases h
    · cases h
      exact hNormal.withMinRoom _

end SentNumber

namespace SentPoint

variable {n : Nat} {group : CurveGroup n}

theorem exists_ofPoint (group : CurveGroup n) {p : JacobianPoint n}
    (hFinite : p.isInfinity = false) :
    ∃ sent, ofPoint group p = .ok sent := by
  rw [ofPoint, CurveGroup.toAffine?, Curve.affine?, hFinite]
  exact ⟨_, rfl⟩

/-- The coordinates of a point that was sent can be read; what is left to fail is what a point of
the group has to satisfy. -/
theorem kind_of_decode_ofPoint {p : JacobianPoint n} {sent : SentPoint}
    (hSent : ofPoint group p = .ok sent) {failure : Failure}
    (h : sent.decode group = .error failure) :
    failure.kind = .keyLengthMismatch ∨ failure.kind = .invalidPoint := by
  rw [ofPoint] at hSent
  split at hSent
  · cases hSent
    rw [decode] at h
    split at h
    · cases h
      exact .inl rfl
    · rw [readNumbers_map_toHex, readNumbers_map_toHex] at h
      dsimp only [bind, Except.bind] at h
      rw [CurveGroup.ofAffine] at h
      split at h
      · dsimp only at h
        split at h
        · cases h
        · cases h
          exact .inr rfl
      · cases h
        exact .inr rfl
  · cases hSent

end SentPoint

namespace CurveGroup

open Call

variable {n : Nat} {group : CurveGroup n} {ws ws' : Workspace n}

theorem ends_handleSign_of_error {request : SignRequest} {failure : Failure}
    (hTask : group.decodeSignRequest ws.scratch request = .error failure) :
    Ends (group.handleSign request) ws (.error (.failure failure)) ws := by
  apply (ends_get ws).bind
  rw [hTask]
  exact (ends_ofExcept_error failure).bind_error

/-- A request that was decoded is answered with the outcome of signing. -/
theorem ends_handleSign {request : SignRequest} {task : SigningTask} {outcome : Except Stop Unit}
    {signature : Signature} (hTask : group.decodeSignRequest ws.scratch request = .ok task)
    (hSigned : (group.sign task.message task.key task.nonce task.out).run ws =
      ((outcome, signature), ws')) :
    Ends (group.handleSign request) ws (outcome.map fun _ => {
      c := .number (.ofNumber signature.c)
      d := .number (.ofNumber signature.d) }) ws' := by
  apply (ends_get ws).bind
  rw [hTask]
  refine (ends_ofExcept_ok task).bind ((ends_liftM hSigned).bind ?_)
  cases outcome <;> rfl

/-- A request that is answered with a signature was decoded, and the signature was stored. -/
theorem of_handleSign_eq_ok {request : SignRequest} {response : SignResponse}
    (h : (group.handleSign request).run.run ws = (.ok response, ws')) :
    ∃ task signature, group.decodeSignRequest ws.scratch request = .ok task ∧
      (group.sign task.message task.key task.nonce task.out).run ws =
        ((.ok (), signature), ws') ∧
      response =
        { c := .number (.ofNumber signature.c), d := .number (.ofNumber signature.d) } := by
  cases hTask : group.decodeSignRequest ws.scratch request with
  | error failure =>
      rw [ends_handleSign_of_error hTask] at h
      cases h
  | ok task =>
      obtain ⟨outcome, signature, wsSigned, hSigned⟩ : ∃ outcome signature wsSigned,
          (group.sign task.message task.key task.nonce task.out).run ws =
            ((outcome, signature), wsSigned) := ⟨_, _, _, rfl⟩
      rw [ends_handleSign hTask hSigned] at h
      cases outcome with
      | error stop => cases h
      | ok u =>
          cases h
          exact ⟨task, signature, rfl, hSigned, rfl⟩

/-- What signing stores for a request is normal and keeps the rooms that were asked for. -/
theorem isNormal_of_signed {request : SignRequest} {task : SigningTask} {signature : Signature}
    {scratch : Scratch n} (hTask : group.decodeSignRequest scratch request = .ok task)
    (hSigned : (group.sign task.message task.key task.nonce task.out).run ws =
      ((.ok (), signature), ws')) :
    (signature.c.IsNormal ∧ signature.c.room = task.out.c.room) ∧
      signature.d.IsNormal ∧ signature.d.room = task.out.d.room := by
  have hOut : task.out.c.IsNormal ∧ task.out.d.IsNormal := by
    rw [decodeSignRequest] at hTask
    iterate 14 obtain ⟨_, -, hTask⟩ := exists_of_bind_eq_ok hTask
    obtain ⟨c, hc, hTask⟩ := exists_of_bind_eq_ok hTask
    obtain ⟨d, hd, hTask⟩ := exists_of_bind_eq_ok hTask
    cases hTask
    exact ⟨SentNumber.isNormal_of_decode_eq hc, SentNumber.isNormal_of_decode_eq hd⟩
  obtain ⟨c, d, hStore⟩ := of_run_sign_eq_ok hSigned
  obtain ⟨hStoredC, hStoredD⟩ :=
    Signature.of_store_eq hOut.1.one_le_room hOut.2.one_le_room hStore
  exact ⟨⟨hStoredC.isNormal, hStoredC.room_eq⟩, hStoredD.isNormal, hStoredD.room_eq⟩

theorem ends_handleVerify_of_error {request : VerifyRequest} {failure : Failure}
    (hTask : group.decodeVerifyRequest ws.scratch request = .error failure) :
    Ends (group.handleVerify request) ws (.error (.failure failure)) ws := by
  apply (ends_get ws).bind
  rw [hTask]
  exact (ends_ofExcept_error failure).bind_error

/-- A request that was decoded is answered with the outcome of the verification. -/
theorem ends_handleVerify {request : VerifyRequest} {task : VerifyingTask n}
    {result : Except Stop Verdict}
    (hTask : group.decodeVerifyRequest ws.scratch request = .ok task)
    (hVerified : Ends (group.verify task.message task.key task.signature) ws result ws') :
    Ends (group.handleVerify request) ws (result.map fun verdict => { result := verdict }) ws' := by
  apply (ends_get ws).bind
  rw [hTask]
  apply (ends_ofExcept_ok task).bind
  cases result with
  | error stop => exact hVerified.bind_error
  | ok verdict => exact hVerified.bind (ends_pure _)

/-- A verification request fails with the failure of its decoding or of the verification. -/
theorem of_handleVerify_eq_error {request : VerifyRequest} {failure : Failure}
    (h : ((group.handleVerify request).run.run ws).1 = .error (.failure failure)) :
    group.decodeVerifyRequest ws.scratch request = .error failure ∨
    ∃ task, group.decodeVerifyRequest ws.scratch request = .ok task ∧
      ((group.verify task.message task.key task.signature).run.run ws).1 =
        .error (.failure failure) := by
  cases hTask : group.decodeVerifyRequest ws.scratch request with
  | error failure' =>
      rw [ends_handleVerify_of_error hTask] at h
      cases h
      exact .inl rfl
  | ok task =>
      obtain ⟨result, wsVerified, hVerified⟩ : ∃ result wsVerified,
          Ends (group.verify task.message task.key task.signature) ws result wsVerified :=
        ⟨_, _, rfl⟩
      rw [ends_handleVerify hTask hVerified] at h
      refine .inr ⟨task, rfl, ?_⟩
      rw [hVerified]
      cases result with
      | error stop =>
          cases h
          rfl
      | ok verdict => cases h

/-- Verification reads nothing, so that it does not fail to decode. -/
theorem kind_of_verify_eq_error {message : BufferedInt} {key : JacobianPoint n}
    {signature : Signature} (hMessage : message.IsNormal) (hc : signature.c.IsNormal)
    (hd : signature.d.IsNormal) {failure : Failure}
    (h : ((group.verify message key signature).run.run ws).1 = .error (.failure failure)) :
    failure.kind ≠ .undecodable := by
  obtain ⟨hChecks, -⟩ : AnswersInOrder ((group.verify message key signature).run.run ws).1
    (group.verifyChecks ws message.toInt key signature) (group.answersAtOnce key signature) :=
    verify_answersInOrder key hMessage hc hd
  rw [h] at hChecks
  cases hFirst : firstFailure (group.verifyChecks ws message.toInt key signature) with
  | ok u =>
      rw [hFirst] at hChecks
      cases hChecks
  | error failure' =>
      rw [hFirst] at hChecks
      cases hChecks
      obtain ⟨check, hMem, rfl⟩ := exists_of_firstFailure_eq_error hFirst
      simp only [verifyChecks, verifyInputChecks, List.mem_append, List.mem_cons, List.not_mem_nil,
        or_false] at hMem
      rcases hMem with (rfl | rfl | rfl | rfl | rfl) | rfl <;> rintro ⟨⟩

/-- The request to check a signature. -/
def checkingRequest (message : SentNumber) (key : SentPoint) (c d : SentObject) : VerifyRequest :=
  { message := some (.number message), key := some (.point key), c := some c, d := some d }

theorem decodeVerifyRequest_checkingRequest (group : CurveGroup n) (scratch : Scratch n)
    (message : SentNumber) (key : SentPoint) (c d : SentNumber) :
    group.decodeVerifyRequest scratch (checkingRequest message key (.number c) (.number d)) = (do
      group.checkRequest scratch verifyTables
      let key ← key.decode group
      let message ← message.decode n
      let c ← c.decode n
      let d ← d.decode n
      return { message := message, key := key, signature := { c := c, d := d } }) :=
  rfl

theorem kind_of_checkRequest_eq {scratch : Scratch n} {tables : Nat} {failure : Failure}
    (h : group.checkRequest scratch tables = .error failure) :
    failure.kind = .unsupportedMode ∨ failure.kind = .bufferTooSmall := by
  rw [checkRequest] at h
  split at h
  · cases h
    exact .inl rfl
  · split at h
    · cases h
      exact .inr rfl
    · cases h

/-- With components that are read back and a point of the group that was sent, nothing of the
request fails to decode. -/
theorem kind_of_handleVerify_eq_error {message c d : SentNumber} {a : BufferedInt}
    {key : JacobianPoint n} {sent : SentPoint} {signature : Signature}
    (hMessage : message.decode n = .ok a) (hSent : SentPoint.ofPoint group key = .ok sent)
    (hc : c.decode n = .ok signature.c) (hd : d.decode n = .ok signature.d) {failure : Failure}
    (h : ((group.handleVerify (checkingRequest message sent (.number c) (.number d))).run.run
      ws).1 = .error (.failure failure)) : failure.kind ≠ .undecodable := by
  have hDecoded := decodeVerifyRequest_checkingRequest group ws.scratch message sent c d
  rw [hMessage, hc, hd] at hDecoded
  rcases of_handleVerify_eq_error h with hTask | ⟨task, hTask, hVerified⟩
  · rw [hTask] at hDecoded
    cases hCheck : group.checkRequest ws.scratch verifyTables with
    | error failure' =>
        rw [hCheck] at hDecoded
        cases hDecoded
        rcases kind_of_checkRequest_eq hCheck with hKind | hKind <;> rw [hKind] <;> rintro ⟨⟩
    | ok u =>
        rw [hCheck] at hDecoded
        cases hKey : sent.decode group with
        | error failure' =>
            rw [hKey] at hDecoded
            cases hDecoded
            rcases SentPoint.kind_of_decode_ofPoint hSent hKey with hKind | hKind <;>
              rw [hKind] <;> rintro ⟨⟩
        | ok point =>
            rw [hKey] at hDecoded
            cases hDecoded
  · rw [hTask] at hDecoded
    obtain ⟨-, -, hDecoded⟩ := exists_of_bind_eq_ok hDecoded.symm
    obtain ⟨point, -, hDecoded⟩ := exists_of_bind_eq_ok hDecoded
    cases hDecoded
    exact kind_of_verify_eq_error (SentNumber.isNormal_of_decode_eq hMessage)
      (SentNumber.isNormal_of_decode_eq hc) (SentNumber.isNormal_of_decode_eq hd) hVerified

/-- A component that cannot be read back spoils every request to check the signature. -/
theorem exists_handleVerify_failure (message : SentNumber) (key : SentPoint) {c d : SentNumber}
    (hUnread : (∃ failure, c.decode n = .error failure) ∨ ∃ failure, d.decode n = .error failure)
    (ws : Workspace n) :
    ∃ failure, (group.handleVerify (checkingRequest message key (.number c) (.number d))).run.run
      ws = (.error (.failure failure), ws) := by
  cases hTask : group.decodeVerifyRequest ws.scratch
      (checkingRequest message key (.number c) (.number d)) with
  | error failure => exact ⟨failure, ends_handleVerify_of_error hTask⟩
  | ok task =>
      rw [decodeVerifyRequest_checkingRequest] at hTask
      iterate 3 obtain ⟨_, -, hTask⟩ := exists_of_bind_eq_ok hTask
      obtain ⟨c', hc, hTask⟩ := exists_of_bind_eq_ok hTask
      obtain ⟨d', hd, -⟩ := exists_of_bind_eq_ok hTask
      rcases hUnread with ⟨failure, hFailed⟩ | ⟨failure, hFailed⟩
      · rw [hFailed] at hc
        cases hc
      · rw [hFailed] at hd
        cases hd

/-- The components of a response are read back as the numbers that signing stored, with the rooms of
the request, exactly if these rooms are within the width of the group. If they are, no request to
check the signature fails to decode; if one is not, every such request is refused. -/
theorem handleSign_round_trip {request : SignRequest} {response : SignResponse}
    (h : (group.handleSign request).run.run ws = (.ok response, ws')) :
    ∃ (task : SigningTask) (signature : Signature) (c d : SentNumber),
      group.decodeSignRequest ws.scratch request = .ok task ∧
      (group.sign task.message task.key task.nonce task.out).run ws = ((.ok (), signature), ws') ∧
      response = { c := .number c, d := .number d } ∧
      signature.c.room = task.out.c.room ∧ signature.d.room = task.out.d.room ∧
      (c.decode n = if n < signature.c.room then
          .error (.undecodable (.roomTooLarge signature.c.room n)) else .ok signature.c) ∧
      (d.decode n = if n < signature.d.room then
          .error (.undecodable (.roomTooLarge signature.d.room n)) else .ok signature.d) ∧
      (signature.c.room ≤ n → signature.d.room ≤ n →
        ∀ (message : SentNumber) (a : BufferedInt) (key : JacobianPoint n),
          message.decode n = .ok a → key.isInfinity = false →
          ∃ sent, SentPoint.ofPoint group key = .ok sent ∧
            ∀ (wsVerify : Workspace n) (failure : Failure),
              ((group.handleVerify
                (checkingRequest message sent response.c response.d)).run.run wsVerify).1 =
                  .error (.failure failure) → failure.kind ≠ .undecodable) ∧
      (n < signature.c.room ∨ n < signature.d.room →
        ∀ (message : SentNumber) (key : SentPoint) (wsVerify : Workspace n), ∃ failure,
          (group.handleVerify (checkingRequest message key response.c response.d)).run.run
            wsVerify = (.error (.failure failure), wsVerify)) := by
  obtain ⟨task, signature, hTask, hSigned, rfl⟩ := of_handleSign_eq_ok h
  obtain ⟨⟨hNormalC, hRoomC⟩, hNormalD, hRoomD⟩ := isNormal_of_signed hTask hSigned
  have hc : (SentNumber.ofNumber signature.c).decode n = _ := SentNumber.decode_ofNumber hNormalC
  have hd : (SentNumber.ofNumber signature.d).decode n = _ := SentNumber.decode_ofNumber hNormalD
  refine ⟨task, signature, .ofNumber signature.c, .ofNumber signature.d, hTask, hSigned, rfl,
    hRoomC, hRoomD, hc, hd, ?_, ?_⟩
  · intro hWithinC hWithinD message a key hMessage hFinite
    rw [if_neg (Nat.not_lt.mpr hWithinC)] at hc
    rw [if_neg (Nat.not_lt.mpr hWithinD)] at hd
    obtain ⟨sent, hSent⟩ := SentPoint.exists_ofPoint group hFinite
    exact ⟨sent, hSent, fun wsVerify failure hFailed =>
      kind_of_handleVerify_eq_error hMessage hSent hc hd hFailed⟩
  · intro hBeyond message key wsVerify
    apply exists_handleVerify_failure
    rcases hBeyond with hBeyond | hBeyond
    · rw [if_pos hBeyond] at hc
      exact .inl ⟨_, hc⟩
    · rw [if_pos hBeyond] at hd
      exact .inr ⟨_, hd⟩

end CurveGroup

/-- A request for a signature on the toy curve, with a number of zeros in place of the buffer for the
first component. -/
def paddedRequest (zeros : Nat) : SignRequest :=
  { message := some (.number ⟨"3", none⟩)
    key := some (.number ⟨"5", none⟩)
    nonce := some (.number ⟨"7", none⟩)
    c := some (.number ⟨String.ofList (List.replicate zeros '0'), none⟩)
    d := some (.number ⟨"0", none⟩) }

theorem round_trip_toyGroup :
    ∃ response ws', (toyGroup.handleSign (paddedRequest 1)).run.run toyWorkspace =
        (.ok response, ws') ∧
      ∃ (signature : Signature) (c d : SentNumber),
        response = { c := .number c, d := .number d } ∧ c.decode 1 = .ok signature.c ∧
          d.decode 1 = .ok signature.d := by
  have hSigned : ((toyGroup.handleSign (paddedRequest 1)).run.run toyWorkspace).1 =
      .ok { c := .number ⟨"9", some 1⟩, d := .number ⟨"8", some 1⟩ } := by
    decide +kernel
  have hRun : (toyGroup.handleSign (paddedRequest 1)).run.run toyWorkspace =
      (.ok { c := .number ⟨"9", some 1⟩, d := .number ⟨"8", some 1⟩ },
        ((toyGroup.handleSign (paddedRequest 1)).run.run toyWorkspace).2) :=
    Prod.ext hSigned rfl
  obtain ⟨-, signature, c, d, -, -, hResponse, -, -, hc, hd, -⟩ :=
    CurveGroup.handleSign_round_trip hRun
  refine ⟨_, _, hRun, signature, c, d, hResponse, ?_⟩
  cases hResponse
  have hReadC : (SentNumber.decode 1 ⟨"9", some 1⟩).toBool = true := by decide +kernel
  have hReadD : (SentNumber.decode 1 ⟨"8", some 1⟩).toBool = true := by decide +kernel
  constructor
  · split at hc
    · rw [hc] at hReadC
      cases hReadC
    · exact hc
  · split at hd
    · rw [hd] at hReadD
      cases hReadD
    · exact hd

/-- Seventeen zeros make room for two words, which the response declares and no decoder for one word
takes. -/
theorem not_decode_paddedRequest :
    ((toyGroup.handleSign (paddedRequest 17)).run.run toyWorkspace).1 =
      .ok { c := .number ⟨"9", some 2⟩, d := .number ⟨"8", some 1⟩ } ∧
    SentNumber.decode 1 ⟨"9", some 2⟩ = .error (.undecodable (.roomTooLarge 2 1)) ∧
    ((toyGroup.handleVerify (CurveGroup.checkingRequest ⟨"3", none⟩ ⟨1, ["2"], ["A"]⟩
      (.number ⟨"9", some 2⟩) (.number ⟨"8", some 1⟩))).run.run toyWorkspace).1 =
        .error (.failure (.undecodable (.roomTooLarge 2 1))) := by
  refine ⟨?_, ?_, ?_⟩ <;> decide +kernel

end NybergRueppel
