import NybergRueppel.Proofs.Exchange.RoundTrip
import NybergRueppel.Proofs.Group.Requirements

/-!
What a request fails with. Presence is checked first, then the kinds of the objects, then what the
group and the scratch tables have to satisfy, and then the objects are decoded one after the other.
A request that passes is answered with the outcome of the group on what it decodes to; one that does
not pass leaves the workspace as it was.
-/
namespace NybergRueppel

open Call

/-- A step that fails exactly if a condition holds. -/
theorem failsLike_ite {α : Type} (refuses : Prop) [Decidable refuses] (failure : Failure) (a : α) :
    FailsLike (if refuses then .error failure else .ok a) [⟨decide refuses, failure⟩] := by
  by_cases h : refuses
  · rw [if_pos h, decide_eq_true h]
    rfl
  · rw [if_neg h, decide_eq_false h]
    rfl

namespace SentNumber

variable {n : Nat}

/-- The characters of a number that have to be digits. -/
def digits (sent : SentNumber) : List Char :=
  Hexadecimal.withoutMark (BufferedInt.splitSign (Text.trim sent.value.toList)).2

/-- The checks on the text of a number: it has digits, and the character closest to its end that is
no digit is reported. -/
def textChecks (sent : SentNumber) : List Check :=
  ⟨sent.digits.isEmpty,
    .undecodable (.emptyNumber (String.ofList (Text.trim sent.value.toList)))⟩ ::
  sent.digits.reverse.map fun c =>
    ⟨(Hexadecimal.digitValue? c).isNone, .undecodable (.invalidDigit c)⟩

/-- The checks of decoding a number: its text is read before its room is looked at. -/
def checks (n : Nat) (sent : SentNumber) : List Check :=
  sent.textChecks ++ sent.room.toList.map fun room =>
    ⟨decide (n < room), .undecodable (.roomTooLarge room n)⟩

theorem failsLike_limbsOfDigits (digits : List Char) :
    FailsLike ((Hexadecimal.limbsOfDigits digits).mapError fun c => .undecodable (.invalidDigit c))
      (digits.reverse.map fun c =>
        ⟨(Hexadecimal.digitValue? c).isNone, .undecodable (.invalidDigit c)⟩) := by
  let digit (c : Char) : Except Char UInt64 := (Hexadecimal.digitValue? c).elim (.error c) .ok
  have hDigit (c : Char) : FailsLike ((digit c).mapError fun c => .undecodable (.invalidDigit c))
      [⟨(Hexadecimal.digitValue? c).isNone, .undecodable (.invalidDigit c)⟩] := by
    dsimp only [digit]
    cases Hexadecimal.digitValue? c <;> rfl
  have hLimbs : Hexadecimal.limbsOfDigits digits =
      digits.reverse.mapM digit >>= fun values => pure (Limbs.ofDigits 4 16 values) := by
    rw [Hexadecimal.limbsOfDigits]
    congr 2
    funext c
    dsimp only [digit]
    cases Hexadecimal.digitValue? c <;> rfl
  have hDigits := FailsLike.mapM hDigit digits.reverse
  rw [FailsLike] at hDigits ⊢
  rw [← hDigits, hLimbs]
  cases digits.reverse.mapM digit <;> rfl

theorem failsLike_ofHex (sent : SentNumber) :
    FailsLike (BufferedInt.ofHex sent.value) sent.textChecks := by
  have hDigits := failsLike_limbsOfDigits sent.digits
  rw [BufferedInt.ofHex, textChecks]
  dsimp only
  rw [← digits]
  cases hText : sent.digits with
  | nil => rfl
  | cons c cs =>
      rw [hText] at hDigits
      rw [FailsLike] at hDigits ⊢
      rw [firstFailure, List.isEmpty_cons, if_neg Bool.false_ne_true, ← hDigits]
      dsimp only
      cases Hexadecimal.limbsOfDigits (c :: cs) <;> rfl

theorem failsLike_decode (n : Nat) (sent : SentNumber) :
    FailsLike (sent.decode n) (sent.checks n) := by
  refine sent.failsLike_ofHex.bind fun value _ => ?_
  cases sent.room with
  | none => rfl
  | some room => exact failsLike_ite (n < room) _ _

end SentNumber

namespace CurveGroup

variable {n : Nat}

/-- The coefficients are canonical coordinates of a point on the curve. -/
def hasAffine (group : CurveGroup n) (x y : List (FixedNat n)) : Bool :=
  match group.field.encode? x, group.field.encode? y with
  | some x, some y => group.curve.contains (group.curve.ofAffine x y)
  | _, _ => false

theorem failsLike_ofAffine (group : CurveGroup n) (x y : List (FixedNat n)) :
    FailsLike (group.ofAffine x y) [⟨!group.hasAffine x y, .invalidPoint⟩] := by
  rw [ofAffine, hasAffine]
  cases group.field.encode? x with
  | none => rfl
  | some x =>
      cases group.field.encode? y with
      | none => rfl
      | some y =>
          dsimp only
          cases group.curve.contains (group.curve.ofAffine x y) <;> rfl

end CurveGroup

/-- The checks of reading numbers: the first text that is no number is reported. -/
def readChecks (n : Nat) (quantity : Quantity) (texts : List String) : List Check :=
  texts.map fun text =>
    ⟨(FixedNat.ofHex? n text).isNone, .undecodable (.badNumber quantity text)⟩

theorem failsLike_readNumbers (n : Nat) (quantity : Quantity) (texts : List String) :
    FailsLike (readNumbers n quantity texts) (readChecks n quantity texts) := by
  have hRead (text : String) : FailsLike ((readNumber n quantity text).mapError id)
      [⟨(FixedNat.ofHex? n text).isNone, .undecodable (.badNumber quantity text)⟩] := by
    rw [readNumber]
    cases FixedNat.ofHex? n text <;> rfl
  have hReads := FailsLike.mapM hRead texts
  rw [← readNumbers] at hReads
  cases hNumbers : readNumbers n quantity texts <;> rw [hNumbers] at hReads <;> exact hReads

theorem readNumbers_eq_ok {n : Nat} {quantity : Quantity} {texts : List String}
    {xs : List (FixedNat n)} (h : readNumbers n quantity texts = .ok xs) :
    xs = texts.map (writtenNumber n) := by
  rcases readNumbers_cases n quantity texts with ⟨-, hRead⟩ | ⟨-, failure, hRead, -⟩
  · rw [hRead] at h
    exact (Except.ok.inj h).symm
  · rw [hRead] at h
    cases h

namespace SentPoint

variable {n : Nat} {group : CurveGroup n}

/-- The checks of decoding a point: the element length comes before the texts of the coordinates,
and these before the equation of the curve. -/
def checks (group : CurveGroup n) (sent : SentPoint) : List Check :=
  [⟨decide (sent.elementLength ≠ group.elementLength), .keyLengthMismatch⟩] ++
  (readChecks n .pointX sent.x ++ (readChecks n .pointY sent.y ++
  [⟨!group.hasAffine (sent.x.map (writtenNumber n)) (sent.y.map (writtenNumber n)),
    .invalidPoint⟩]))

theorem failsLike_decode (group : CurveGroup n) (sent : SentPoint) :
    FailsLike (sent.decode group) (sent.checks group) := by
  have hDecode : sent.decode group = (do
      let () ← (if sent.elementLength ≠ group.elementLength then .error .keyLengthMismatch
        else .ok () : Except Failure Unit)
      let x ← readNumbers n .pointX sent.x
      let y ← readNumbers n .pointY sent.y
      group.ofAffine x y) := by
    rw [decode]
    split <;> rfl
  rw [hDecode]
  refine (failsLike_ite (sent.elementLength ≠ group.elementLength) _ ()).bind fun _ _ => ?_
  refine (failsLike_readNumbers n .pointX sent.x).bind fun x hx => ?_
  refine (failsLike_readNumbers n .pointY sent.y).bind fun y hy => ?_
  rw [← readNumbers_eq_ok hx, ← readNumbers_eq_ok hy]
  exact group.failsLike_ofAffine x y

end SentPoint

namespace SentObject

variable {n : Nat}

def isNumber : SentObject → Bool
  | .number _ => true
  | .point _ => false

def isPoint : SentObject → Bool
  | .number _ => false
  | .point _ => true

/-- An object has to be present. -/
def presence (object : Option SentObject) : Check :=
  ⟨object.isNone, .missingObject⟩

/-- An object that is present has to be of the right kind. -/
def agreement (isRight : SentObject → Bool) (object : Option SentObject) : Check :=
  ⟨object.any fun sent => !isRight sent, .wrongObject⟩

/-- The checks of decoding an object. -/
def payloadChecks (group : CurveGroup n) : Option SentObject → List Check
  | some (.number sent) => sent.checks n
  | some (.point sent) => sent.checks group
  | none => []

theorem failsLike_present (object : Option SentObject) :
    FailsLike (present object) [presence object] := by
  cases object <;> rfl

theorem of_present_eq {object : Option SentObject} {sent : SentObject}
    (h : present object = .ok sent) : object = some sent := by
  cases object with
  | none => cases h
  | some _ => exact congrArg some (Except.ok.inj h)

theorem failsLike_asNumber (sent : SentObject) :
    FailsLike sent.asNumber [agreement isNumber (some sent)] := by
  cases sent <;> rfl

theorem of_asNumber_eq {sent : SentObject} {number : SentNumber} (h : sent.asNumber = .ok number) :
    sent = .number number := by
  cases sent with
  | number _ => exact congrArg SentObject.number (Except.ok.inj h)
  | point _ => cases h

theorem failsLike_asPoint (sent : SentObject) :
    FailsLike sent.asPoint [agreement isPoint (some sent)] := by
  cases sent <;> rfl

theorem of_asPoint_eq {sent : SentObject} {point : SentPoint} (h : sent.asPoint = .ok point) :
    sent = .point point := by
  cases sent with
  | number _ => cases h
  | point _ => exact congrArg SentObject.point (Except.ok.inj h)

end SentObject

namespace CurveGroup

variable {n : Nat} {group : CurveGroup n}

/-- What is checked before anything is decoded. -/
def requestChecks (group : CurveGroup n) (scratch : Scratch n) (tables : Nat) : List Check := [
  ⟨group.isExtension, .unsupportedMode⟩,
  ⟨decide (scratch.capacity < tables), .bufferTooSmall⟩]

theorem failsLike_checkRequest (group : CurveGroup n) (scratch : Scratch n) (tables : Nat) :
    FailsLike (group.checkRequest scratch tables) (group.requestChecks scratch tables) := by
  apply FailsLike.of_eq
  simp only [checkRequest, requestChecks, firstFailure, decide_eq_true_iff]

open SentObject

/-- The checks of a request for a signature in their order. -/
def signRequestChecks (group : CurveGroup n) (scratch : Scratch n) (request : SignRequest) :
    List Check :=
  let objects := [request.message, request.key, request.nonce, request.c, request.d]
  objects.map presence ++ objects.map (agreement isNumber) ++
    group.requestChecks scratch signTables ++ objects.flatMap (payloadChecks group)

/-- The checks of a request to check a signature in their order: the key is decoded first. -/
def verifyRequestChecks (group : CurveGroup n) (scratch : Scratch n) (request : VerifyRequest) :
    List Check :=
  [request.message, request.key, request.c, request.d].map presence ++
    [agreement isNumber request.message, agreement isPoint request.key,
      agreement isNumber request.c, agreement isNumber request.d] ++
    group.requestChecks scratch verifyTables ++
    [request.key, request.message, request.c, request.d].flatMap (payloadChecks group)

theorem failsLike_decodeSignRequest (group : CurveGroup n) (scratch : Scratch n)
    (request : SignRequest) :
    FailsLike (group.decodeSignRequest scratch request)
      (group.signRequestChecks scratch request) := by
  obtain ⟨message, key, nonce, c, d⟩ := request
  rw [decodeSignRequest, signRequestChecks]
  simp only [List.map_cons, List.map_nil, List.flatMap_cons, List.flatMap_nil, List.cons_append,
    List.nil_append]
  refine (failsLike_present message).bind fun message hMessage => ?_
  refine (failsLike_present key).bind fun key hKey => ?_
  refine (failsLike_present nonce).bind fun nonce hNonce => ?_
  refine (failsLike_present c).bind fun c hc => ?_
  refine (failsLike_present d).bind fun d hd => ?_
  rw [of_present_eq hMessage, of_present_eq hKey, of_present_eq hNonce, of_present_eq hc,
    of_present_eq hd]
  refine message.failsLike_asNumber.bind fun message hMessage => ?_
  refine key.failsLike_asNumber.bind fun key hKey => ?_
  refine nonce.failsLike_asNumber.bind fun nonce hNonce => ?_
  refine c.failsLike_asNumber.bind fun c hc => ?_
  refine d.failsLike_asNumber.bind fun d hd => ?_
  rw [of_asNumber_eq hMessage, of_asNumber_eq hKey, of_asNumber_eq hNonce, of_asNumber_eq hc,
    of_asNumber_eq hd]
  refine (group.failsLike_checkRequest scratch signTables).bind fun _ _ => ?_
  refine (message.failsLike_decode n).bind fun _ _ => ?_
  refine (key.failsLike_decode n).bind fun _ _ => ?_
  refine (nonce.failsLike_decode n).bind fun _ _ => ?_
  refine (c.failsLike_decode n).bind fun _ _ => ?_
  exact (d.failsLike_decode n).bind fun _ _ => rfl

theorem failsLike_decodeVerifyRequest (group : CurveGroup n) (scratch : Scratch n)
    (request : VerifyRequest) :
    FailsLike (group.decodeVerifyRequest scratch request)
      (group.verifyRequestChecks scratch request) := by
  obtain ⟨message, key, c, d⟩ := request
  rw [decodeVerifyRequest, verifyRequestChecks]
  simp only [List.map_cons, List.map_nil, List.flatMap_cons, List.flatMap_nil, List.cons_append,
    List.nil_append]
  refine (failsLike_present message).bind fun message hMessage => ?_
  refine (failsLike_present key).bind fun key hKey => ?_
  refine (failsLike_present c).bind fun c hc => ?_
  refine (failsLike_present d).bind fun d hd => ?_
  rw [of_present_eq hMessage, of_present_eq hKey, of_present_eq hc, of_present_eq hd]
  refine message.failsLike_asNumber.bind fun message hMessage => ?_
  refine key.failsLike_asPoint.bind fun key hKey => ?_
  refine c.failsLike_asNumber.bind fun c hc => ?_
  refine d.failsLike_asNumber.bind fun d hd => ?_
  rw [of_asNumber_eq hMessage, of_asPoint_eq hKey, of_asNumber_eq hc, of_asNumber_eq hd]
  refine (group.failsLike_checkRequest scratch verifyTables).bind fun _ _ => ?_
  refine (key.failsLike_decode group).bind fun _ _ => ?_
  refine (message.failsLike_decode n).bind fun _ _ => ?_
  refine (c.failsLike_decode n).bind fun _ _ => ?_
  exact (d.failsLike_decode n).bind fun _ _ => rfl

/-- A request that was decoded holds objects of the right kinds, and the task is what they decode
to. -/
theorem of_decodeSignRequest_eq {scratch : Scratch n} {request : SignRequest} {task : SigningTask}
    (h : group.decodeSignRequest scratch request = .ok task) :
    ∃ message key nonce c d : SentNumber,
      request = {
        message := some (.number message), key := some (.number key)
        nonce := some (.number nonce), c := some (.number c), d := some (.number d) } ∧
      message.decode n = .ok task.message ∧ key.decode n = .ok task.key ∧
      nonce.decode n = .ok task.nonce ∧ c.decode n = .ok task.out.c ∧
      d.decode n = .ok task.out.d := by
  obtain ⟨message, key, nonce, c, d⟩ := request
  rw [decodeSignRequest] at h
  dsimp only at h
  obtain ⟨_, hMessage, h⟩ := exists_of_bind_eq_ok h
  obtain ⟨_, hKey, h⟩ := exists_of_bind_eq_ok h
  obtain ⟨_, hNonce, h⟩ := exists_of_bind_eq_ok h
  obtain ⟨_, hc, h⟩ := exists_of_bind_eq_ok h
  obtain ⟨_, hd, h⟩ := exists_of_bind_eq_ok h
  obtain ⟨message, hNumber, h⟩ := exists_of_bind_eq_ok h
  rw [of_present_eq hMessage, of_asNumber_eq hNumber]
  obtain ⟨key, hNumber, h⟩ := exists_of_bind_eq_ok h
  rw [of_present_eq hKey, of_asNumber_eq hNumber]
  obtain ⟨nonce, hNumber, h⟩ := exists_of_bind_eq_ok h
  rw [of_present_eq hNonce, of_asNumber_eq hNumber]
  obtain ⟨c, hNumber, h⟩ := exists_of_bind_eq_ok h
  rw [of_present_eq hc, of_asNumber_eq hNumber]
  obtain ⟨d, hNumber, h⟩ := exists_of_bind_eq_ok h
  rw [of_present_eq hd, of_asNumber_eq hNumber]
  obtain ⟨-, -, h⟩ := exists_of_bind_eq_ok h
  obtain ⟨_, hMessage, h⟩ := exists_of_bind_eq_ok h
  obtain ⟨_, hKey, h⟩ := exists_of_bind_eq_ok h
  obtain ⟨_, hNonce, h⟩ := exists_of_bind_eq_ok h
  obtain ⟨_, hc, h⟩ := exists_of_bind_eq_ok h
  obtain ⟨_, hd, h⟩ := exists_of_bind_eq_ok h
  cases h
  exact ⟨message, key, nonce, c, d, rfl, hMessage, hKey, hNonce, hc, hd⟩

theorem of_decodeVerifyRequest_eq {scratch : Scratch n} {request : VerifyRequest}
    {task : VerifyingTask n} (h : group.decodeVerifyRequest scratch request = .ok task) :
    ∃ (message : SentNumber) (key : SentPoint) (c d : SentNumber),
      request = checkingRequest message key (.number c) (.number d) ∧
      message.decode n = .ok task.message ∧ key.decode group = .ok task.key ∧
      c.decode n = .ok task.signature.c ∧ d.decode n = .ok task.signature.d := by
  obtain ⟨message, key, c, d⟩ := request
  rw [decodeVerifyRequest] at h
  dsimp only at h
  obtain ⟨_, hMessage, h⟩ := exists_of_bind_eq_ok h
  obtain ⟨_, hKey, h⟩ := exists_of_bind_eq_ok h
  obtain ⟨_, hc, h⟩ := exists_of_bind_eq_ok h
  obtain ⟨_, hd, h⟩ := exists_of_bind_eq_ok h
  obtain ⟨message, hNumber, h⟩ := exists_of_bind_eq_ok h
  rw [of_present_eq hMessage, of_asNumber_eq hNumber]
  obtain ⟨key, hPoint, h⟩ := exists_of_bind_eq_ok h
  rw [of_present_eq hKey, of_asPoint_eq hPoint]
  obtain ⟨c, hNumber, h⟩ := exists_of_bind_eq_ok h
  rw [of_present_eq hc, of_asNumber_eq hNumber]
  obtain ⟨d, hNumber, h⟩ := exists_of_bind_eq_ok h
  rw [of_present_eq hd, of_asNumber_eq hNumber]
  obtain ⟨-, -, h⟩ := exists_of_bind_eq_ok h
  obtain ⟨_, hKey, h⟩ := exists_of_bind_eq_ok h
  obtain ⟨_, hMessage, h⟩ := exists_of_bind_eq_ok h
  obtain ⟨_, hc, h⟩ := exists_of_bind_eq_ok h
  obtain ⟨_, hd, h⟩ := exists_of_bind_eq_ok h
  cases h
  exact ⟨message, key, c, d, rfl, hMessage, hKey, hc, hd⟩

/-- The answer to a request whose objects decode to a task: the outcome of signing, with the
components that were stored. -/
def signAnswer (group : CurveGroup n) (task : SigningTask) (ws : Workspace n) :
    Except Stop SignResponse × Workspace n :=
  let ((outcome, signature), ws') :=
    (group.sign task.message task.key task.nonce task.out).run ws
  (outcome.map fun _ => {
    c := .number (.ofNumber signature.c)
    d := .number (.ofNumber signature.d) }, ws')

/-- The answer to a request whose objects decode to a task: the verdict of the verification. -/
def verifyAnswer (group : CurveGroup n) (task : VerifyingTask n) (ws : Workspace n) :
    Except Stop VerifyResponse × Workspace n :=
  let (outcome, ws') := (group.verify task.message task.key task.signature).run.run ws
  (outcome.map fun verdict => { result := verdict }, ws')

/-- A request is refused by the first check in its order that does not pass, and then the workspace
is as it was: missing objects come before objects of the wrong kind, these before the extension
field and the missing window tables, and these before what the objects fail to decode with. A
request that passes holds objects of the right kinds and is answered, from the same workspace and
with the same effect on it, with the outcome of the group on what they decode to. -/
theorem requests_fail_in_order (group : CurveGroup n) (ws : Workspace n) :
    (∀ request : SignRequest,
      (∃ failure,
        firstFailure (group.signRequestChecks ws.scratch request) = .error failure ∧
        (group.handleSign request).run.run ws = (.error (.failure failure), ws)) ∨
      (firstFailure (group.signRequestChecks ws.scratch request) = .ok () ∧
        ∃ (message key nonce c d : SentNumber) (task : SigningTask),
          request = {
            message := some (.number message), key := some (.number key)
            nonce := some (.number nonce), c := some (.number c), d := some (.number d) } ∧
          message.decode n = .ok task.message ∧ key.decode n = .ok task.key ∧
          nonce.decode n = .ok task.nonce ∧ c.decode n = .ok task.out.c ∧
          d.decode n = .ok task.out.d ∧
          (group.handleSign request).run.run ws = group.signAnswer task ws)) ∧
    (∀ request : VerifyRequest,
      (∃ failure,
        firstFailure (group.verifyRequestChecks ws.scratch request) = .error failure ∧
        (group.handleVerify request).run.run ws = (.error (.failure failure), ws)) ∨
      (firstFailure (group.verifyRequestChecks ws.scratch request) = .ok () ∧
        ∃ (message : SentNumber) (key : SentPoint) (c d : SentNumber) (task : VerifyingTask n),
          request = {
            message := some (.number message), key := some (.point key)
            c := some (.number c), d := some (.number d) } ∧
          message.decode n = .ok task.message ∧ key.decode group = .ok task.key ∧
          c.decode n = .ok task.signature.c ∧ d.decode n = .ok task.signature.d ∧
          (group.handleVerify request).run.run ws = group.verifyAnswer task ws)) := by
  constructor
  · intro request
    have hChecks := group.failsLike_decodeSignRequest ws.scratch request
    cases hTask : group.decodeSignRequest ws.scratch request with
    | error failure =>
        exact .inl ⟨failure, hChecks.eq_error hTask, ends_handleSign_of_error hTask⟩
    | ok task =>
        obtain ⟨message, key, nonce, c, d, hRequest, hMessage, hKey, hNonce, hc, hd⟩ :=
          of_decodeSignRequest_eq hTask
        exact .inr ⟨hChecks.eq_ok hTask, message, key, nonce, c, d, task, hRequest, hMessage, hKey,
          hNonce, hc, hd, ends_handleSign hTask rfl⟩
  · intro request
    have hChecks := group.failsLike_decodeVerifyRequest ws.scratch request
    cases hTask : group.decodeVerifyRequest ws.scratch request with
    | error failure =>
        exact .inl ⟨failure, hChecks.eq_error hTask, ends_handleVerify_of_error hTask⟩
    | ok task =>
        obtain ⟨message, key, c, d, hRequest, hMessage, hKey, hc, hd⟩ :=
          of_decodeVerifyRequest_eq hTask
        exact .inr ⟨hChecks.eq_ok hTask, message, key, c, d, task, hRequest, hMessage, hKey, hc,
          hd, ends_handleVerify hTask rfl⟩

/-- A point in place of the message and a room that is too large do not matter without a key. -/
example (group : CurveGroup n) (ws : Workspace n) (number : SentNumber) :
    firstFailure (group.signRequestChecks ws.scratch {
      message := some (.point ⟨0, [], []⟩), key := none, nonce := some (.number number)
      c := some (.number ⟨"0", some (n + 1)⟩), d := some (.number number) }) =
        .error .missingObject :=
  rfl

end CurveGroup

end NybergRueppel
