import NybergRueppel.Proofs.Checked.Signing
import NybergRueppel.Proofs.Checked.Written
import NybergRueppel.Proofs.Exchange.RoundTrip
import NybergRueppel.Proofs.Group.Points
import NybergRueppel.Proofs.Group.Requirements

/-!
Requests on the checking machine. Whatever a text asks of a group that was built from parameters,
the machine answers it as the group does, from every workspace and with the same memory in the end.
-/
namespace NybergRueppel

open Checked CheckedCall

/-- A step of the machine that may fail. -/
abbrev CheckedStep := ExceptT Failure Checked

namespace CheckedStep

variable {α β : Type}

/-- A step that cannot trap. -/
def known (result : Except Failure α) : CheckedStep α :=
  ExceptT.mk (.ok result)

theorem known_bind (step : Except Failure α) (next : α → Except Failure β) :
    known (step >>= next) = known step >>= fun a => known (next a) := by
  cases step <;> rfl

theorem known_pure (a : α) : known (pure a) = pure a :=
  rfl

/-- The first failure of a list is found in both ways. -/
theorem known_mapM (step : α → Except Failure β) (xs : List α) :
    known (xs.mapM step) = xs.mapM fun x => known (step x) := by
  induction xs with
  | nil => rfl
  | cons x xs ih => simp only [List.mapM_cons, known_bind, known_pure, ih]

end CheckedStep

open CheckedStep

namespace SentNumber

/-- The number for a group with integers of `n` limbs. A room beyond `n` words is refused. -/
def checkedDecode (n : Nat) (sent : SentNumber) : CheckedStep BufferedInt := do
  let value ← ExceptT.mk (BufferedInt.checkedOfHex sent.value)
  match sent.room with
  | none => return value
  | some room =>
    if n < room then throw (.undecodable (.roomTooLarge room n)) else return value.withMinRoom room

/-- A number with its room. -/
def checkedOfNumber (a : BufferedInt) : Checked SentNumber := do
  return { value := ← a.checkedToHex, room := some a.room }

theorem checkedDecode_eq (n : Nat) (sent : SentNumber) :
    sent.checkedDecode n = known (sent.decode n) := by
  rw [checkedDecode, decode, known_bind, BufferedInt.checkedOfHex_eq]
  congr 1
  funext value
  cases sent.room with
  | none => rfl
  | some room =>
      dsimp only
      split <;> rfl

theorem checkedOfNumber_eq {a : BufferedInt} (h : a.IsNormal) :
    checkedOfNumber a = .ok (ofNumber a) := by
  rw [checkedOfNumber, BufferedInt.checkedToHex_eq h]
  rfl

end SentNumber

/-- The point of a group. The claimed element length is checked before the coordinates are read. -/
def SentPoint.checkedDecode {n : Nat} (group : CurveGroup n) (sent : SentPoint) :
    CheckedStep (JacobianPoint n) := do
  let elementLength ← ExceptT.lift group.field.checkedElementLength
  if sent.elementLength ≠ elementLength then throw .keyLengthMismatch
  else
    let x ← sent.x.mapM fun text => ExceptT.mk (checkedReadNumber n .pointX text)
    let y ← sent.y.mapM fun text => ExceptT.mk (checkedReadNumber n .pointY text)
    ExceptT.mk (group.checkedOfAffine x y)

theorem SentPoint.checkedDecode_eq {n : Nat} {group : CurveGroup n} (hf : group.field.IsBuilt)
    (sent : SentPoint) : sent.checkedDecode group = known (sent.decode group) := by
  have hRead (quantity : Quantity) (texts : List String) :
      (texts.mapM fun text => ExceptT.mk (checkedReadNumber n quantity text)) =
        known (readNumbers n quantity texts) := by
    simp only [readNumbers, known_mapM, checkedReadNumber_eq]
    rfl
  have hLength : ExceptT.lift group.field.checkedElementLength =
      (pure group.elementLength : CheckedStep Nat) := by
    rw [group.field.checkedElementLength_eq]
    rfl
  rw [checkedDecode, decode, hLength, pure_bind]
  split
  · rfl
  · simp only [hRead, known_bind, CurveGroup.checkedOfAffine_eq hf]
    rfl

namespace CurveGroup

variable {n : Nat} (group : CurveGroup n)

/-- Decodes a request for a signature. -/
def checkedDecodeSignRequest (tables : Nat) (request : SignRequest) : CheckedStep SigningTask := do
  let message ← known (SentObject.present request.message)
  let key ← known (SentObject.present request.key)
  let nonce ← known (SentObject.present request.nonce)
  let c ← known (SentObject.present request.c)
  let d ← known (SentObject.present request.d)
  let message ← known message.asNumber
  let key ← known key.asNumber
  let nonce ← known nonce.asNumber
  let c ← known c.asNumber
  let d ← known d.asNumber
  ExceptT.mk (group.checkedTables tables signTables)
  let message ← message.checkedDecode n
  let key ← key.checkedDecode n
  let nonce ← nonce.checkedDecode n
  let c ← c.checkedDecode n
  let d ← d.checkedDecode n
  return { message := message, key := key, nonce := nonce, out := { c := c, d := d } }

/-- Decodes a request to check a signature. -/
def checkedDecodeVerifyRequest (tables : Nat) (request : VerifyRequest) :
    CheckedStep (VerifyingTask n) := do
  let message ← known (SentObject.present request.message)
  let key ← known (SentObject.present request.key)
  let c ← known (SentObject.present request.c)
  let d ← known (SentObject.present request.d)
  let message ← known message.asNumber
  let key ← known key.asPoint
  let c ← known c.asNumber
  let d ← known d.asNumber
  ExceptT.mk (group.checkedTables tables verifyTables)
  let key ← key.checkedDecode group
  let message ← message.checkedDecode n
  let c ← c.checkedDecode n
  let d ← d.checkedDecode n
  return { message := message, key := key, signature := { c := c, d := d } }

/-- Answers a request for a signature. -/
def checkedHandleSign (request : SignRequest) : CheckedCall n SignResponse := do
  let tables ← capacity
  let task ← ofStep (group.checkedDecodeSignRequest tables request)
  let signature ← group.checkedSign task.message task.key task.nonce task.out
  let c ← lift (SentNumber.checkedOfNumber signature.c)
  let d ← lift (SentNumber.checkedOfNumber signature.d)
  return { c := .number c, d := .number d }

/-- Answers a request to check a signature. -/
def checkedHandleVerify (request : VerifyRequest) : CheckedCall n VerifyResponse := do
  let tables ← capacity
  let task ← ofStep (group.checkedDecodeVerifyRequest tables request)
  return { result := ← group.checkedVerify task.message task.key task.signature }

/-- Answers the text of a request for a signature with the text of the response. -/
def checkedSignText (text : String) : CheckedCall n String := do
  match (Json.read? text).bind SignRequest.ofJson? with
  | none => fail (.undecodable .malformedJson)
  | some request => return (← group.checkedHandleSign request).toJson.compactText

/-- Answers the text of a request to check a signature with the text of the response. -/
def checkedVerifyText (text : String) : CheckedCall n String := do
  match (Json.read? text).bind VerifyRequest.ofJson? with
  | none => fail (.undecodable .malformedJson)
  | some request => return (← group.checkedHandleVerify request).toJson.compactText

variable {group}

theorem checkedDecodeSignRequest_eq (scratch : Scratch n) (request : SignRequest) :
    group.checkedDecodeSignRequest scratch.capacity request =
      known (group.decodeSignRequest scratch request) := by
  simp only [checkedDecodeSignRequest, decodeSignRequest, known_bind, known_pure,
    SentNumber.checkedDecode_eq, checkedTables_eq]
  rfl

theorem checkedDecodeVerifyRequest_eq (hf : group.field.IsBuilt) (scratch : Scratch n)
    (request : VerifyRequest) :
    group.checkedDecodeVerifyRequest scratch.capacity request =
      known (group.decodeVerifyRequest scratch request) := by
  simp only [checkedDecodeVerifyRequest, decodeVerifyRequest, known_bind, known_pure,
    SentNumber.checkedDecode_eq, SentPoint.checkedDecode_eq hf, checkedTables_eq]
  rfl

/-- All numbers of a task are normal. -/
def SigningTask.IsNormal (task : SigningTask) : Prop :=
  (task.message.IsNormal ∧ task.key.IsNormal ∧ task.nonce.IsNormal) ∧
    task.out.c.IsNormal ∧ task.out.d.IsNormal

theorem isNormal_of_decodeSignRequest_eq {scratch : Scratch n} {request : SignRequest}
    {task : SigningTask} (h : group.decodeSignRequest scratch request = .ok task) :
    task.IsNormal := by
  rw [decodeSignRequest] at h
  iterate 11 obtain ⟨_, -, h⟩ := exists_of_bind_eq_ok h
  obtain ⟨message, hMessage, h⟩ := exists_of_bind_eq_ok h
  obtain ⟨key, hKey, h⟩ := exists_of_bind_eq_ok h
  obtain ⟨nonce, hNonce, h⟩ := exists_of_bind_eq_ok h
  obtain ⟨c, hc, h⟩ := exists_of_bind_eq_ok h
  obtain ⟨d, hd, h⟩ := exists_of_bind_eq_ok h
  cases h
  exact ⟨⟨SentNumber.isNormal_of_decode_eq hMessage, SentNumber.isNormal_of_decode_eq hKey,
    SentNumber.isNormal_of_decode_eq hNonce⟩, SentNumber.isNormal_of_decode_eq hc,
    SentNumber.isNormal_of_decode_eq hd⟩

theorem isNormal_of_decodeVerifyRequest_eq {scratch : Scratch n} {request : VerifyRequest}
    {task : VerifyingTask n} (h : group.decodeVerifyRequest scratch request = .ok task) :
    task.message.IsNormal ∧ task.signature.c.IsNormal ∧ task.signature.d.IsNormal := by
  rw [decodeVerifyRequest] at h
  iterate 10 obtain ⟨_, -, h⟩ := exists_of_bind_eq_ok h
  obtain ⟨message, hMessage, h⟩ := exists_of_bind_eq_ok h
  obtain ⟨c, hc, h⟩ := exists_of_bind_eq_ok h
  obtain ⟨d, hd, h⟩ := exists_of_bind_eq_ok h
  cases h
  exact ⟨SentNumber.isNormal_of_decode_eq hMessage, SentNumber.isNormal_of_decode_eq hc,
    SentNumber.isNormal_of_decode_eq hd⟩

theorem handleSign_eq (request : SignRequest) :
    group.handleSign request = (do
      let ws ← get
      let task ← Call.ofExcept (group.decodeSignRequest ws.scratch request)
      let signature ← group.signed task.message task.key task.nonce task.out
      return {
        c := .number (.ofNumber signature.c)
        d := .number (.ofNumber signature.d) }) := by
  simp only [handleSign, signed, bind_assoc]
  congr 1
  funext ws
  congr 1
  funext task
  congr 1
  funext result
  obtain ⟨outcome, signature⟩ := result
  cases outcome <;> rfl

theorem refines_handleSign (hf : group.field.IsBuilt) (request : SignRequest) :
    Refines none none (group.checkedHandleSign request) (group.handleSign request)
      fun _ => True := by
  rw [handleSign_eq]
  refine refines_capacity fun ws => ?_
  refine (refines_ofStep (checkedDecodeSignRequest_eq ws.scratch request)
    fun _ => isNormal_of_decodeSignRequest_eq).bind fun task hTask => ?_
  obtain ⟨⟨hMessage, hKey, hNonce⟩, hOutC, hOutD⟩ := hTask
  refine (refines_sign hf hMessage hKey hNonce hOutC hOutD).bind fun signature hSignature => ?_
  rw [lift_bind (SentNumber.checkedOfNumber_eq hSignature.1),
    lift_bind (SentNumber.checkedOfNumber_eq hSignature.2)]
  exact refines_pure trivial

theorem refines_handleVerify (hf : group.field.IsBuilt) (request : VerifyRequest) :
    Refines none none (group.checkedHandleVerify request) (group.handleVerify request)
      fun _ => True := by
  refine refines_capacity fun ws => ?_
  refine (refines_ofStep (checkedDecodeVerifyRequest_eq hf ws.scratch request)
    fun _ => isNormal_of_decodeVerifyRequest_eq).bind fun task hTask => ?_
  obtain ⟨hMessage, hc, hd⟩ := hTask
  exact (refines_verify hf hMessage hc hd task.key).bind fun _ _ => refines_pure trivial

theorem refines_signText (hf : group.field.IsBuilt) (text : String) :
    Refines none none (group.checkedSignText text) (group.signText text) fun _ => True := by
  rw [checkedSignText, signText]
  cases (Json.read? text).bind SignRequest.ofJson? with
  | none => exact refines_fail _
  | some request =>
      exact (refines_handleSign hf request).bind fun _ _ => refines_pure trivial

theorem refines_verifyText (hf : group.field.IsBuilt) (text : String) :
    Refines none none (group.checkedVerifyText text) (group.verifyText text) fun _ => True := by
  rw [checkedVerifyText, verifyText]
  cases (Json.read? text).bind VerifyRequest.ofJson? with
  | none => exact refines_fail _
  | some request =>
      exact (refines_handleVerify hf request).bind fun _ _ => refines_pure trivial

theorem isBuilt_of_ofParameters_eq {params : DomainParameters}
    (h : ofParameters n params = .ok group) : group.field.IsBuilt := by
  obtain ⟨-, -, -, hField, -⟩ := ofParameters_eq_ok h
  exact (isConstructed_of_readField hField).isBuilt

/-- No request stops the machine. For a group built from any parameters, from every workspace and
for every text it runs through, and it gives the same answer and leaves the same memory as the
group does. -/
theorem requests_never_trap {params : DomainParameters}
    (hGroup : ofParameters n params = .ok group) (ws : Workspace n) (text : String) :
    (∃ answer ws', Runs (group.checkedSignText text) ws.memory answer ws'.memory ∧
        (group.signText text).Ends ws (answer.mapError .failure) ws') ∧
      ∃ answer ws', Runs (group.checkedVerifyText text) ws.memory answer ws'.memory ∧
        (group.verifyText text).Ends ws (answer.mapError .failure) ws' := by
  have hf := isBuilt_of_ofParameters_eq hGroup
  obtain ⟨answer, ws', -, -, hSign⟩ := refines_signText hf text ws ws.holds_none
  obtain ⟨answer', ws'', -, -, hVerify⟩ := refines_verifyText hf text ws ws.holds_none
  exact ⟨⟨answer, ws', hSign⟩, answer', ws'', hVerify⟩

end CurveGroup

/-- The curve `y ^ 2 = x ^ 3 + x + 16` modulo 35, with an order that is not the one of the base
point `(0, 11)`. -/
def compositeParameters : DomainParameters where
  name := "composite"
  prime := "23"
  extension := none
  a := .prime "1"
  b := .prime "10"
  generator := { x := .prime "0", y := .prime "b" }
  order := "17"

theorem isSome_compositeGroup :
    (CurveGroup.ofParameters 1 compositeParameters).toOption.isSome = true := by
  decide +kernel

def compositeGroup : CurveGroup 1 :=
  (CurveGroup.ofParameters 1 compositeParameters).toOption.get isSome_compositeGroup

/-- Five integer slots and three point slots are lent to somebody else. -/
def sharedWorkspace : Workspace 1 where
  pool := {
    elements := { SlotStack.withCapacity 8 with live := 5 }
    points := { SlotStack.withCapacity 4 with live := 3 } }
  scratch := .withCapacity 2

theorem requests_never_trap_compositeGroup :
    let signing := "[[\"big_num\",\"3\"],[\"big_num\",\"5\"],[\"big_num\",\"7\"]," ++
      "[\"big_num\",\"0\",1],[\"big_num\",\"0\",1]]"
    let verifying := "[[\"big_num\",\"3\"],[\"point\",1,[\"0\"],[\"b\"]]," ++
      "[\"big_num\",\"11\"],[\"big_num\",\"e\"]]"
    CurveGroup.ofParameters 1 compositeParameters = .ok compositeGroup ∧
      (∃ answer memory, Runs (compositeGroup.checkedSignText signing) sharedWorkspace.memory
        (.ok answer) memory) ∧
      ∃ answer memory, Runs (compositeGroup.checkedVerifyText verifying) sharedWorkspace.memory
        (.ok answer) memory := by
  intro signing verifying
  have hGroup : CurveGroup.ofParameters 1 compositeParameters = .ok compositeGroup :=
    eq_ok_get_toOption isSome_compositeGroup
  refine ⟨hGroup, ?_, ?_⟩
  · obtain ⟨⟨answer, ws', hRuns, hEnds⟩, -⟩ :=
      CurveGroup.requests_never_trap hGroup sharedWorkspace signing
    have hAnswered :
        ((compositeGroup.signText signing).run.run sharedWorkspace).1.toOption.isSome = true := by
      decide +kernel
    rw [hEnds] at hAnswered
    cases answer with
    | error failure => cases hAnswered
    | ok answer => exact ⟨answer, _, hRuns⟩
  · obtain ⟨-, answer, ws', hRuns, hEnds⟩ :=
      CurveGroup.requests_never_trap hGroup sharedWorkspace verifying
    have hAnswered :
        ((compositeGroup.verifyText verifying).run.run sharedWorkspace).1.toOption.isSome =
          true := by
      decide +kernel
    rw [hEnds] at hAnswered
    cases answer with
    | error failure => cases hAnswered
    | ok answer => exact ⟨answer, _, hRuns⟩

end NybergRueppel
