import NybergRueppel.Exchange.Request
import NybergRueppel.Signature.Sign
import NybergRueppel.Signature.Verify

/-!
Answering requests. The objects of a request are looked at in three rounds: all of them have to be
present, all have to be of the right kind, and then they are decoded one after the other. Only after
that does the group do its work.
-/
namespace NybergRueppel

namespace SentObject

/-- An object that has to be present. -/
def present : Option SentObject → Except Failure SentObject
  | some sent => .ok sent
  | none => .error .missingObject

/-- An object that has to be a number. -/
def asNumber : SentObject → Except Failure SentNumber
  | .number sent => .ok sent
  | .point _ => .error .wrongObject

/-- An object that has to be a point. -/
def asPoint : SentObject → Except Failure SentPoint
  | .point sent => .ok sent
  | .number _ => .error .wrongObject

end SentObject

namespace CurveGroup

variable {n : Nat}

/-- What has to hold before a request is decoded: the field is a prime field, and there are enough
window tables. -/
def checkRequest (group : CurveGroup n) (scratch : Scratch n) (tables : Nat) :
    Except Failure Unit :=
  if group.isExtension then .error .unsupportedMode
  else if scratch.capacity < tables then .error .bufferTooSmall
  else .ok ()

/-- The numbers that a request for a signature stands for. -/
structure SigningTask where
  message : BufferedInt
  key : BufferedInt
  nonce : BufferedInt
  out : Signature

/-- Decodes a request for a signature. -/
def decodeSignRequest (group : CurveGroup n) (scratch : Scratch n) (request : SignRequest) :
    Except Failure SigningTask := do
  let message ← SentObject.present request.message
  let key ← SentObject.present request.key
  let nonce ← SentObject.present request.nonce
  let c ← SentObject.present request.c
  let d ← SentObject.present request.d
  let message ← message.asNumber
  let key ← key.asNumber
  let nonce ← nonce.asNumber
  let c ← c.asNumber
  let d ← d.asNumber
  group.checkRequest scratch signTables
  let message ← message.decode n
  let key ← key.decode n
  let nonce ← nonce.decode n
  let c ← c.decode n
  let d ← d.decode n
  return { message := message, key := key, nonce := nonce, out := { c := c, d := d } }

/-- Answers a request for a signature. -/
def handleSign (group : CurveGroup n) (request : SignRequest) : Call n SignResponse := do
  let task ← Call.ofExcept (group.decodeSignRequest (← get).scratch request)
  let (outcome, signature) ← group.sign task.message task.key task.nonce task.out
  match outcome with
  | .error stop => throw stop
  | .ok () => return {
      c := .number (.ofNumber signature.c)
      d := .number (.ofNumber signature.d) }

/-- What a request to check a signature stands for. -/
structure VerifyingTask (n : Nat) where
  message : BufferedInt
  key : JacobianPoint n
  signature : Signature

/-- Decodes a request to check a signature. -/
def decodeVerifyRequest (group : CurveGroup n) (scratch : Scratch n) (request : VerifyRequest) :
    Except Failure (VerifyingTask n) := do
  let message ← SentObject.present request.message
  let key ← SentObject.present request.key
  let c ← SentObject.present request.c
  let d ← SentObject.present request.d
  let message ← message.asNumber
  let key ← key.asPoint
  let c ← c.asNumber
  let d ← d.asNumber
  group.checkRequest scratch verifyTables
  let key ← key.decode group
  let message ← message.decode n
  let c ← c.decode n
  let d ← d.decode n
  return { message := message, key := key, signature := { c := c, d := d } }

/-- Answers a request to check a signature. -/
def handleVerify (group : CurveGroup n) (request : VerifyRequest) : Call n VerifyResponse := do
  let task ← Call.ofExcept (group.decodeVerifyRequest (← get).scratch request)
  return { result := ← group.verify task.message task.key task.signature }

/-- Answers the text of a request for a signature with the text of the response. -/
def signText (group : CurveGroup n) (text : String) : Call n String := do
  match (Json.read? text).bind SignRequest.ofJson? with
  | none => Call.fail (.undecodable .malformedJson)
  | some request => return (← group.handleSign request).toJson.compactText

/-- Answers the text of a request to check a signature with the text of the response. -/
def verifyText (group : CurveGroup n) (text : String) : Call n String := do
  match (Json.read? text).bind VerifyRequest.ofJson? with
  | none => Call.fail (.undecodable .malformedJson)
  | some request => return (← group.handleVerify request).toJson.compactText

end CurveGroup

end NybergRueppel
