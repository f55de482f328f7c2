import NybergRueppel.Exchange.Object
import NybergRueppel.Signature.Basic

/-!
Requests and answers in JSON. Every object of a request may be absent, which is told from a request
that cannot be read at all.
-/
namespace NybergRueppel

/-- A request for a signature. The last two objects tell the rooms of the output buffers. -/
structure SignRequest where
  message : Option SentObject
  key : Option SentObject
  nonce : Option SentObject
  c : Option SentObject
  d : Option SentObject
  deriving DecidableEq

/-- A request to check a signature. -/
structure VerifyRequest where
  message : Option SentObject
  key : Option SentObject
  c : Option SentObject
  d : Option SentObject
  deriving DecidableEq

/-- The components of a new signature. -/
structure SignResponse where
  c : SentObject
  d : SentObject
  deriving DecidableEq

/-- The outcome of a verification. -/
structure VerifyResponse where
  result : Verdict
  deriving DecidableEq

/-- An object or null. -/
def SentObject.optionToJson : Option SentObject → Json
  | some sent => sent.toJson
  | none => .null

namespace SignRequest

def toJson (request : SignRequest) : Json :=
  Json.ofMembers [
    ("msg", SentObject.optionToJson request.message),
    ("reg_key", SentObject.optionToJson request.key),
    ("eph_key", SentObject.optionToJson request.nonce),
    ("sign_c", SentObject.optionToJson request.c),
    ("sign_d", SentObject.optionToJson request.d)]

def ofJson? (json : Json) : Option SignRequest :=
  match json.fields? ["msg", "reg_key", "eph_key", "sign_c", "sign_d"] 0 with
  | some [message, key, nonce, c, d] => do
    let message ← Json.optional SentObject.ofJson? message
    let key ← Json.optional SentObject.ofJson? key
    let nonce ← Json.optional SentObject.ofJson? nonce
    let c ← Json.optional SentObject.ofJson? c
    let d ← Json.optional SentObject.ofJson? d
    return { message := message, key := key, nonce := nonce, c := c, d := d }
  | _ => none

end SignRequest

namespace VerifyRequest

def toJson (request : VerifyRequest) : Json :=
  Json.ofMembers [
    ("msg", SentObject.optionToJson request.message),
    ("pub_key", SentObject.optionToJson request.key),
    ("sign_c", SentObject.optionToJson request.c),
    ("sign_d", SentObject.optionToJson request.d)]

def ofJson? (json : Json) : Option VerifyRequest :=
  match json.fields? ["msg", "pub_key", "sign_c", "sign_d"] 0 with
  | some [message, key, c, d] => do
    let message ← Json.optional SentObject.ofJson? message
    let key ← Json.optional SentObject.ofJson? key
    let c ← Json.optional SentObject.ofJson? c
    let d ← Json.optional SentObject.ofJson? d
    return { message := message, key := key, c := c, d := d }
  | _ => none

end VerifyRequest

namespace SignResponse

def toJson (response : SignResponse) : Json :=
  Json.ofMembers [("sign_c", response.c.toJson), ("sign_d", response.d.toJson)]

def ofJson? (json : Json) : Option SignResponse :=
  match json.fields? ["sign_c", "sign_d"] 0 with
  | some [c, d] => do
    let c ← Json.required SentObject.ofJson? c
    let d ← Json.required SentObject.ofJson? d
    return { c := c, d := d }
  | _ => none

end SignResponse

/-- Reads the word for a verdict. -/
def Verdict.ofJson? (json : Json) : Option Verdict :=
  match json.text? with
  | some "valid" => some .valid
  | some "invalid" => some .invalid
  | _ => none

namespace VerifyResponse

def toJson (response : VerifyResponse) : Json :=
  Json.ofMembers [("result", .string response.result.text)]

def ofJson? (json : Json) : Option VerifyResponse :=
  match json.fields? ["result"] 0 with
  | some [result] => do
    let result ← Json.required Verdict.ofJson? result
    return { result := result }
  | _ => none

end VerifyResponse

end NybergRueppel
