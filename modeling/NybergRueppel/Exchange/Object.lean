import NybergRueppel.BufferedInt.Written
import NybergRueppel.Group.Basic
import NybergRueppel.Json.Reader
import NybergRueppel.Json.Record
import NybergRueppel.Json.Writer
import NybergRueppel.Parameters.Basic

/-!
Tagged objects that cross the boundary of the program: numbers with an optional room, and points in
affine coordinates with the element length that their sender claims.
-/
namespace NybergRueppel

/-- A number as it is sent. -/
structure SentNumber where
  value : String
  room : Option Nat
  deriving DecidableEq

/-- A point as it is sent; its coordinates are lists of coefficients, the lowest degree first. -/
structure SentPoint where
  elementLength : Nat
  x : List String
  y : List String
  deriving DecidableEq

/-- A tagged object. -/
inductive SentObject where
  | number (number : SentNumber)
  | point (point : SentPoint)
  deriving DecidableEq

namespace SentNumber

/-- A number with its room. -/
def ofNumber (a : BufferedInt) : SentNumber :=
  { value := a.toHex, room := some a.room }

/-- The number for a group with integers of `n` limbs. A room beyond `n` words is refused. -/
def decode (n : Nat) (sent : SentNumber) : Except Failure BufferedInt := do
  let value ← BufferedInt.ofHex sent.value
  match sent.room with
  | none => return value
  | some room =>
    if n < room then .error (.undecodable (.roomTooLarge room n)) else return value.withMinRoom room

end SentNumber

namespace SentPoint

variable {n : Nat}

/-- A point of a group, unless it is at infinity. -/
def ofPoint (group : CurveGroup n) (p : JacobianPoint n) : Except Failure SentPoint :=
  match group.toAffine? p with
  | some (x, y) => .ok {
      elementLength := p.elementLength
      x := x.map FixedNat.toHex
      y := y.map FixedNat.toHex }
  | none => .error .invalidPoint

/-- The point of a group. The claimed element length is checked before the coordinates are read. -/
def decode (group : CurveGroup n) (sent : SentPoint) : Except Failure (JacobianPoint n) :=
  if sent.elementLength ≠ group.elementLength then .error .keyLengthMismatch
  else do
    let x ← readNumbers n .pointX sent.x
    let y ← readNumbers n .pointY sent.y
    group.ofAffine x y

end SentPoint

namespace SentObject

def numberTag : String := "big_num"

def pointTag : String := "point"

/-- The members of an object after its tag. A room that is not given is left out. -/
def toJson : SentObject → Json
  | .number sent =>
    Json.ofMembers ([("type", .string numberTag), ("value", .string sent.value)]
      ++ match sent.room with
        | none => []
        | some room => [("room", Json.ofNat room)])
  | .point sent =>
    Json.ofMembers [("type", .string pointTag), ("element_len", Json.ofNat sent.elementLength),
      ("x", Json.ofTexts sent.x), ("y", Json.ofTexts sent.y)]

/-- Reads the fields of a number. -/
def number? (fields : Json) : Option SentObject :=
  match fields.fields? ["value", "room"] 1 with
  | some [value, room] => do
    let value ← Json.required Json.text? value
    let room ← Json.optional Json.natural? room
    return .number { value := value, room := room }
  | _ => none

/-- Reads the fields of a point. -/
def point? (fields : Json) : Option SentObject :=
  match fields.fields? ["element_len", "x", "y"] 0 with
  | some [elementLength, x, y] => do
    let elementLength ← Json.required Json.natural? elementLength
    let x ← Json.required Json.texts? x
    let y ← Json.required Json.texts? y
    return .point { elementLength := elementLength, x := x, y := y }
  | _ => none

/-- Reads the fields that belong to a tag. -/
def ofTagged? (tag : Json) (fields : Json) : Option SentObject :=
  match tag.text? with
  | some text =>
    if text == numberTag then number? fields
    else if text == pointTag then point? fields
    else none
  | none => none

/-- The levels that a tagged object inside a request may have. -/
def maxDepth : Nat := 126

/-- Reads a tagged object: an object with the tag among its members, or an array with the tag in
front. Also what is not used has to be sound and of limited depth. -/
def ofJson? (json : Json) : Option SentObject :=
  if json.isSound && decide (json.depth ≤ maxDepth) then
    match json with
    | .object members =>
      match Json.member? members "type" with
      | some (some tag) =>
        ofTagged? tag (.object (members.filter fun entry => entry.1 != some "type"))
      | _ => none
    | .array (tag :: rest) => ofTagged? tag (.array rest)
    | _ => none
  else none

end SentObject

end NybergRueppel
