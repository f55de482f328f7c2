import NybergRueppel.Json.Reader
import NybergRueppel.Json.Record
import NybergRueppel.Json.Writer
import NybergRueppel.Parameters.Basic

/-!
Parameter sets in JSON. The field of the extension is left out for a prime field, and a coordinate
is a string or an array of strings.
-/
namespace NybergRueppel

namespace Coordinate

def toJson : Coordinate → Json
  | .prime text => .string text
  | .extension texts => Json.ofTexts texts

def ofJson? : Json → Option Coordinate
  | .string text => some (.prime text)
  | x => x.texts?.map .extension

end Coordinate

namespace WrittenPoint

def toJson (p : WrittenPoint) : Json :=
  Json.ofMembers [("x", p.x.toJson), ("y", p.y.toJson)]

def ofJson? (json : Json) : Option WrittenPoint :=
  match json.fields? ["x", "y"] 0 with
  | some [x, y] => do
    let x ← Json.required Coordinate.ofJson? x
    let y ← Json.required Coordinate.ofJson? y
    return { x := x, y := y }
  | _ => none

end WrittenPoint

namespace DomainParameters

/-- The names of the fields in their order. -/
def fieldNames : List String :=
  ["name", "prime", "extension", "a", "b", "generator", "order"]

def toJson (p : DomainParameters) : Json :=
  Json.ofMembers (
    [("name", .string p.name), ("prime", .string p.prime)]
      ++ (match p.extension with
        | none => []
        | some texts => [("extension", Json.ofTexts texts)])
      ++ [("a", p.a.toJson), ("b", p.b.toJson), ("generator", p.generator.toJson),
        ("order", .string p.order)])

def ofJson? (json : Json) : Option DomainParameters :=
  match json.fields? fieldNames 0 with
  | some [name, prime, extension, a, b, generator, order] => do
    let name ← Json.required Json.text? name
    let prime ← Json.required Json.text? prime
    let extension ← Json.optional Json.texts? extension
    let a ← Json.required Coordinate.ofJson? a
    let b ← Json.required Coordinate.ofJson? b
    let generator ← Json.required WrittenPoint.ofJson? generator
    let order ← Json.required Json.text? order
    return {
      name := name, prime := prime, extension := extension, a := a, b := b,
      generator := generator, order := order }
  | _ => none

/-- Reads a parameter set from a JSON text. -/
def ofText (text : String) : Except Failure DomainParameters :=
  match (Json.read? text).bind ofJson? with
  | some p => .ok p
  | none => .error (.undecodable .malformedJson)

/-- The indented JSON text of a parameter set. -/
def toText (p : DomainParameters) : String :=
  p.toJson.indentedText

end DomainParameters

end NybergRueppel
