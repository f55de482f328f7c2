import NybergRueppel.Parameters.Json
import NybergRueppel.Proofs.Json.Record

/-!
Parameter sets that are written and read back. A coordinate that is a text is told from a list by
the form of its value, and an extension that is absent from an empty one by the member that is left
out.
-/
namespace NybergRueppel

namespace Coordinate

theorem ofJson?_toJson (c : Coordinate) : ofJson? c.toJson = some c := by
  cases c with
  | prime text => rfl
  | extension texts =>
      change (Json.ofTexts texts).texts?.map _ = _
      rw [Json.texts?_ofTexts]
      rfl

theorem isWellFormed_toJson (c : Coordinate) : c.toJson.IsWellFormed := by
  cases c with
  | prime text => trivial
  | extension texts => exact Json.isWellFormed_ofTexts texts

end Coordinate

namespace WrittenPoint

theorem ofJson?_toJson (p : WrittenPoint) : ofJson? p.toJson = some p := by
  rw [toJson, ofJson?, Json.fields?_ofMembers (by simp)]
  simp [List.lookup_cons, Json.required, Coordinate.ofJson?_toJson]

theorem isWellFormed_toJson (p : WrittenPoint) : p.toJson.IsWellFormed := by
  apply Json.isWellFormed_ofMembers
  simp [Coordinate.isWellFormed_toJson]

end WrittenPoint

namespace DomainParameters

theorem ofJson?_toJson (p : DomainParameters) : ofJson? p.toJson = some p := by
  obtain ⟨name, prime, extension, a, b, generator, order⟩ := p
  cases extension with
  | none =>
      rw [toJson, ofJson?, fieldNames, Json.fields?_ofMembers (by simp)]
      simp [List.lookup_cons, Json.required, Json.optional, Json.text?, Coordinate.ofJson?_toJson,
        WrittenPoint.ofJson?_toJson]
  | some texts =>
      rw [toJson, ofJson?, fieldNames, Json.fields?_ofMembers (by simp)]
      have hExtension : Json.optional Json.texts? (some (Json.ofTexts texts)) =
          some (some texts) := by
        change (Json.ofTexts texts).texts?.map some = _
        rw [Json.texts?_ofTexts]
        rfl
      simp [List.lookup_cons, Json.required, hExtension, Json.text?, Coordinate.ofJson?_toJson,
        WrittenPoint.ofJson?_toJson]

theorem isWellFormed_toJson (p : DomainParameters) : p.toJson.IsWellFormed := by
  obtain ⟨name, prime, extension, a, b, generator, order⟩ := p
  apply Json.isWellFormed_ofMembers
  cases extension <;>
    simp [Json.IsWellFormed, Json.isWellFormed_ofTexts, Coordinate.isWellFormed_toJson,
      WrittenPoint.isWellFormed_toJson]

/-- A parameter set is read from its text, whatever its texts and the forms of its coordinates. -/
theorem ofText_toText (p : DomainParameters) : ofText p.toText = .ok p := by
  have hRead : Json.read? p.toText = some p.toJson :=
    Json.read?_of_mem_writtenTexts p.isWellFormed_toJson (by simp [Json.writtenTexts, toText])
  rw [ofText, hRead, Option.bind_some, ofJson?_toJson]

end DomainParameters

end NybergRueppel
