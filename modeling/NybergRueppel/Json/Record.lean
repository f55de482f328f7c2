import NybergRueppel.Json.Value

/-!
Records in JSON. A record is an object with the named fields, in any order and among other members,
or the array of all its fields in the order of their names.
-/
namespace NybergRueppel.Json

/-- The value of a field, if it is present. A field must not occur twice. -/
def member? (members : List (Option String × Json)) (name : String) : Option (Option Json) :=
  match members.filter (fun entry => entry.1 == some name) with
  | [] => some none
  | [entry] => some (some entry.2)
  | _ => none

/-- The fields of a record, in the order of their names. Of the array form the last `droppable`
fields may be missing; of the object form, whether a field may be missing is left to its reader. -/
def fields? (names : List String) (droppable : Nat) : Json → Option (List (Option Json))
  | .object members =>
    if members.all (fun entry => entry.1.isSome) then names.mapM (member? members) else none
  | .array elements =>
    if names.length ≤ elements.length + droppable ∧ elements.length ≤ names.length then
      some (elements.map some ++ List.replicate (names.length - elements.length) none)
    else none
  | _ => none

/-- Reads a field that has to be present. -/
def required {α : Type} (read : Json → Option α) : Option Json → Option α
  | some x => read x
  | none => none

/-- Reads a field that may be missing or null. -/
def optional {α : Type} (read : Json → Option α) : Option Json → Option (Option α)
  | none => some none
  | some .null => some none
  | some x => (read x).map some

end NybergRueppel.Json
