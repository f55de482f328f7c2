import NybergRueppel.Json.Numeral

/-!
JSON values. A string literal need not be a text: it can hold half of a surrogate pair. Such
literals are kept apart as broken strings, since parts of a document that nobody reads may contain
them.
-/
namespace NybergRueppel

/-- A JSON value. The members of an object keep their order, and a name that is no text is `none`.
-/
inductive Json where
  | null
  | bool (b : Bool)
  | number (x : JsonNumeral)
  | string (text : String)
  | brokenString
  | array (elements : List Json)
  | object (members : List (Option String × Json))

namespace Json

mutual

/-- The number of arrays and objects around the innermost value. -/
def depth : Json → Nat
  | .array elements => depthOfElements elements + 1
  | .object members => depthOfMembers members + 1
  | _ => 0

def depthOfElements : List Json → Nat
  | [] => 0
  | x :: xs => max (depth x) (depthOfElements xs)

def depthOfMembers : List (Option String × Json) → Nat
  | [] => 0
  | (_, x) :: xs => max (depth x) (depthOfMembers xs)

end

mutual

/-- True if every string and every name is a text and every number is read as a finite double. -/
def isSound : Json → Bool
  | .number x => x.isFinite
  | .brokenString => false
  | .array elements => allSound elements
  | .object members => allMembersSound members
  | _ => true

def allSound : List Json → Bool
  | [] => true
  | x :: xs => isSound x && allSound xs

def allMembersSound : List (Option String × Json) → Bool
  | [] => true
  | (name, x) :: xs => name.isSome && isSound x && allMembersSound xs

end

/-- The text of a string. -/
def text? : Json → Option String
  | .string text => some text
  | _ => none

/-- The texts of an array of strings. -/
def texts? : Json → Option (List String)
  | .array elements => elements.mapM text?
  | _ => none

/-- A natural number of one word. -/
def natural? : Json → Option Nat
  | .number x => x.natural?
  | _ => none

/-- A natural number as a value. -/
def ofNat (v : Nat) : Json :=
  .number (.ofNat v)

/-- An array of strings. -/
def ofTexts (texts : List String) : Json :=
  .array (texts.map .string)

/-- An object whose names are texts. -/
def ofMembers (members : List (String × Json)) : Json :=
  .object (members.map fun (name, x) => (some name, x))

end Json

end NybergRueppel
