import NybergRueppel.Json.Value
import NybergRueppel.Text.Hexadecimal

/-!
Writing JSON texts, in a compact form without blanks and in a form with one value per line and two
spaces of indentation for every level.
-/
namespace NybergRueppel.Json

/-- Writes one character inside a string literal. -/
def escape (c : Char) : List Char :=
  if c = '\x22' then ['\x5c', '\x22']
  else if c = '\x5c' then ['\x5c', '\x5c']
  else if c = '\x08' then ['\x5c', 'b']
  else if c = '\x0c' then ['\x5c', 'f']
  else if c = '\n' then ['\x5c', 'n']
  else if c = '\r' then ['\x5c', 'r']
  else if c = '\t' then ['\x5c', 't']
  else if c.toNat < 0x20 then
    ['\x5c', 'u', '0', '0', Hexadecimal.digit .lower (c.toNat / 16).toUInt64,
      Hexadecimal.digit .lower (c.toNat % 16).toUInt64]
  else [c]

/-- A text as a string literal. -/
def literal (text : String) : List Char :=
  '\x22' :: text.toList.flatMap escape ++ ['\x22']

/-- A literal that is no text: half of a surrogate pair. -/
def brokenLiteral : List Char :=
  ['\x22', '\x5c', 'u', 'd', '8', '0', '0', '\x22']

/-- The name of a member. -/
def nameLiteral : Option String → List Char
  | some name => literal name
  | none => brokenLiteral

def digitChars (digits : List Nat) : List Char :=
  digits.map fun d => Char.ofNat (0x30 + d)

/-- A numeral as it was written. -/
def numeralChars (x : JsonNumeral) : List Char :=
  (if x.negative then ['-'] else []) ++ digitChars x.whole
    ++ (if x.fraction.isEmpty then [] else '.' :: digitChars x.fraction)
    ++ match x.exponent with
      | none => []
      | some e => 'e' :: (if e.negative then ['-'] else []) ++ digitChars e.digits

/-- How arrays and objects are laid out: what stands before each entry of a level, between a name
and its value, and before the closing bracket. -/
structure Layout where
  entryStart : Nat → List Char
  nameEnd : List Char
  closeStart : Nat → List Char

/-- No blanks at all. -/
def Layout.compact : Layout :=
  { entryStart := fun _ => [], nameEnd := [':'], closeStart := fun _ => [] }

/-- A new line with two spaces for every level. -/
def newLine (level : Nat) : List Char :=
  '\n' :: List.replicate (2 * level) ' '

/-- One entry per line. -/
def Layout.indented : Layout :=
  { entryStart := fun level => newLine (level + 1), nameEnd := [':', ' '], closeStart := newLine }

mutual

/-- Writes a value at the given level. -/
def write (layout : Layout) (level : Nat) : Json → List Char
  | .null => ['n', 'u', 'l', 'l']
  | .bool true => ['t', 'r', 'u', 'e']
  | .bool false => ['f', 'a', 'l', 's', 'e']
  | .number x => numeralChars x
  | .string text => literal text
  | .brokenString => brokenLiteral
  | .array [] => ['[', ']']
  | .array (x :: xs) =>
    '[' :: layout.entryStart level ++ write layout (level + 1) x ++ writeElements layout level xs
      ++ layout.closeStart level ++ [']']
  | .object [] => ['\x7b', '\x7d']
  | .object ((name, x) :: xs) =>
    '\x7b' :: layout.entryStart level ++ nameLiteral name ++ layout.nameEnd
      ++ write layout (level + 1) x ++ writeMembers layout level xs
      ++ layout.closeStart level ++ ['\x7d']

/-- Writes the elements after the first. -/
def writeElements (layout : Layout) (level : Nat) : List Json → List Char
  | [] => []
  | x :: xs =>
    ',' :: layout.entryStart level ++ write layout (level + 1) x ++ writeElements layout level xs

/-- Writes the members after the first. -/
def writeMembers (layout : Layout) (level : Nat) : List (Option String × Json) → List Char
  | [] => []
  | (name, x) :: xs =>
    ',' :: layout.entryStart level ++ nameLiteral name ++ layout.nameEnd
      ++ write layout (level + 1) x ++ writeMembers layout level xs

end

/-- The compact text of a value. -/
def compactText (x : Json) : String :=
  String.ofList (write .compact 0 x)

/-- The indented text of a value. -/
def indentedText (x : Json) : String :=
  String.ofList (write .indented 0 x)

end NybergRueppel.Json
