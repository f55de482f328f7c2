import NybergRueppel.Json.Value
import NybergRueppel.Text.Hexadecimal

/-!
Reading JSON texts. The grammar is the standard one: blanks are space, tab, line feed and carriage
return, control characters must be escaped in strings, and nothing but blanks may follow the value.
-/
namespace NybergRueppel.Json

/-- The characters that may stand between tokens. -/
def isBlank (c : Char) : Bool :=
  c = ' ' || c = '\t' || c = '\n' || c = '\r'

/-- Drops the blanks at the front. -/
def skipBlanks (cs : List Char) : List Char :=
  cs.dropWhile isBlank

/-- A piece of a string literal: a character, or a unit that was written by its number. -/
inductive Piece where
  | char (c : Char)
  | unit (v : Nat)

/-- The character of a two-character escape. -/
def simpleEscape? : Char → Option Char
  | '\x22' => some '\x22'
  | '\x5c' => some '\x5c'
  | '/' => some '/'
  | 'b' => some '\x08'
  | 'f' => some '\x0c'
  | 'n' => some '\n'
  | 'r' => some '\r'
  | 't' => some '\t'
  | _ => none

/-- The number that four hexadecimal digits stand for. -/
def unit? (a b c d : Char) : Option Nat := do
  let a ← Hexadecimal.digitValue? a
  let b ← Hexadecimal.digitValue? b
  let c ← Hexadecimal.digitValue? c
  let d ← Hexadecimal.digitValue? d
  return ((a.toNat * 16 + b.toNat) * 16 + c.toNat) * 16 + d.toNat

/-- The pieces of a string literal after its opening quote, and what follows its closing quote. -/
def pieces? : List Char → Option (List Piece × List Char)
  | [] => none
  | '\x22' :: rest => some ([], rest)
  | '\x5c' :: 'u' :: a :: b :: c :: d :: rest =>
    match unit? a b c d, pieces? rest with
    | some v, some (pieces, rest) => some (.unit v :: pieces, rest)
    | _, _ => none
  | '\x5c' :: e :: rest =>
    match simpleEscape? e, pieces? rest with
    | some c, some (pieces, rest) => some (.char c :: pieces, rest)
    | _, _ => none
  | c :: rest =>
    if c = '\x5c' || c.toNat < 0x20 then none
    else (pieces? rest).map fun (pieces, rest) => (.char c :: pieces, rest)

/-- True for the first half of a surrogate pair. -/
def isHighSurrogate (v : Nat) : Bool :=
  0xD800 ≤ v && v < 0xDC00

/-- True for the second half of a surrogate pair. -/
def isLowSurrogate (v : Nat) : Bool :=
  0xDC00 ≤ v && v < 0xE000

/-- Joins the pieces of a literal into a text. Surrogates have to come in pairs. -/
def joinPieces? : List Piece → Option (List Char)
  | [] => some []
  | .char c :: rest => (joinPieces? rest).map (c :: ·)
  | .unit v :: .unit w :: rest =>
    if isHighSurrogate v then
      if isLowSurrogate w then
        (joinPieces? rest).map
          (Char.ofNat (0x10000 + (v - 0xD800) * 0x400 + (w - 0xDC00)) :: ·)
      else none
    else if isLowSurrogate v then none
    else (joinPieces? (.unit w :: rest)).map (Char.ofNat v :: ·)
  | .unit v :: rest =>
    if isHighSurrogate v || isLowSurrogate v then none
    else (joinPieces? rest).map (Char.ofNat v :: ·)

/-- The text of a string literal after its opening quote, if it is one, and what follows. -/
def literal? (cs : List Char) : Option (Option String × List Char) :=
  (pieces? cs).map fun (pieces, rest) => ((joinPieces? pieces).map String.ofList, rest)

/-- The decimal digits at the front. -/
def digits (cs : List Char) : List Nat :=
  (cs.takeWhile Char.isDigit).map fun c => c.toNat - 0x30

/-- What follows the decimal digits at the front. -/
def afterDigits (cs : List Char) : List Char :=
  cs.dropWhile Char.isDigit

/-- The digits before the point: a zero alone, or digits that do not start with zero. -/
def whole? (cs : List Char) : Option (List Nat × List Char) :=
  match digits cs with
  | [] => none
  | 0 :: _ :: _ => none
  | ds => some (ds, afterDigits cs)

/-- The digits after the point, of which there has to be one if there is a point. -/
def fraction? : List Char → Option (List Nat × List Char)
  | '.' :: cs => if (digits cs).isEmpty then none else some (digits cs, afterDigits cs)
  | cs => some ([], cs)

/-- The digits of an exponent after its sign. -/
def exponentDigits? (negative : Bool) (cs : List Char) : Option (Option JsonExponent × List Char) :=
  if (digits cs).isEmpty then none
  else some (some { negative := negative, digits := digits cs }, afterDigits cs)

/-- The exponent, if there is one. -/
def exponent? : List Char → Option (Option JsonExponent × List Char)
  | 'e' :: '+' :: cs => exponentDigits? false cs
  | 'E' :: '+' :: cs => exponentDigits? false cs
  | 'e' :: '-' :: cs => exponentDigits? true cs
  | 'E' :: '-' :: cs => exponentDigits? true cs
  | 'e' :: cs => exponentDigits? false cs
  | 'E' :: cs => exponentDigits? false cs
  | cs => some (none, cs)

/-- The numeral at the front, after its sign. -/
def numeral? (negative : Bool) (cs : List Char) : Option (Json × List Char) := do
  let (whole, cs) ← whole? cs
  let (fraction, cs) ← fraction? cs
  let (exponent, cs) ← exponent? cs
  return (.number { negative := negative, whole := whole, fraction := fraction,
                    exponent := exponent }, cs)

/-- The string at the front, after its opening quote. -/
def string? (cs : List Char) : Option (Json × List Char) :=
  (literal? cs).map fun (text, rest) =>
    match text with
    | some text => (.string text, rest)
    | none => (.brokenString, rest)

mutual

/-- The value at the front and what follows it. -/
def value? : Nat → List Char → Option (Json × List Char)
  | 0, _ => none
  | fuel + 1, cs =>
    match skipBlanks cs with
    | 'n' :: 'u' :: 'l' :: 'l' :: rest => some (.null, rest)
    | 't' :: 'r' :: 'u' :: 'e' :: rest => some (.bool true, rest)
    | 'f' :: 'a' :: 'l' :: 's' :: 'e' :: rest => some (.bool false, rest)
    | '\x22' :: rest => string? rest
    | '[' :: rest =>
      match skipBlanks rest with
      | ']' :: rest => some (.array [], rest)
      | rest => (elements? fuel rest).map fun (elements, rest) => (.array elements, rest)
    | '\x7b' :: rest =>
      match skipBlanks rest with
      | '\x7d' :: rest => some (.object [], rest)
      | rest => (members? fuel rest).map fun (members, rest) => (.object members, rest)
    | '-' :: rest => numeral? true rest
    | rest => numeral? false rest

/-- The elements of an array up to its closing bracket; at least one. -/
def elements? : Nat → List Char → Option (List Json × List Char)
  | 0, _ => none
  | fuel + 1, cs =>
    match value? fuel cs with
    | none => none
    | some (x, rest) =>
      match skipBlanks rest with
      | ']' :: rest => some ([x], rest)
      | ',' :: rest => (elements? fuel rest).map fun (xs, rest) => (x :: xs, rest)
      | _ => none

/-- The members of an object up to its closing brace; at least one. -/
def members? : Nat → List Char → Option (List (Option String × Json) × List Char)
  | 0, _ => none
  | fuel + 1, cs =>
    match skipBlanks cs with
    | '\x22' :: rest =>
      match literal? rest with
      | none => none
      | some (name, rest) =>
        match skipBlanks rest with
        | ':' :: rest =>
          match value? fuel rest with
          | none => none
          | some (x, rest) =>
            match skipBlanks rest with
            | '\x7d' :: rest => some ([(name, x)], rest)
            | ',' :: rest => (members? fuel rest).map fun (xs, rest) => ((name, x) :: xs, rest)
            | _ => none
        | _ => none
    | _ => none

end

/-- Reads a whole text. Every value, element and member takes a character of it, which bounds the
depth of the recursion. -/
def read? (text : String) : Option Json :=
  let cs := text.toList
  match value? (2 * cs.length + 2) cs with
  | some (x, rest) => if (skipBlanks rest).isEmpty then some x else none
  | none => none

end NybergRueppel.Json
