import NybergRueppel.Text.Hexadecimal
import NybergRueppel.Text.Printable

/-!
Texts and characters between quotes, as messages show them: the quote and the backslash are escaped,
the usual control characters have short escapes, and every other character that is not printable is
written by its number.
-/
namespace NybergRueppel.Text

/-- Writes one character inside the given quote. -/
def escape (quote c : Char) : List Char :=
  if c = quote ∨ c = '\x5c' then ['\x5c', c]
  else if c = '\x00' then ['\x5c', '0']
  else if c = '\t' then ['\x5c', 't']
  else if c = '\n' then ['\x5c', 'n']
  else if c = '\r' then ['\x5c', 'r']
  else if isPrintable c then [c]
  else ['\x5c', 'u', '\x7b'] ++ Hexadecimal.word .lower c.toNat.toUInt64 ++ ['\x7d']

/-- A text in double quotes. -/
def quoted (text : String) : String :=
  String.ofList ('\x22' :: text.toList.flatMap (escape '\x22') ++ ['\x22'])

/-- A character in single quotes. -/
def quotedChar (c : Char) : String :=
  String.ofList ('\x27' :: escape '\x27' c ++ ['\x27'])

end NybergRueppel.Text
