/-
Text between quotes, written so that it stays on one line and no character is invisible: a
backslash and the quote in use have a backslash before them, the common controls are written with a
backslash and a letter, and whatever does not show as a character of its own (marks on the character
before, ignorable and unprintable characters) with its code point in hexadecimal.
-/
import ArithLang.Text.DefaultIgnorable
import ArithLang.Text.ExtendingMark
import ArithLang.Text.Printable

namespace ArithLang.Text

/-- The character `c` as it is written between two quotes `quote`. -/
def escape (quote c : Char) : List Char :=
  if c = '\x00' then ['\\', '0']
  else if c = '\t' then ['\\', 't']
  else if c = '\r' then ['\\', 'r']
  else if c = '\n' then ['\\', 'n']
  else if c = '\\' || c = quote then ['\\', c]
  else if isExtendingMark c || isDefaultIgnorable c || !isPrintable c then
    ['\\', 'u', '{'] ++ Nat.toDigits 16 c.toNat ++ ['}']
  else [c]

/-- The text between double quotes. -/
def doubleQuoted (s : String) : String := String.ofList ('"' :: s.toList.flatMap (escape '"') ++ ['"'])

/-- The character between single quotes. -/
def singleQuoted (c : Char) : String := String.ofList ('\'' :: escape '\'' c ++ ['\''])

end ArithLang.Text
