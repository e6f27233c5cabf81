/-
Values of expressions: integers of any size, and floating-point numbers for quotients.
-/
import ArithLang.Binary64.Text

namespace ArithLang

inductive Number where
  | int (value : Int)
  | float (value : Binary64)
deriving DecidableEq

namespace Number

/-- The integer that the number counts as when an operator is applied to it. -/
def operand : Number → Int
  | int n => n
  | float x => x.truncate

/-- Equality of values of one kind. An integer never equals a floating-point number. -/
def sameValue : Number → Number → Bool
  | int m, int n => m == n
  | float x, float y => x.sameValue y
  | _, _ => false

def text : Number → String
  | int n => (if n < 0 then "-" else "") ++ n.natAbs.repr
  | float x => x.text

end Number

/-- The number a literal stands for: digits only, one at least, in base ten. -/
def literalValue? (text : String) : Option Nat :=
  let digits := text.toList
  if digits ≠ [] ∧ digits.all Char.isDigit then some (Nat.ofDigitChars 10 digits 0) else none

end ArithLang
