/-
The four operators, in two ranks: `*` and `/` bind tighter than `+` and `-`.
-/
import ArithLang.Token

namespace ArithLang

inductive Operator where
  | add
  | subtract
  | multiply
  | divide
deriving DecidableEq

namespace Operator

/-- The operator that a token of kind `k` stands for, if it stands for one. -/
def ofKind? : TokenKind → Option Operator
  | .plus => some add
  | .minus => some subtract
  | .star => some multiply
  | .slash => some divide
  | .number | .other _ => none

def symbol : Operator → String
  | add => "+"
  | subtract => "-"
  | multiply => "*"
  | divide => "/"

def isAdditive : Operator → Bool
  | add | subtract => true
  | multiply | divide => false

end Operator

end ArithLang
