/-
How much of the grammar is insisted on. The default is all of it.
-/
import ArithLang.Token

namespace ArithLang

structure ParseOptions where
  /-- Only number tokens are literals. -/
  numericLiterals : Bool := true
  /-- Nothing may follow the expression. -/
  requireEnd : Bool := true
deriving DecidableEq

namespace ParseOptions

def strict : ParseOptions := {}

/-- Any token is a literal where one has to stand, and whatever follows the expression is ignored. -/
def permissive : ParseOptions := ⟨false, false⟩

/-- Whether a token of kind `k` may stand for a literal. -/
def acceptsLiteral (o : ParseOptions) (k : TokenKind) : Bool := !o.numericLiterals || k == .number

theorem acceptsLiteral_eq_false_iff {o : ParseOptions} {k : TokenKind} :
    o.acceptsLiteral k = false ↔ o.numericLiterals = true ∧ k ≠ .number := by
  simp [acceptsLiteral]

end ParseOptions

end ArithLang
