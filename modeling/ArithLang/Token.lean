/-
Tokens: the units a source text is cut into. A run of digits is one token and so is every other
character that is not blank; what no expression can contain is still a token, of kind `other`,
and refused later by whoever reads the tokens.
-/
import ArithLang.Span

namespace ArithLang

inductive TokenKind where
  | number
  | plus
  | minus
  | star
  | slash
  | other (c : Char)
deriving DecidableEq

/-- The kind of a token that is the one character `c`. -/
def TokenKind.ofChar : Char → TokenKind
  | '+' => plus
  | '-' => minus
  | '*' => star
  | '/' => slash
  | c => other c

def TokenKind.symbol : TokenKind → String
  | number => "Number"
  | plus => "+"
  | minus => "-"
  | star => "*"
  | slash => "/"
  | other c => String.singleton c

structure Token where
  kind : TokenKind
  text : String
  offset : Nat
deriving DecidableEq

def Token.span (t : Token) : Span := .ofText t.offset t.text

/-- The text of a token with its place, as a literal of an expression. -/
def Token.located (t : Token) : Located String := ⟨t.text, t.offset⟩

end ArithLang
