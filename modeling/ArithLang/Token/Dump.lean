/-
One line of text for a token, with everything it holds: `Token { slice: "é", offset: 7, kind: Other('é') }`.
-/
import ArithLang.Text.Escape
import ArithLang.Token

namespace ArithLang

def TokenKind.name : TokenKind → String
  | number => "Number"
  | plus => "Plus"
  | minus => "Minus"
  | star => "Star"
  | slash => "Slash"
  | other c => "Other(" ++ Text.singleQuoted c ++ ")"

def Token.dump (t : Token) : String :=
  "Token \x7b slice: " ++ Text.doubleQuoted t.text ++ ", offset: " ++ t.offset.repr ++ ", kind: " ++ t.kind.name
    ++ " \x7d"

end ArithLang
