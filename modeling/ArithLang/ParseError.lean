/-
Why a list of tokens is not an expression, with the place to point at.
-/
import ArithLang.Diagnostic

namespace ArithLang

inductive ParseError where
  /-- The tokens end where a literal has to stand. -/
  | unexpectedEnd (span : Span)
  /-- A token stands where a literal has to stand. -/
  | expectedLiteral (found : String) (span : Span)
  /-- A token follows a complete expression. -/
  | trailingInput (found : String) (span : Span)
deriving DecidableEq

def ParseError.diagnostic : ParseError → Diagnostic
  | unexpectedEnd span =>
    { code := "plang::parse::eof"
      message := "unexpected end of input"
      help? := some "every operator must be followed by a number"
      label := "expected a number here"
      span }
  | expectedLiteral found span =>
    { code := "plang::parse::expected_literal"
      message := "expected a number, found `" ++ found ++ "`"
      help? := none
      label := "not a number"
      span }
  | trailingInput found span =>
    { code := "plang::parse::trailing_input"
      message := "unexpected `" ++ found ++ "` after the end of the expression"
      help? := some "an expression is numbers joined by `+`, `-`, `*` and `/`"
      label := "expected an operator or the end of input"
      span }

end ArithLang
