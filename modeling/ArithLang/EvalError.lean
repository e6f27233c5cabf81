/-
Why an expression has no value, with the place to point at.
-/
import ArithLang.Diagnostic

namespace ArithLang

inductive EvalError where
  /-- The whole expression is one literal. -/
  | loneLiteral (span : Span)
  /-- A literal is not a run of digits. -/
  | invalidLiteral (text : String) (span : Span)
  | divisionByZero (span : Span)
  /-- A quotient is too large to be a finite floating-point number. -/
  | quotientTooLarge (span : Span)
deriving DecidableEq

def EvalError.diagnostic : EvalError → Diagnostic
  | loneLiteral span =>
    { code := "plang::eval::unable_to_evaluate"
      message := "unable to evaluate a lone literal"
      help? := some "only expressions with at least one operator are evaluated"
      label := "no operator to apply"
      span }
  | invalidLiteral text span =>
    { code := "plang::eval::invalid_literal"
      message := "invalid literal `" ++ text ++ "`"
      help? := none
      label := "not a number"
      span }
  | divisionByZero span =>
    { code := "plang::eval::division_by_zero"
      message := "division by zero"
      help? := none
      label := "right operand is zero"
      span }
  | quotientTooLarge span =>
    { code := "plang::eval::quotient_too_large"
      message := "quotient too large for a float"
      help? := none
      label := "this division"
      span }

end ArithLang
