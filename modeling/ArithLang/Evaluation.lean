/-
The value of an expression. Operators work on integers: a quotient that is an operand loses its
fraction first. The left operand is evaluated before the right one and both before the operator, and
the first failure is the result.
-/
import ArithLang.EvalError
import ArithLang.Expr
import ArithLang.Number
import ArithLang.Parser
import ArithLang.Scanner

namespace ArithLang

/-- Apply an operator that stands at `span`. Sums, differences and products are exact; a quotient is
the floating-point number nearest to the exact one. -/
def Operator.apply (op : Operator) (span : Span) (a b : Int) : Except EvalError Number :=
  match op with
  | add => .ok (.int (a + b))
  | subtract => .ok (.int (a - b))
  | multiply => .ok (.int (a * b))
  | divide =>
    if b = 0 then .error (.divisionByZero span)
    else match Binary64.ofQuotient? a b with
      | some q => .ok (.float q)
      | none => .error (.quotientTooLarge span)

namespace Expr

/-- The value of a tree, which may be a lone literal. -/
def value : Expr → Except EvalError Number
  | literal text =>
    match literalValue? text.value with
    | some n => .ok (.int n)
    | none => .error (.invalidLiteral text.value (literal text).span)
  | binary op left right => do
    let a ← left.value
    let b ← right.value
    op.value.apply (binary op left right).span a.operand b.operand

/-- The value of an expression, which has an operator. -/
def evaluate : Expr → Except EvalError Number
  | literal text => .error (.loneLiteral (literal text).span)
  | e => e.value

end Expr

/-! ## From text to value -/

inductive Error where
  | parse (e : ParseError)
  | eval (e : EvalError)
deriving DecidableEq

def Error.diagnostic : Error → Diagnostic
  | parse e => e.diagnostic
  | eval e => e.diagnostic

/-- Read the expression in `source` and evaluate it; the result is the tree with its value. -/
def run (source : String) (options : ParseOptions) : Except Error (Expr × Number) :=
  match ArithLang.parse (lex source) options with
  | .error e => .error (.parse e)
  | .ok expr =>
    match expr.evaluate with
    | .error e => .error (.eval e)
    | .ok value => .ok (expr, value)

end ArithLang
