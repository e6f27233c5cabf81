/-
Expression trees. A literal is kept as it was written, whatever its text; whether it is a number is
asked when it is evaluated. Literals and operators remember where they stand in the source.
-/
import ArithLang.Operator

namespace ArithLang

inductive Expr where
  | literal (text : Located String)
  | binary (op : Located Operator) (left right : Expr)
deriving DecidableEq

namespace Expr

/-- The place of the literal, or of the operator of the outermost operation. -/
def span : Expr → Span
  | literal text => .ofText text.offset text.value
  | binary op _ _ => ⟨op.offset, 1⟩

def nodeCount : Expr → Nat
  | literal _ => 1
  | binary _ left right => 1 + left.nodeCount + right.nodeCount

/-- The tree with every operator written before its operands, as in `(+ 12 (* 7 2))`. -/
def prefixForm : Expr → String
  | literal text => text.value
  | binary op left right => "(" ++ op.value.symbol ++ " " ++ left.prefixForm ++ " " ++ right.prefixForm ++ ")"

/-- The tree and all trees in it, each before its operands and the left operand before the right one. -/
def subtrees : Expr → List Expr
  | literal text => [literal text]
  | binary op left right => binary op left right :: (left.subtrees ++ right.subtrees)

theorem length_subtrees (e : Expr) : e.subtrees.length = e.nodeCount := by
  induction e with
  | literal _ => rfl
  | binary _ _ _ ihl ihr => simp only [subtrees, nodeCount, List.length_cons, List.length_append, ihl, ihr]; omega

end Expr

end ArithLang
