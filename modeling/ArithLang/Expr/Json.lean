/-
Expression trees as JSON documents. Offsets are left out.
-/
import ArithLang.Expr
import ArithLang.Json.Object

namespace ArithLang.Expr

open Json

def compactJson : Expr → String
  | literal text => compactObject [⟨"type", quoted "Literal"⟩, ⟨"value", quoted text.value⟩]
  | binary op left right =>
    compactObject [⟨"type", quoted "BinOp"⟩, ⟨"operator", quoted op.value.symbol⟩,
      ⟨"left", left.compactJson⟩, ⟨"right", right.compactJson⟩]

/-- The indented document of a tree that stands inside `depth` others. -/
def indentedJsonAt (depth : Nat) : Expr → String
  | literal text => indentedObject depth [⟨"type", quoted "Literal"⟩, ⟨"value", quoted text.value⟩]
  | binary op left right =>
    indentedObject depth [⟨"type", quoted "BinOp"⟩, ⟨"operator", quoted op.value.symbol⟩,
      ⟨"left", left.indentedJsonAt (depth + 1)⟩, ⟨"right", right.indentedJsonAt (depth + 1)⟩]

def indentedJson (e : Expr) : String := e.indentedJsonAt 0

end ArithLang.Expr
