import ArithLang.Binary64.Text
import ArithLang.Evaluation
import ArithLang.Execution
import ArithLang.Expr.Json
import ArithLang.Main
import ArithLang.Proofs.Binary64.Quotient
import ArithLang.Proofs.Binary64.Rounded
import ArithLang.Proofs.Binary64.Shortest
import ArithLang.Proofs.Binary64.Text
import ArithLang.Proofs.Binary64.Truncation
import ArithLang.Proofs.Evaluation.Contexts
import ArithLang.Proofs.Evaluation.Divisors
import ArithLang.Proofs.Evaluation.Finite
import ArithLang.Proofs.Evaluation.Offsets
import ArithLang.Proofs.Evaluation.Options
import ArithLang.Proofs.Evaluation.Places
import ArithLang.Proofs.Evaluation.Run
import ArithLang.Proofs.Evaluation.Sign
import ArithLang.Proofs.Evaluation.StackMachine
import ArithLang.Proofs.Execution.Files
import ArithLang.Proofs.Grammar.Strict
import ArithLang.Proofs.Json.Trees
import ArithLang.Proofs.Number.Integers
import ArithLang.Proofs.Number.Text
import ArithLang.Proofs.Parser.Calls
import ArithLang.Proofs.Parser.Offsets
import ArithLang.Proofs.Scanner.Concatenation
import ArithLang.Proofs.Scanner.Cursor
import ArithLang.Proofs.Scanner.Rendering
import ArithLang.Proofs.Scanner.Spacing
import ArithLang.Proofs.Scanner.Tiling
import ArithLang.Proofs.Session.Transcript
import ArithLang.Proofs.Binary64.IntegerPart
import ArithLang.Proofs.Json.Layout
import ArithLang.Proofs.Parser.PrefixForm
import ArithLang.Proofs.Execution.Tokens
import ArithLang.Proofs.Json.LineBreaks
import ArithLang.Proofs.Session.Conversation
