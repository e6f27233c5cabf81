/-
What is said about a failure: a message, a code that names the kind of failure, sometimes advice,
and one place in the source with a remark on it.
-/
import ArithLang.Span

namespace ArithLang

structure Diagnostic where
  code : String
  message : String
  help? : Option String
  label : String
  span : Span
deriving DecidableEq

end ArithLang
