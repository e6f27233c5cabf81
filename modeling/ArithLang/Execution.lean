/-
Carrying out a command. What is outside (files by name, the bytes of the input) is a parameter.
-/
import ArithLang.Command
import ArithLang.Expr.Json
import ArithLang.Session
import ArithLang.Token.Dump

namespace ArithLang

/-! ## Files -/

/-- The lines that show the tokens of a source. -/
def tokenize (source : String) : Outcome :=
  .success (String.join ((lex source).map fun t => t.dump ++ "\n"))

/-- The tree of a source as a document. -/
def showTree (options : ParseOptions) (source : String) : Outcome :=
  match parse (lex source) options with
  | .ok e => .success (e.indentedJson ++ "\n")
  | .error e => .failure "" (.failure e.diagnostic)

/-- The tree of a source as a document, then its value. The tree is shown even if it has none. -/
def showValue (options : ParseOptions) (source : String) : Outcome :=
  match parse (lex source) options with
  | .error e => .failure "" (.failure e.diagnostic)
  | .ok e =>
    match e.evaluate with
    | .ok n => .success (e.indentedJson ++ "\n" ++ n.text ++ "\n")
    | .error e' => .failure (e.indentedJson ++ "\n") (.failure e'.diagnostic)

/-- What `f` makes of the text of a file, if `read` finds the file and it is UTF-8. -/
def onFile (read : String → Option ByteArray) (file : String) (f : String → Outcome) : Outcome :=
  match (read file).bind String.fromUTF8? with
  | some source => f source
  | none => .failure "" (.unreadable file)

/-! ## Commands -/

def Task.outcome (read : String → Option ByteArray) (input : List UInt8) (options : ParseOptions) : Task → Outcome
  | tokenize file => onFile read file ArithLang.tokenize
  | parse file => onFile read file (showTree options)
  | run file => onFile read file (showValue options)
  | session => Session.outcome options input

def versionText : String := "plang 0.1.0\n"

def helpText : String :=
  "Usage: plang [--permissive] <COMMAND>\n\n" ++
  "Commands:\n" ++
  "  tokenize FILE  print the tokens of a source file\n" ++
  "  parse FILE     print the syntax tree of a source file as JSON\n" ++
  "  run FILE       print the syntax tree of a source file, then its value\n" ++
  "  calc           evaluate expressions read from standard input\n" ++
  "  help           print this text\n\n" ++
  "Options:\n" ++
  "  --permissive   accept any token as a literal and ignore input after the expression\n" ++
  "  -h, --help     print this text\n" ++
  "  -V, --version  print the version\n"

def Command.outcome (read : String → Option ByteArray) (input : List UInt8) : Command → Outcome
  | help => .success helpText
  | version => .success versionText
  | misuse => ⟨2, "", [.misuse]⟩
  | perform task options => task.outcome read input options

end ArithLang
