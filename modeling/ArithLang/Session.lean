/-
A session reads lines and answers each with a value or a report, until a line says `exit` or the
lines end. Every line is asked for with a prompt, so the end of the input has one too.

Lines are bytes: only the lines that are reached have to be text, and one that is not ends the
session.

There are two forms of a session: what it leaves behind when all lines are there (`ofLines`), and
the dialogue that answers each line before the next one is asked for (`converse`).
-/
import ArithLang.Evaluation
import ArithLang.Outcome
import ArithLang.Text.WhiteSpace

namespace ArithLang.Session

def newline : UInt8 := 10

/-- The bytes cut after every newline. The last line may lack one. -/
def splitLines : List UInt8 → List (List UInt8)
  | [] => []
  | b :: bytes =>
    if b = newline then [b] :: splitLines bytes
    else match splitLines bytes with
      | [] => [[b]]
      | line :: lines => (b :: line) :: lines

theorem flatten_splitLines (bytes : List UInt8) : (splitLines bytes).flatten = bytes := by
  induction bytes with
  | nil => rfl
  | cons b bytes ih =>
    rw [splitLines]
    split
    · simp [ih]
    · split <;> simp_all

/-! ## One line -/

inductive Reply where
  /-- A blank line has no answer. -/
  | silence
  | value (n : Number)
  | failure (e : Error)
  | stop
  /-- The line is not UTF-8. -/
  | undecodable

/-- Whether the text is `exit`, in capitals or not. -/
def isExit (text : String) : Bool := text.toList.map Char.toLower == "exit".toList

def replyTo (options : ParseOptions) (line : List UInt8) : Reply :=
  match String.fromUTF8? line.toByteArray with
  | none => .undecodable
  | some line =>
    let text := Text.trim line
    if text = "" then .silence
    else if isExit text then .stop
    else match run text options with
      | .ok (_, n) => .value n
      | .error e => .failure e

namespace Reply

def output : Reply → String
  | value n => n.text ++ "\n"
  | _ => ""

def reports : Reply → List Report
  | failure e => [.failure e.diagnostic]
  | undecodable => [.undecodable]
  | _ => []

/-- The exit code, if the session ends with this reply. -/
def exitCode? : Reply → Option Nat
  | stop => some 0
  | undecodable => some 1
  | _ => none

end Reply

/-! ## All lines -/

def prompt : String := "calc> "

def ofLines (options : ParseOptions) : List (List UInt8) → Outcome
  | [] => .success prompt
  | line :: lines =>
    let reply := replyTo options line
    match reply.exitCode? with
    | some code => ⟨code, prompt ++ reply.output, reply.reports⟩
    | none => (ofLines options lines).after (prompt ++ reply.output) reply.reports

/-- The session on the bytes of an input. -/
def outcome (options : ParseOptions) (input : List UInt8) : Outcome := ofLines options (splitLines input)

/-! ## One line after the other -/

/-- Where a session prints its output and reports what went wrong. -/
structure Terminal (m : Type → Type) where
  print : String → m Unit
  report : List Report → m Unit

/-- The session on lines that come one by one, down to its exit code. -/
def converse {m : Type → Type} [Monad m] {ρ : Type} [ForIn m ρ (List UInt8)] (terminal : Terminal m)
    (options : ParseOptions) (lines : ρ) : m Nat := do
  terminal.print prompt
  for line in lines do
    let reply := replyTo options line
    terminal.print reply.output
    terminal.report reply.reports
    match reply.exitCode? with
    | some code => return code
    | none => terminal.print prompt
  return 0

end ArithLang.Session
