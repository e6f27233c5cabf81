/-
The program: it reads the files and lines that a command needs and shows what comes of them. What
it shows is settled elsewhere: by `Command.outcome`, and for a session, which has to answer before
all of the input is there, by `Session.converse`.
-/
import ArithLang.Execution

namespace ArithLang

/-- The bytes of a file, if it can be read. -/
def readFile? (file : String) : IO (Option ByteArray) := do
  try return some (← IO.FS.readBinFile file) catch _ => return none

def report (reports : List Report) : IO Unit := do
  let err ← IO.getStderr
  reports.forM fun r => err.putStr r.text

/-! ## Sessions -/

/-- The lines of a stream, each of them read when it is asked for. They are those of
`Session.splitLines`. -/
structure InputLines where
  stream : IO.FS.Stream

namespace InputLines

/-- The bytes up to the next newline and with it, or up to the end of the input. -/
partial def readLine (lines : InputLines) (line : List UInt8) : IO (List UInt8) := do
  match (← lines.stream.read 1).toList with
  | [] => return line.reverse
  | b :: _ => if b = Session.newline then return (b :: line).reverse else lines.readLine (b :: line)

partial def forIn {β : Type} (lines : InputLines) (init : β) (body : List UInt8 → β → IO (ForInStep β)) : IO β := do
  match ← lines.readLine [] with
  | [] => return init
  | line =>
    match ← body line init with
    | .done b => return b
    | .yield b => lines.forIn b body

instance : ForIn IO InputLines (List UInt8) where
  forIn := forIn

end InputLines

/-- A terminal that shows a text before anything more is read. -/
def terminal (output : IO.FS.Stream) : Session.Terminal IO where
  print text := do
    output.putStr text
    output.flush
  report := report

/-! ## Commands -/

def perform (command : Command) : IO Nat := do
  match command with
  | .perform .session options =>
    Session.converse (terminal (← IO.getStdout)) options (InputLines.mk (← IO.getStdin))
  | command =>
    let content? ← match command.file? with
      | some file => readFile? file
      | none => pure none
    let outcome := command.outcome (fun _ => content?) []
    (← IO.getStdout).putStr outcome.output
    report outcome.reports
    return outcome.exitCode

end ArithLang

def main (words : List String) : IO UInt32 := do
  return (← ArithLang.perform (.ofLine words)).toUInt32
