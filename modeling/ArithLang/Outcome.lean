/-
What a command leaves behind: a text, reports of what went wrong, and an exit code.
-/
import ArithLang.Diagnostic

namespace ArithLang

inductive Report where
  /-- The words of the command line make no command. -/
  | misuse
  /-- A file is missing, cannot be read, or is not UTF-8. -/
  | unreadable (file : String)
  /-- A line of input is not UTF-8. -/
  | undecodable
  | failure (d : Diagnostic)
deriving DecidableEq

/-- The code of the diagnostic, if the report is about one. -/
def Report.code? : Report → Option String
  | failure d => some d.code
  | _ => none

/-- The report as it is shown to a person. -/
def Report.text : Report → String
  | misuse => "error: not a command; see --help\n"
  | unreadable file => "error: reading '" ++ file ++ "' failed\n"
  | undecodable => "error: the input is not UTF-8\n"
  | failure d =>
    d.code ++ "\n  " ++ d.message ++ "\n  at byte " ++ d.span.start.repr ++ ": " ++ d.label ++ "\n" ++
      match d.help? with
      | some help => "  help: " ++ help ++ "\n"
      | none => ""

structure Outcome where
  exitCode : Nat
  output : String
  reports : List Report
deriving DecidableEq

namespace Outcome

def success (output : String) : Outcome := ⟨0, output, []⟩

/-- An end with exit code 1 for the reason reported. -/
def failure (output : String) (r : Report) : Outcome := ⟨1, output, [r]⟩

/-- The outcome when `output` and `reports` came before. -/
def after (output : String) (reports : List Report) (o : Outcome) : Outcome :=
  { o with output := output ++ o.output, reports := reports ++ o.reports }

/-- The codes of the diagnostics reported, in order. -/
def codes (o : Outcome) : List String := o.reports.filterMap Report.code?

@[simp] theorem codes_after (output : String) (reports : List Report) (o : Outcome) :
    (after output reports o).codes = reports.filterMap Report.code? ++ o.codes := by
  simp [codes, after]

end Outcome

end ArithLang
