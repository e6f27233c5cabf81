/-
A session whose lines come one by one. In any monad it takes one line, answers it, and goes on with the lines after it or
ends (`converse_nil`, `converse_cons`). A terminal that keeps what it is given has the outcome of the session on all
lines in the end (`run_converse`), which is that of their transcript (`transcript_converse`).
-/
import ArithLang.Proofs.Session.Transcript

namespace ArithLang.Session

/-! ## Any terminal -/

section
variable {m : Type → Type} [Monad m] [LawfulMonad m] (terminal : Terminal m) (o : ParseOptions)

theorem converse_nil : converse terminal o ([] : List (List UInt8)) = (do
    terminal.print prompt
    return 0) := by
  unfold converse
  simp

theorem converse_cons (line : List UInt8) (lines : List (List UInt8)) : converse terminal o (line :: lines) = (do
    terminal.print prompt
    terminal.print (replyTo o line).output
    terminal.report (replyTo o line).reports
    match (replyTo o line).exitCode? with
    | some code => return code
    | none => converse terminal o lines) := by
  unfold converse
  rw [List.forIn_cons]
  cases hcode : (replyTo o line).exitCode? with
  | none => simp [hcode]
  | some code => simp [hcode]

end

/-! ## A terminal that keeps everything -/

/-- The output so far, and the reports. -/
abbrev Record := String × List Report

def recorder : Terminal (StateM Record) where
  print text := modify fun r => (r.1 ++ text, r.2)
  report reports := modify fun r => (r.1, r.2 ++ reports)

@[simp] theorem run_print (text : String) (r : Record) :
    (recorder.print text).run r = pure ((), r.1 ++ text, r.2) := rfl

@[simp] theorem run_report (reports : List Report) (r : Record) :
    (recorder.report reports).run r = pure ((), r.1, r.2 ++ reports) := rfl

/-- The dialogue adds to the record what the session on all lines leaves behind, and has the same exit code. -/
theorem run_converse (o : ParseOptions) (lines : List (List UInt8)) (r : Record) :
    (converse recorder o lines).run r =
      pure ((ofLines o lines).exitCode, r.1 ++ (ofLines o lines).output, r.2 ++ (ofLines o lines).reports) := by
  induction lines generalizing r with
  | nil =>
    rw [converse_nil]
    simp [ofLines, Outcome.success]
  | cons line lines ih =>
    rw [converse_cons, ofLines]
    cases (replyTo o line).exitCode? with
    | none => simp [ih, Outcome.after, String.append_assoc]
    | some code => simp [String.append_assoc]

/-- What the dialogue leaves behind is told by the transcript of its lines. -/
theorem transcript_converse (o : ParseOptions) (lines : List (List UInt8)) :
    let (code, output, reports) := (converse recorder o lines).run ("", [])
    Transcript o lines ⟨code, output, reports⟩ := by
  rw [run_converse]
  exact transcript_iff.2 ⟨rfl, String.empty_append, rfl⟩

end ArithLang.Session
