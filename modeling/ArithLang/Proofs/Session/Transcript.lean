/-
A whole session. Its lines are answered one after the other, each after a prompt; after one prompt more the session
ends, at the end of the input or with a line that stops it, and what follows that line is not looked at
(`Transcript`).

Main fact: a session leaves behind what its transcript says and nothing else, and complete lines of text that do not
stop it have no part in what the input after them leaves behind (`outcome_transcript`). A session on answered lines
is carried from one line (`extends_of_answered`) to all of them (`extends_of_forall₂`).
-/
import ArithLang.Proofs.Session.Replies

namespace ArithLang.Session

/-! ## Transcripts -/

/-- What is printed for lines that are answered: a prompt for each and the answer to it. -/
def shown (answers : List Answer) : String := String.join (answers.map fun a => prompt ++ a.output)

/-- The lines that are left end the session with the exit code: there are none, or the first of them stops it. -/
inductive Ends : List (List UInt8) → Nat → Prop
  | input : Ends [] 0
  | line {line : List UInt8} {lines : List (List UInt8)} {code : Nat} : Stops line code → Ends (line :: lines) code

/-- What a session on the lines leaves behind. -/
def Transcript (o : ParseOptions) (lines : List (List UInt8)) (out : Outcome) : Prop :=
  ∃ answered rest answers, lines = answered ++ rest ∧ List.Forall₂ (Answered o) answered answers ∧
    Ends rest out.exitCode ∧ out.output = shown answers ++ prompt ∧ out.codes = answers.flatMap Answer.codes

/-- The whole outcome is the other one with an output and codes before it. -/
structure Extends (whole : Outcome) (output : String) (codes : List String) (out : Outcome) : Prop where
  exitCode : whole.exitCode = out.exitCode
  output : whole.output = output ++ out.output
  codes : whole.codes = codes ++ out.codes

theorem Extends.refl (out : Outcome) : Extends out "" [] out := ⟨rfl, String.empty_append.symm, rfl⟩

theorem Extends.trans {whole mid out : Outcome} {output output' : String} {codes codes' : List String}
    (h : Extends whole output codes mid) (h' : Extends mid output' codes' out) :
    Extends whole (output ++ output') (codes ++ codes') out where
  exitCode := h.exitCode.trans h'.exitCode
  output := by rw [h.output, h'.output, String.append_assoc]
  codes := by rw [h.codes, h'.codes, List.append_assoc]

theorem shown_cons (a : Answer) (answers : List Answer) : shown (a :: answers) = prompt ++ a.output ++ shown answers := by
  rw [shown, List.map_cons, String.join_cons, shown]

/-! ## Runs -/

variable {o : ParseOptions} {line : List UInt8} {lines answered rest : List (List UInt8)} {answers : List Answer}

theorem extends_of_answered {a : Answer} (h : Answered o line a) (lines : List (List UInt8)) :
    Extends (ofLines o (line :: lines)) (prompt ++ a.output) a.codes (ofLines o lines) := by
  obtain ⟨hgoes, rfl⟩ := h.replyTo
  have hcons : ofLines o (line :: lines) =
      (ofLines o lines).after (prompt ++ (replyTo o line).output) (replyTo o line).reports := by
    rw [ofLines, hgoes]
  rw [hcons]
  exact ⟨rfl, rfl, Outcome.codes_after _ _ _⟩

/-- Lines that are answered come before what the lines after them leave behind. -/
theorem extends_of_forall₂ (h : List.Forall₂ (Answered o) answered answers) (rest : List (List UInt8)) :
    Extends (ofLines o (answered ++ rest)) (shown answers) (answers.flatMap Answer.codes) (ofLines o rest) := by
  induction h with
  | nil => exact .refl _
  | @cons line a answered answers hline _ ih =>
    rw [shown_cons, List.flatMap_cons]
    exact (extends_of_answered hline (answered ++ rest)).trans ih

theorem ofLines_of_ends {code : Nat} (h : Ends lines code) (o : ParseOptions) :
    (ofLines o lines).exitCode = code ∧ (ofLines o lines).output = prompt ∧ (ofLines o lines).codes = [] := by
  cases h with
  | input => exact ⟨rfl, rfl, rfl⟩
  | @line line lines _ hstops =>
    obtain ⟨hends, hanswer⟩ := hstops.replyTo o
    have hcons : ofLines o (line :: lines) = ⟨code, prompt ++ (replyTo o line).output, (replyTo o line).reports⟩ := by
      rw [ofLines, hends]
    rw [hcons]
    refine ⟨rfl, ?_, congrArg Answer.codes hanswer⟩
    exact (congrArg (prompt ++ ·) (congrArg Answer.output hanswer)).trans String.append_empty

/-- The lines before the first one that stops the session are answered. -/
theorem exists_answered (o : ParseOptions) (lines : List (List UInt8)) : ∃ answered rest answers code,
    lines = answered ++ rest ∧ List.Forall₂ (Answered o) answered answers ∧ Ends rest code := by
  induction lines with
  | nil => exact ⟨[], [], [], 0, rfl, .nil, .input⟩
  | cons line lines ih =>
    obtain ⟨a, ha⟩ | ⟨code, hstops⟩ := answered_or_stops o line
    · obtain ⟨answered, rest, answers, code, rfl, hanswers, hends⟩ := ih
      exact ⟨line :: answered, rest, a :: answers, code, rfl, .cons ha hanswers, hends⟩
    · exact ⟨[], line :: lines, [], code, rfl, .nil, .line hstops⟩

/-- The transcript of some lines is that of the session on them. -/
theorem transcript_iff {out : Outcome} : Transcript o lines out ↔
    out.exitCode = (ofLines o lines).exitCode ∧ out.output = (ofLines o lines).output ∧
      out.codes = (ofLines o lines).codes := by
  constructor
  · rintro ⟨answered, rest, answers, rfl, hanswers, hends, houtput, hcodes⟩
    have hwhole := extends_of_forall₂ hanswers rest
    obtain ⟨hexit', houtput', hcodes'⟩ := ofLines_of_ends hends o
    rw [hwhole.exitCode, hwhole.output, hwhole.codes, hexit', houtput', hcodes', List.append_nil]
    exact ⟨rfl, houtput, hcodes⟩
  · rintro ⟨hexit, houtput, hcodes⟩
    obtain ⟨answered, rest, answers, code, rfl, hanswers, hends⟩ := exists_answered o lines
    have hwhole := extends_of_forall₂ hanswers rest
    obtain ⟨hexit', houtput', hcodes'⟩ := ofLines_of_ends hends o
    rw [hwhole.exitCode, hexit'] at hexit
    rw [hwhole.output, houtput'] at houtput
    rw [hwhole.codes, hcodes', List.append_nil] at hcodes
    exact ⟨answered, rest, answers, rfl, hanswers, hexit ▸ hends, houtput, hcodes⟩

/-! ## Inputs put together -/

/-- Lines of a text are answered if none of them says `exit`. -/
theorem exists_answers {text : String} {first : List UInt8} (htext : text.toByteArray = first.toByteArray)
    (hexit : ∀ line ∈ splitLines first, ∀ t, Says line t → ¬SaysExit t) (o : ParseOptions) :
    ∃ answers, List.Forall₂ (Answered o) (splitLines first) answers := by
  obtain ⟨answered, rest, answers, code, hlines, hanswers, hends⟩ := exists_answered o (splitLines first)
  cases hends with
  | input =>
    rw [List.append_nil] at hlines
    exact ⟨answers, hlines ▸ hanswers⟩
  | @line line lines _ hstops =>
    have hline : line ∈ splitLines first := by
      rw [hlines]
      exact List.mem_append_right _ List.mem_cons_self
    cases hstops with
    | exit hword h => exact absurd h (hexit line hline _ hword)
    | undecodable hnot =>
      obtain ⟨t, ht⟩ := exists_text_of_mem_splitLines htext hline
      exact absurd ht (hnot t)

/-- A session leaves behind what the transcript of its lines says. What it leaves behind for complete lines of text, of
which none says `exit`, comes before what it leaves behind for the rest of the input, but for the last prompt. -/
theorem outcome_transcript (o : ParseOptions) :
    (∀ input, ∃ lines, lines.flatten = input ∧ AreLines lines ∧ ∀ out, Transcript o lines out ↔
      out.exitCode = (outcome o input).exitCode ∧ out.output = (outcome o input).output ∧
        out.codes = (outcome o input).codes) ∧
    ∀ (text : String) (first rest : List UInt8), text.toByteArray = first.toByteArray → Complete first →
      (∀ line ∈ splitLines first, ∀ t, Says line t → ¬SaysExit t) →
      ∃ before, (outcome o first).output = before ++ prompt ∧
        (outcome o (first ++ rest)).output = before ++ (outcome o rest).output ∧
        (outcome o (first ++ rest)).codes = (outcome o first).codes ++ (outcome o rest).codes ∧
        (outcome o (first ++ rest)).exitCode = (outcome o rest).exitCode := by
  constructor
  · intro input
    exact ⟨splitLines input, flatten_splitLines input, areLines_splitLines input, fun out => transcript_iff⟩
  · intro text first rest htext hcomplete hexit
    obtain ⟨answers, hanswers⟩ := exists_answers htext hexit o
    have hfirst := extends_of_forall₂ hanswers []
    have hwhole := extends_of_forall₂ hanswers (splitLines rest)
    rw [List.append_nil] at hfirst
    rw [← splitLines_append hcomplete rest] at hwhole
    have hcodes : (outcome o first).codes = answers.flatMap Answer.codes := by
      rw [outcome, hfirst.codes]
      exact List.append_nil _
    exact ⟨shown answers, hfirst.output, hwhole.output, hcodes ▸ hwhole.codes, hwhole.exitCode⟩

/-- Blank lines and failures go by, and nothing is looked at after a line that says `exit`. -/
theorem outcome_transcript_exit :
    let first := bytesOf "7*2\n \n8/0\n".toList
    let rest := bytesOf " eXit\n1+1\n".toList
    Complete first ∧ (∀ line ∈ splitLines first, ∀ t, Says line t → ¬SaysExit t) ∧
      outcome .strict rest = ⟨0, prompt, []⟩ ∧
      (outcome .strict (first ++ rest)).output = "calc> 14\ncalc> calc> calc> " ∧
      (outcome .strict (first ++ rest)).codes = ["plang::eval::division_by_zero"] ∧
      (outcome .strict (first ++ rest)).exitCode = 0 := by
  intro first rest
  have hcomplete : Complete first := by unfold Complete; decide +kernel
  have hlines : splitLines first = ["7*2\n", " \n", "8/0\n"].map fun line => bytesOf line.toList := by decide +kernel
  have hexit : ∀ line ∈ splitLines first, ∀ t, Says line t → ¬SaysExit t := by
    rw [hlines]
    intro line hline t htext
    obtain ⟨whole, hwhole, rfl⟩ := List.mem_map.1 hline
    have hnot : ∀ whole ∈ ["7*2\n", " \n", "8/0\n"], ¬isExit (Text.trim whole) = true := by decide +kernel
    rw [htext.eq_trim (toByteArray_eq whole), ← isExit_iff]
    exact hnot whole hwhole
  have hrest : outcome .strict rest = ⟨0, prompt, []⟩ := by decide +kernel
  have hfirst : (outcome .strict first).output = "calc> 14\ncalc> calc> " ++ prompt ∧
      (outcome .strict first).codes = ["plang::eval::division_by_zero"] := by decide +kernel
  obtain ⟨before, hbefore, houtput, hcodes, hcode⟩ :=
    (outcome_transcript .strict).2 "7*2\n \n8/0\n" first rest (toByteArray_eq _) hcomplete hexit
  obtain rfl : before = "calc> 14\ncalc> calc> " := (String.append_left_inj _).1 (hbefore.symm.trans hfirst.1)
  rw [hrest] at houtput hcodes hcode
  rw [hfirst.2] at hcodes
  exact ⟨hcomplete, hexit, hrest, houtput, hcodes, hcode⟩

end ArithLang.Session
