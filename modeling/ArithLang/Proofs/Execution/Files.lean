/-
What a file gives when its tree is asked for, and what when its value is. The two commands go through the stages by
themselves, each with failures and output of its own, and so does `run`. `Shown` says once how a source can fare in
all three; main fact: the commands agree with `run` and with each other (`parse_and_run_agree`).
-/
import ArithLang.Execution
import ArithLang.Proofs.Evaluation.Value
import ArithLang.Proofs.Session.Lines

namespace ArithLang

/-- What can be seen of an outcome: the exit code, the output, and the codes of the failures reported. -/
def Outcome.visible (out : Outcome) : Nat × String × List String := (out.exitCode, out.output, out.codes)

/-! ## Sources -/

/-- How a source fares: what comes of its tree, and what of its value. A value that cannot be had comes too late to
take the tree back. -/
inductive Shown (o : ParseOptions) (source : String) : Outcome → Outcome → Prop
  | value {e : Expr} {n : Number} : parse (lex source) o = .ok e → run source o = .ok (e, n) →
      Shown o source (.success (e.indentedJson ++ "\n")) (.success (e.indentedJson ++ "\n" ++ n.text ++ "\n"))
  | tree {e : Expr} {err : EvalError} : parse (lex source) o = .ok e → run source o = .error (.eval err) →
      Shown o source (.success (e.indentedJson ++ "\n")) (.failure (e.indentedJson ++ "\n") (.failure err.diagnostic))
  | nothing {err : ParseError} : parse (lex source) o = .error err → run source o = .error (.parse err) →
      Shown o source (.failure "" (.failure err.diagnostic)) (.failure "" (.failure err.diagnostic))

theorem shown_source (o : ParseOptions) (source : String) : Shown o source (showTree o source) (showValue o source) := by
  unfold showTree showValue
  cases hparse : parse (lex source) o with
  | error err => exact .nothing hparse (run_of_parse_error hparse)
  | ok e =>
    have hrun := run_of_parse_ok hparse
    cases hvalue : e.evaluate with
    | error err =>
      simp only [hvalue] at hrun ⊢
      exact .tree hparse hrun
    | ok n =>
      simp only [hvalue] at hrun ⊢
      exact .value hparse hrun

/-- The tree comes first, and there is one failure at most. -/
theorem Shown.extends {o : ParseOptions} {source : String} {tree value : Outcome} (h : Shown o source tree value) :
    (∃ more, value.output = tree.output ++ more) ∧ tree.codes.length ≤ 1 ∧ value.codes.length ≤ 1 := by
  cases h with
  | @value e n => exact ⟨⟨n.text ++ "\n", String.append_assoc⟩, Nat.zero_le 1, Nat.zero_le 1⟩
  | tree => exact ⟨⟨"", String.append_empty.symm⟩, Nat.zero_le 1, Nat.le_refl 1⟩
  | nothing => exact ⟨⟨"", String.append_empty.symm⟩, Nat.le_refl 1, Nat.le_refl 1⟩

/-! ## Files -/

theorem onFile_of_utf8 {read : String → Option ByteArray} {file source : String} (h : read file = some source.toUTF8)
    (f : String → Outcome) : onFile read file f = f source := by
  have hdecode : (read file).bind String.fromUTF8? = some source := by
    rw [h]
    exact fromUTF8?_eq_some_iff.2 rfl
  rw [onFile, hdecode]

/-- A file is the text of a source, or nothing is made of it. -/
theorem onFile_cases (read : String → Option ByteArray) (file : String) :
    (∃ source, ∀ f, onFile read file f = f source) ∨ ∀ f, onFile read file f = .failure "" (.unreadable file) := by
  cases h : (read file).bind String.fromUTF8? with
  | none => exact .inr fun f => by rw [onFile, h]
  | some source => exact .inl ⟨source, fun f => by rw [onFile, h]⟩

/-- Two command lines that ask for the tree and for the value of a file, with the same options, agree with `run` and
with each other. Whatever the file is, the output of the first begins that of the second, and there is one code at
most. -/
theorem parse_and_run_agree {words words' : List String} {file : String} {o : ParseOptions}
    (hwords : Command.ofLine words = .perform (.parse file) o)
    (hwords' : Command.ofLine words' = .perform (.run file) o) (read : String → Option ByteArray)
    (input input' : List UInt8) :
    let tree := (Command.ofLine words).outcome read input
    let value := (Command.ofLine words').outcome read input'
    (∀ source, read file = some source.toUTF8 →
      (match parse (lex source) o with
        | .ok e => tree.visible = (0, e.indentedJson ++ "\n", [])
        | .error err => tree.visible = (1, "", [err.diagnostic.code])) ∧
      (match run source o with
        | .ok (e, n) => tree.output = e.indentedJson ++ "\n" ∧ value.visible = (0, tree.output ++ n.text ++ "\n", [])
        | .error (.parse err) => value.visible = (1, "", [err.diagnostic.code])
        | .error (.eval err) => value.visible = (1, tree.output, [err.diagnostic.code])) ∧
      (value.exitCode = 0 ↔ ∃ r, run source o = .ok r)) ∧
    (∃ more, value.output = tree.output ++ more) ∧ tree.codes.length ≤ 1 ∧ value.codes.length ≤ 1 := by
  intro tree value
  have htree : tree = onFile read file (showTree o) := congrArg (·.outcome read input) hwords
  have hvalue : value = onFile read file (showValue o) := congrArg (·.outcome read input') hwords'
  clear_value tree value
  constructor
  · intro source hsource
    have hshown := shown_source o source
    rw [onFile_of_utf8 hsource] at htree hvalue
    rw [← htree, ← hvalue] at hshown
    cases hshown with
    | value hparse hrun =>
      rw [hparse, hrun]
      exact ⟨rfl, ⟨rfl, rfl⟩, fun _ => ⟨_, rfl⟩, fun _ => rfl⟩
    | tree hparse hrun =>
      rw [hparse, hrun]
      exact ⟨rfl, rfl, nofun, nofun⟩
    | nothing hparse hrun =>
      rw [hparse, hrun]
      exact ⟨rfl, rfl, nofun, nofun⟩
  · rw [htree, hvalue]
    obtain ⟨source, hsource⟩ | hunread := onFile_cases read file
    · rw [hsource, hsource]
      exact (shown_source o source).extends
    · rw [hunread, hunread]
      exact ⟨⟨"", String.append_empty.symm⟩, Nat.zero_le 1, Nat.zero_le 1⟩

/-- A division by zero takes nothing of the tree back, and what is after the expression does no harm. -/
theorem parse_and_run_agree_division :
    let words := ["parse", "--permissive", "input.p"]
    let words' := ["--permissive", "run", "--", "input.p"]
    let read := fun file => if file = "input.p" then some "8 / 0 é".toUTF8 else none
    Command.ofLine words = .perform (.parse "input.p") .permissive ∧
      Command.ofLine words' = .perform (.run "input.p") .permissive ∧
      run "8 / 0 é" .permissive = .error (.eval (.divisionByZero ⟨2, 1⟩)) ∧
      ((Command.ofLine words').outcome read []).visible =
        (1, ((Command.ofLine words).outcome read []).output, ["plang::eval::division_by_zero"]) := by
  intro words words' read
  have hwords : Command.ofLine words = .perform (.parse "input.p") .permissive := by decide +kernel
  have hwords' : Command.ofLine words' = .perform (.run "input.p") .permissive := by decide +kernel
  have hrun : run "8 / 0 é" .permissive = .error (.eval (.divisionByZero ⟨2, 1⟩)) := by decide +kernel
  obtain ⟨-, hvalue, -⟩ := (parse_and_run_agree hwords hwords' read [] []).1 "8 / 0 é" rfl
  rw [hrun] at hvalue
  exact ⟨hwords, hwords', hrun, hvalue⟩

end ArithLang
