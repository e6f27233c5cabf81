/-
What the options of the parser change in the answer of `run`, by running one source twice. A source that has a
value has the same value, and the same tree, with any other options, unless something comes after the tree and
nothing may (`run_of_options`). For a value asks for more than the options do: every literal has been evaluated,
so it is a run of digits, and in the tokens of a source those are the number tokens.
-/
import ArithLang.Proofs.Evaluation.Value
import ArithLang.Proofs.Parser.RoundTrip
import ArithLang.Proofs.Scanner.Tiling

namespace ArithLang

/-- Among the tokens of a source, those with the text of a number are the number tokens. -/
theorem Token.WellFormed.isSome_literalValue?_iff {t : Token} (h : t.WellFormed) :
    (literalValue? t.text).isSome = true ↔ t.kind = .number := by
  rw [ArithLang.isSome_literalValue?_iff, h.kind_eq_number_iff]
  exact and_iff_right (mt String.toList_eq_nil_iff.1 h.text_ne_empty)

/-- A symbol that is read from a token is read from it with any options, if it is no literal or the token is a
number. -/
theorem Symbol.ReadFrom.of_options {s : Symbol} {o o' : ParseOptions} {t : Token} (h : s.ReadFrom o t)
    (hnum : ∀ text, s = .literal text → t.kind = .number) : s.ReadFrom o' t := by
  cases s with
  | literal text => exact ⟨by simp [ParseOptions.acceptsLiteral, hnum text rfl], h.2⟩
  | operator op => exact h

variable {source : String} {o : ParseOptions}

/-- A source that has a value has the same one with other options, unless something may not follow it. -/
theorem run_of_options {e : Expr} {n : Number} (h : run source o = .ok (e, n)) (o' : ParseOptions) :
    ∃ front rest, lex source = front ++ rest ∧ List.Forall₂ (Symbol.ReadFrom o') e.inOrder front ∧
      (o.requireEnd = true → rest = []) ∧
      run source o' = match rest with
        | [] => .ok (e, n)
        | t :: _ => if o'.requireEnd then .error (.parse (.trailingInput t.text t.span)) else .ok (e, n) := by
  obtain ⟨hparse, heval⟩ := run_eq_ok_iff.1 h
  have hliterals := Expr.literals_of_value_ok (Expr.value_of_evaluate_ok heval)
  have hread : ∀ s ∈ e.inOrder, ∀ t ∈ lex source, s.ReadFrom o t → s.ReadFrom o' t := by
    intro s hs t ht hread
    refine hread.of_options fun text htext => ?_
    subst htext
    rw [← (wellFormed_of_mem_lex ht).isSome_literalValue?_iff]
    obtain ⟨-, rfl⟩ := hread
    exact hliterals _ hs
  obtain ⟨front, rest, hlex, hfront, hend, hparse'⟩ := Parser.parse_of_options hparse hread
  refine ⟨front, rest, hlex, hfront, hend, ?_⟩
  cases rest with
  | nil => exact run_eq_ok_iff.2 ⟨hparse', heval⟩
  | cons t rest =>
    by_cases ho : o'.requireEnd = true
    · simp only [if_pos ho] at hparse' ⊢
      exact run_of_parse_error hparse'
    · simp only [if_neg ho] at hparse' ⊢
      exact run_eq_ok_iff.2 ⟨hparse', heval⟩

/-- With numbers for literals only, no literal fails. -/
theorem run_ne_invalidLiteral (ho : o.numericLiterals = true) (text : String) (span : Span) :
    run source o ≠ .error (.eval (.invalidLiteral text span)) := by
  intro h
  obtain ⟨_, -, hne⟩ | ⟨e, err, hparse, heval, herr⟩ := run_eq_error_iff.1 h
  · cases hne
  cases herr
  have hliterals : ∀ text, Symbol.literal text ∈ e.inOrder → (literalValue? text.value).isSome = true := by
    intro text hmem
    obtain ⟨t, ht, hkind, rfl⟩ := Parser.exists_token_of_parse_ok hparse hmem
    refine (wellFormed_of_mem_lex ht).isSome_literalValue?_iff.2 ?_
    simpa [ParseOptions.acceptsLiteral, ho] using hkind
  cases e with
  | literal text => cases heval
  | binary op left right => exact Expr.value_ne_invalidLiteral hliterals text span heval

/-- A value does not depend on whether literals have to be numbers, only an invalid literal does; where nothing may
follow the expression, a value is either as it is where anything may, or there is trailing input right after the
tree. -/
theorem run_options (source : String) :
    (∀ requireEnd r, run source ⟨false, requireEnd⟩ = .ok r ↔ run source ⟨true, requireEnd⟩ = .ok r) ∧
    (∀ numeric r, run source ⟨numeric, true⟩ = .ok r → run source ⟨numeric, false⟩ = .ok r) ∧
    (∀ numeric r, run source ⟨numeric, false⟩ = .ok r → ∃ front rest, lex source = front ++ rest ∧
      List.Forall₂ (Symbol.ReadFrom ⟨numeric, true⟩) r.1.inOrder front ∧
      run source ⟨numeric, true⟩ = match rest with
        | [] => .ok r
        | t :: _ => .error (.parse (.trailingInput t.text t.span))) ∧
    (∀ requireEnd text span, run source ⟨true, requireEnd⟩ ≠ .error (.eval (.invalidLiteral text span))) := by
  -- with the same demand on the end, what follows the tree is in the way for both options or for none
  have same_end : ∀ {o o' : ParseOptions} {r}, o'.requireEnd = o.requireEnd → run source o = .ok r →
      run source o' = .ok r := by
    intro o o' r ho h
    obtain ⟨front, rest, -, -, hend, hrun⟩ := run_of_options h o'
    cases rest with
    | nil => exact hrun
    | cons t rest =>
      exact hrun.trans (if_neg fun htrue => List.cons_ne_nil _ _ (hend (ho ▸ htrue)))
  refine ⟨fun requireEnd r => ⟨same_end rfl, same_end rfl⟩, fun numeric r h => ?_, fun numeric r h => ?_,
    fun requireEnd text span => run_ne_invalidLiteral rfl text span⟩
  · obtain ⟨front, rest, -, -, hend, hrun⟩ := run_of_options h ⟨numeric, false⟩
    obtain rfl := hend rfl
    exact hrun
  · obtain ⟨front, rest, hlex, hfront, -, hrun⟩ := run_of_options h ⟨numeric, true⟩
    exact ⟨front, rest, hlex, hfront, hrun⟩

end ArithLang
