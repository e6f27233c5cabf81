/-
Where failures point. Places go from the scanner to tokens, from tokens to trees and from trees to failures, and
nothing on the way is asked whether it is still in the source. `Error.PointsInto` says for each failure what its
place has to be; main fact: it always is (`run_error_pointsInto`).

A failure of the parser is about a token (`Parser.fails_of_parse_error`), one of the evaluation about a symbol of
the tree (`Expr.value_error`), which was read from a token too; and the tokens tile the source. Only the end of
the tokens is no token: after it there are blanks only (`Tokenizes.content`).
-/
import ArithLang.Proofs.Evaluation.Value
import ArithLang.Proofs.Parser.Calls
import ArithLang.Proofs.Parser.RoundTrip
import ArithLang.Proofs.Scanner.Tiling

namespace ArithLang

/-! ## Places -/

/-- Up to byte `n` the source ends with no blank, and from there on there are blanks only. -/
def ContentEnds (source : String) (n : Nat) : Prop :=
  ∃ before blanks, source = before ++ blanks ∧ before.utf8ByteSize = n ∧
    (∀ c ∈ blanks.toList, c ∈ " \t\n".toList) ∧ ∀ c ∈ before.toList.getLast?, c ∉ " \t\n".toList

/-- What is at the place of a failure: the text it names, the literal that is the whole expression, the sign of
the division, or the end of all that is not blank. -/
def Error.PointsInto (source : String) (o : ParseOptions) : Error → Prop
  | parse (.unexpectedEnd span) => span.length = 0 ∧ ContentEnds source span.start
  | parse (.expectedLiteral found span) => span.Covers source found
  | parse (.trailingInput found span) => span.Covers source found
  | eval (.loneLiteral span) =>
    ∃ text, ArithLang.parse (lex source) o = .ok (.literal ⟨text, span.start⟩) ∧ span.Covers source text
  | eval (.invalidLiteral text span) => span.Covers source text
  | eval (.divisionByZero span) => span.Covers source "/"
  | eval (.quotientTooLarge span) => span.Covers source "/"

/-! ## The end of the tokens -/

theorem Tokenizes.content {offset : Nat} {cs : List Char} {ts : List Token} (h : Tokenizes offset cs ts) :
    ∃ before blanks, cs = before ++ blanks ∧ AllBlank blanks ∧
      offset + byteLength before = ts.getLast?.elim offset (·.span.stop) ∧
      ∀ c ∈ before.getLast?, isBlank c = false := by
  induction h with
  | @blank offset cs hb => exact ⟨[], cs, rfl, hb, rfl, nofun⟩
  | @token offset blanks rest t ts hb ht hat hrest h ih =>
    obtain ⟨before, after, rfl, hafter, hend, hlast⟩ := ih
    refine ⟨blanks ++ (t.text.toList ++ before), after, by simp, hafter, ?_, ?_⟩
    · rw [← Token.stop_span_add hat, hend]
      cases ts <;> rfl
    · -- the last character is one of the rest, or else one of this token
      have htext : t.text.toList ≠ [] := mt String.toList_eq_nil_iff.1 ht.text_ne_empty
      refine forall_getLast?_append ?_ fun hnil => absurd (List.append_eq_nil_iff.1 hnil).1 htext
      exact forall_getLast?_append hlast fun _ c hc => ht.not_blank c (List.mem_of_getLast? hc)

theorem contentEnds_endOfTokens (source : String) (o : ParseOptions) :
    ContentEnds source (Parser.ofTokens (lex source) o).endOfTokens := by
  obtain ⟨before, blanks, hsource, hblanks, hend, hlast⟩ := (tokenizes_tokensFrom 0 source.toList).content
  refine ⟨String.ofList before, String.ofList blanks, ?_, ?_, ?_, ?_⟩
  · rw [← String.toList_inj]
    simpa using hsource
  · rw [Parser.endOfTokens_ofTokens, ← byteLength, ← Nat.zero_add (byteLength before)]
    exact hend
  · rw [String.toList_ofList]
    exact fun c hc => isBlank_iff.1 (hblanks c hc)
  · rw [String.toList_ofList]
    intro c hc
    rw [← isBlank_iff, hlast c hc]
    simp

/-! ## Failures -/

variable {source : String} {o : ParseOptions}

theorem parse_error_pointsInto {e : ParseError} (h : parse (lex source) o = .error e) :
    (Error.parse e).PointsInto source o := by
  have hall : (Parser.ofTokens (lex source) o).taken ++ _ = lex source := Parser.taken_append_remaining _
  cases Parser.fails_of_parse_error h with
  | ended => exact ⟨rfl, contentEnds_endOfTokens source o⟩
  | refused ht =>
    refine covers_of_mem_lex ?_
    rw [← hall]
    exact List.mem_append_left _ (List.mem_of_getLast? ht)
  | trailing ht =>
    refine covers_of_mem_lex ?_
    rw [← hall]
    exact List.mem_append_right _ (List.mem_of_head? ht)

theorem literal_covers {e : Expr} (h : parse (lex source) o = .ok e) {text : Located String}
    (hmem : Symbol.literal text ∈ e.inOrder) : (Span.ofText text.offset text.value).Covers source text.value := by
  obtain ⟨t, ht, -, rfl⟩ := Parser.exists_token_of_parse_ok h hmem
  exact covers_of_mem_lex ht

theorem divide_covers {e : Expr} (h : parse (lex source) o = .ok e) {op : Located Operator}
    (hmem : Symbol.operator op ∈ e.inOrder) (hop : op.value = .divide) : (Span.mk op.offset 1).Covers source "/" := by
  obtain ⟨t, ht, hkind, hat⟩ := Parser.exists_token_of_parse_ok h hmem
  rw [hop, Operator.ofKind?_eq_some_iff] at hkind
  have htext : t.text = String.singleton '/' := (wellFormed_of_mem_lex ht).text_eq_of_kind hkind
  have hcovers := covers_of_mem_lex ht
  rw [Token.span, htext, hat] at hcovers
  exact hcovers

theorem evaluate_error_pointsInto {e : Expr} {err : EvalError} (h : parse (lex source) o = .ok e)
    (herr : e.evaluate = .error err) : (Error.eval err).PointsInto source o := by
  cases e with
  | literal text =>
    cases herr
    exact ⟨text.value, h, literal_covers h List.mem_cons_self⟩
  | binary op left right =>
    cases Expr.value_error herr with
    | literal hmem => exact literal_covers h hmem
    | byZero hmem hop => exact divide_covers h hmem hop
    | tooLarge hmem hop => exact divide_covers h hmem hop

theorem Error.PointsInto.covers {err : Error} (h : err.PointsInto source o) :
    ∃ text, err.diagnostic.span.Covers source text := by
  rcases err with (span | ⟨found, span⟩ | ⟨found, span⟩) | (span | ⟨text, span⟩ | span | span)
  case parse.unexpectedEnd =>
    obtain ⟨hlength, before, blanks, rfl, hat, -⟩ := h
    rw [← String.append_empty (s := before)]
    exact ⟨"", Span.covers_of_append hat.symm hlength⟩
  case parse.expectedLiteral => exact ⟨_, h⟩
  case parse.trailingInput => exact ⟨_, h⟩
  case eval.loneLiteral =>
    obtain ⟨text, -, hcovers⟩ := h
    exact ⟨text, hcovers⟩
  case eval.invalidLiteral => exact ⟨_, h⟩
  case eval.divisionByZero => exact ⟨_, h⟩
  case eval.quotientTooLarge => exact ⟨_, h⟩

/-- Failures point into the source, at what they are about. -/
theorem run_error_pointsInto {err : Error} (h : run source o = .error err) :
    err.PointsInto source o ∧ err.diagnostic.span.stop ≤ source.utf8ByteSize ∧
      (String.Pos.Raw.mk err.diagnostic.span.start).IsValid source ∧
      (String.Pos.Raw.mk err.diagnostic.span.stop).IsValid source := by
  have hpoints : err.PointsInto source o := by
    obtain ⟨e, hparse, rfl⟩ | ⟨e, err', hparse, heval, rfl⟩ := run_eq_error_iff.1 h
    · exact parse_error_pointsInto hparse
    · exact evaluate_error_pointsInto hparse heval
  obtain ⟨text, hcovers⟩ := hpoints.covers
  exact ⟨hpoints, hcovers.stop_le, hcovers.start, hcovers.stop⟩

/-- A letter of two bytes is named with both of them. -/
theorem run_error_pointsInto_wide_letter :
    run "1 / é" .permissive = .error (.eval (.invalidLiteral "é" ⟨4, 2⟩)) ∧ Span.Covers ⟨4, 2⟩ "1 / é" "é" := by
  have hrun : run "1 / é" .permissive = .error (.eval (.invalidLiteral "é" ⟨4, 2⟩)) := by decide +kernel
  exact ⟨hrun, (run_error_pointsInto hrun).1⟩

end ArithLang
