/-
Which outcome the parser gives, read off the kinds of the tokens alone: literals have to stand at the
even indices and operators at the odd ones, and the first index where that is not so decides
(`parse_ofTokens`). A literal slot that is empty or badly filled is the error the chain under the tree ends
with (`Unfilled`); an operator slot that is, is the end of the expression. Precedence has no part in it.
-/
import ArithLang.Proofs.Parser.Descent

namespace ArithLang.Parser

open Chain

/-! ## Slots -/

/-- Whether a token of kind `k` fits at index `i`: a literal if `i` is even, an operator if it is odd. -/
def fitsSlot (o : ParseOptions) (i : Nat) (k : TokenKind) : Bool :=
  if i % 2 = 0 then o.acceptsLiteral k else (Operator.ofKind? k).isSome

/-- How many tokens fit if the first one is at index `i`. -/
def fittingFrom (o : ParseOptions) (i : Nat) (tokens : List Token) : Nat :=
  (tokens.zipIdx i).findIdx fun x => !fitsSlot o x.2 x.1.kind

/-- The first index whose token does not fit, or the number of tokens if all do. -/
def firstMisfit (o : ParseOptions) (tokens : List Token) : Nat := fittingFrom o 0 tokens

variable {o : ParseOptions} {eof i n : Nat} {t : Token} {tokens rest : List Token}

@[simp] theorem fittingFrom_nil : fittingFrom o i [] = 0 := rfl

theorem fittingFrom_cons :
    fittingFrom o i (t :: rest) = if fitsSlot o i t.kind then fittingFrom o (i + 1) rest + 1 else 0 := by
  rw [fittingFrom, List.zipIdx_cons, List.findIdx_cons]
  cases fitsSlot o i t.kind <;> rfl

theorem fittingFrom_add_two : fittingFrom o (i + 2) tokens = fittingFrom o i tokens := by
  induction tokens generalizing i with
  | nil => rfl
  | cons t rest ih =>
    have hfits : fitsSlot o (i + 2) t.kind = fitsSlot o i t.kind := by simp [fitsSlot]
    rw [fittingFrom_cons, fittingFrom_cons, hfits, show i + 2 + 1 = i + 1 + 2 by omega, ih]

theorem endOfTokens_ofTokens (tokens : List Token) (o : ParseOptions) :
    (ofTokens tokens o).endOfTokens = tokens.getLast?.elim 0 (·.span.stop) := by
  unfold endOfTokens ofTokens
  cases tokens.getLast? <;> rfl

@[simp] theorem fitsSlot_zero (k : TokenKind) : fitsSlot o 0 k = o.acceptsLiteral k := rfl
@[simp] theorem fitsSlot_one (k : TokenKind) : fitsSlot o 1 k = (Operator.ofKind? k).isSome := rfl

theorem operatorIn?_all (t : Token) : operatorIn? (fun _ => true) t = Operator.ofKind? t.kind := by
  unfold operatorIn?
  cases Operator.ofKind? t.kind <;> rfl

/-! ## Where a chain ends -/

/-- A literal is missing at index `i`, because the tokens end there or because the token there is none;
the error says which, and `n` tokens are gone. -/
inductive Unfilled (o : ParseOptions) (eof : Nat) (tokens : List Token) (i : Nat) : ParseError → Nat → Prop
  | absent : i = tokens.length → Unfilled o eof tokens i (.unexpectedEnd ⟨eof, 0⟩) i
  | refused {t : Token} : tokens[i]? = some t → o.acceptsLiteral t.kind = false →
      Unfilled o eof tokens i (.expectedLiteral t.text t.span) (i + 1)

theorem Unfilled.cons {e : ParseError} (h : Unfilled o eof rest i e n) :
    Unfilled o eof (t :: rest) (i + 1) e (n + 1) := by
  cases h with
  | absent hi => exact .absent (by rw [hi, List.length_cons])
  | refused hu ht => exact .refused (by simpa using hu) ht

theorem Unfilled.of_getElem?_none {e : ParseError} (h : Unfilled o eof tokens i e n) (hi : tokens[i]? = none) :
    i = tokens.length ∧ e = .unexpectedEnd ⟨eof, 0⟩ ∧ n = i := by
  cases h with
  | absent hlen => exact ⟨hlen, rfl, rfl⟩
  | refused ht => rw [ht] at hi; cases hi

theorem Unfilled.of_getElem?_some {e : ParseError} (h : Unfilled o eof tokens i e n) (ht : tokens[i]? = some t) :
    o.numericLiterals = true ∧ t.kind ≠ .number ∧ e = .expectedLiteral t.text t.span ∧ n = i + 1 := by
  cases h with
  | absent hlen =>
    rw [List.getElem?_eq_none (Nat.le_of_eq hlen.symm)] at ht
    cases ht
  | refused hu hkind =>
    rw [hu] at ht; cases ht
    obtain ⟨hnum, hkind⟩ := ParseOptions.acceptsLiteral_eq_false_iff.1 hkind
    exact ⟨hnum, hkind, rfl, rfl⟩

/-- Links end before the first token that does not fit; that is an operator slot. -/
theorem fittingFrom_of_links {links : List Link}
    (h : ReadsLinks (fun _ => true) o eof tokens links none n) : fittingFrom o 1 tokens = n ∧ n % 2 = 0 := by
  generalize hf : (none : Option ParseError) = f at h
  induction h with
  | @stop tokens hs =>
    refine ⟨?_, rfl⟩
    cases tokens with
    | nil => rfl
    | cons t rest => simp [fittingFrom_cons, ← operatorIn?_all, hs t rfl]
  | dangling => cases hf
  | refused => cases hf
  | @link t u rest op links failure n ht hu _ ih =>
    obtain ⟨hfit, hn⟩ := ih hf
    rw [operatorIn?_all] at ht
    refine ⟨?_, by omega⟩
    rw [fittingFrom_cons, fitsSlot_one, ht, fittingFrom_cons, fittingFrom_add_two, hfit]
    simp [fitsSlot, hu]

/-- Links fail at the first token that does not fit; that is a literal slot. -/
theorem fittingFrom_of_links_error {links : List Link} {e : ParseError}
    (h : ReadsLinks (fun _ => true) o eof tokens links (some e) n) :
    fittingFrom o 1 tokens % 2 = 1 ∧ Unfilled o eof tokens (fittingFrom o 1 tokens) e n := by
  generalize hf : some e = f at h
  induction h with
  | stop => cases hf
  | dangling ht =>
    cases hf
    rw [operatorIn?_all] at ht
    simp only [fittingFrom_cons, fitsSlot_one, ht, fittingFrom_nil]
    exact ⟨rfl, .absent rfl⟩
  | refused ht hu =>
    cases hf
    rw [operatorIn?_all] at ht
    simp only [fittingFrom_cons, ht, fitsSlot, hu]
    exact ⟨rfl, .refused rfl hu⟩
  | @link t u rest op links failure n ht hu _ ih =>
    obtain ⟨hodd, hfill⟩ := ih hf
    rw [operatorIn?_all] at ht
    have hfit : fittingFrom o 1 (t :: u :: rest) = fittingFrom o 1 rest + 2 := by
      rw [fittingFrom_cons, fitsSlot_one, ht, fittingFrom_cons, fittingFrom_add_two]
      simp [fitsSlot, hu]
    rw [hfit]
    exact ⟨by omega, hfill.cons.cons⟩

theorem firstMisfit_of_ok {c : Chain} (h : Chain.Reads (fun _ => true) o eof tokens (.ok c) n) :
    firstMisfit o tokens = n ∧ n % 2 = 1 := by
  cases h with
  | chain ht h =>
    obtain ⟨hfit, hn⟩ := fittingFrom_of_links h
    refine ⟨?_, by omega⟩
    rw [firstMisfit, fittingFrom_cons, fitsSlot_zero, ht, if_pos rfl, hfit]

theorem firstMisfit_of_error {e : ParseError} (h : Chain.Reads (fun _ => true) o eof tokens (.error e) n) :
    firstMisfit o tokens % 2 = 0 ∧ Unfilled o eof tokens (firstMisfit o tokens) e n := by
  cases h with
  | nothing => exact ⟨rfl, .absent rfl⟩
  | refused ht =>
    rw [firstMisfit, fittingFrom_cons, fitsSlot_zero, ht]
    exact ⟨rfl, .refused rfl ht⟩
  | failed ht h =>
    obtain ⟨hodd, hfill⟩ := fittingFrom_of_links_error h
    rw [firstMisfit, fittingFrom_cons, fitsSlot_zero, ht, if_pos rfl, Nat.zero_add]
    exact ⟨by omega, hfill.cons⟩

/-! ## The outcome -/

/-- What comes after a chain: nothing, or a token that is no operator and decides by the options. -/
theorem answer_of_ok {c : Chain} (h : Chain.Reads (fun _ => true) o eof tokens (.ok c) n) :
    (tokens[n]? = none → n = tokens.length ∧ answer o (.ok c) (tokens.drop n) = .ok c.toExpr) ∧
    ∀ t, tokens[n]? = some t → Operator.ofKind? t.kind = none ∧
      answer o (.ok c) (tokens.drop n) =
        if o.requireEnd then .error (.trailingInput t.text t.span) else .ok c.toExpr := by
  have hhead : (tokens.drop n).head? = tokens[n]? := List.head?_drop
  constructor
  · intro hnone
    have hleft : tokens.drop n = [] := List.head?_eq_none_iff.1 (hhead.trans hnone)
    exact ⟨Nat.le_antisymm h.le_length (List.getElem?_eq_none_iff.1 hnone), by rw [hleft]; rfl⟩
  · intro t ht
    obtain ⟨rest, hleft⟩ := List.head?_eq_some_iff.1 (hhead.trans ht)
    refine ⟨?_, by rw [hleft]; rfl⟩
    rw [← operatorIn?_all]
    exact h.stops t (hhead.trans ht)

/-- What a new parser returns and where it then stands, by the first index whose token does not fit. If that
is a literal slot, the call fails there: at the end of the tokens, or at a token that is no number where
numbers are asked for. If it is an operator slot, the expression ends there, and a token that stands there
is trailing input or ignored. -/
theorem parse_ofTokens (o : ParseOptions) (tokens : List Token) :
    let i := firstMisfit o tokens
    let result := (ofTokens tokens o).parse
    (i % 2 = 0 → tokens[i]? = none → i = tokens.length ∧
      result = (.error (.unexpectedEnd ⟨tokens.getLast?.elim 0 (·.span.stop), 0⟩), ⟨tokens, tokens.length, o⟩)) ∧
    (i % 2 = 0 → ∀ t, tokens[i]? = some t → o.numericLiterals = true ∧ t.kind ≠ .number ∧
      result = (.error (.expectedLiteral t.text t.span), ⟨tokens, i + 1, o⟩)) ∧
    (i % 2 = 1 → tokens[i]? = none → i = tokens.length ∧
      ∃ e, result = (.ok e, ⟨tokens, tokens.length, o⟩)) ∧
    (i % 2 = 1 → ∀ t, tokens[i]? = some t → Operator.ofKind? t.kind = none ∧
      if o.requireEnd then result = (.error (.trailingInput t.text t.span), ⟨tokens, i, o⟩)
      else ∃ e, result = (.ok e, ⟨tokens, i, o⟩)) := by
  intro i result
  have hi : firstMisfit o tokens = i := rfl
  obtain ⟨r, n, hreads, hresult⟩ := parse_ofTokens_eq tokens o
  change result = _ at hresult
  clear_value i result
  subst hresult
  rcases r with e | c
  · -- no chain was read: a literal is missing at `i`
    obtain ⟨heven, hfill⟩ := firstMisfit_of_error hreads
    rw [hi] at heven hfill
    refine ⟨fun _ hnone => ?_, fun _ t ht => ?_, by omega, by omega⟩
    · obtain ⟨hlen, rfl, rfl⟩ := hfill.of_getElem?_none hnone
      exact ⟨hlen, by rw [answer, endOfTokens_ofTokens, hlen]⟩
    · obtain ⟨hnum, hkind, rfl, rfl⟩ := hfill.of_getElem?_some ht
      exact ⟨hnum, hkind, rfl⟩
  · -- a chain was read up to `i`: what stands there, if anything, is no operator
    obtain ⟨hfit, hodd⟩ := firstMisfit_of_ok hreads
    obtain rfl : i = n := hi.symm.trans hfit
    obtain ⟨hend, hleft⟩ := answer_of_ok hreads
    refine ⟨by omega, by omega, fun _ hnone => ?_, fun _ t ht => ?_⟩
    · obtain ⟨hlen, hanswer⟩ := hend hnone
      exact ⟨hlen, c.toExpr, by rw [hanswer, hlen]⟩
    · obtain ⟨hkind, hanswer⟩ := hleft t ht
      refine ⟨hkind, ?_⟩
      rw [hanswer]
      split
      · rfl
      · exact ⟨c.toExpr, rfl⟩

end ArithLang.Parser
