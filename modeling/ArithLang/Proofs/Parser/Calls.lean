/-
Calling one parser again and again. A call takes some tokens from those that are left, at least one if any is
left (`taken_append_remaining`, `taken_ne_nil`); what it returns it would return as a new parser on the tokens that
are left, apart from the place reported when they run out (`parse_eq_fresh`). A failing call has taken the token
that is no literal, and has left the token that is trailing input (`fails_of_parse_error`).

From one call to many: the tokens taken by the calls so far, one call after the other, are the tokens behind the
parser (`flatten_taken`), and after as many calls as there are tokens nothing is left
(`length_remaining_afterCalls`).
-/
import ArithLang.Proofs.Parser.Alternation

namespace ArithLang

/-- The error as it is reported when the tokens end at `eof`. -/
def ParseError.withEnd (eof : Nat) : ParseError → ParseError
  | unexpectedEnd _ => unexpectedEnd ⟨eof, 0⟩
  | e => e

/-! ## The end of the tokens -/

namespace Chain

variable {ops : Operator → Bool} {o : ParseOptions} {eof : Nat} {tokens : List Token} {n : Nat}

/-- The end of the tokens is in the error only. -/
theorem ReadsLinks.withEnd {links : List Link} {failure : Option ParseError}
    (h : ReadsLinks ops o eof tokens links failure n) (eof' : Nat) :
    ReadsLinks ops o eof' tokens links (failure.map (·.withEnd eof')) n := by
  induction h with
  | stop hs => exact .stop hs
  | dangling ht => exact .dangling ht
  | refused ht hu => exact .refused ht hu
  | link ht hu _ ih => exact .link ht hu ih

theorem Reads.withEnd {r : Except ParseError Chain} (h : Reads ops o eof tokens r n) (eof' : Nat) :
    Reads ops o eof' tokens (r.mapError (·.withEnd eof')) n := by
  cases h with
  | nothing => exact .nothing
  | refused ht => exact .refused ht
  | failed ht h => exact .failed ht (h.withEnd eof')
  | chain ht h => exact .chain ht (h.withEnd eof')

theorem Reads.pos {r : Except ParseError Chain} (h : Reads ops o eof tokens r n) (hne : tokens ≠ []) : 0 < n := by
  cases h with
  | nothing => exact absurd rfl hne
  | refused => exact Nat.one_pos
  | failed => exact Nat.succ_pos _
  | chain => exact Nat.succ_pos _

end Chain

namespace Parser

open Chain

variable {p : Parser}

/-! ## One call -/

/-- The tokens that the next call takes. -/
def taken (p : Parser) : List Token := p.remaining.take (p.parse.2.position - p.position)

/-- A call reads a chain, and the tokens it takes are those of the chain or of the failure to read one. -/
theorem parse_eq_taken (p : Parser) : ∃ r,
    Chain.Reads (fun _ => true) p.options p.endOfTokens p.remaining r p.taken.length ∧
    p.parse = (answer p.options r (p.remaining.drop p.taken.length), p.skip p.taken.length) := by
  obtain ⟨r, n, hreads, heq⟩ := parse_eq p
  have hlen : p.taken.length = n := by
    rw [taken, heq, position_skip, Nat.add_sub_cancel_left, List.length_take, Nat.min_eq_left hreads.le_length]
  rw [hlen]
  exact ⟨r, hreads, heq⟩

theorem parse_snd (p : Parser) : p.parse.2 = p.skip p.taken.length := by
  obtain ⟨r, -, heq⟩ := parse_eq_taken p
  exact congrArg Prod.snd heq

theorem taken_eq_take (p : Parser) : p.taken = p.remaining.take p.taken.length := by
  rw [taken, List.length_take, ← List.take_eq_take_min]

/-- No token is lost and none is taken twice. -/
theorem taken_append_remaining (p : Parser) : p.taken ++ p.parse.2.remaining = p.remaining := by
  rw [parse_snd, remaining_skip]
  exact (congrArg (· ++ _) (taken_eq_take p)).trans (List.take_append_drop _ _)

theorem taken_ne_nil (h : p.remaining ≠ []) : p.taken ≠ [] := by
  obtain ⟨r, hreads, -⟩ := parse_eq_taken p
  exact List.ne_nil_of_length_pos (hreads.pos h)

/-- How a call fails: the tokens ran out, the last token it took is no literal, or the first one it left should not
be there. -/
inductive Fails (p : Parser) : ParseError → Prop
  | ended : p.parse.2.remaining = [] → Fails p (.unexpectedEnd ⟨p.endOfTokens, 0⟩)
  | refused {t : Token} : p.taken.getLast? = some t → Fails p (.expectedLiteral t.text t.span)
  | trailing {t : Token} : p.parse.2.remaining.head? = some t → Fails p (.trailingInput t.text t.span)

theorem fails_of_parse_error {e : ParseError} (h : p.parse.1 = .error e) : p.Fails e := by
  obtain ⟨r, hreads, heq⟩ := parse_eq_taken p
  have hleft : p.parse.2.remaining = p.remaining.drop p.taken.length := by rw [parse_snd, remaining_skip]
  rw [heq] at h
  obtain rfl | ⟨t, ht, rfl⟩ := answer_eq_error h
  · obtain ⟨-, hfill⟩ := firstMisfit_of_error hreads
    generalize hi : firstMisfit p.options p.remaining = i at hfill
    generalize hn : p.taken.length = n at hfill
    cases hfill with
    | absent hlen => exact .ended (by rw [hleft, hn, hlen, List.drop_length])
    | refused ht _ =>
      refine .refused ?_
      rw [taken_eq_take, hn, List.take_add_one, ht]
      simp
  · exact .trailing (by rw [hleft, ht])

/-- The tokens taken by a call that succeeds are those of the tree. -/
theorem spells_of_parse_ok {e : Expr} (h : p.parse.1 = .ok e) :
    List.Forall₂ (Symbol.ReadFrom p.options) e.inOrder p.taken := by
  obtain ⟨r, hreads, heq⟩ := parse_eq_taken p
  rw [heq] at h
  obtain ⟨c, rfl, rfl, -⟩ := answer_eq_ok h
  rw [inOrder_toExpr, taken_eq_take]
  exact hreads.spells

theorem answer_withEnd (o : ParseOptions) (r : Except ParseError Chain) (rest : List Token) (eof : Nat) :
    answer o (r.mapError (·.withEnd eof)) rest = (answer o r rest).mapError (·.withEnd eof) := by
  rcases r with e | c
  · rfl
  · cases rest with
    | nil => rfl
    | cons t rest => simp only [answer, Except.mapError]; split <;> rfl

theorem endOfTokens_eq (p : Parser) : p.endOfTokens = p.tokens.getLast?.elim 0 (·.span.stop) :=
  endOfTokens_ofTokens p.tokens p.options

/-- A call returns what a new parser returns for the tokens that are left, but knows where all tokens end. -/
theorem parse_eq_fresh (p : Parser) :
    let fresh := (ofTokens p.remaining p.options).parse
    p.parse = (fresh.1.mapError (·.withEnd p.endOfTokens), p.skip fresh.2.position) := by
  intro fresh
  obtain ⟨r, n, hreads, heq⟩ := parse_eq p
  obtain ⟨r', n', hreads', heq'⟩ := parse_ofTokens_eq p.remaining p.options
  obtain ⟨rfl, rfl⟩ := hreads.unique (hreads'.withEnd p.endOfTokens)
  have hfresh : fresh = _ := heq'
  rw [heq, hfresh, answer_withEnd]

/-- What one call does. -/
structure CallSpec (p : Parser) : Prop where
  forward : p.position ≤ p.parse.2.position
  within : p.parse.2.position ≤ p.tokens.length
  progress : p.position < p.tokens.length → p.position < p.parse.2.position
  /-- The call does what a new parser does with the tokens that are left, and reports the end of the whole list. -/
  fresh : let fresh := (ofTokens (p.tokens.drop p.position) p.options).parse
    p.parse = (fresh.1.mapError (·.withEnd (p.tokens.getLast?.elim 0 (·.span.stop))),
      ⟨p.tokens, p.position + fresh.2.position, p.options⟩)
  tree : ∀ e, p.parse.1 = .ok e → List.Forall₂ (Symbol.ReadFrom p.options) e.inOrder p.taken
  /-- The token that is no literal is the last one this call takes. -/
  refused : ∀ found span, p.parse.1 = .error (.expectedLiteral found span) →
    ∃ t, p.taken.getLast? = some t ∧ t.text = found ∧ t.span = span
  /-- The token that should not be there is the first one the next call takes. -/
  trailing : ∀ found span, p.parse.1 = .error (.trailingInput found span) →
    ∃ t, p.parse.2.taken.head? = some t ∧ t.text = found ∧ t.span = span

theorem callSpec (h : p.position ≤ p.tokens.length) : p.CallSpec := by
  have hnext : p.parse.2.position = p.position + p.taken.length := congrArg Parser.position (parse_snd p)
  have hlen : p.taken.length + p.parse.2.remaining.length = p.tokens.length - p.position := by
    rw [← List.length_append, taken_append_remaining, remaining, List.length_drop]
  constructor
  case forward => omega
  case within => omega
  case progress =>
    intro hlt
    have hne : p.remaining ≠ [] := by simpa [remaining] using hlt
    have := List.length_pos_iff.2 (taken_ne_nil hne)
    omega
  case fresh =>
    rw [← endOfTokens_eq]
    exact parse_eq_fresh p
  case tree => exact fun e he => spells_of_parse_ok he
  case refused =>
    intro found span he
    cases fails_of_parse_error he with
    | @refused t ht => exact ⟨t, ht, rfl, rfl⟩
  case trailing =>
    intro found span he
    cases fails_of_parse_error he with
    | @trailing t ht =>
      refine ⟨t, ?_, rfl, rfl⟩
      obtain ⟨rest, hrest⟩ := List.head?_eq_some_iff.1 ht
      have hne := taken_ne_nil (p := p.parse.2) (by rw [hrest]; exact List.cons_ne_nil _ _)
      rw [← taken_append_remaining, List.head?_append_of_ne_nil _ hne] at ht
      exact ht

/-- Where no token is left a call fails and nothing changes. -/
theorem parse_of_remaining_eq_nil (h : p.remaining = []) :
    p.parse = (.error (.unexpectedEnd ⟨p.endOfTokens, 0⟩), p) := by
  rw [parse_eq_fresh, h]
  rfl

/-! ## Many calls -/

/-- The parser after `k` calls. -/
def afterCalls (p : Parser) : Nat → Parser
  | 0 => p
  | k + 1 => (p.afterCalls k).parse.2

theorem afterCalls_eq (p : Parser) (k : Nat) : p.afterCalls k = ⟨p.tokens, (p.afterCalls k).position, p.options⟩ := by
  induction k with
  | zero => rfl
  | succ k ih => rw [afterCalls, parse_snd, ih]; rfl

/-- The tokens taken call after call are those that were left at first and are left no more. -/
theorem flatten_taken (p : Parser) (k : Nat) :
    ((List.range k).map fun i => (p.afterCalls i).taken).flatten ++ (p.afterCalls k).remaining = p.remaining := by
  induction k with
  | zero => simp [afterCalls]
  | succ k ih =>
    rw [List.range_succ, List.map_append, List.flatten_append, List.append_assoc, afterCalls]
    simpa [taken_append_remaining] using ih

/-- Every call takes a token as long as there is one. -/
theorem length_remaining_afterCalls (p : Parser) (k : Nat) :
    (p.afterCalls k).remaining.length ≤ p.remaining.length - k := by
  induction k with
  | zero => exact Nat.le_refl _
  | succ k ih =>
    have hlen := congrArg List.length (taken_append_remaining (p.afterCalls k))
    rw [List.length_append] at hlen
    rw [afterCalls]
    by_cases hne : (p.afterCalls k).remaining = []
    · rw [hne, List.length_nil] at hlen
      omega
    · have := List.length_pos_iff.2 (taken_ne_nil hne)
      omega

theorem position_afterCalls (p : Parser) (h : p.position ≤ p.tokens.length) (k : Nat) :
    (p.afterCalls k).position ≤ p.tokens.length := by
  induction k with
  | zero => exact h
  | succ k ih =>
    have htokens : (p.afterCalls k).tokens = p.tokens := by rw [afterCalls_eq]
    rw [afterCalls, ← htokens]
    exact (callSpec (htokens ▸ ih)).within

/-- Calling one parser any number of times. The calls so far have taken the tokens behind the parser, one segment
after the other; the next call goes on from there; and after as many calls as there are tokens nothing is left. -/
theorem parse_afterCalls (tokens : List Token) (o : ParseOptions) (k : Nat) :
    let p := (ofTokens tokens o).afterCalls k
    p.tokens = tokens ∧ p.options = o ∧ p.CallSpec ∧
    ((List.range k).map fun i => ((ofTokens tokens o).afterCalls i).taken).flatten = tokens.take p.position ∧
    (tokens.length ≤ k → p.parse = (.error (.unexpectedEnd ⟨tokens.getLast?.elim 0 (·.span.stop), 0⟩), p)) := by
  intro p
  have hp : p = ⟨tokens, p.position, o⟩ := afterCalls_eq (ofTokens tokens o) k
  have htokens : p.tokens = tokens := congrArg Parser.tokens hp
  have hposition : p.position ≤ tokens.length := position_afterCalls (ofTokens tokens o) (Nat.zero_le _) k
  refine ⟨htokens, congrArg Parser.options hp, callSpec (htokens ▸ hposition), ?_, fun hk => ?_⟩
  · have hflat : _ ++ p.remaining = tokens := flatten_taken (ofTokens tokens o) k
    rw [remaining, htokens] at hflat
    exact List.append_cancel_right (hflat.trans (List.take_append_drop _ _).symm)
  · have hlen : p.remaining.length ≤ tokens.length - k := length_remaining_afterCalls (ofTokens tokens o) k
    have hnil : p.remaining = [] := List.eq_nil_of_length_eq_zero (by omega)
    rw [parse_of_remaining_eq_nil hnil, endOfTokens_eq, htokens]

end Parser

end ArithLang
