/-
Divisions by zero, as they are seen in the source. The divisor of a division that was parsed is a literal, so the first
division by zero is the first `/` with a number of zeros for its next token (`division_by_zero_in_source`). A quotient
that counts as zero is a divisor in trees built by hand only.

The calculator comes past a link if its literal is a number and is not zero after a `/` (`Chain.calculate_ok`), and
stops at the first one where that is not so (`Chain.calculate_error`). That leaves the tokens of such links to be read.
-/
import ArithLang.Proofs.Evaluation.Calculator
import ArithLang.Proofs.Evaluation.Options
import ArithLang.Proofs.Number.Digits
import Mathlib.Data.List.Chain

namespace ArithLang

/-! ## Zeros after a division -/

/-- A number with no digit but 0. -/
def Token.IsZero (t : Token) : Prop := t.kind = .number ∧ t.text ≠ "" ∧ ∀ c ∈ t.text.toList, c = '0'

/-- The token is a `/`, and the one after it is zero. -/
def Token.DividesByZero (t next : Token) : Prop := t.kind = .slash ∧ next.IsZero

/-- No `/` among the tokens is followed by zero. -/
def NoDivisionByZero (tokens : List Token) : Prop := tokens.IsChain fun t next => ¬t.DividesByZero next

theorem Token.IsZero.literalValue? {t : Token} (h : t.IsZero) : literalValue? t.text = some 0 :=
  literalValue?_eq_zero_iff.2 ⟨mt String.toList_eq_nil_iff.1 h.2.1, h.2.2⟩

theorem Token.not_dividesByZero {t next : Token} (h : next.kind ≠ .number) : ¬t.DividesByZero next := fun hdiv =>
  h hdiv.2.1

/-- Among the tokens of a source, those with the value 0 are the zeros. -/
theorem Token.WellFormed.isZero {t : Token} (h : t.WellFormed) (hzero : ArithLang.literalValue? t.text = some 0) :
    t.IsZero :=
  ⟨h.isSome_literalValue?_iff.1 (by rw [hzero]; rfl), h.text_ne_empty, (literalValue?_eq_zero_iff.1 hzero).2⟩

/-! ## Links that the calculator comes past -/

/-- Of steps that succeed together, each one succeeds. -/
theorem exists_step_of_foldlM_ok {ε σ α : Type} {f : σ → α → Except ε σ} {xs : List α} {s s' : σ}
    (h : xs.foldlM f s = .ok s') : ∀ x ∈ xs, ∃ s₁ s₂, f s₁ x = .ok s₂ := by
  induction xs generalizing s with
  | nil => nofun
  | cons x xs ih =>
    rw [List.foldlM_cons] at h
    obtain ⟨s₁, hx, hxs⟩ := bind_eq_ok.1 h
    exact List.forall_mem_cons.2 ⟨⟨s, s₁, hx⟩, ih hxs⟩

theorem Operator.apply_divide_zero (span : Span) (a : Int) :
    Operator.divide.apply span a 0 = .error (.divisionByZero span) := by
  unfold apply
  exact if_pos rfl

/-- A division succeeds only if its literal is not zero. -/
theorem Calculator.step_ok {k k' : Calculator} {l : Link} (h : k.step l = .ok k') (hop : l.op.value = .divide) :
    literalValue? l.operand.value ≠ some 0 := by
  intro hzero
  have hlit : literalNumber l.operand = .ok 0 := literalNumber_eq_ok_iff.2 ⟨0, hzero, rfl⟩
  rw [step_of_not_additive (by rw [hop]; rfl), hlit, hop] at h
  obtain ⟨n, hn, h⟩ := bind_eq_ok.1 h
  cases hn
  obtain ⟨term, hterm, -⟩ := bind_eq_ok.1 h
  rw [Operator.apply_divide_zero] at hterm
  cases hterm

namespace Chain

theorem calculate_ok {c : Chain} {n : Number} (h : c.calculate = .ok n) :
    ∀ l ∈ c.links, l.op.value = .divide → literalValue? l.operand.value ≠ some 0 := by
  obtain ⟨first, links⟩ := c
  obtain ⟨m, -, h⟩ := bind_eq_ok.1 h
  obtain ⟨k, hfold, -⟩ := bind_eq_ok.1 h
  intro l hl hop
  obtain ⟨k₁, k₂, hstep⟩ := exists_step_of_foldlM_ok hfold l hl
  exact Calculator.step_ok hstep hop

/-! ## Their tokens -/

variable {c : Chain} {o : ParseOptions} {tokens : List Token}

theorem Spells.noDivisionByZero (h : c.Spells o tokens)
    (hdivisors : ∀ l ∈ c.links, l.op.value = .divide → literalValue? l.operand.value ≠ some 0) :
    NoDivisionByZero tokens := by
  obtain ⟨first, links⟩ := c
  induction links generalizing first tokens with
  | nil =>
    cases h with
    | cons _ h => cases h; exact .singleton _
  | cons l links ih =>
    obtain ⟨hl, hlinks⟩ := List.forall_mem_cons.1 hdivisors
    cases h with
    | @cons _ t _ _ _ h =>
      cases h with
      | @cons _ slash _ _ hop h =>
        cases h with
        | @cons _ next _ rest hlit h =>
          have hrest := ih l.operand (.cons hlit h) hlinks
          -- an operator is no zero, and what follows a `/` is the literal of its link
          have hfirst : ¬t.DividesByZero slash := Token.not_dividesByZero fun hkind => by
            obtain ⟨hop, -⟩ := hop
            rw [hkind] at hop
            cases hop
          have hsecond : ¬slash.DividesByZero next := fun ⟨hkind, hzero⟩ => by
            obtain ⟨hop, -⟩ := hop
            rw [hkind] at hop
            refine hl (Option.some.inj hop).symm ?_
            rw [← hlit.2]
            exact hzero.literalValue?
          exact .cons_cons hfirst (.cons_cons hsecond hrest)

/-- Where a division by zero is the first failure, it is the first one among the tokens. -/
theorem FailsFirst.tokens_of_divisionByZero {span : Span} (hc : c.Spells o tokens) (hwf : ∀ t ∈ tokens, t.WellFormed)
    (h : c.FailsFirst (.divisionByZero span)) :
    ∃ before slash zero after, tokens = before ++ slash :: zero :: after ∧ slash.span = span ∧ slash.DividesByZero zero ∧
      NoDivisionByZero (before ++ [slash]) ∧ .operator ⟨.divide, slash.offset⟩ ∈ c.symbols := by
  obtain ⟨first, links⟩ := c
  cases h with
  | @byZero before after l n hlinks hbefore hop hzero =>
    have hmem := operator_mem_symbols (c := ⟨first, links⟩) (l := l) (hlinks ▸ by simp)
    obtain ⟨⟨op, at'⟩, operand⟩ := l
    obtain rfl : op = .divide := hop
    simp only at hlinks
    subst hlinks
    obtain ⟨front, rest, rfl, hfront, hrest⟩ := Spells.of_extend (c := ⟨first, before⟩) hc
    cases hrest with
    | @cons _ slash _ _ hslash hrest =>
      cases hrest with
      | @cons _ zero _ rest hlit hrest =>
        obtain ⟨hkind, rfl⟩ := hslash
        obtain ⟨-, rfl⟩ := hlit
        have hkind : slash.kind = .slash := Operator.ofKind?_eq_some_iff.1 hkind
        have htext : slash.text = "/" := (hwf slash (by simp)).text_eq_of_kind (c := '/') hkind
        have hisZero : zero.IsZero := (hwf zero (by simp)).isZero hzero
        refine ⟨front, slash, zero, rest, rfl, ?_, ⟨hkind, hisZero⟩, ?_, hmem⟩
        · rw [Token.span, htext]
          rfl
        · refine (hfront.noDivisionByZero (calculate_ok hbefore)).append (.singleton slash) fun t _ next hnext => ?_
          cases hnext
          exact Token.not_dividesByZero (by rw [hkind]; nofun)

end Chain

/-! ## Trees -/

namespace Expr

theorem isCanonical_of_mem_subtrees {e part : Expr} (he : e.isCanonical = true) (h : part ∈ e.subtrees) :
    part.isCanonical = true := by
  induction e with
  | literal text =>
    rw [subtrees, List.mem_singleton] at h
    rwa [h]
  | binary op left right ihl ihr =>
    simp only [isCanonical, Bool.and_eq_true] at he ihl ihr
    rw [subtrees, List.mem_cons, List.mem_append] at h
    rcases h with rfl | h | h
    · simp only [isCanonical, Bool.and_eq_true]
      exact he
    · exact ihl he.1.1 h
    · exact ihr he.1.2 h

/-- In a canonical tree, no quotient is a divisor. -/
theorem isLiteral_of_divisor {e : Expr} (he : e.isCanonical = true) {op : Located Operator} {left right : Expr}
    (h : binary op left right ∈ e.subtrees) (hop : op.value = .divide) : right.isLiteral = true := by
  have hpart := isCanonical_of_mem_subtrees he h
  have hadditive : op.value.isAdditive = false := by rw [hop]; rfl
  simp only [isCanonical, hadditive, Bool.false_eq_true, if_false, Bool.and_eq_true] at hpart
  exact hpart.2.2

theorem value_of_evaluate_divisionByZero {e : Expr} {span : Span} (h : e.evaluate = .error (.divisionByZero span)) :
    e.value = .error (.divisionByZero span) := by
  cases e with
  | literal text => cases h
  | binary op left right => exact h

end Expr

/-! ## What `run` answers -/

theorem run_divisionByZero {source : String} {o : ParseOptions} {span : Span}
    (h : run source o = .error (.eval (.divisionByZero span))) :
    ∃ e q before slash zero after, (Parser.ofTokens (lex source) o).parse = (.ok e, q) ∧
      (lex source).take q.position = before ++ slash :: zero :: after ∧ slash.span = span ∧ slash.DividesByZero zero ∧
      NoDivisionByZero (before ++ [slash]) ∧ .operator ⟨.divide, slash.offset⟩ ∈ e.inOrder := by
  obtain ⟨_, -, herr⟩ | ⟨e, err, hparse, heval, herr⟩ := run_eq_error_iff.1 h
  · cases herr
  cases herr
  obtain ⟨c, n, hreads, rfl, hq, -⟩ := Parser.reads_of_parse_ok (Prod.ext hparse rfl)
  have hfails : c.FailsFirst (.divisionByZero span) := by
    refine Chain.calculate_error ?_
    rw [← c.value_toExpr]
    exact Expr.value_of_evaluate_divisionByZero heval
  have hwf : ∀ t ∈ (lex source).take n, t.WellFormed := fun t ht => wellFormed_of_mem_lex (List.mem_of_mem_take ht)
  obtain ⟨before, slash, zero, after, htokens, hspan, hdiv, hearlier, hmem⟩ :=
    hfails.tokens_of_divisionByZero hreads.spells hwf
  refine ⟨c.toExpr, _, before, slash, zero, after, Prod.ext hparse rfl, ?_, hspan, hdiv, hearlier, ?_⟩
  · rw [hq]
    exact htokens
  · rw [Chain.inOrder_toExpr]
    exact hmem

theorem noDivisionByZero_of_run_ok {source : String} {o : ParseOptions} {e : Expr} {n : Number}
    (h : run source o = .ok (e, n)) : ∃ q, (Parser.ofTokens (lex source) o).parse = (.ok e, q) ∧
      NoDivisionByZero ((lex source).take q.position) := by
  obtain ⟨hparse, heval⟩ := run_eq_ok_iff.1 h
  obtain ⟨c, m, hreads, rfl, hq, -⟩ := Parser.reads_of_parse_ok (Prod.ext hparse rfl)
  have hvalue : c.calculate = .ok n := c.value_toExpr.symm.trans (Expr.value_of_evaluate_ok heval)
  refine ⟨_, Prod.ext hparse rfl, ?_⟩
  rw [hq]
  exact hreads.spells.noDivisionByZero (Chain.calculate_ok hvalue)

/-- If `run` fails with a division by zero, it is at an operator `/` with a number of zeros for its next token, and no
`/` before it has one. If `run` succeeds, none of the tokens that were read is a `/` with a number of zeros after it;
the last of them is a literal. Divisors are literals, so no quotient is one that counts as zero, but in a tree built by
hand it may be. -/
theorem division_by_zero_in_source :
    (∀ (source : String) (o : ParseOptions) (span : Span), run source o = .error (.eval (.divisionByZero span)) →
      ∃ e q before slash zero after, (Parser.ofTokens (lex source) o).parse = (.ok e, q) ∧
        (lex source).take q.position = before ++ slash :: zero :: after ∧ slash.span = span ∧
        slash.DividesByZero zero ∧ NoDivisionByZero (before ++ [slash]) ∧
        .operator ⟨.divide, slash.offset⟩ ∈ e.inOrder) ∧
    (∀ (source : String) (o : ParseOptions) (e : Expr) (n : Number), run source o = .ok (e, n) →
      ∃ q, (Parser.ofTokens (lex source) o).parse = (.ok e, q) ∧ NoDivisionByZero ((lex source).take q.position)) ∧
    (∀ (source : String) (o : ParseOptions) (e : Expr), parse (lex source) o = .ok e → ∀ op left right,
      .binary op left right ∈ e.subtrees → op.value = .divide → right.isLiteral = true) ∧
    ∃ (left right : Expr) (rank : Fin Binary64.rankLimit), rank.val ≠ 0 ∧
      right.value = .ok (.float (.finite false rank)) ∧
      (Expr.binary ⟨.divide, 2⟩ left right).evaluate = .error (.divisionByZero ⟨2, 1⟩) := by
  refine ⟨fun _ _ _ => run_divisionByZero, fun _ _ _ _ => noDivisionByZero_of_run_ok, fun source o e h => ?_, ?_⟩
  · obtain ⟨-, -, -, -, -, hcanonical⟩ := Parser.inOrder_of_parse_ok (Prod.ext h rfl)
    exact fun op left right => Expr.isLiteral_of_divisor hcanonical
  · -- one half counts as zero
    refine ⟨.literal ⟨"5", 0⟩, .binary ⟨.divide, 5⟩ (.literal ⟨"1", 4⟩) (.literal ⟨"2", 6⟩),
      ⟨0x3FE0000000000000, by decide⟩, by decide, ?_, ?_⟩
    · decide +kernel
    · decide +kernel

/-- Of two divisions by zero, the first one is the failure; a division by 02 is none, and 02 is a literal. -/
theorem division_by_zero_first_of_two :
    (run "6 / 2 - 1 / 00 + 5 / 0" .strict = .error (.eval (.divisionByZero ⟨10, 1⟩)) ∧
      ∃ before slash zero after, lex "6 / 2 - 1 / 00 + 5 / 0" = before ++ slash :: zero :: after ∧
        slash.span = ⟨10, 1⟩ ∧ slash.DividesByZero zero ∧ NoDivisionByZero (before ++ [slash])) ∧
    ∃ six two n, run "6 / 02" .strict = .ok (.binary ⟨.divide, 2⟩ six two, n) ∧ NoDivisionByZero (lex "6 / 02") ∧
      two.isLiteral = true := by
  obtain ⟨hfailure, hsuccess, hdivisors, -⟩ := division_by_zero_in_source
  refine ⟨?_, .literal ⟨"6", 0⟩, .literal ⟨"02", 4⟩, .float (.finite false ⟨0x4008000000000000, by decide⟩), ?_⟩
  · have hrun : run "6 / 2 - 1 / 00 + 5 / 0" .strict = .error (.eval (.divisionByZero ⟨10, 1⟩)) := by decide +kernel
    obtain ⟨e, q, before, slash, zero, after, hparse, htokens, hspan, hdiv, hearlier, -⟩ := hfailure _ _ _ hrun
    refine ⟨hrun, before, slash, zero, after, ?_, hspan, hdiv, hearlier⟩
    obtain ⟨-, -, -, -, hend, -⟩ := Parser.inOrder_of_parse_ok hparse
    rwa [hend rfl, List.take_length] at htokens
  · have hrun : run "6 / 02" .strict = .ok (.binary ⟨.divide, 2⟩ (.literal ⟨"6", 0⟩) (.literal ⟨"02", 4⟩),
        .float (.finite false ⟨0x4008000000000000, by decide⟩)) := by decide +kernel
    obtain ⟨q, hparse, hnone⟩ := hsuccess _ _ _ _ hrun
    refine ⟨hrun, ?_, hdivisors _ .strict _ (run_eq_ok_iff.1 hrun).1 _ _ _ List.mem_cons_self rfl⟩
    obtain ⟨-, -, -, -, hend, -⟩ := Parser.inOrder_of_parse_ok hparse
    rwa [hend rfl, List.take_length] at hnone

end ArithLang
