/-
What `run` answers, from the flat list of literals and operators it reads: the value the calculator has for them
(`run_eq_calculate`). Without divisions and with numbers only that is the sum of the products, exactly
(`calculate_of_exact`).
-/
import ArithLang.Proofs.Evaluation.Calculator
import ArithLang.Proofs.Parser.RoundTrip
import ArithLang.Proofs.Scanner.Layout
import Mathlib.Tactic.Ring

namespace ArithLang

namespace Chain

/-! ## Sums of products -/

/-- The number of a literal, if it is one. -/
def number (text : Located String) : Int := (literalValue? text.value).getD 0

/-- The factors that the links add to the term before them, and the terms after that, each with its sign and its
factors. -/
def terms : List Link → List Int × List (Int × List Int)
  | [] => ([], [])
  | l :: links =>
    let (factors, more) := terms links
    match l.op.value with
    | .add => ([], (1, number l.operand :: factors) :: more)
    | .subtract => ([], (-1, number l.operand :: factors) :: more)
    | .multiply | .divide => (number l.operand :: factors, more)

def sumOfTerms (terms : List (Int × List Int)) : Int := (terms.map fun x => x.1 * x.2.prod).sum

/-- The products of the chain, added up with their signs. -/
def sumOfProducts (c : Chain) : Int :=
  (number c.first :: (terms c.links).1).prod + sumOfTerms (terms c.links).2

/-- Every literal is a number. -/
def Numeric (c : Chain) : Prop := ∀ text, .literal text ∈ c.symbols → (literalValue? text.value).isSome = true

theorem literalNumber_of_isSome {text : Located String} (h : (literalValue? text.value).isSome = true) :
    literalNumber text = .ok (number text) := by
  obtain ⟨n, hn⟩ := Option.isSome_iff_exists.1 h
  exact literalNumber_eq_ok_iff.2 ⟨n, hn, by rw [number, hn]; rfl⟩

/-- There was no division: the term is the integer `t`, and a first term stands for itself. -/
structure Exact (k : Calculator) (t : Int) : Prop where
  term : k.term = .int t
  first : k.additive = false → k.sum = 0 ∧ k.sign = 1

theorem Exact.result {k : Calculator} {t : Int} (h : Exact k t) : k.result = .int k.total := by
  cases hadd : k.additive with
  | true => simp [Calculator.result, hadd]
  | false =>
    obtain ⟨hsum, hsign⟩ := h.first hadd
    simp [Calculator.result, Calculator.total, hadd, hsum, hsign, h.term, Number.operand]

theorem Exact.total {k : Calculator} {t : Int} (h : Exact k t) : k.total = k.sum + k.sign * t := by
  rw [Calculator.total, h.term]; rfl

theorem foldlM_step_of_exact {links : List Link} (hop : ∀ l ∈ links, l.op.value ≠ .divide)
    (hnum : ∀ l ∈ links, (literalValue? l.operand.value).isSome = true) {k : Calculator} {t : Int} (hk : Exact k t) :
    ∃ k' t', links.foldlM Calculator.step k = .ok k' ∧ Exact k' t' ∧
      k'.total = k.sum + k.sign * (t * (terms links).1.prod) + sumOfTerms (terms links).2 := by
  induction links generalizing k t with
  | nil => exact ⟨k, t, rfl, hk, by simp [terms, sumOfTerms, hk.total]⟩
  | cons l links ih =>
    obtain ⟨⟨op, at'⟩, operand⟩ := l
    obtain ⟨hl, hlinks⟩ := List.forall_mem_cons.1 hop
    obtain ⟨hlit, hnum⟩ := List.forall_mem_cons.1 hnum
    have hlit := literalNumber_of_isSome hlit
    -- after `+` and `-` a term begins and all that came before is in the sum; after `*` the term has grown
    have hstep : ∃ k₁ t₁, k.step ⟨⟨op, at'⟩, operand⟩ = .ok k₁ ∧ Exact k₁ t₁ ∧
        k₁.sum + k₁.sign * (t₁ * (terms links).1.prod) + sumOfTerms (terms links).2 =
          k.sum + k.sign * (t * (terms (⟨⟨op, at'⟩, operand⟩ :: links)).1.prod) +
            sumOfTerms (terms (⟨⟨op, at'⟩, operand⟩ :: links)).2 := by
      cases op with
      | add =>
        refine ⟨⟨k.total, 1, true, .int (number operand)⟩, _, ?_, ⟨rfl, nofun⟩, ?_⟩
        · rw [Calculator.step_of_additive rfl, hlit]; rfl
        · simp only [terms, sumOfTerms, hk.total, List.map_cons, List.sum_cons, List.prod_cons, List.prod_nil]; ring
      | subtract =>
        refine ⟨⟨k.total, -1, true, .int (number operand)⟩, _, ?_, ⟨rfl, nofun⟩, ?_⟩
        · rw [Calculator.step_of_additive rfl, hlit]; rfl
        · simp only [terms, sumOfTerms, hk.total, List.map_cons, List.sum_cons, List.prod_cons, List.prod_nil]; ring
      | multiply =>
        refine ⟨{ k with term := .int (t * number operand) }, _, ?_, ⟨rfl, hk.first⟩, ?_⟩
        · rw [Calculator.step_of_not_additive rfl, hlit, hk.term]; rfl
        · simp only [terms, List.prod_cons]; ring
      | divide => exact absurd rfl hl
    obtain ⟨k₁, t₁, hk₁, hexact, heq⟩ := hstep
    obtain ⟨k', t', hfold, hexact', htotal⟩ := ih hlinks hnum hexact
    refine ⟨k', t', ?_, hexact', htotal.trans heq⟩
    rw [List.foldlM_cons, hk₁]
    exact hfold

/-- Without a division the value of numbers is their sum of products. -/
theorem calculate_of_exact {c : Chain} (hop : ∀ l ∈ c.links, l.op.value ≠ .divide) (hnum : c.Numeric) :
    c.calculate = .ok (.int c.sumOfProducts) := by
  have hfirst := literalNumber_of_isSome (hnum c.first List.mem_cons_self)
  have hlinks : ∀ l ∈ c.links, (literalValue? l.operand.value).isSome = true := fun l hl =>
    hnum l.operand (literal_mem_symbols hl)
  have hstart : Exact (.start (number c.first)) (number c.first) := ⟨rfl, fun _ => ⟨rfl, rfl⟩⟩
  obtain ⟨k, t, hfold, hexact, htotal⟩ := foldlM_step_of_exact hop hlinks hstart
  rw [calculate_of_ok hfirst, hfold]
  change Except.ok k.result = _
  rw [hexact.result, htotal, sumOfProducts]
  simp [Calculator.start]

end Chain

/-! ## What `run` answers -/

/-- A text without `/` has no division in it, whatever part of it is read. -/
theorem ne_divide_of_not_mem {source : String} {o : ParseOptions} {c : Chain} {n : Nat}
    (hc : c.Spells o ((lex source).take n)) (hsource : '/' ∉ source.toList) : ∀ l ∈ c.links, l.op.value ≠ .divide := by
  intro l hl hop
  obtain ⟨t, ht, hkind, -⟩ := hc.exists_token (Chain.operator_mem_symbols hl)
  rw [hop, Operator.ofKind?_eq_some_iff] at hkind
  have htokens := tokenizes_tokensFrom 0 source.toList
  exact hsource ((htokens.mem_iff_kind rfl rfl).2 ⟨t, List.mem_of_mem_take ht, hkind⟩)

/-- If an expression with an operator was read, `run` answers with what the calculator has for the literals and
operators that were read, in source order: the tree with the value, or the failure. A failure is the first one in
source order. Without `/` in the source and with numbers only there is none, and the value is the sum of the
products. -/
theorem run_eq_calculate {source : String} {o : ParseOptions} {e : Expr} {q : Parser}
    (h : (Parser.ofTokens (lex source) o).parse = (.ok e, q)) (hop : 1 < q.position) :
    ∃ c : Chain, c.Spells o ((lex source).take q.position) ∧
      (run source o = match c.calculate with
        | .error err => .error (.eval err)
        | .ok n => .ok (e, n)) ∧
      (∀ err, run source o = .error err → ∃ err', err = .eval err' ∧ c.FailsFirst err') ∧
      ('/' ∉ source.toList → c.Numeric → run source o = .ok (e, .int c.sumOfProducts)) := by
  obtain ⟨c, n, hreads, rfl, rfl, -⟩ := Parser.reads_of_parse_ok h
  have hlinks : c.links ≠ [] := by
    -- one literal is one token
    intro hnil
    have hlen := hreads.spells.length_eq
    rw [Chain.length_symbols, hnil, List.length_take, Nat.min_eq_left hreads.le_length] at hlen
    exact absurd hop (by simp [← hlen])
  have hvalue : c.toExpr.evaluate = c.calculate := (Chain.evaluate_toExpr hlinks).trans c.value_toExpr
  have hrun : run source o = match c.calculate with
      | .error err => .error (.eval err)
      | .ok n => .ok (c.toExpr, n) := by
    rw [← hvalue]
    exact run_of_parse_ok (congrArg Prod.fst h)
  refine ⟨c, hreads.spells, hrun, fun err herr => ?_, fun hsource hnum => ?_⟩
  · rw [hrun] at herr
    cases hcalc : c.calculate with
    | ok n => rw [hcalc] at herr; cases herr
    | error err' => rw [hcalc] at herr; cases herr; exact ⟨err', rfl, Chain.calculate_error hcalc⟩
  · rw [hrun, Chain.calculate_of_exact (ne_divide_of_not_mem hreads.spells hsource) hnum]

/-- The quotient of `9 / 2 * 3 - 4` loses its fraction before it is multiplied, in the calculator as in `run`. -/
theorem calculate_quotient_in_product :
    let source := "9 / 2 * 3 - 4"
    let e : Expr := .binary ⟨.subtract, 10⟩ (.binary ⟨.multiply, 6⟩ (.binary ⟨.divide, 2⟩ (.literal ⟨"9", 0⟩)
      (.literal ⟨"2", 4⟩)) (.literal ⟨"3", 8⟩)) (.literal ⟨"4", 12⟩)
    (Parser.ofTokens (lex source) .strict).parse = (.ok e, ⟨lex source, 7, .strict⟩) ∧ 1 < 7 ∧
      ∃ c : Chain, c.Spells .strict ((lex source).take 7) ∧ c.calculate = .ok (.int 8) := by
  intro source e
  have hparse : (Parser.ofTokens (lex source) .strict).parse = (.ok e, ⟨lex source, 7, .strict⟩) := by
    decide +kernel
  have hvalue : run source .strict = .ok (e, .int 8) := by decide +kernel
  refine ⟨hparse, by decide, ?_⟩
  obtain ⟨c, hc, hrun, -, -⟩ := run_eq_calculate hparse (by decide)
  refine ⟨c, hc, ?_⟩
  rw [hvalue] at hrun
  cases hcalc : c.calculate with
  | error err => rw [hcalc] at hrun; cases hrun
  | ok n => rw [hcalc] at hrun; cases hrun; rfl

end ArithLang
