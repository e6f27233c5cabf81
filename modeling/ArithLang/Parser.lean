/-
The parser reads expressions from a fixed list of tokens, one per call, and goes on where the last
call stopped, whether that call succeeded or not.

    sum     = product (("+" | "-") product)*
    product = literal (("*" | "/") literal)*

Both lines are the same loop: `separatedBy` makes of a reader of operands the reader of such operands
with operators between them, and groups what it reads to the left. A `Reader` never goes back, which
is why the loop ends.

The token that is refused as a literal is behind the new position; the token that is refused as
trailing input is not, and is read by the next call. When the tokens run out, the place reported is
the end of the last token of the whole list.
-/
import ArithLang.Expr
import ArithLang.ParseError
import ArithLang.ParseOptions

namespace ArithLang

structure Parser where
  tokens : List Token
  /-- How many tokens are behind. -/
  position : Nat
  options : ParseOptions
deriving DecidableEq

namespace Parser

def ofTokens (tokens : List Token) (options : ParseOptions) : Parser := ⟨tokens, 0, options⟩

def remaining (p : Parser) : List Token := p.tokens.drop p.position

/-- Where the last token of the list ends. -/
def endOfTokens (p : Parser) : Nat := (p.tokens.getLast?.map (·.span.stop)).getD 0

/-- The parser with `n` more tokens behind. -/
def skip (p : Parser) (n : Nat) : Parser := { p with position := p.position + n }

@[simp] theorem tokens_skip (p : Parser) (n : Nat) : (p.skip n).tokens = p.tokens := rfl
@[simp] theorem options_skip (p : Parser) (n : Nat) : (p.skip n).options = p.options := rfl
@[simp] theorem position_skip (p : Parser) (n : Nat) : (p.skip n).position = p.position + n := rfl
@[simp] theorem endOfTokens_skip (p : Parser) (n : Nat) : (p.skip n).endOfTokens = p.endOfTokens := rfl
@[simp] theorem skip_zero (p : Parser) : p.skip 0 = p := rfl

@[simp] theorem skip_skip (p : Parser) (m n : Nat) : (p.skip m).skip n = p.skip (m + n) := by
  simp only [skip, Nat.add_assoc]

@[simp] theorem remaining_skip (p : Parser) (n : Nat) : (p.skip n).remaining = p.remaining.drop n := by
  simp only [remaining, tokens_skip, position_skip, List.drop_drop]

/-! ## One token -/

/-- Take the next token. -/
def advance (p : Parser) : Option Token × Parser :=
  match p.tokens[p.position]? with
  | none => (none, p)
  | some t => (some t, p.skip 1)

/-- Take the next token if it is one of the operators `ops`. -/
def takeOperator? (ops : List Operator) (p : Parser) : Option (Located Operator × Parser) := do
  let t ← p.tokens[p.position]?
  let op ← (Operator.ofKind? t.kind).filter ops.contains
  return (⟨op, t.offset⟩, p.skip 1)

/-- Take the next token as a literal. -/
def readLiteral (p : Parser) : Except ParseError Expr × Parser :=
  match p.advance with
  | (none, q) => (.error (.unexpectedEnd ⟨q.endOfTokens, 0⟩), q)
  | (some t, q) =>
    if q.options.acceptsLiteral t.kind then (.ok (.literal t.located), q)
    else (.error (.expectedLiteral t.text t.span), q)

theorem takeOperator?_some {ops : List Operator} {p q : Parser} {op : Located Operator}
    (h : p.takeOperator? ops = some (op, q)) : p.position < p.tokens.length ∧ q = p.skip 1 := by
  simp only [takeOperator?, Option.bind_eq_bind, Option.bind_eq_some_iff] at h
  obtain ⟨t, ht, _, -, h⟩ := h
  cases h
  exact ⟨(List.getElem?_eq_some_iff.1 ht).1, rfl⟩

/-! ## Operands and operators -/

/-- A way to read an expression, after which the parser stands where it stood or later. -/
structure Reader where
  read : Parser → Except ParseError Expr × Parser
  advances : ∀ p, ∃ n, (read p).2 = p.skip n

namespace Reader

def literal : Reader where
  read := readLiteral
  advances p := by
    unfold readLiteral advance
    cases p.tokens[p.position]? with
    | none => exact ⟨0, rfl⟩
    | some t => exact ⟨1, by simp only; split <;> rfl⟩

/-- As long as one of `ops` comes next, take it and read another operand; `left` is what was read. -/
def continueFrom (operand : Reader) (ops : List Operator) (left : Expr) (p : Parser) :
    Except ParseError Expr × Parser :=
  match _ : p.takeOperator? ops with
  | none => (.ok left, p)
  | some (op, q) =>
    match _ : operand.read q with
    | (.error e, r) => (.error e, r)
    | (.ok right, r) => operand.continueFrom ops (.binary op left right) r
termination_by p.tokens.length - p.position
decreasing_by
  obtain ⟨hlt, rfl⟩ := takeOperator?_some ‹_›
  obtain ⟨n, hn⟩ := operand.advances (p.skip 1)
  simp only [*] at hn
  subst hn
  simp only [tokens_skip, position_skip]
  omega

theorem continueFrom_advances (operand : Reader) (ops : List Operator) (left : Expr) (p : Parser) :
    ∃ n, (operand.continueFrom ops left p).2 = p.skip n := by
  fun_induction continueFrom operand ops left p with
  | case1 => exact ⟨0, rfl⟩
  | case2 left p op q hq e r hr =>
    obtain ⟨-, rfl⟩ := takeOperator?_some hq
    obtain ⟨n, hn⟩ := operand.advances (p.skip 1)
    rw [hr] at hn
    exact ⟨1 + n, by rw [← skip_skip]; exact hn⟩
  | case3 left p op q hq right r hr ih =>
    obtain ⟨-, rfl⟩ := takeOperator?_some hq
    obtain ⟨n, hn⟩ := operand.advances (p.skip 1)
    obtain ⟨m, hm⟩ := ih
    rw [hr] at hn
    exact ⟨1 + n + m, by rw [hm, ← skip_skip, ← skip_skip]; exact congrArg (·.skip m) hn⟩

/-- Operands with operators of `ops` between them, grouped to the left. -/
def separatedBy (operand : Reader) (ops : List Operator) : Reader where
  read p :=
    match operand.read p with
    | (.error e, q) => (.error e, q)
    | (.ok left, q) => operand.continueFrom ops left q
  advances p := by
    obtain ⟨n, hn⟩ := operand.advances p
    rcases h : operand.read p with ⟨_ | left, q⟩ <;> rw [h] at hn <;> cases hn
    · exact ⟨n, rfl⟩
    · obtain ⟨m, hm⟩ := operand.continueFrom_advances ops left (p.skip n)
      exact ⟨n + m, by rw [← skip_skip]; exact hm⟩

def product : Reader := literal.separatedBy [.multiply, .divide]

def sum : Reader := product.separatedBy [.add, .subtract]

end Reader

/-! ## Expressions -/

/-- Read the next expression. -/
def parse (p : Parser) : Except ParseError Expr × Parser :=
  match Reader.sum.read p with
  | (.error e, q) => (.error e, q)
  | (.ok e, q) =>
    match q.tokens[q.position]? with
    | none => (.ok e, q)
    | some t => (if q.options.requireEnd then .error (.trailingInput t.text t.span) else .ok e, q)

end Parser

/-- The expression that `tokens` begins with. -/
def parse (tokens : List Token) (options : ParseOptions) : Except ParseError Expr :=
  (Parser.ofTokens tokens options).parse.1

end ArithLang
