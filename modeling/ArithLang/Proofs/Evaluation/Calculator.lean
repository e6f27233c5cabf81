/-
A calculator for chains that knows no trees: one pass from left to right with a running sum and the term in
progress. It has the value of the grouped tree, failures included (`value_toExpr`), because after every link it has
the values of the trees in hand (`Grouping.reduce_step`). When it fails, everything before the place of the failure
has a value (`calculate_error`).
-/
import ArithLang.Proofs.Evaluation.Value

namespace ArithLang

/-! ## The calculator -/

/-- The sum of the terms that are finished, the sign and the value of the term in progress, and whether there
was a `+` or a `-` yet. -/
structure Calculator where
  sum : Int
  sign : Int
  additive : Bool
  term : Number

namespace Calculator

/-- The sum once the term in progress is finished; of a quotient the integer part counts. -/
def total (k : Calculator) : Int := k.sum + k.sign * k.term.operand

def start (n : Int) : Calculator := ⟨0, 1, false, .int n⟩

/-- `+` and `-` finish the term and begin the next one; `*` and `/` are applied to the term. -/
def step (k : Calculator) (l : Link) : Except EvalError Calculator := do
  let n ← literalNumber l.operand
  match l.op.value with
  | .add => return ⟨k.total, 1, true, .int n⟩
  | .subtract => return ⟨k.total, -1, true, .int n⟩
  | .multiply | .divide =>
    let term ← l.op.value.apply ⟨l.op.offset, 1⟩ k.term.operand n
    return { k with term }

/-- The sum if there was a `+` or a `-`, else the only term. -/
def result (k : Calculator) : Number := if k.additive then .int k.total else k.term

theorem step_of_additive {l : Link} (hl : l.op.value.isAdditive = true) (k : Calculator) :
    k.step l = literalNumber l.operand >>= fun n =>
      .ok ⟨k.total, if l.op.value = .subtract then -1 else 1, true, .int n⟩ := by
  obtain ⟨⟨op, at'⟩, operand⟩ := l
  cases op with
  | add => rfl
  | subtract => rfl
  | multiply => cases hl
  | divide => cases hl

theorem step_of_not_additive {l : Link} (hl : l.op.value.isAdditive = false) (k : Calculator) :
    k.step l = literalNumber l.operand >>= fun n =>
      l.op.value.apply ⟨l.op.offset, 1⟩ k.term.operand n >>= fun term => .ok { k with term } := by
  obtain ⟨⟨op, at'⟩, operand⟩ := l
  cases op with
  | add => cases hl
  | subtract => cases hl
  | multiply => rfl
  | divide => rfl

/-- A step fails at the literal, or else at the operator. -/
theorem step_error {k : Calculator} {l : Link} {err : EvalError} (h : k.step l = .error err) :
    literalNumber l.operand = .error err ∨ ∃ n, literalNumber l.operand = .ok n ∧
      l.op.value.apply ⟨l.op.offset, 1⟩ k.term.operand n = .error err := by
  by_cases hl : l.op.value.isAdditive = true
  · rw [step_of_additive hl] at h
    obtain h | ⟨n, -, h⟩ := bind_eq_error.1 h
    · exact .inl h
    · cases h
  · rw [step_of_not_additive (by simpa using hl)] at h
    obtain h | ⟨n, hn, h⟩ := bind_eq_error.1 h
    · exact .inl h
    obtain h | ⟨term, -, h⟩ := bind_eq_error.1 h
    · exact .inr ⟨n, hn, h⟩
    · cases h

end Calculator

namespace Chain

def calculate (c : Chain) : Except EvalError Number := do
  let n ← literalNumber c.first
  let k ← c.links.foldlM Calculator.step (.start n)
  return k.result

/-! ## The calculator has the values of the trees -/

namespace Grouping

/-- The values of the trees in hand, the left one first. -/
def reduce : Grouping → Except EvalError Calculator
  | ⟨none, term⟩ => do
    let term ← term.value
    return ⟨0, 1, false, term⟩
  | ⟨some (left, op), term⟩ => do
    let sum ← left.value
    let term ← term.value
    return ⟨sum.operand, if op.value = .subtract then -1 else 1, true, term⟩

theorem reduce_none (term : Expr) : reduce ⟨none, term⟩ = term.value >>= fun t => .ok ⟨0, 1, false, t⟩ := rfl

theorem reduce_some (left term : Expr) (op : Located Operator) :
    reduce ⟨some (left, op), term⟩ = left.value >>= fun s => term.value >>= fun t =>
      .ok ⟨s.operand, if op.value = .subtract then -1 else 1, true, t⟩ := rfl

theorem value_close {g : Grouping} (h : g.WF) : g.close.value = Calculator.result <$> g.reduce := by
  obtain ⟨_ | ⟨left, op, at'⟩, term⟩ := g
  · rw [close, reduce_none]
    cases term.value <;> rfl
  · obtain ⟨-, hop⟩ := h.sum left ⟨op, at'⟩ rfl
    rw [close, reduce_some, Expr.value_binary]
    cases left.value with
    | error e => rfl
    | ok a =>
      cases term.value with
      | error e => rfl
      | ok b =>
        -- the operator that waits is `+` or `-`, so the sum of both cannot fail
        cases op with
        | add =>
          have htotal : a.operand + b.operand = a.operand + 1 * b.operand := by omega
          exact congrArg (fun n => Except.ok (Number.int n)) htotal
        | subtract =>
          have htotal : a.operand - b.operand = a.operand + -1 * b.operand := by omega
          exact congrArg (fun n => Except.ok (Number.int n)) htotal
        | multiply => cases hop
        | divide => cases hop

/-- As an operand, the result so far is the sum. -/
theorem operand_result {g : Grouping} {k : Calculator} (h : g.reduce = .ok k) : k.result.operand = k.total := by
  obtain ⟨_ | ⟨left, op⟩, term⟩ := g
  · rw [reduce_none] at h
    cases ht : term.value with
    | error e => rw [ht] at h; cases h
    | ok b => rw [ht] at h; cases h; simp [Calculator.result, Calculator.total]
  · rw [reduce_some] at h
    cases hl : left.value with
    | error e => rw [hl] at h; cases h
    | ok a =>
      cases ht : term.value with
      | error e => rw [hl, ht] at h; cases h
      | ok b => rw [hl, ht] at h; cases h; rfl

/-- One more link: what the calculator does is what happens to the values of the trees. -/
theorem reduce_step {g : Grouping} (h : g.WF) (l : Link) : (g.step l).reduce = g.reduce >>= fun k => k.step l := by
  by_cases hl : l.op.value.isAdditive = true
  · -- the trees in hand are closed, and their value counts as the integer the calculator has for a sum
    have hstep : g.step l = ⟨some (g.close, l.op), .literal l.operand⟩ := if_pos hl
    simp only [hstep, reduce_some, value_close h, Expr.value_literal, Calculator.step_of_additive hl]
    cases hk : g.reduce with
    | error e => rfl
    | ok k =>
      cases literalNumber l.operand with
      | error e => rfl
      | ok n =>
        change Except.ok (Calculator.mk k.result.operand _ true (.int n)) = .ok (.mk k.total _ true (.int n))
        rw [operand_result hk]
  · -- only the term changes, and what is to its left is evaluated before it on both sides
    have hstep : g.step l = ⟨g.sum, .binary l.op g.term (.literal l.operand)⟩ := if_neg hl
    rw [Bool.not_eq_true] at hl
    rw [hstep]
    obtain ⟨_ | ⟨left, op⟩, term⟩ := g
    · simp only [reduce_none, Expr.value_binary, Expr.value_literal, Calculator.step_of_not_additive hl]
      cases term.value with
      | error e => rfl
      | ok a => cases literalNumber l.operand <;> rfl
    · simp only [reduce_some, Expr.value_binary, Expr.value_literal, Calculator.step_of_not_additive hl]
      cases left.value with
      | error e => rfl
      | ok s =>
        cases term.value with
        | error e => rfl
        | ok a => cases literalNumber l.operand <;> rfl

theorem reduce_foldl {g : Grouping} (h : g.WF) (links : List Link) :
    (links.foldl step g).reduce = g.reduce >>= fun k => links.foldlM Calculator.step k := by
  induction links generalizing g with
  | nil => simp
  | cons l links ih => simp only [List.foldl_cons, ih (h.step l), reduce_step h, List.foldlM_cons, bind_assoc]

end Grouping

/-- The calculator and the evaluation of the tree have the same value, or the same failure. -/
theorem value_toExpr (c : Chain) : c.toExpr.value = c.calculate := by
  have hstart : (⟨none, .literal c.first⟩ : Grouping).WF := ⟨rfl, rfl, nofun⟩
  rw [toExpr, Grouping.value_close (hstart.foldl c.links), Grouping.reduce_foldl hstart, calculate]
  rw [Grouping.reduce_none, Expr.value_literal]
  cases literalNumber c.first with
  | error e => rfl
  | ok n =>
    change Calculator.result <$> c.links.foldlM Calculator.step (.start n) =
      c.links.foldlM Calculator.step (.start n) >>= fun k => .ok k.result
    cases c.links.foldlM Calculator.step (.start n) <;> rfl

/-! ## Failures -/

/-- What fails first in the chain: all that is written before it has a value. -/
inductive FailsFirst (c : Chain) : EvalError → Prop
  | first : literalValue? c.first.value = none →
      FailsFirst c (.invalidLiteral c.first.value (.ofText c.first.offset c.first.value))
  | literal {before after : List Link} {l : Link} {n : Number} : c.links = before ++ l :: after →
      calculate ⟨c.first, before⟩ = .ok n → literalValue? l.operand.value = none →
      FailsFirst c (.invalidLiteral l.operand.value (.ofText l.operand.offset l.operand.value))
  | byZero {before after : List Link} {l : Link} {n : Number} : c.links = before ++ l :: after →
      calculate ⟨c.first, before⟩ = .ok n → l.op.value = .divide → literalValue? l.operand.value = some 0 →
      FailsFirst c (.divisionByZero ⟨l.op.offset, 1⟩)
  | tooLarge {before after : List Link} {l : Link} {n : Number} {d : Nat} : c.links = before ++ l :: after →
      calculate ⟨c.first, before⟩ = .ok n → l.op.value = .divide → literalValue? l.operand.value = some d → d ≠ 0 →
      FailsFirst c (.quotientTooLarge ⟨l.op.offset, 1⟩)

theorem calculate_of_ok {first : Located String} {n : Int} (h : literalNumber first = .ok n) (links : List Link) :
    calculate ⟨first, links⟩ = links.foldlM Calculator.step (.start n) >>= fun k => .ok k.result := by
  rw [calculate, h]; rfl

theorem calculate_error {c : Chain} {err : EvalError} (h : c.calculate = .error err) : c.FailsFirst err := by
  obtain ⟨first, links⟩ := c
  cases hfirst : literalNumber first with
  | error e =>
    rw [calculate, hfirst] at h; cases h
    obtain ⟨hnone, rfl⟩ := literalNumber_eq_error_iff.1 hfirst
    exact .first hnone
  | ok n =>
    rw [calculate_of_ok hfirst] at h
    obtain h | ⟨k, -, h⟩ := bind_eq_error.1 h
    · obtain ⟨before, l, after, k, hlinks, hbefore, hl⟩ := foldlM_eq_error_iff.1 h
      have hok : calculate ⟨first, before⟩ = .ok k.result := by rw [calculate_of_ok hfirst, hbefore]; rfl
      obtain hlit | ⟨d, hlit, happ⟩ := Calculator.step_error hl
      · obtain ⟨hnone, rfl⟩ := literalNumber_eq_error_iff.1 hlit
        exact .literal hlinks hok hnone
      · obtain ⟨m, hm, rfl⟩ := literalNumber_eq_ok_iff.1 hlit
        obtain ⟨hop, ⟨hzero, rfl⟩ | ⟨hne, -, rfl⟩⟩ := Operator.apply_error happ
        · exact .byZero hlinks hok hop (by rw [hm, Int.natCast_eq_zero.1 hzero])
        · exact .tooLarge hlinks hok hop hm (by simpa using hne)
    · cases h

end Chain

end ArithLang
