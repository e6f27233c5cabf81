/-
The sign of quotients. Literals have none, so what is computed of them without `+` and `-` is never negative and never
the negative zero (`Expr.value_unsigned`). The parser leaves no `+` and no `-` below a division, so this is what `run`
answers whenever it answers with a quotient (`run_float_unsigned`); of trees that are not parsed it does not hold.
-/
import ArithLang.Proofs.Evaluation.Finite
import ArithLang.Proofs.Parser.RoundTrip

namespace ArithLang

/-! ## Numbers without a sign -/

/-- The integers from 0 on, and the finite values whose sign bit is clear. -/
inductive Number.Unsigned : Number → Prop
  | int {n : Int} : 0 ≤ n → Unsigned (.int n)
  | float (rank : Fin Binary64.rankLimit) : Unsigned (.float (.finite false rank))

theorem Number.Unsigned.operand_nonneg {n : Number} (h : n.Unsigned) : 0 ≤ n.operand := by
  cases h with
  | int hn => exact hn
  | float rank => exact Int.natCast_nonneg _

/-- Operands without a sign have results without a sign, unless they are subtracted. -/
theorem Operator.apply_unsigned {op : Operator} (hop : op.isAdditive = false) {span : Span} {a b : Int} (ha : 0 ≤ a)
    (hb : 0 ≤ b) {n : Number} (h : op.apply span a b = .ok n) : n.Unsigned := by
  cases op with
  | add => cases hop
  | subtract => cases hop
  | multiply =>
    cases h
    exact .int (Int.mul_nonneg ha hb)
  | divide =>
    obtain ⟨hne, -⟩ | ⟨-, x, hx, rfl⟩ := apply_ok h
    · exact absurd rfl hne
    · obtain ⟨rank, rfl⟩ := Binary64.ofQuotient?_eq_finite hx
      have hsign : ¬a.sign * b.sign < 0 := by
        rw [← Int.sign_mul, Int.sign_neg_iff]
        exact Int.not_lt.2 (Int.mul_nonneg ha hb)
      rw [decide_eq_false hsign]
      exact .float rank

namespace Expr

theorem value_unsigned {e : Expr} (hfree : e.isAdditiveFree = true) {n : Number} (h : e.value = .ok n) :
    n.Unsigned := by
  induction e generalizing n with
  | literal text =>
    obtain ⟨m, -, rfl⟩ := value_literal_eq_ok_iff.1 h
    exact .int (Int.natCast_nonneg m)
  | binary op left right ihl ihr =>
    simp only [isAdditiveFree, Bool.and_eq_true, Bool.not_eq_true'] at hfree
    obtain ⟨⟨hop, hl⟩, hr⟩ := hfree
    obtain ⟨a, ha, b, hb, h⟩ := value_binary_eq_ok_iff.1 h
    exact Operator.apply_unsigned hop (ihl hl ha).operand_nonneg (ihr hr hb).operand_nonneg h

/-- A canonical tree with a quotient for a value is one product. -/
theorem isAdditiveFree_of_float {e : Expr} (he : e.isCanonical = true) {x : Binary64} (h : e.value = .ok (.float x)) :
    e.isAdditiveFree = true := by
  cases value_yields h with
  | @quotient op left right negative rank hop =>
    have hadditive : op.value.isAdditive = false := by rw [hop]; rfl
    simp only [isCanonical, hadditive, Bool.false_eq_true, if_false, Bool.and_eq_true] at he
    obtain ⟨-, hleft, hright⟩ := he
    cases right with
    | literal text => simp [isAdditiveFree, hadditive, hleft]
    | binary => cases hright

/-- The tree of `(0 - 1) / den`, which no source is parsed to. -/
def minusOneOver (den : Expr) : Expr :=
  binary ⟨.divide, 0⟩ (binary ⟨.subtract, 0⟩ (literal ⟨"0", 0⟩) (literal ⟨"1", 0⟩)) den

/-- The tree of a product of six times `10^60`. Its inverse is less than half the smallest magnitude. -/
def largeProduct : Expr :=
  let factor := literal ⟨"1000000000000000000000000000000000000000000000000000000000000", 0⟩
  (List.replicate 5 factor).foldl (binary ⟨.multiply, 0⟩) factor

end Expr

/-! ## Answers -/

/-- A quotient that `run` answers with is that of a source without `+` and `-` in what is read of it, and is finite
with a clear sign bit. Trees built by hand have negative quotients, and quotients that are rounded to the negative
zero. -/
theorem run_float_unsigned :
    (∀ (source : String) (o : ParseOptions) (e : Expr) (x : Binary64), run source o = .ok (e, .float x) →
      e.isAdditiveFree = true ∧ ∃ rank, x = .finite false rank) ∧
    (∃ (e : Expr) (rank : Fin Binary64.rankLimit), rank.val ≠ 0 ∧ e.evaluate = .ok (.float (.finite true rank))) ∧
    ∃ (e : Expr) (rank : Fin Binary64.rankLimit), rank.val = 0 ∧ e.evaluate = .ok (.float (.finite true rank)) := by
  refine ⟨fun source o e x h => ?_, ?_, ?_⟩
  · obtain ⟨hparse, heval⟩ := run_eq_ok_iff.1 h
    have hvalue := Expr.value_of_evaluate_ok heval
    obtain ⟨-, -, -, -, -, hcanonical⟩ := Parser.inOrder_of_parse_ok (Prod.ext hparse rfl)
    have hfree := Expr.isAdditiveFree_of_float hcanonical hvalue
    refine ⟨hfree, ?_⟩
    cases Expr.value_unsigned hfree hvalue with
    | float rank => exact ⟨rank, rfl⟩
  · refine ⟨.minusOneOver (.literal ⟨"2", 0⟩), ⟨0x3FE0000000000000, by decide⟩, by decide, ?_⟩
    decide +kernel
  · refine ⟨.minusOneOver .largeProduct, ⟨0, by decide⟩, rfl, ?_⟩
    decide +kernel

/-- In `7 / 2 / 6` a quotient is divided once more. -/
theorem run_float_unsigned_nested : ∃ e x, run "7 / 2 / 6" .strict = .ok (e, .float x) ∧
    e.isAdditiveFree = true ∧ ∃ rank, x = .finite false rank := by
  let e : Expr := .binary ⟨.divide, 6⟩ (.binary ⟨.divide, 2⟩ (.literal ⟨"7", 0⟩) (.literal ⟨"2", 4⟩)) (.literal ⟨"6", 8⟩)
  have hrun : run "7 / 2 / 6" .strict = .ok (e, .float (.finite false ⟨0x3FE0000000000000, by decide⟩)) := by
    decide +kernel
  exact ⟨e, _, hrun, run_float_unsigned.1 _ _ _ _ hrun⟩

end ArithLang
