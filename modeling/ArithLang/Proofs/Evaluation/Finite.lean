/-
The numbers that evaluation computes. Sums, differences and products are integers, and a quotient is a finite number
or fails, so infinities and `nan` do not occur (`Expr.value_yields`). Only they have no integer part, for which
`Number.operand` has 0 in store; evaluation without that provision is the same (`Expr.value?_eq`).

Only `nan` is not equal to itself, so the answer of `run` is (`numbers_are_finite`).
-/
import ArithLang.Proofs.Evaluation.Value

namespace ArithLang

/-! ## Finite numbers -/

/-- The integer part of a value, if it has one. -/
def Binary64.truncate? : Binary64 → Option Int
  | finite negative rank => some (finite negative rank).truncate
  | infinite _ | nan => none

namespace Number

/-- The integer that the number counts as, if there is one. -/
def operand? : Number → Option Int
  | int n => some n
  | float x => x.truncate?

/-- The numbers that are neither infinite nor `nan`. -/
inductive Finite : Number → Prop
  | int (n : Int) : Finite (.int n)
  | float (negative : Bool) (rank : Fin Binary64.rankLimit) : Finite (.float (.finite negative rank))

theorem operand_eq_getD (n : Number) : n.operand = n.operand?.getD 0 := by
  rcases n with n | ⟨negative, rank⟩ | negative | _ <;> rfl

/-- The finite numbers are those with an integer part. -/
theorem finite_iff {n : Number} : n.Finite ↔ n.operand? = some n.operand := by
  constructor
  · rintro (_ | _) <;> rfl
  · intro h
    rcases n with n | ⟨negative, rank⟩ | negative | _
    case int => exact .int n
    case float.finite => exact .float negative rank
    case float.infinite => cases h
    case float.nan => cases h

theorem sameValue_self_iff {n : Number} : n.sameValue n = true ↔ n ≠ .float .nan := by
  rcases n with n | ⟨negative, rank⟩ | negative | _ <;> simp [sameValue, Binary64.sameValue]

theorem Finite.sameValue_self {n : Number} (h : n.Finite) : n.sameValue n = true := by
  rw [sameValue_self_iff]
  rintro rfl
  cases h

end Number

/-! ## One operation -/

theorem Binary64.ofQuotient?_eq_finite {a b : Int} {x : Binary64} (h : ofQuotient? a b = some x) :
    ∃ rank, x = finite (decide (a.sign * b.sign < 0)) rank := by
  unfold ofQuotient? ofMagnitude? at h
  split at h
  · exact ⟨_, (Option.some.inj h).symm⟩
  · cases h

/-- An operation that succeeds has an integer as its result, or else it is a division with a finite quotient. -/
theorem Operator.apply_ok {op : Operator} {span : Span} {a b : Int} {n : Number} (h : op.apply span a b = .ok n) :
    op ≠ .divide ∧ (∃ m, n = .int m) ∨ op = .divide ∧ ∃ x, Binary64.ofQuotient? a b = some x ∧ n = .float x := by
  by_cases hop : op = .divide
  · subst hop
    refine .inr ⟨rfl, ?_⟩
    simp only [apply] at h
    split at h
    · cases h
    · split at h
      · rename_i x hx
        cases h
        exact ⟨x, hx, rfl⟩
      · cases h
  · obtain ⟨m, hm⟩ := apply_of_ne_divide hop span a b
    rw [hm] at h
    cases h
    exact .inl ⟨hop, m, rfl⟩

/-! ## Trees -/

namespace Expr

/-- The kind of number that a tree may have for a value: if its last operation is a division a finite floating-point
number, else an integer. -/
inductive Yields : Expr → Number → Prop
  | literal (text : Located String) (n : Int) : Yields (.literal text) (.int n)
  | integer {op : Located Operator} (left right : Expr) (n : Int) : op.value ≠ .divide →
      Yields (.binary op left right) (.int n)
  | quotient {op : Located Operator} (left right : Expr) (negative : Bool) (rank : Fin Binary64.rankLimit) :
      op.value = .divide → Yields (.binary op left right) (.float (.finite negative rank))

theorem Yields.finite {e : Expr} {n : Number} (h : e.Yields n) : n.Finite := by
  cases h with
  | literal text n => exact .int n
  | integer left right n => exact .int n
  | quotient left right negative rank => exact .float negative rank

theorem value_yields {e : Expr} {n : Number} (h : e.value = .ok n) : e.Yields n := by
  cases e with
  | literal text =>
    obtain ⟨m, -, rfl⟩ := value_literal_eq_ok_iff.1 h
    exact .literal text m
  | binary op left right =>
    obtain ⟨a, -, b, -, h⟩ := value_binary_eq_ok_iff.1 h
    obtain ⟨hop, m, rfl⟩ | ⟨hop, x, hx, rfl⟩ := Operator.apply_ok h
    · exact .integer left right m hop
    · obtain ⟨rank, rfl⟩ := Binary64.ofQuotient?_eq_finite hx
      exact .quotient left right _ rank hop

theorem operand?_of_value_ok {e : Expr} {n : Number} (h : e.value = .ok n) : n.operand? = some n.operand :=
  Number.finite_iff.1 (value_yields h).finite

/-- The value of a tree where nothing stands in for the integer part of an operand that has none: evaluation ends
without a number and without a failure then. -/
def value? : Expr → ExceptT EvalError Option Number
  | literal text => (literal text).value
  | binary op left right => do
    let a ← (← left.value?).operand?
    let b ← (← right.value?).operand?
    op.value.apply ⟨op.offset, 1⟩ a b

/-- An operand is evaluated and has an integer part, or it fails. -/
theorem run_bind_operand {e : Expr} (h : e.value?.run = some e.value) (f : Int → ExceptT EvalError Option Number) :
    (e.value? >>= fun n => liftM n.operand? >>= f).run =
      match e.value with
      | .ok n => (f n.operand).run
      | .error err => some (.error err) := by
  rw [ExceptT.run_bind, h]
  cases he : e.value with
  | error err => rfl
  | ok n =>
    simp only [Option.bind_eq_bind, Option.bind_some, operand?_of_value_ok he]
    rfl

theorem value?_eq (e : Expr) : e.value?.run = some e.value := by
  induction e with
  | literal text => rfl
  | binary op left right ihl ihr =>
    rw [value?, value_binary, run_bind_operand ihl]
    cases left.value with
    | error err => rfl
    | ok a =>
      simp only
      rw [run_bind_operand ihr]
      cases right.value with
      | error err => rfl
      | ok b =>
        -- the result is abstracted, so that nothing has to be unfolded but the binds
        simp only
        change _ = some (op.value.apply ⟨op.offset, 1⟩ a.operand b.operand)
        generalize op.value.apply ⟨op.offset, 1⟩ a.operand b.operand = result
        rfl

end Expr

/-! ## Answers -/

/-- Whether two answers of `run` are equal, where their numbers are compared by value. -/
def equalAnswers : Except Error (Expr × Number) → Except Error (Expr × Number) → Bool
  | .ok (e, n), .ok (e', n') => e == e' && n.sameValue n'
  | .error err, .error err' => err == err'
  | _, _ => false

theorem equalAnswers_run_self (source : String) (o : ParseOptions) :
    equalAnswers (run source o) (run source o) = true := by
  cases h : run source o with
  | error err => exact beq_self_eq_true err
  | ok answer =>
    obtain ⟨e, n⟩ := answer
    obtain ⟨-, heval⟩ := run_eq_ok_iff.1 h
    have hfinite := (Expr.value_yields (Expr.value_of_evaluate_ok heval)).finite
    simp only [equalAnswers, beq_self_eq_true, hfinite.sameValue_self, Bool.and_self]

/-- The value of an expression is a finite floating-point number if its last operation is a division, and else an
integer. So are the numbers of all trees in it, whether or not the expression has a value; they have integer parts. The
0 that stands in for a missing one is never used, as evaluation is the same without it. That `nan` is not equal to
itself is not seen in answers. -/
theorem numbers_are_finite :
    (∀ (e : Expr) (n : Number), e.evaluate = .ok n → e.Yields n) ∧
    (∀ e : Expr, ∀ part ∈ e.subtrees, ∀ n, part.value = .ok n → part.Yields n ∧ n.operand? = some n.operand) ∧
    (∀ n : Number, n.operand = n.operand?.getD 0) ∧ (∀ e : Expr, e.value?.run = some e.value) ∧
    (∀ (source : String) (o : ParseOptions), equalAnswers (run source o) (run source o) = true) ∧
    (Number.float .nan).sameValue (.float .nan) = false :=
  ⟨fun _ _ h => Expr.value_yields (Expr.value_of_evaluate_ok h),
    fun _ _ _ _ h => ⟨Expr.value_yields h, Expr.operand?_of_value_ok h⟩,
    Number.operand_eq_getD, Expr.value?_eq, equalAnswers_run_self, rfl⟩

/-- The quotient in `9 / 2 * 3` is finite and counts as 4. -/
theorem numbers_are_finite_inner_quotient :
    let quotient := Expr.binary ⟨.divide, 2⟩ (.literal ⟨"9", 0⟩) (.literal ⟨"2", 4⟩)
    let e := Expr.binary ⟨.multiply, 6⟩ quotient (.literal ⟨"3", 8⟩)
    quotient ∈ e.subtrees ∧ ∃ x, quotient.value = .ok (.float x) ∧ (Number.float x).operand? = some 4 := by
  intro quotient e
  have hmem : quotient ∈ e.subtrees := by decide
  have hvalue : quotient.value = .ok (.float (.finite false ⟨0x4012000000000000, by decide⟩)) := by decide +kernel
  refine ⟨hmem, _, hvalue, ?_⟩
  rw [(numbers_are_finite.2.1 e quotient hmem _ hvalue).2]
  decide +kernel

end ArithLang
