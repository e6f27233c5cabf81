/-
The value of a tree, one node at a time, and where its failures come from: a failure of `value` names a
literal of the tree that is no run of digits, or stands at a `/` of the tree (`value_error`). So a tree whose
literals are runs of digits fails at a division only.
-/
import ArithLang.Evaluation
import ArithLang.Proofs.Chain.Grouping

namespace ArithLang

/-- Two steps fail if the first one does, or else the second one. -/
theorem bind_eq_error {ε α β : Type} {x : Except ε α} {f : α → Except ε β} {e : ε} :
    x >>= f = .error e ↔ x = .error e ∨ ∃ a, x = .ok a ∧ f a = .error e := by
  cases x with
  | error e' => simp [bind, Except.bind]
  | ok a => simp [bind, Except.bind]

theorem bind_eq_ok {ε α β : Type} {x : Except ε α} {f : α → Except ε β} {b : β} :
    x >>= f = .ok b ↔ ∃ a, x = .ok a ∧ f a = .ok b := by
  cases x with
  | error e => simp [bind, Except.bind]
  | ok a => simp [bind, Except.bind]

/-- Steps done one after the other fail with the first one that fails, and all before it succeed. -/
theorem foldlM_eq_error_iff {ε σ α : Type} {f : σ → α → Except ε σ} {xs : List α} {s : σ} {e : ε} :
    xs.foldlM f s = .error e ↔ ∃ before x after s', xs = before ++ x :: after ∧ before.foldlM f s = .ok s' ∧
      f s' x = .error e := by
  constructor
  · intro h
    induction xs generalizing s with
    | nil => cases h
    | cons x xs ih =>
      rw [List.foldlM_cons] at h
      obtain hx | ⟨s', hs, h⟩ := bind_eq_error.1 h
      · exact ⟨[], x, xs, s, rfl, rfl, hx⟩
      · obtain ⟨before, x', after, s'', rfl, hbefore, hx'⟩ := ih h
        refine ⟨x :: before, x', after, s'', rfl, ?_, hx'⟩
        rw [List.foldlM_cons, hs]
        exact hbefore
  · rintro ⟨before, x, after, s', rfl, hbefore, hx⟩
    rw [List.foldlM_append]
    refine bind_eq_error.2 (.inr ⟨s', hbefore, ?_⟩)
    rw [List.foldlM_cons]
    exact bind_eq_error.2 (.inl hx)

/-! ## Literals -/

/-- The integer a literal stands for. -/
def literalNumber (text : Located String) : Except EvalError Int :=
  match literalValue? text.value with
  | some n => .ok n
  | none => .error (.invalidLiteral text.value (.ofText text.offset text.value))

theorem literalNumber_eq_ok_iff {text : Located String} {n : Int} :
    literalNumber text = .ok n ↔ ∃ m : Nat, literalValue? text.value = some m ∧ n = m := by
  unfold literalNumber
  cases literalValue? text.value <;> simp [eq_comm]

theorem literalNumber_eq_error_iff {text : Located String} {err : EvalError} :
    literalNumber text = .error err ↔
      literalValue? text.value = none ∧ err = .invalidLiteral text.value (.ofText text.offset text.value) := by
  unfold literalNumber
  cases literalValue? text.value <;> simp [eq_comm]

/-- A text has a value if it has digits and nothing else. -/
theorem isSome_literalValue?_iff {text : String} :
    (literalValue? text).isSome = true ↔ text.toList ≠ [] ∧ ∀ c ∈ text.toList, c.isDigit = true := by
  unfold literalValue?
  simp only [List.all_eq_true]
  split
  · simp_all
  · simp_all

/-! ## Operators -/

/-- Sums, differences and products are exact. -/
theorem Operator.apply_of_ne_divide {op : Operator} (h : op ≠ .divide) (span : Span) (a b : Int) :
    ∃ n, op.apply span a b = .ok (.int n) := by
  cases op with
  | add => exact ⟨a + b, rfl⟩
  | subtract => exact ⟨a - b, rfl⟩
  | multiply => exact ⟨a * b, rfl⟩
  | divide => exact absurd rfl h

/-- Only a division fails, at the place of its operator: by zero, or with a quotient that is too large. -/
theorem Operator.apply_error {op : Operator} {span : Span} {a b : Int} {err : EvalError}
    (h : op.apply span a b = .error err) : op = .divide ∧ (b = 0 ∧ err = .divisionByZero span ∨
      b ≠ 0 ∧ Binary64.ofQuotient? a b = none ∧ err = .quotientTooLarge span) := by
  by_cases hop : op = .divide
  · subst hop
    refine ⟨rfl, ?_⟩
    simp only [apply] at h
    split at h
    · rename_i hb
      cases h; exact .inl ⟨hb, rfl⟩
    · rename_i hb
      split at h
      · cases h
      · rename_i hnone
        cases h; exact .inr ⟨hb, hnone, rfl⟩
  · obtain ⟨n, hn⟩ := apply_of_ne_divide hop span a b
    rw [hn] at h; cases h

/-! ## Trees -/

namespace Expr

theorem value_literal (text : Located String) : (literal text).value = .int <$> literalNumber text := by
  unfold value literalNumber
  cases literalValue? text.value <;> rfl

theorem value_binary (op : Located Operator) (left right : Expr) :
    (binary op left right).value =
      left.value >>= fun a => right.value >>= fun b => op.value.apply ⟨op.offset, 1⟩ a.operand b.operand := rfl

theorem value_literal_eq_ok_iff {text : Located String} {n : Number} :
    (literal text).value = .ok n ↔ ∃ m : Nat, literalValue? text.value = some m ∧ n = .int m := by
  unfold value
  cases literalValue? text.value <;> simp [eq_comm]

theorem value_binary_eq_ok_iff {op : Located Operator} {left right : Expr} {n : Number} :
    (binary op left right).value = .ok n ↔ ∃ a, left.value = .ok a ∧ ∃ b, right.value = .ok b ∧
      op.value.apply ⟨op.offset, 1⟩ a.operand b.operand = .ok n := by
  rw [value_binary]
  simp only [bind_eq_ok]

/-- Why a tree has no value: one of its literals is no number, or one of its divisions has no result. -/
inductive Flaw (e : Expr) : EvalError → Prop
  | literal {text : Located String} : Symbol.literal text ∈ e.inOrder → literalValue? text.value = none →
      Flaw e (.invalidLiteral text.value (.ofText text.offset text.value))
  | byZero {op : Located Operator} : Symbol.operator op ∈ e.inOrder → op.value = .divide →
      Flaw e (.divisionByZero ⟨op.offset, 1⟩)
  | tooLarge {op : Located Operator} : Symbol.operator op ∈ e.inOrder → op.value = .divide →
      Flaw e (.quotientTooLarge ⟨op.offset, 1⟩)

theorem Flaw.mono {e e' : Expr} {err : EvalError} (hsub : e.inOrder ⊆ e'.inOrder) (h : e.Flaw err) : e'.Flaw err := by
  cases h with
  | literal hmem hnone => exact .literal (hsub hmem) hnone
  | byZero hmem hop => exact .byZero (hsub hmem) hop
  | tooLarge hmem hop => exact .tooLarge (hsub hmem) hop

theorem value_error {e : Expr} {err : EvalError} (h : e.value = .error err) : e.Flaw err := by
  induction e with
  | literal text =>
    rw [value_literal] at h
    cases hn : literalNumber text with
    | ok n => rw [hn] at h; cases h
    | error e' =>
      rw [hn] at h; cases h
      obtain ⟨hnone, rfl⟩ := literalNumber_eq_error_iff.1 hn
      exact .literal List.mem_cons_self hnone
  | binary op left right ihl ihr =>
    rw [value_binary] at h
    -- the left operand, the right one, the operator: the first of them that fails is the failure
    rcases bind_eq_error.1 h with hl | ⟨a, -, h⟩
    · exact (ihl hl).mono (List.subset_append_left _ _)
    rcases bind_eq_error.1 h with hr | ⟨b, -, h⟩
    · exact (ihr hr).mono fun s hs => List.mem_append_right _ (List.mem_cons_of_mem _ hs)
    have hmem : Symbol.operator op ∈ (binary op left right).inOrder := by simp [inOrder]
    obtain ⟨hop, ⟨-, rfl⟩ | ⟨-, -, rfl⟩⟩ := Operator.apply_error h
    · exact .byZero hmem hop
    · exact .tooLarge hmem hop

/-- If all literals are numbers, what fails is a division. -/
theorem value_ne_invalidLiteral {e : Expr}
    (h : ∀ text, Symbol.literal text ∈ e.inOrder → (literalValue? text.value).isSome = true) (text : String) (span : Span) :
    e.value ≠ .error (.invalidLiteral text span) := by
  intro he
  cases value_error he with
  | literal hmem hnone =>
    have := h _ hmem
    rw [hnone] at this; cases this

/-- Every literal of a tree that has a value is a number. -/
theorem literals_of_value_ok {e : Expr} {n : Number} (h : e.value = .ok n) :
    ∀ text, Symbol.literal text ∈ e.inOrder → (literalValue? text.value).isSome = true := by
  induction e generalizing n with
  | literal text =>
    intro text' hmem
    obtain rfl : text' = text := by simpa [inOrder] using hmem
    obtain ⟨m, hm, -⟩ := value_literal_eq_ok_iff.1 h
    rw [hm]
    rfl
  | binary op left right ihl ihr =>
    obtain ⟨a, ha, b, hb, -⟩ := value_binary_eq_ok_iff.1 h
    intro text hmem
    simp only [inOrder, List.mem_append, List.mem_cons, reduceCtorEq, false_or] at hmem
    exact hmem.elim (ihl ha text) (ihr hb text)

/-- Only a tree with an operator has a value. -/
theorem value_of_evaluate_ok {e : Expr} {n : Number} (h : e.evaluate = .ok n) : e.value = .ok n := by
  cases e with
  | literal text => cases h
  | binary op left right => exact h

theorem value_ne_loneLiteral (e : Expr) (span : Span) : e.value ≠ .error (.loneLiteral span) := by
  intro he
  cases value_error he

end Expr

/-! ## From text to value -/

theorem run_of_parse_ok {source : String} {o : ParseOptions} {e : Expr} (h : parse (lex source) o = .ok e) :
    run source o = match e.evaluate with
      | .error err => .error (.eval err)
      | .ok n => .ok (e, n) := by
  unfold run
  cases hv : e.evaluate <;> simp only [h, hv]

theorem run_of_parse_error {source : String} {o : ParseOptions} {e : ParseError} (h : parse (lex source) o = .error e) :
    run source o = .error (.parse e) := by
  simp only [run, h]

theorem run_eq_ok_iff {source : String} {o : ParseOptions} {e : Expr} {n : Number} :
    run source o = .ok (e, n) ↔ parse (lex source) o = .ok e ∧ e.evaluate = .ok n := by
  constructor
  · intro h
    cases hp : parse (lex source) o with
    | error err => rw [run_of_parse_error hp] at h; cases h
    | ok e' =>
      rw [run_of_parse_ok hp] at h
      cases hv : e'.evaluate with
      | error err => rw [hv] at h; cases h
      | ok n' => rw [hv] at h; cases h; exact ⟨rfl, hv⟩
  · rintro ⟨hp, hv⟩
    rw [run_of_parse_ok hp, hv]

/-- A text has no value because it cannot be read, or because what was read cannot be evaluated. -/
theorem run_eq_error_iff {source : String} {o : ParseOptions} {err : Error} : run source o = .error err ↔
    (∃ e, parse (lex source) o = .error e ∧ err = .parse e) ∨
      ∃ e err', parse (lex source) o = .ok e ∧ e.evaluate = .error err' ∧ err = .eval err' := by
  constructor
  · intro h
    cases hp : parse (lex source) o with
    | error e => rw [run_of_parse_error hp] at h; cases h; exact .inl ⟨e, rfl, rfl⟩
    | ok e =>
      rw [run_of_parse_ok hp] at h
      cases hv : e.evaluate with
      | error err' => rw [hv] at h; cases h; exact .inr ⟨e, err', rfl, hv, rfl⟩
      | ok n => rw [hv] at h; cases h
  · rintro (⟨e, hp, rfl⟩ | ⟨e, err', hp, hv, rfl⟩)
    · exact run_of_parse_error hp
    · rw [run_of_parse_ok hp, hv]

/-- With an operator, the expression of a chain has the value of its tree. -/
theorem Chain.evaluate_toExpr {c : Chain} (h : c.links ≠ []) : c.toExpr.evaluate = c.toExpr.value := by
  cases he : c.toExpr with
  | literal text =>
    have := c.chain_toExpr
    rw [he] at this
    exact absurd (congrArg Chain.links this.symm) h
  | binary op left right => rfl

end ArithLang
