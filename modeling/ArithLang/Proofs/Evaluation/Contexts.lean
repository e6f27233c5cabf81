/-
Trees with a hole. An operator is applied to the integers that its operands count as and sees nothing else of them
(`value_binary_eq_operand`). So an operand may be replaced by any tree that counts as the same integer: the tree around
it has the same value, or fails at the same place (`evaluate_fill`). Fractions are seen at the root only.
-/
import ArithLang.Proofs.Evaluation.Value

namespace ArithLang.Expr

/-! ## Operands -/

/-- The integer that a tree counts as when an operator is applied to it, or how it fails. -/
def operand (e : Expr) : Except EvalError Int := Number.operand <$> e.value

theorem operand_of_value_ok {e : Expr} {n : Number} (h : e.value = .ok n) : e.operand = .ok n.operand := by
  rw [operand, h]
  rfl

theorem value_binary_eq_operand (op : Located Operator) (left right : Expr) : (binary op left right).value =
    left.operand >>= fun a => right.operand >>= fun b => op.value.apply ⟨op.offset, 1⟩ a b := by
  rw [value_binary]
  unfold operand
  cases left.value with
  | error err => rfl
  | ok a => cases right.value <;> rfl

/-- Operations are equal if their operands count as the same integers, or fail in the same way. -/
theorem value_binary_congr {left left' right right' : Expr} (hl : left.operand = left'.operand)
    (hr : right.operand = right'.operand) (op : Located Operator) :
    (binary op left right).value = (binary op left' right').value := by
  rw [value_binary_eq_operand, value_binary_eq_operand, hl, hr]

/-! ## Holes -/

/-- A tree that has a hole in the place of one of its subtrees. -/
inductive Context where
  | hole
  | inLeft (op : Located Operator) (inside : Context) (right : Expr)
  | inRight (op : Located Operator) (left : Expr) (inside : Context)

namespace Context

/-- The tree with `e` in the hole. -/
def fill : Context → Expr → Expr
  | hole, e => e
  | inLeft op inside right, e => binary op (inside.fill e) right
  | inRight op left inside, e => binary op left (inside.fill e)

/-- What is in the hole of a tree is a subtree, and each subtree is in a hole. -/
theorem mem_subtrees_iff {part e : Expr} : part ∈ e.subtrees ↔ ∃ c : Context, c.fill part = e := by
  constructor
  · intro h
    induction e with
    | literal text =>
      obtain rfl : part = literal text := by simpa [subtrees] using h
      exact ⟨hole, rfl⟩
    | binary op left right ihl ihr =>
      rw [subtrees, List.mem_cons, List.mem_append] at h
      rcases h with rfl | h | h
      · exact ⟨hole, rfl⟩
      · obtain ⟨c, rfl⟩ := ihl h
        exact ⟨inLeft op c right, rfl⟩
      · obtain ⟨c, rfl⟩ := ihr h
        exact ⟨inRight op left c, rfl⟩
  · rintro ⟨c, rfl⟩
    induction c with
    | hole => cases part <;> exact List.mem_cons_self
    | inLeft op inside right ih => exact List.mem_cons_of_mem _ (List.mem_append_left _ ih)
    | inRight op left inside ih => exact List.mem_cons_of_mem _ (List.mem_append_right _ ih)

variable {s t : Expr}

theorem operand_fill (h : s.operand = t.operand) (c : Context) : (c.fill s).operand = (c.fill t).operand := by
  induction c with
  | hole => exact h
  | inLeft op inside right ih => exact congrArg (Number.operand <$> ·) (value_binary_congr ih rfl op)
  | inRight op left inside ih => exact congrArg (Number.operand <$> ·) (value_binary_congr rfl ih op)

/-- Below an operator, the value of the whole tree does not tell apart what counts as the same integer. -/
theorem evaluate_fill_of_operand_eq {c : Context} (hc : c ≠ hole) (h : s.operand = t.operand) :
    (c.fill s).evaluate = (c.fill t).evaluate := by
  cases c with
  | hole => exact absurd rfl hc
  | inLeft op inside right => exact value_binary_congr (operand_fill h inside) rfl op
  | inRight op left inside => exact value_binary_congr rfl (operand_fill h inside) op

end Context

/-- Two trees that have values and count as the same integer may stand for each other below an operator, at the left or
at the right and however deep: the tree around them has the same value, of the same kind, or the same failure at the
same place. Every subtree stands in such a place, or is the tree itself. For that one it does not hold, as the value of
a quotient has a fraction. -/
theorem evaluate_fill :
    (∀ (c : Context) (s t : Expr) (a b : Number), c ≠ .hole → s.value = .ok a → t.value = .ok b →
      a.operand = b.operand → (c.fill s).evaluate = (c.fill t).evaluate) ∧
    (∀ part e : Expr, part ∈ e.subtrees ↔ ∃ c : Context, c.fill part = e) ∧
    ∃ (s t : Expr) (a b : Number), s.value = .ok a ∧ t.value = .ok b ∧ a.operand = b.operand ∧
      (Context.hole.fill s).evaluate ≠ (Context.hole.fill t).evaluate := by
  refine ⟨fun c s t a b hc hs ht h => ?_, fun _ _ => Context.mem_subtrees_iff, ?_⟩
  · refine Context.evaluate_fill_of_operand_eq hc ?_
    rw [operand_of_value_ok hs, operand_of_value_ok ht, h]
  · -- 7 / 2 and 3 * 1
    refine ⟨binary ⟨.divide, 1⟩ (literal ⟨"7", 0⟩) (literal ⟨"2", 2⟩),
      binary ⟨.multiply, 1⟩ (literal ⟨"3", 0⟩) (literal ⟨"1", 2⟩), .float (.finite false ⟨0x400C000000000000, by decide⟩),
      .int 3, ?_, rfl, ?_, ?_⟩
    · decide +kernel
    · decide +kernel
    · decide +kernel

/-- In the place of the hole of `(1 + hole) / (9 - 3 * 3)`, the quotient `7 / 2` fails where the literal 003 does. -/
theorem evaluate_fill_failure :
    let nine := binary ⟨.subtract, 10⟩ (literal ⟨"9", 8⟩) (binary ⟨.multiply, 14⟩ (literal ⟨"3", 12⟩) (literal ⟨"3", 16⟩))
    let c := Context.inLeft ⟨.divide, 6⟩ (.inRight ⟨.add, 2⟩ (literal ⟨"1", 0⟩) .hole) nine
    let half := binary ⟨.divide, 4⟩ (literal ⟨"7", 3⟩) (literal ⟨"2", 5⟩)
    c ≠ .hole ∧ (c.fill half).evaluate = .error (.divisionByZero ⟨6, 1⟩) := by
  intro nine c half
  have hhalf : half.value = .ok (.float (.finite false ⟨0x400C000000000000, by decide⟩)) := by decide +kernel
  have hliteral : (literal ⟨"003", 3⟩).value = .ok (.int 3) := rfl
  have hc : c ≠ .hole := nofun
  refine ⟨hc, (evaluate_fill.1 c half (literal ⟨"003", 3⟩) _ _ hc hhalf hliteral ?_).trans ?_⟩
  · decide +kernel
  · decide +kernel

end ArithLang.Expr
