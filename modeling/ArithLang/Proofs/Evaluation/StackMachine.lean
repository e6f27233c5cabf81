/-
A stack machine beside the evaluation of trees. Its code is the tree in post-order, so each literal is pushed
before the operator that needs it, and operators take what they need from the top of the stack.

Main fact: running the code of a tree and then some more code is running that code with the value of the tree on
the stack, or stopping with the failure of the tree (`exec_postOrder_append`). So on an empty stack the code of an
expression ends with its value alone, or at its first instruction that fails (`evaluate_eq_exec`), and never finds
the stack too short.
-/
import ArithLang.Proofs.Evaluation.Value

namespace ArithLang

/-- The symbols of the tree, left operand, right operand, operator. -/
def Expr.postOrder : Expr → List Symbol
  | literal text => [.literal text]
  | binary op left right => left.postOrder ++ right.postOrder ++ [.operator op]

namespace StackMachine

/-! ## The machine -/

/-- Why the machine stops before the end of its code. -/
inductive Fault where
  | failed (e : EvalError)
  /-- There are less than two numbers on the stack for an operator. -/
  | underflow
deriving DecidableEq

/-- The numbers in hand, the top of the stack first. -/
abbrev Stack := List Number

/-- A literal is pushed as the integer it stands for. An operator takes its right operand from the top of the stack
and the left one from below it, each as an integer, and pushes the result. -/
def step (stack : Stack) : Symbol → Except Fault Stack
  | .literal text => do
    let n ← (literalNumber text).mapError .failed
    return .int n :: stack
  | .operator op =>
    match stack with
    | right :: left :: below => do
      let n ← (op.value.apply ⟨op.offset, 1⟩ left.operand right.operand).mapError .failed
      return n :: below
    | _ => .error .underflow

/-- The stack after the code, or why it was not run to its end. -/
def exec (code : List Symbol) (stack : Stack) : Except Fault Stack := code.foldlM step stack

theorem exec_cons (s : Symbol) (code : List Symbol) (stack : Stack) :
    exec (s :: code) stack = step stack s >>= exec code := List.foldlM_cons

/-- The machine stops at the first instruction that fails. -/
theorem exec_eq_error_iff {code : List Symbol} {stack : Stack} {fault : Fault} :
    exec code stack = .error fault ↔ ∃ before s after stack', code = before ++ s :: after ∧
      exec before stack = .ok stack' ∧ step stack' s = .error fault := foldlM_eq_error_iff

/-! ## The code of a tree -/

theorem exec_postOrder_append (e : Expr) (code : List Symbol) (stack : Stack) :
    exec (e.postOrder ++ code) stack = e.value.mapError .failed >>= fun n => exec code (n :: stack) := by
  -- the code that follows is arbitrary, for the left operand is followed by the code of the right one
  induction e generalizing code stack with
  | literal text =>
    rw [Expr.postOrder, List.singleton_append, exec_cons, Expr.value_literal, step]
    cases literalNumber text <;> rfl
  | binary op left right ihl ihr =>
    rw [Expr.postOrder, List.append_assoc, List.append_assoc, ihl, Expr.value_binary]
    cases left.value with
    | error err => rfl
    | ok a =>
      change exec (right.postOrder ++ ([.operator op] ++ code)) (a :: stack) =
        (right.value >>= fun b => op.value.apply ⟨op.offset, 1⟩ a.operand b.operand).mapError .failed >>= _
      rw [ihr]
      cases right.value with
      | error err => rfl
      | ok b =>
        change exec (.operator op :: code) (b :: a :: stack) =
          (op.value.apply ⟨op.offset, 1⟩ a.operand b.operand).mapError .failed >>= _
        rw [exec_cons, step]
        cases op.value.apply ⟨op.offset, 1⟩ a.operand b.operand <;> rfl

theorem exec_postOrder (e : Expr) :
    exec e.postOrder [] = match e.value with
      | .ok n => .ok [n]
      | .error err => .error (.failed err) := by
  have h := exec_postOrder_append e [] []
  rw [List.append_nil] at h
  rw [h]
  cases e.value <;> rfl

/-- An expression with an operator has the value that its code in post-order leaves on the stack, and nothing else is
left there; or it fails as the first instruction does that fails. A lone literal has no value, whatever its text. -/
theorem evaluate_eq_exec :
    (∀ (op : Located Operator) (left right : Expr), let e := Expr.binary op left right
      (exec e.postOrder [] = match e.evaluate with
        | .ok n => .ok [n]
        | .error err => .error (.failed err)) ∧
      ∀ err, e.evaluate = .error err ↔ ∃ before s after stack, e.postOrder = before ++ s :: after ∧
        exec before [] = .ok stack ∧ step stack s = .error (.failed err)) ∧
    ∀ text : Located String,
      (Expr.literal text).evaluate = .error (.loneLiteral (.ofText text.offset text.value)) := by
  refine ⟨fun op left right => ?_, fun text => rfl⟩
  have hexec := exec_postOrder (.binary op left right)
  refine ⟨hexec, fun err => ?_⟩
  rw [← exec_eq_error_iff, hexec]
  cases h : (Expr.binary op left right).value <;> simp [Expr.evaluate, h]

end StackMachine

end ArithLang
