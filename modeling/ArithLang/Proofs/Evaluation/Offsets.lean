/-
The offsets in a tree have no part in its value. Evaluation is compared with itself on two trees that differ in
their offsets only: both have the same value, or both fail at the same symbol and for the same reason
(`evaluate_alike`). With what is known of the scanner and of the parser, the blanks of a source change the places in
the answer of `run` and nothing else (`offsets_in_spans_only`).
-/
import ArithLang.Proofs.Evaluation.Value
import ArithLang.Proofs.Scanner.Spacing

namespace ArithLang

/-! ## Trees that differ in their offsets only -/

/-- The failures are of one kind and have one text. They stand at both symbols of one of the pairs. -/
inductive EvalError.Alike (pairs : List (Symbol × Symbol)) : EvalError → EvalError → Prop
  | loneLiteral {text text' : Located String} : (.literal text, .literal text') ∈ pairs →
      Alike pairs (.loneLiteral (.ofText text.offset text.value)) (.loneLiteral (.ofText text'.offset text.value))
  | invalidLiteral {text text' : Located String} : (.literal text, .literal text') ∈ pairs →
      Alike pairs (.invalidLiteral text.value (.ofText text.offset text.value))
        (.invalidLiteral text.value (.ofText text'.offset text.value))
  | divisionByZero {op op' : Located Operator} : (.operator op, .operator op') ∈ pairs →
      Alike pairs (.divisionByZero ⟨op.offset, 1⟩) (.divisionByZero ⟨op'.offset, 1⟩)
  | quotientTooLarge {op op' : Located Operator} : (.operator op, .operator op') ∈ pairs →
      Alike pairs (.quotientTooLarge ⟨op.offset, 1⟩) (.quotientTooLarge ⟨op'.offset, 1⟩)

theorem EvalError.Alike.mono {pairs more : List (Symbol × Symbol)} (hsub : pairs ⊆ more) {e e' : EvalError}
    (h : Alike pairs e e') : Alike more e e' := by
  cases h with
  | loneLiteral hmem => exact .loneLiteral (hsub hmem)
  | invalidLiteral hmem => exact .invalidLiteral (hsub hmem)
  | divisionByZero hmem => exact .divisionByZero (hsub hmem)
  | quotientTooLarge hmem => exact .quotientTooLarge (hsub hmem)

/-- The operator is the same at both places, and so is what becomes of it. -/
theorem Operator.apply_alike (op : Operator) {offset offset' : Nat} {pairs : List (Symbol × Symbol)}
    (hmem : (.operator ⟨op, offset⟩, .operator ⟨op, offset'⟩) ∈ pairs) (a b : Int) :
    SameResult (EvalError.Alike pairs) Eq (op.apply ⟨offset, 1⟩ a b) (op.apply ⟨offset', 1⟩ a b) := by
  cases op with
  | add => exact rfl
  | subtract => exact rfl
  | multiply => exact rfl
  | divide =>
    unfold apply
    by_cases hb : b = 0
    · simp only [if_pos hb]
      exact .divisionByZero hmem
    · simp only [if_neg hb]
      cases Binary64.ofQuotient? a b with
      | some q => exact rfl
      | none => exact .quotientTooLarge hmem

namespace Expr

/-- What two trees with their nodes in the same places come to: one value, or failures at the same node. -/
def SameValue (e e' : Expr) : Except EvalError Number → Except EvalError Number → Prop :=
  SameResult (EvalError.Alike (e.inOrder.zip e'.inOrder)) Eq

theorem length_inOrder_of_erase {e e' : Expr} (h : e.erase = e'.erase) : e.inOrder.length = e'.inOrder.length := by
  rw [length_inOrder, length_inOrder, ← nodeCount_erase, h, nodeCount_erase]

theorem value_alike {e e' : Expr} (h : e.erase = e'.erase) : SameValue e e' e.value e'.value := by
  induction e generalizing e' with
  | literal text =>
    obtain text' | _ := e'
    · have htext : text.value = text'.value := Located.erase_eq_iff.1 (literal.inj h)
      rw [value_literal, value_literal]
      unfold literalNumber
      rw [← htext]
      cases literalValue? text.value with
      | some n => exact rfl
      | none => exact .invalidLiteral List.mem_cons_self
    · cases h
  | binary op left right ihl ihr =>
    obtain _ | ⟨op', left', right'⟩ := e'
    · cases h
    · obtain ⟨hop, hl, hr⟩ := binary.inj h
      have hzip : (binary op left right).inOrder.zip (binary op' left' right').inOrder =
          left.inOrder.zip left'.inOrder ++ (.operator op, .operator op') :: right.inOrder.zip right'.inOrder := by
        rw [inOrder, inOrder, List.zip_append (length_inOrder_of_erase hl), List.zip_cons_cons]
      unfold SameValue at ihl ihr ⊢
      rw [hzip]
      -- the operands end in the same way, each with the symbols of its own side
      have hleft := (ihl hl).mono fun _ _ => EvalError.Alike.mono (List.subset_append_left _
        ((.operator op, .operator op') :: right.inOrder.zip right'.inOrder))
      have hright := (ihr hr).mono fun _ _ => EvalError.Alike.mono (List.subset_append_of_subset_right
        (left.inOrder.zip left'.inOrder) (List.subset_cons_self (Symbol.operator op, Symbol.operator op') _))
      obtain ⟨op, offset⟩ := op
      obtain ⟨op', offset'⟩ := op'
      obtain rfl : op = op' := Located.erase_eq_iff.1 hop
      rw [value_binary, value_binary]
      refine hleft.bind fun a _ ha => hright.bind fun b _ hb => ?_
      subst ha hb
      exact op.apply_alike (by simp) a.operand b.operand

theorem evaluate_alike {e e' : Expr} (h : e.erase = e'.erase) : SameValue e e' e.evaluate e'.evaluate := by
  obtain text | ⟨op, left, right⟩ := e <;> obtain text' | ⟨op', left', right'⟩ := e'
  · have htext : text.value = text'.value := Located.erase_eq_iff.1 (literal.inj h)
    simp only [evaluate, span, ← htext]
    exact .loneLiteral List.mem_cons_self
  · cases h
  · cases h
  · exact value_alike h

end Expr

/-! ## From text to value -/

/-- The error without its place. -/
def ParseError.erase : ParseError → ParseError
  | unexpectedEnd _ => unexpectedEnd ⟨0, 0⟩
  | expectedLiteral found _ => expectedLiteral found ⟨0, 0⟩
  | trailingInput found _ => trailingInput found ⟨0, 0⟩

def EvalError.erase : EvalError → EvalError
  | loneLiteral _ => loneLiteral ⟨0, 0⟩
  | invalidLiteral text _ => invalidLiteral text ⟨0, 0⟩
  | divisionByZero _ => divisionByZero ⟨0, 0⟩
  | quotientTooLarge _ => quotientTooLarge ⟨0, 0⟩

def Error.erase : Error → Error
  | parse e => parse e.erase
  | eval e => eval e.erase

theorem ParseError.Alike.erase_eq {pairs : List (Token × Token)} {eof eof' : Nat} {e e' : ParseError}
    (h : Alike pairs eof eof' e e') : e.erase = e'.erase := by
  cases h <;> rfl

theorem EvalError.Alike.erase_eq {pairs : List (Symbol × Symbol)} {e e' : EvalError} (h : Alike pairs e e') :
    e.erase = e'.erase := by
  cases h <;> rfl

/-- The answers are the same but for the places in them: trees of one shape with one value, or one failure. -/
def SameAnswer : Except Error (Expr × Number) → Except Error (Expr × Number) → Prop :=
  SameResult (fun err err' => err.erase = err'.erase) fun x y => x.1.erase = y.1.erase ∧ x.2 = y.2

theorem parse_alike {ts us : List Token} (h : List.Forall₂ Token.Alike ts us) (o : ParseOptions) :
    Parser.SameOutcome (.ofTokens ts o) (.ofTokens us o) (parse ts o) (parse us o) :=
  have halike : (Parser.ofTokens ts o).Alike (.ofTokens us o) := ⟨h, rfl, rfl⟩
  (Parser.parse_alike halike).1

theorem run_alike {s s' : String} (h : List.Forall₂ Token.Alike (lex s) (lex s')) (o : ParseOptions) :
    SameAnswer (run s o) (run s' o) := by
  have hparse := parse_alike h o
  cases hp : parse (lex s) o <;> cases hp' : parse (lex s') o <;> rw [hp, hp'] at hparse
  case error.error =>
    rw [run_of_parse_error hp, run_of_parse_error hp']
    exact congrArg Error.parse (ParseError.Alike.erase_eq hparse)
  case error.ok => exact hparse.elim
  case ok.error => exact hparse.elim
  case ok.ok e e' =>
    have hvalue := Expr.evaluate_alike hparse.1
    rw [run_of_parse_ok hp, run_of_parse_ok hp']
    cases hv : e.evaluate <;> cases hv' : e'.evaluate <;> rw [hv, hv'] at hvalue
    case error.error => exact congrArg Error.eval (EvalError.Alike.erase_eq hvalue)
    case error.ok => exact hvalue.elim
    case ok.error => exact hvalue.elim
    case ok.ok => exact ⟨hparse.1, hvalue⟩

/-- Offsets go into spans and nowhere else: the parser, the evaluation and both together do the same with tokens, trees
and sources that differ in their offsets only. Blanks, unless they stand between digits, are offsets and no more. -/
theorem offsets_in_spans_only :
    (∀ (ts us : List Token) (o : ParseOptions), List.Forall₂ Token.Alike ts us →
      Parser.SameOutcome (.ofTokens ts o) (.ofTokens us o) (parse ts o) (parse us o)) ∧
    (∀ e e' : Expr, e.erase = e'.erase → e.SameValue e' e.evaluate e'.evaluate) ∧
    (∀ (s s' : String) (o : ParseOptions), List.Forall₂ Token.Alike (lex s) (lex s') →
      SameAnswer (run s o) (run s' o)) ∧
    ∀ (s s' : String) (o : ParseOptions), Respaced s s' → SameAnswer (run s o) (run s' o) :=
  ⟨fun _ _ o h => parse_alike h o, fun _ _ => Expr.evaluate_alike, fun _ _ o h => run_alike h o,
    fun _ _ o h => run_alike (alike_of_respaced h) o⟩

end ArithLang
