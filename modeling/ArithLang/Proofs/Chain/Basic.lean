/-
A chain is an expression as it is written, before any grouping: a literal, then operators each followed by a
literal. `Spells` says that a list of tokens is such a chain, token by token; the list has an odd number of
tokens then (`length_symbols`). `Symbol.token` gives the plainest token for each symbol: a number token for a
literal, and for an operator the token of its own sign.
-/
import ArithLang.ParseOptions
import ArithLang.Operator
import Mathlib.Data.List.Forall2

namespace ArithLang

/-! ## Symbols -/

/-- What one token of an expression contributes to it. -/
inductive Symbol where
  | literal (text : Located String)
  | operator (op : Located Operator)
deriving DecidableEq

/-- The kind of the tokens that stand for the operator. -/
def Operator.kind : Operator → TokenKind
  | add => .plus
  | subtract => .minus
  | multiply => .star
  | divide => .slash

@[simp] theorem Operator.ofKind?_kind (op : Operator) : ofKind? op.kind = some op := by cases op <;> rfl

theorem Operator.ofKind?_eq_some_iff {k : TokenKind} {op : Operator} : ofKind? k = some op ↔ k = op.kind := by
  constructor
  · intro h; cases k <;> cases h <;> rfl
  · rintro rfl; exact ofKind?_kind op

/-- The token `t` is read as the symbol `s`: a literal keeps the text and the place of its token,
an operator is the one the token's kind stands for, at the place of the token. -/
def Symbol.ReadFrom (o : ParseOptions) (s : Symbol) (t : Token) : Prop :=
  match s with
  | literal text => o.acceptsLiteral t.kind = true ∧ t.located = text
  | operator op => Operator.ofKind? t.kind = some op.value ∧ t.offset = op.offset

/-- The token a symbol is written with: a number token with the text of the literal, whatever that is, or the
symbol of the operator. -/
def Symbol.token : Symbol → Token
  | literal text => ⟨.number, text.value, text.offset⟩
  | operator op => ⟨op.value.kind, op.value.symbol, op.offset⟩

theorem Symbol.readFrom_token (o : ParseOptions) (s : Symbol) : s.ReadFrom o s.token := by
  cases s with
  | literal text => exact ⟨by simp [token, ParseOptions.acceptsLiteral], rfl⟩
  | operator op => exact ⟨Operator.ofKind?_kind op.value, rfl⟩

theorem Symbol.forall₂_readFrom_tokens (o : ParseOptions) (symbols : List Symbol) :
    List.Forall₂ (ReadFrom o) symbols (symbols.map token) := by
  rw [List.forall₂_map_right_iff, List.forall₂_same]
  exact fun s _ => s.readFrom_token o

/-! ## Chains -/

/-- An operator with the literal after it. -/
structure Link where
  op : Located Operator
  operand : Located String
deriving DecidableEq

structure Chain where
  first : Located String
  links : List Link
deriving DecidableEq

namespace Chain

/-- The links of a chain that continues another one after the operator `op`. -/
def after (op : Located Operator) (c : Chain) : List Link := ⟨op, c.first⟩ :: c.links

/-- The chain with more links at its end. -/
def extend (c : Chain) (links : List Link) : Chain := ⟨c.first, c.links ++ links⟩

@[simp] theorem extend_nil (c : Chain) : c.extend [] = c := by simp [extend]

/-- The symbols of the links, in source order. -/
def symbolsOf (links : List Link) : List Symbol :=
  links.flatMap fun l => [.operator l.op, .literal l.operand]

/-- The symbols of the chain, in source order. -/
def symbols (c : Chain) : List Symbol := .literal c.first :: symbolsOf c.links

@[simp] theorem symbolsOf_nil : symbolsOf [] = [] := rfl

@[simp] theorem symbolsOf_cons (l : Link) (links : List Link) :
    symbolsOf (l :: links) = .operator l.op :: .literal l.operand :: symbolsOf links := rfl

@[simp] theorem symbolsOf_append (links more : List Link) :
    symbolsOf (links ++ more) = symbolsOf links ++ symbolsOf more := List.flatMap_append

@[simp] theorem symbolsOf_after (op : Located Operator) (c : Chain) :
    symbolsOf (c.after op) = .operator op :: c.symbols := rfl

theorem length_symbolsOf (links : List Link) : (symbolsOf links).length = 2 * links.length := by
  induction links with
  | nil => rfl
  | cons l links ih => simp only [symbolsOf_cons, List.length_cons, ih]; omega

theorem length_symbols (c : Chain) : c.symbols.length = 2 * c.links.length + 1 := by
  simp only [symbols, List.length_cons, length_symbolsOf]

theorem operator_mem_symbols {c : Chain} {l : Link} (h : l ∈ c.links) : .operator l.op ∈ c.symbols :=
  List.mem_cons_of_mem _ (List.mem_flatMap.2 ⟨l, h, by simp⟩)

theorem literal_mem_symbols {c : Chain} {l : Link} (h : l ∈ c.links) : .literal l.operand ∈ c.symbols :=
  List.mem_cons_of_mem _ (List.mem_flatMap.2 ⟨l, h, by simp⟩)

/-- The list `tokens` is the chain `c`, token by token. -/
def Spells (o : ParseOptions) (c : Chain) (tokens : List Token) : Prop :=
  List.Forall₂ (Symbol.ReadFrom o) c.symbols tokens

/-- Every symbol of the chain is read from one of the tokens. -/
theorem Spells.exists_token {o : ParseOptions} {c : Chain} {tokens : List Token} (h : c.Spells o tokens) {s : Symbol}
    (hs : s ∈ c.symbols) : ∃ t ∈ tokens, s.ReadFrom o t := by
  obtain ⟨i, hi, rfl⟩ := List.getElem_of_mem hs
  have hi' : i < tokens.length := h.length_eq ▸ hi
  exact ⟨tokens[i], List.getElem_mem hi', h.get hi hi'⟩

/-- The tokens of a longer chain begin with those of the chain. -/
theorem Spells.of_extend {o : ParseOptions} {c : Chain} {links : List Link} {tokens : List Token}
    (h : (c.extend links).Spells o tokens) : ∃ front rest, tokens = front ++ rest ∧ c.Spells o front ∧
      List.Forall₂ (Symbol.ReadFrom o) (symbolsOf links) rest := by
  have hsymbols : (c.extend links).symbols = c.symbols ++ symbolsOf links := by simp [symbols, extend]
  have hfront := List.forall₂_take c.symbols.length h
  have hrest := List.forall₂_drop c.symbols.length h
  rw [hsymbols, List.take_left] at hfront
  rw [hsymbols, List.drop_left] at hrest
  exact ⟨_, _, (List.take_append_drop _ tokens).symm, hfront, hrest⟩

end Chain

end ArithLang
