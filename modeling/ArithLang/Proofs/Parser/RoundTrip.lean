/-
Parsing and taking trees apart are inverse to each other, between the lists of tokens that are accepted
and the canonical trees (`parse_inOrder`). The in-order symbols of a parsed tree are the tokens behind the
parser, one by one, and the tree is canonical; a canonical tree is parsed from any tokens that are read as
its in-order symbols (`parse_of_readFrom`), and so from the plainest such list. Where nothing may follow the
expression, the lists that are accepted are the chains (`parse_eq_ok_iff`).
-/
import ArithLang.Proofs.Parser.Descent

namespace ArithLang.Parser

open Chain

/-- The tree that is parsed, its symbols and the number of its nodes, from the tokens that are gone. -/
theorem inOrder_of_parse_ok {tokens : List Token} {o : ParseOptions} {e : Expr} {q : Parser}
    (h : (ofTokens tokens o).parse = (.ok e, q)) :
    List.Forall₂ (Symbol.ReadFrom o) e.inOrder (tokens.take q.position) ∧ e.nodeCount = q.position ∧
      q.position % 2 = 1 ∧ q.position ≤ tokens.length ∧ (o.requireEnd = true → q.position = tokens.length) ∧
      e.isCanonical = true := by
  obtain ⟨c, n, hreads, rfl, rfl, hend⟩ := reads_of_parse_ok h
  have hspells := hreads.spells
  have hlen : c.symbols.length = n := by
    rw [hspells.length_eq, List.length_take, Nat.min_eq_left hreads.le_length]
  refine ⟨?_, ?_, ?_, hreads.le_length, fun ho => ?_, isCanonical_toExpr c⟩
  · rw [inOrder_toExpr]; exact hspells
  · rw [← Expr.length_inOrder, inOrder_toExpr, hlen]
  · rw [← hlen, length_symbols]; simp only; omega
  · exact Nat.le_antisymm hreads.le_length (List.drop_eq_nil_iff.1 (hend ho))

/-- Every symbol of the tree that is parsed is read from one of the tokens. -/
theorem exists_token_of_parse_ok {tokens : List Token} {o : ParseOptions} {e : Expr}
    (h : ArithLang.parse tokens o = .ok e) {s : Symbol} (hs : s ∈ e.inOrder) : ∃ t ∈ tokens, s.ReadFrom o t := by
  obtain ⟨hsymbols, -⟩ := inOrder_of_parse_ok (Prod.ext h rfl)
  rw [← Expr.symbols_chain] at hsymbols hs
  obtain ⟨t, ht, hread⟩ := Spells.exists_token hsymbols hs
  exact ⟨t, List.mem_of_mem_take ht, hread⟩

/-- With other options, tokens that were parsed are parsed to the same tree if its symbols may still be read from
them; only what comes after the tree may then be in the way. -/
theorem parse_of_options {tokens : List Token} {o o' : ParseOptions} {e : Expr} (h : ArithLang.parse tokens o = .ok e)
    (hread : ∀ s ∈ e.inOrder, ∀ t ∈ tokens, s.ReadFrom o t → s.ReadFrom o' t) :
    ∃ front rest, tokens = front ++ rest ∧ List.Forall₂ (Symbol.ReadFrom o') e.inOrder front ∧
      (o.requireEnd = true → rest = []) ∧
      ArithLang.parse tokens o' = match rest with
        | [] => .ok e
        | t :: _ => if o'.requireEnd then .error (.trailingInput t.text t.span) else .ok e := by
  obtain ⟨c, n, hreads, rfl, -, hend⟩ := reads_of_parse_ok (Prod.ext h rfl)
  rw [inOrder_toExpr] at hread
  have hspells : c.Spells o' (tokens.take n) := by
    obtain ⟨hlen, hpairs⟩ := List.forall₂_iff_get.1 hreads.spells
    refine List.forall₂_iff_get.2 ⟨hlen, fun i hi hi' => ?_⟩
    exact hread _ (List.get_mem _ _) _ (List.mem_of_mem_take (List.get_mem _ _)) (hpairs i hi hi')
  obtain ⟨r, m, hreads', hparse⟩ := parse_ofTokens_eq tokens o'
  have hsame : Chain.Reads (fun _ => true) o' (ofTokens tokens o').endOfTokens (tokens.take n ++ tokens.drop n) (.ok c)
      (tokens.take n).length := .of_spells (fun _ _ => rfl) hspells hreads.stops
  rw [List.take_append_drop] at hsame
  obtain ⟨rfl, rfl⟩ := hsame.unique hreads'
  rw [List.length_take, Nat.min_eq_left hreads.le_length] at hparse
  refine ⟨tokens.take n, tokens.drop n, (List.take_append_drop _ _).symm, ?_, hend, ?_⟩
  · rw [inOrder_toExpr]; exact hspells
  · rw [ArithLang.parse, hparse]
    cases tokens.drop n <;> rfl

/-- A canonical tree is what its own tokens are parsed to, whatever the texts of the operators and the kinds
that are accepted for literals. -/
theorem parse_of_readFrom {tokens : List Token} {o : ParseOptions} {e : Expr} (he : e.isCanonical = true)
    (h : List.Forall₂ (Symbol.ReadFrom o) e.inOrder tokens) :
    (ofTokens tokens o).parse = (.ok e, ⟨tokens, tokens.length, o⟩) := by
  have hspells : e.chain.Spells o tokens := by rw [Spells, Expr.symbols_chain]; exact h
  obtain ⟨r, n, hreads, heq⟩ := parse_ofTokens_eq tokens o
  obtain ⟨rfl, rfl⟩ := (hspells.reads _).unique hreads
  rw [heq, List.drop_length, answer, Expr.toExpr_chain he]

/-- Where nothing may follow the expression, a list of tokens is accepted exactly if it is a chain, and the tree
is the grouping of that chain. -/
theorem parse_eq_ok_iff {tokens : List Token} {o : ParseOptions} {e : Expr} (ho : o.requireEnd = true) :
    ArithLang.parse tokens o = .ok e ↔ ∃ c : Chain, c.Spells o tokens ∧ e = c.toExpr := by
  unfold ArithLang.parse
  constructor
  · intro h
    obtain ⟨hsymbols, -, -, -, hend, hcanonical⟩ := inOrder_of_parse_ok (Prod.ext h rfl)
    rw [hend ho, List.take_length] at hsymbols
    exact ⟨e.chain, by rwa [Spells, Expr.symbols_chain], (Expr.toExpr_chain hcanonical).symm⟩
  · rintro ⟨c, hc, rfl⟩
    rw [parse_of_readFrom (isCanonical_toExpr c) (by rwa [inOrder_toExpr])]

/-- Parsing yields a canonical tree whose symbols, in order, are the tokens behind the parser; a canonical tree is
what any tokens that are read as its symbols, in order, are parsed to; and so strict parsing takes the number
tokens and operator tokens of a canonical tree, in order, to that tree. -/
theorem parse_inOrder :
    (∀ (tokens : List Token) (o : ParseOptions) (e : Expr) (q : Parser),
      (ofTokens tokens o).parse = (.ok e, q) →
        List.Forall₂ (Symbol.ReadFrom o) e.inOrder (tokens.take q.position) ∧ e.nodeCount = q.position ∧
        q.position % 2 = 1 ∧ q.position ≤ tokens.length ∧ (o.requireEnd = true → q.position = tokens.length) ∧
        e.isCanonical = true) ∧
    (∀ (tokens : List Token) (o : ParseOptions) (e : Expr), e.isCanonical = true →
      List.Forall₂ (Symbol.ReadFrom o) e.inOrder tokens → ArithLang.parse tokens o = .ok e) ∧
    ∀ e : Expr, e.isCanonical = true → ArithLang.parse (e.inOrder.map Symbol.token) .strict = .ok e := by
  refine ⟨fun tokens o e q h => inOrder_of_parse_ok h, fun tokens o e he h => ?_, fun e he => ?_⟩
  · rw [ArithLang.parse, parse_of_readFrom he h]
  · rw [ArithLang.parse, parse_of_readFrom he (Symbol.forall₂_readFrom_tokens .strict e.inOrder)]

end ArithLang.Parser
