/-
What strict parsing accepts, and what evaluation can then still refuse. The texts that are accepted are the words
of the language (`strict_iff_mem_expressions`), so two digits with blanks between them are never accepted. A
literal in such a text is a number, so the text fails as a lone literal or at a division and in no other way.
-/
import ArithLang.Proofs.Evaluation.Value
import ArithLang.Proofs.Grammar.Basic
import ArithLang.Proofs.Parser.RoundTrip
import Mathlib.Data.List.Chain

namespace ArithLang.Grammar

open Chain

variable {c : Chain} {ts : List Token} {links : List Link}

/-! ## Tokens of strict chains -/

/-- One of two tokens that follow each other is no number. -/
def Alternating (t u : Token) : Prop := ¬(t.kind = .number ∧ u.kind = .number)

theorem alternating_of_links (h : List.Forall₂ (Symbol.ReadFrom .strict) (symbolsOf links) ts) :
    ts.IsChain Alternating ∧ ∀ t ∈ ts.head?, t.kind ≠ .number := by
  induction links generalizing ts with
  | nil => cases h; exact ⟨.nil, nofun⟩
  | cons l links ih =>
    cases h with
    | @cons _ t _ _ hop h =>
    cases h with
    | @cons _ u _ rest hlit h =>
    obtain ⟨hrest, hhead⟩ := ih h
    have ht : t.kind ≠ .number := by
      rw [Operator.ofKind?_eq_some_iff.1 hop.1]
      cases l.op.value <;> nofun
    refine ⟨.cons_cons (fun hboth => ht hboth.1) (List.isChain_cons.2 ⟨fun v hv hboth => hhead v hv hboth.2, hrest⟩), ?_⟩
    rintro _ ⟨⟩
    exact ht

theorem alternating_of_spells (h : c.Spells .strict ts) : ts.IsChain Alternating := by
  obtain ⟨first, links⟩ := c
  cases h with
  | cons _ h =>
    obtain ⟨hchain, hhead⟩ := alternating_of_links h
    exact List.isChain_cons.2 ⟨fun v hv hboth => hhead v hv hboth.2, hchain⟩

/-- A chain of numbers has an operator token exactly if it has a link. -/
theorem exists_operator_iff (h : c.Spells .strict ts) :
    (∃ t ∈ ts, ∃ op : Operator, t.kind = op.kind) ↔ c.links ≠ [] := by
  obtain ⟨first, links⟩ := c
  cases h with
  | @cons _ t _ rest hlit h =>
  have ht : t.kind = .number := acceptsLiteral_strict.1 hlit.1
  constructor
  · rintro ⟨u, hu, op, hop⟩ rfl
    cases h
    rw [List.mem_singleton.1 hu, ht] at hop
    cases op <;> cases hop
  · intro hlinks
    obtain ⟨l, links, rfl⟩ := List.exists_cons_of_ne_nil hlinks
    cases h with
    | @cons _ u _ _ hop h =>
    exact ⟨u, by simp, l.op.value, Operator.ofKind?_eq_some_iff.1 hop.1⟩

theorem literal_of_spells (h : c.Spells .strict ts) (hts : ∀ t ∈ ts, t.WellFormed) {text : Located String}
    (hmem : Symbol.literal text ∈ c.symbols) : (literalValue? text.value).isSome = true := by
  obtain ⟨t, ht, hk, rfl⟩ := h.exists_token hmem
  exact isSome_literalValue?_iff.2 (mem_number.1 (text_mem_number (hts t ht) (acceptsLiteral_strict.1 hk)))

/-! ## Texts that are accepted -/

theorem strict_iff_mem_expressions (source : String) :
    (∃ e, parse (lex source) .strict = .ok e) ↔ source.toList ∈ expressions := by
  rw [mem_expressions_iff]
  constructor
  · rintro ⟨e, he⟩
    obtain ⟨c, hc, -⟩ := (Parser.parse_eq_ok_iff rfl).1 he
    exact ⟨c, hc⟩
  · rintro ⟨c, hc⟩
    exact ⟨c.toExpr, (Parser.parse_eq_ok_iff rfl).2 ⟨c, hc, rfl⟩⟩

/-- There are no blanks between two digits. -/
theorem blanks_eq_nil {source : String} (h : source.toList ∈ expressions) {before between after : List Char}
    {d d' : Char} (hsource : source.toList = before ++ d :: (between ++ d' :: after)) (hd : d.isDigit = true)
    (hd' : d'.isDigit = true) (hbetween : between ∈ blanks) : between = [] := by
  by_contra hne
  have hb := mem_blanks.1 hbetween
  have hfirst := tokenizes_tokensFrom 0 (before ++ [d])
  have hsecond := tokenizes_tokensFrom (0 + byteLength (before ++ [d])) (between ++ d' :: after)
  have hcut : NoDigitNext (between ++ d' :: after) := by
    obtain ⟨b, between, rfl⟩ := List.exists_cons_of_ne_nil hne
    have hfront : NoDigitNext (b :: between) := noDigitNext_of_allBlank hb
    exact hfront
  -- the text is cut between the digits, and both of them become numbers
  have hall := hfirst.append hsecond (.inr hcut)
  rw [show before ++ [d] ++ (between ++ d' :: after) = source.toList by rw [hsource]; simp] at hall
  obtain ⟨t, ht, hnum⟩ := hfirst.last_number hd
  obtain ⟨u, hu, hnum'⟩ := hsecond.head_number hb hd'
  obtain ⟨c, hc⟩ := (mem_expressions_iff source).1 h
  rw [lex_eq_iff.2 hall] at hc
  exact (List.isChain_append.1 (alternating_of_spells hc)).2.2 t ht u hu ⟨hnum, hnum'⟩

/-- An operator among the tokens is an operator character in the text. -/
theorem exists_operator_token_iff (source : String) :
    (∃ t ∈ lex source, ∃ op : Operator, t.kind = op.kind) ↔ ∃ c ∈ source.toList, c ∈ "+-*/".toList := by
  have htokens : Tokenizes 0 source.toList (lex source) := tokenizes_tokensFrom 0 source.toList
  constructor
  · rintro ⟨t, ht, op, hop⟩
    cases htokens.wellFormed t ht with
    | number => cases op <;> cases hop
    | @symbol c _ hb hd =>
      obtain ⟨_, hc, hw⟩ := mem_sign.2 ⟨op, ofChar_eq_kind hop⟩
      cases hw
      exact ⟨c, (htokens.mem_iff_kind hb hd).2 ⟨_, ht, rfl⟩, hc⟩
  · rintro ⟨c, hmem, hc⟩
    obtain ⟨op, hop⟩ := mem_sign.1 ⟨c, hc, rfl⟩
    obtain ⟨hb, hd, hk⟩ : isBlank c = false ∧ c.isDigit = false ∧ .ofChar c = op.kind := by
      cases op <;> cases hop <;> exact ⟨rfl, rfl, rfl⟩
    obtain ⟨t, ht, hkind⟩ := (htokens.mem_iff_kind hb hd).1 hmem
    exact ⟨t, ht, op, hkind.trans hk⟩

/-! ## What is left to fail -/

/-- Strict parsing accepts exactly the words of the language. They have no other characters and no blanks between
two digits. Such a text is never refused by the parser and none of its literals is, and it has no value for want of
an operator exactly if it has no operator character. -/
theorem run_strict (source : String) :
    ((∃ e, parse (lex source) .strict = .ok e) ↔ source.toList ∈ expressions) ∧
    (source.toList ∈ expressions →
      (∀ c ∈ source.toList, c ∈ " \t\n0123456789+-*/".toList) ∧
      (∀ before between after d d', source.toList = before ++ d :: (between ++ d' :: after) → d.isDigit = true →
        d'.isDigit = true → between ∈ blanks → between = []) ∧
      (∀ e, run source .strict ≠ .error (.parse e)) ∧
      (∀ text span, run source .strict ≠ .error (.eval (.invalidLiteral text span))) ∧
      ((∃ span, run source .strict = .error (.eval (.loneLiteral span))) ↔
        ¬∃ c ∈ source.toList, c ∈ "+-*/".toList)) := by
  refine ⟨strict_iff_mem_expressions source, fun hsource => ?_⟩
  obtain ⟨c, hc⟩ := (mem_expressions_iff source).1 hsource
  have hrun := run_of_parse_ok ((Parser.parse_eq_ok_iff rfl).2 ⟨c, hc, rfl⟩)
  have hliterals : ∀ text, Symbol.literal text ∈ c.toExpr.inOrder → (literalValue? text.value).isSome = true := by
    intro text hmem
    rw [inOrder_toExpr] at hmem
    exact literal_of_spells hc (tokenizes_tokensFrom 0 source.toList).wellFormed hmem
  refine ⟨over_expressions _ hsource, fun before between after d d' => blanks_eq_nil hsource, ?_⟩
  rw [← exists_operator_token_iff, exists_operator_iff hc, not_not, hrun]
  -- without a link the tree is one literal, with one it is evaluated
  by_cases hlinks : c.links = []
  · obtain ⟨first, links⟩ := c
    cases hlinks
    exact ⟨nofun, nofun, fun _ => rfl, fun _ => ⟨_, rfl⟩⟩
  · rw [evaluate_toExpr hlinks]
    cases hv : c.toExpr.value with
    | ok n => exact ⟨nofun, nofun, nofun, fun h => absurd h hlinks⟩
    | error e =>
      refine ⟨nofun, ?_, ?_, fun h => absurd h hlinks⟩
      · rintro text span ⟨⟩
        exact c.toExpr.value_ne_invalidLiteral hliterals text span hv
      · rintro ⟨span, ⟨⟩⟩
        exact absurd hv (c.toExpr.value_ne_loneLiteral span)

end ArithLang.Grammar
