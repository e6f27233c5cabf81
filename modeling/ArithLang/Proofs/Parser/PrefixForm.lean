/-
The prefix form of a tree tells the tree, but for the offsets, if its literals are texts of tokens. Brackets and
operators may be such literals, as in `(+ ( ))`: a bracket that opens an operation has an operator right after it, and a
bracket that is a literal has not.

The induction is on the tree and about a prefix form with more text after it (`prefixForm_append_inj`). That text begins
like what comes after an operand, so that a literal ends where it seems to end (`IsLexeme.append_inj`).
-/
import ArithLang.Proofs.Parser.Offsets
import ArithLang.Proofs.Parser.RoundTrip
import ArithLang.Proofs.Scanner.Tiling

namespace ArithLang

/-! ## Texts of tokens -/

/-- The texts that tokens have: runs of digits, and single characters other than blanks. -/
inductive IsLexeme : String → Prop
  | digits {text : String} : text ≠ "" → (∀ c ∈ text.toList, c.isDigit = true) → IsLexeme text
  | single {c : Char} : c ∉ " \t\n".toList → IsLexeme (String.singleton c)

theorem IsLexeme.exists_token {text : String} (h : IsLexeme text) :
    ∃ t : Token, t.WellFormed ∧ t.text = text ∧ t.offset = 0 := by
  have hnumber (hne : text ≠ "") (hdigits : AllDigits text.toList) :
      ∃ t : Token, t.WellFormed ∧ t.text = text ∧ t.offset = 0 := by
    refine ⟨⟨.number, String.ofList text.toList, 0⟩, ?_, String.ofList_toList, rfl⟩
    exact .number (mt String.toList_eq_nil_iff.1 hne) hdigits
  cases h with
  | digits hne hdigits => exact hnumber hne hdigits
  | @single c hc =>
    by_cases hd : c.isDigit = true
    · exact hnumber (by simp [← String.toList_inj]) (by simpa [AllDigits] using hd)
    · rw [← isBlank_iff, Bool.not_eq_true] at hc
      exact ⟨⟨.ofChar c, String.singleton c, 0⟩, .symbol hc (by simpa using hd), rfl, rfl⟩

theorem Token.WellFormed.isLexeme {t : Token} (h : t.WellFormed) : IsLexeme t.text := by
  by_cases hk : t.kind = .number
  · exact .digits h.text_ne_empty (h.kind_eq_number_iff.1 hk)
  · obtain ⟨c, htext, -⟩ := h.eq_ofChar hk
    have hblank := h.not_blank c (by rw [htext, String.toList_singleton]; exact List.mem_cons_self)
    rw [htext]
    refine .single fun hmem => ?_
    rw [isBlank_iff.2 hmem] at hblank
    cases hblank

/-! ## What comes after an operand -/

/-- Nothing is left of the text, or a space or a closing bracket is next. -/
def AfterOperand (rest : List Char) : Prop := ∀ c ∈ rest.head?, c = ' ' ∨ c = ')'

theorem afterOperand_space (rest : List Char) : AfterOperand (' ' :: rest) := fun _ hc => .inl (Option.some.inj hc).symm

theorem afterOperand_close (rest : List Char) : AfterOperand (')' :: rest) := fun _ hc => .inr (Option.some.inj hc).symm

theorem AfterOperand.noDigitNext {rest : List Char} (h : AfterOperand rest) : NoDigitNext rest := fun c hc => by
  rcases h c hc with rfl | rfl <;> rfl

/-- The scanner takes the text of a token off what is written before the end of an operand. -/
theorem IsLexeme.nextToken_append {text : String} (h : IsLexeme text) {rest : List Char} (hrest : AfterOperand rest) :
    ∃ t, t.text = text ∧ nextToken 0 (text.toList ++ rest) = some (t, rest) := by
  obtain ⟨t, ht, rfl, hat⟩ := h.exists_token
  have hblanks : AllBlank [] := nofun
  exact ⟨t, rfl, nextToken_of_wellFormed hblanks ht hat fun _ => hrest.noDigitNext⟩

theorem IsLexeme.append_inj {s t : String} (hs : IsLexeme s) (ht : IsLexeme t) {rest rest' : List Char}
    (hrest : AfterOperand rest) (hrest' : AfterOperand rest') (h : s.toList ++ rest = t.toList ++ rest') :
    s = t ∧ rest = rest' := by
  obtain ⟨u, rfl, hu⟩ := hs.nextToken_append hrest
  obtain ⟨v, rfl, hv⟩ := ht.nextToken_append hrest'
  rw [h, hv] at hu
  obtain ⟨rfl, rfl⟩ := Prod.mk.inj (Option.some.inj hu)
  exact ⟨rfl, rfl⟩

/-- A literal that begins with an opening bracket is that bracket, and no operator comes right after it. -/
theorem IsLexeme.append_ne_bracket {text : String} (h : IsLexeme text) {rest : List Char} (hrest : AfterOperand rest)
    (op : Operator) (cs : List Char) : text.toList ++ rest ≠ '(' :: (op.symbol.toList ++ cs) := by
  intro heq
  obtain ⟨t, -, ht⟩ := h.nextToken_append hrest
  have hbracket : nextToken 0 ('(' :: (op.symbol.toList ++ cs)) = some (⟨.other '(', "(", 0⟩, op.symbol.toList ++ cs) := rfl
  rw [heq, hbracket] at ht
  obtain ⟨-, rfl⟩ := Prod.mk.inj (Option.some.inj ht)
  cases op <;> simp [AfterOperand, Operator.symbol] at hrest

theorem Operator.symbol_append_inj {op op' : Operator} {cs ds : List Char}
    (h : op.symbol.toList ++ cs = op'.symbol.toList ++ ds) : op = op' ∧ cs = ds := by
  cases op <;> cases op' <;> simp_all [symbol]

/-! ## Trees -/

namespace Expr

/-- The literals of the tree are texts of tokens. -/
def HasLexemes (e : Expr) : Prop := ∀ text, .literal text ∈ e.inOrder → IsLexeme text.value

theorem hasLexemes_literal {text : Located String} : (literal text).HasLexemes ↔ IsLexeme text.value := by
  simp [HasLexemes, inOrder]

theorem hasLexemes_binary {op : Located Operator} {left right : Expr} :
    (binary op left right).HasLexemes ↔ left.HasLexemes ∧ right.HasLexemes := by
  simp [HasLexemes, inOrder, or_imp, forall_and]

theorem toList_prefixForm_binary (op : Located Operator) (left right : Expr) (rest : List Char) :
    (binary op left right).prefixForm.toList ++ rest = '(' :: (op.value.symbol.toList ++ ' ' ::
      (left.prefixForm.toList ++ ' ' :: (right.prefixForm.toList ++ ')' :: rest))) := by
  simp [prefixForm]

theorem prefixForm_erase (e : Expr) : e.erase.prefixForm = e.prefixForm := by
  induction e with
  | literal text => rfl
  | binary op left right ihl ihr => simp only [erase, prefixForm, ihl, ihr, Located.erase]

/-- A prefix form ends where an operand ends in the text: neither the tree nor the text after it can be another one. -/
theorem prefixForm_append_inj {e e' : Expr} (he : e.HasLexemes) (he' : e'.HasLexemes) {rest rest' : List Char}
    (hrest : AfterOperand rest) (hrest' : AfterOperand rest')
    (h : e.prefixForm.toList ++ rest = e'.prefixForm.toList ++ rest') : e.erase = e'.erase ∧ rest = rest' := by
  induction e generalizing e' rest rest' with
  | literal text =>
    rw [hasLexemes_literal] at he
    cases e' with
    | literal text' =>
      rw [hasLexemes_literal] at he'
      obtain ⟨htext, hafter⟩ := he.append_inj he' hrest hrest' h
      exact ⟨congrArg literal (Located.erase_eq_iff.2 htext), hafter⟩
    | binary op left right =>
      rw [toList_prefixForm_binary] at h
      exact absurd h (he.append_ne_bracket hrest _ _)
  | binary op left right ihl ihr =>
    rw [hasLexemes_binary] at he
    rw [toList_prefixForm_binary] at h
    cases e' with
    | literal text' =>
      rw [hasLexemes_literal] at he'
      exact absurd h.symm (he'.append_ne_bracket hrest' _ _)
    | binary op' left' right' =>
      rw [hasLexemes_binary] at he'
      rw [toList_prefixForm_binary] at h
      obtain ⟨hop, h⟩ := Operator.symbol_append_inj (List.cons.inj h).2
      obtain ⟨hleft, h⟩ := ihl he.1 he'.1 (afterOperand_space _) (afterOperand_space _) (List.cons.inj h).2
      obtain ⟨hright, h⟩ := ihr he.2 he'.2 (afterOperand_close _) (afterOperand_close _) (List.cons.inj h).2
      refine ⟨?_, (List.cons.inj h).2⟩
      rw [erase, erase, hleft, hright, Located.erase_eq_iff.2 hop]

theorem prefixForm_eq_iff {e e' : Expr} (he : e.HasLexemes) (he' : e'.HasLexemes) :
    e.prefixForm = e'.prefixForm ↔ e.erase = e'.erase := by
  constructor
  · intro h
    have hend : AfterOperand [] := nofun
    have htext : e.prefixForm.toList ++ [] = e'.prefixForm.toList ++ [] := by rw [h]
    exact (prefixForm_append_inj he he' hend hend htext).1
  · intro h
    rw [← prefixForm_erase e, h, prefixForm_erase]

theorem hasLexemes_of_parse {source : String} {o : ParseOptions} {e : Expr} (h : parse (lex source) o = .ok e) :
    e.HasLexemes := by
  intro text htext
  obtain ⟨t, ht, -, hread⟩ := Parser.exists_token_of_parse_ok h htext
  rw [← hread]
  exact (wellFormed_of_mem_lex ht).isLexeme

/-- Two trees whose literals are texts of tokens have the same prefix form if and only if they differ in their offsets
at most. So it is with the trees of any two sources, whatever is taken for a literal in them. -/
theorem prefixForm_unambiguous :
    (∀ e e' : Expr, e.HasLexemes → e'.HasLexemes → (e.prefixForm = e'.prefixForm ↔ e.erase = e'.erase)) ∧
      ∀ (s s' : String) (o o' : ParseOptions) (e e' : Expr), parse (lex s) o = .ok e → parse (lex s') o' = .ok e' →
        (e.prefixForm = e'.prefixForm ↔ e.erase = e'.erase) :=
  ⟨fun _ _ he he' => prefixForm_eq_iff he he', fun _ _ _ _ _ _ h h' =>
    prefixForm_eq_iff (hasLexemes_of_parse h) (hasLexemes_of_parse h')⟩

/-- Brackets are literals of these trees. Two of them come from sources with different blanks and have one prefix form;
the third one differs from them in its last literal. -/
theorem prefixForm_unambiguous_brackets :
    let e := binary ⟨.add, 2⟩ (literal ⟨"(", 0⟩) (literal ⟨")", 4⟩)
    let e' := binary ⟨.add, 1⟩ (literal ⟨"(", 0⟩) (literal ⟨")", 2⟩)
    let other := binary ⟨.add, 2⟩ (literal ⟨"(", 0⟩) (literal ⟨"(", 4⟩)
    e.HasLexemes ∧ other.HasLexemes ∧ parse (lex "( + )") .permissive = .ok e ∧
      parse (lex "(+))") .permissive = .ok e' ∧ e'.prefixForm = "(+ ( ))" ∧ e.prefixForm = "(+ ( ))" ∧
      other.prefixForm = "(+ ( ()" ∧ e.erase ≠ other.erase := by
  intro e e' other
  have hopen : IsLexeme "(" := .single (c := '(') (by decide)
  have hclose : IsLexeme ")" := .single (c := ')') (by decide)
  have he : e.HasLexemes := hasLexemes_binary.2 ⟨hasLexemes_literal.2 hopen, hasLexemes_literal.2 hclose⟩
  have hother : other.HasLexemes := hasLexemes_binary.2 ⟨hasLexemes_literal.2 hopen, hasLexemes_literal.2 hopen⟩
  have hparse : parse (lex "( + )") .permissive = .ok e := by decide +kernel
  have hparse' : parse (lex "(+))") .permissive = .ok e' := by decide +kernel
  have hform' : e'.prefixForm = "(+ ( ))" := by decide +kernel
  have hformOther : other.prefixForm = "(+ ( ()" := by decide +kernel
  have hform : e.prefixForm = "(+ ( ))" := hform' ▸ (prefixForm_unambiguous.2 _ _ _ _ _ _ hparse hparse').2 rfl
  refine ⟨he, hother, hparse, hparse', hform', hform, hformOther, fun h => ?_⟩
  have hsame := (prefixForm_unambiguous.1 e other he hother).2 h
  rw [hform, hformOther] at hsame
  exact absurd hsame (by decide)

end Expr

end ArithLang
