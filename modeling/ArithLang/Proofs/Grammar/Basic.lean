/-
The source language as a regular language over characters: literals with operators between them, and blanks
anywhere but inside a literal. No scanner and no parser has a part in it.

Main fact: a text is a word of the language exactly if its tokens spell a chain of numbers
(`mem_expressions_iff`). Between the first literal and the end both sides repeat the same thing, an operator
and a literal, so each direction is an induction on how often (`mem_continuation_of_tokens`,
`tokens_of_mem_continuation`).
-/
import ArithLang.Proofs.Chain.Basic
import ArithLang.Proofs.Scanner.Layout
import Mathlib.Computability.Language
import Mathlib.Tactic.IntervalCases

namespace ArithLang.Grammar

open scoped Computability
open Chain

/-! ## The language -/

/-- The words of one character, which is one of those of `s`. -/
def oneOf (s : String) : Language Char := {w | ∃ c ∈ s.toList, w = [c]}

def blanks : Language Char := (oneOf " \t\n")∗

def number : Language Char := oneOf "0123456789" * (oneOf "0123456789")∗

def sign : Language Char := oneOf "+-*/"

def expressions : Language Char := blanks * number * (blanks * sign * blanks * number)∗ * blanks

variable {w cs : List Char} {c : Char} {s : String} {offset : Nat} {t : Token} {ts : List Token} {links : List Link}

/-- The words have no characters but those of `s`. -/
def Over (s : String) (L : Language Char) : Prop := ∀ w ∈ L, ∀ c ∈ w, c ∈ s.toList

theorem Over.mul {L M : Language Char} (hl : Over s L) (hm : Over s M) : Over s (L * M) := by
  rintro _ ⟨u, hu, v, hv, rfl⟩ c hc
  rcases List.mem_append.1 hc with hc | hc
  exacts [hl u hu c hc, hm v hv c hc]

theorem Over.kstar {L : Language Char} (hl : Over s L) : Over s L∗ := by
  intro w hw c hc
  obtain ⟨words, rfl, hwords⟩ := Language.mem_kstar.1 hw
  obtain ⟨word, hword, hc⟩ := List.mem_flatten.1 hc
  exact hl word (hwords word hword) c hc

theorem over_oneOf {r : String} (h : r.toList ⊆ s.toList) : Over s (oneOf r) := by
  rintro _ ⟨c, hc, rfl⟩
  exact List.forall_mem_singleton.2 (h hc)

theorem mem_kstar_oneOf : w ∈ (oneOf s)∗ ↔ ∀ c ∈ w, c ∈ s.toList := by
  constructor
  · exact (over_oneOf (List.Subset.refl _)).kstar w
  · intro h
    refine Language.mem_kstar.2 ⟨w.map fun c => [c], (List.flatMap_singleton' w).symm, fun word hword => ?_⟩
    obtain ⟨c, hc, rfl⟩ := List.mem_map.1 hword
    exact ⟨c, h c hc, rfl⟩

theorem isDigit_iff : c.isDigit = true ↔ c ∈ "0123456789".toList := by
  constructor
  · intro h
    have in_range : ∀ n, 48 ≤ n ∧ n ≤ 57 → Char.ofNat n ∈ "0123456789".toList := by
      rintro n ⟨h₁, h₂⟩
      interval_cases n <;> simp
    simp only [Char.isDigit, Bool.and_eq_true, decide_eq_true_eq, ge_iff_le, UInt32.le_iff_toNat_le] at h
    have := in_range c.toNat h
    rwa [Char.ofNat_toNat] at this
  · intro h
    revert c
    simp

theorem mem_blanks : w ∈ blanks ↔ AllBlank w := by
  unfold blanks AllBlank
  simp only [mem_kstar_oneOf, isBlank_iff]

theorem mem_number : w ∈ number ↔ w ≠ [] ∧ AllDigits w := by
  unfold number AllDigits
  rw [Language.mem_mul]
  constructor
  · rintro ⟨_, ⟨d, hd, rfl⟩, ds, hds, rfl⟩
    refine ⟨List.cons_ne_nil _ _, List.forall_mem_cons.2 ⟨isDigit_iff.2 hd, fun c hc => ?_⟩⟩
    exact isDigit_iff.2 (mem_kstar_oneOf.1 hds c hc)
  · rintro ⟨hne, hw⟩
    obtain ⟨d, ds, rfl⟩ := List.exists_cons_of_ne_nil hne
    obtain ⟨hd, hds⟩ := List.forall_mem_cons.1 hw
    exact ⟨[d], ⟨d, isDigit_iff.1 hd, rfl⟩, ds, mem_kstar_oneOf.2 fun c hc => isDigit_iff.1 (hds c hc), rfl⟩

theorem mem_sign : w ∈ sign ↔ ∃ op : Operator, w = op.symbol.toList := by
  constructor
  · rintro ⟨c, hc, rfl⟩
    change c ∈ ['+', '-', '*', '/'] at hc
    simp only [List.mem_cons, List.not_mem_nil, or_false] at hc
    rcases hc with rfl | rfl | rfl | rfl
    exacts [⟨.add, rfl⟩, ⟨.subtract, rfl⟩, ⟨.multiply, rfl⟩, ⟨.divide, rfl⟩]
  · rintro ⟨op, rfl⟩
    cases op
    exacts [⟨'+', by simp, rfl⟩, ⟨'-', by simp, rfl⟩, ⟨'*', by simp, rfl⟩, ⟨'/', by simp, rfl⟩]

/-- No word has a character that is neither a blank nor a digit nor an operator. -/
theorem over_expressions : Over " \t\n0123456789+-*/" expressions := by
  have hblanks : Over " \t\n0123456789+-*/" blanks := (over_oneOf (by simp)).kstar
  have hdigit : Over " \t\n0123456789+-*/" (oneOf "0123456789") := over_oneOf (by simp)
  have hnumber : Over " \t\n0123456789+-*/" number := hdigit.mul hdigit.kstar
  have hsign : Over " \t\n0123456789+-*/" sign := over_oneOf (by simp)
  have hlink : Over " \t\n0123456789+-*/" (blanks * sign * blanks * number) :=
    ((hblanks.mul hsign).mul hblanks).mul hnumber
  exact ((hblanks.mul hnumber).mul hlink.kstar).mul hblanks

/-! ## Tokens and words -/

theorem text_mem_number (ht : t.WellFormed) (hk : t.kind = .number) : t.text.toList ∈ number := by
  cases ht with
  | number hne hdigits => rw [String.toList_ofList]; exact mem_number.2 ⟨hne, hdigits⟩
  | @symbol c => exact absurd hk (TokenKind.ofChar_ne_number c)

theorem acceptsLiteral_strict {k : TokenKind} : ParseOptions.strict.acceptsLiteral k = true ↔ k = .number := by
  simp [ParseOptions.strict, ParseOptions.acceptsLiteral]

/-- The characters that are operators, by the kind of their tokens. -/
theorem ofChar_eq_kind {op : Operator} (h : TokenKind.ofChar c = op.kind) : [c] = op.symbol.toList := by
  have := congrArg (fun k => k.symbol.toList) h
  simp only [TokenKind.symbol_ofChar, String.toList_singleton] at this
  rw [this]
  cases op <;> rfl

theorem text_mem_sign (ht : t.WellFormed) {op : Operator} (hk : t.kind = op.kind) : t.text.toList ∈ sign := by
  cases ht with
  | number => cases op <;> cases hk
  | symbol => rw [String.toList_singleton]; exact mem_sign.2 ⟨op, ofChar_eq_kind hk⟩

theorem wellFormed_operator (op : Operator) (offset : Nat) : Token.WellFormed ⟨op.kind, op.symbol, offset⟩ := by
  cases op
  exacts [.symbol (c := '+') rfl rfl, .symbol (c := '-') rfl rfl, .symbol (c := '*') rfl rfl,
    .symbol (c := '/') rfl rfl]

/-- What may follow a literal: operators, each followed by a literal. -/
def continuation : Language Char := (blanks * sign * blanks * number)∗ * blanks

theorem link_append_mem_continuation (hw : w ∈ blanks * sign * blanks * number) (hcs : cs ∈ continuation) :
    w ++ cs ∈ continuation := by
  obtain ⟨_, h, b, hb, rfl⟩ := hcs
  obtain ⟨words, rfl, hwords⟩ := Language.mem_kstar.1 h
  refine ⟨w ++ words.flatten, ?_, b, hb, by simp⟩
  exact Language.mem_kstar.2 ⟨w :: words, by simp, List.forall_mem_cons.2 ⟨hw, hwords⟩⟩

theorem mem_continuation_of_tokens (h : Tokenizes offset cs ts)
    (hs : List.Forall₂ (Symbol.ReadFrom .strict) (symbolsOf links) ts) : cs ∈ continuation := by
  induction links generalizing offset cs ts with
  | nil =>
    cases hs
    cases h with
    | blank hb => exact ⟨[], Language.nil_mem_kstar _, cs, mem_blanks.2 hb, rfl⟩
  | cons l links ih =>
    rw [symbolsOf_cons] at hs
    cases hs with
    | @cons _ t _ _ hop hs =>
    cases hs with
    | @cons _ u _ _ hlit hs =>
    cases h with
    | @token _ b₁ _ _ _ hb₁ ht _ _ h =>
    cases h with
    | @token _ b₂ _ _ _ hb₂ hu _ _ h =>
    have hlink : b₁ ++ t.text.toList ++ b₂ ++ u.text.toList ∈ blanks * sign * blanks * number :=
      Language.append_mem_mul (Language.append_mem_mul (Language.append_mem_mul (mem_blanks.2 hb₁)
        (text_mem_sign ht (Operator.ofKind?_eq_some_iff.1 hop.1))) (mem_blanks.2 hb₂))
        (text_mem_number hu (acceptsLiteral_strict.1 hlit.1))
    have := link_append_mem_continuation hlink (ih h hs)
    simpa only [List.append_assoc] using this

theorem tokenizes_number {b digits : List Char} (hb : AllBlank b) (hd : digits ∈ number) (hcs : NoDigitNext cs)
    (h : Tokenizes (offset + byteLength b + byteLength digits) cs ts) :
    Tokenizes offset (b ++ (digits ++ cs)) (⟨.number, String.ofList digits, offset + byteLength b⟩ :: ts) := by
  obtain ⟨hne, hdigits⟩ := mem_number.1 hd
  let t : Token := ⟨.number, String.ofList digits, offset + byteLength b⟩
  have hrest : Tokenizes t.span.stop cs ts := by rwa [Token.stop_span, String.toList_ofList]
  have := Tokenizes.token hb (.number hne hdigits) (rfl : t.offset = offset + byteLength b) (fun _ => hcs) hrest
  rwa [String.toList_ofList] at this

theorem tokens_of_mem_continuation (h : cs ∈ continuation) (offset : Nat) :
    NoDigitNext cs ∧ ∃ links ts, Tokenizes offset cs ts ∧
      List.Forall₂ (Symbol.ReadFrom .strict) (symbolsOf links) ts := by
  obtain ⟨_, h, b, hb, rfl⟩ := h
  obtain ⟨words, rfl, hwords⟩ := Language.mem_kstar.1 h
  clear h
  -- the offset is free, so that the tokens of the rest can begin where those of the first link end
  induction words generalizing offset with
  | nil => exact ⟨noDigitNext_of_allBlank (mem_blanks.1 hb), [], [], .blank (mem_blanks.1 hb), .nil⟩
  | cons w words ih =>
    obtain ⟨⟨_, ⟨_, ⟨b₁, hb₁, _, hsign, rfl⟩, b₂, hb₂, rfl⟩, digits, hdigits, rfl⟩, hrest⟩ :=
      List.forall_mem_cons.1 hwords
    obtain ⟨op, rfl⟩ := mem_sign.1 hsign
    let t : Token := ⟨op.kind, op.symbol, offset + byteLength b₁⟩
    obtain ⟨hnext, links, ts, htokens, hlinks⟩ := ih (t.span.stop + byteLength b₂ + byteLength digits) hrest
    have hnumber := tokenizes_number (mem_blanks.1 hb₂) hdigits hnext htokens
    have hall := Tokenizes.token (t := t) (mem_blanks.1 hb₁) (wellFormed_operator op _) rfl
      (fun hk => by cases op <;> cases hk) hnumber
    simp only [List.flatten_cons, List.append_assoc] at hall ⊢
    refine ⟨(noDigitNext_of_allBlank (mem_blanks.1 hb₁)).append ?_,
      ⟨⟨op, t.offset⟩, ⟨String.ofList digits, t.span.stop + byteLength b₂⟩⟩ :: links, _, hall, ?_⟩
    · cases op <;> rintro d ⟨⟩ <;> rfl
    · exact .cons ⟨Operator.ofKind?_kind op, rfl⟩ (.cons ⟨rfl, rfl⟩ hlinks)

theorem mem_expressions :
    w ∈ expressions ↔ ∃ b ∈ blanks, ∃ digits ∈ number, ∃ cs ∈ continuation, w = b ++ (digits ++ cs) := by
  rw [expressions, mul_assoc, Language.mem_mul]
  constructor
  · rintro ⟨_, ⟨b, hb, digits, hd, rfl⟩, cs, hcs, rfl⟩
    exact ⟨b, hb, digits, hd, cs, hcs, by simp⟩
  · rintro ⟨b, hb, digits, hd, cs, hcs, rfl⟩
    exact ⟨b ++ digits, Language.append_mem_mul hb hd, cs, hcs, by simp⟩

/-- The words of the language are the texts whose tokens spell a chain of numbers. -/
theorem mem_expressions_iff (source : String) :
    source.toList ∈ expressions ↔ ∃ c : Chain, c.Spells .strict (lex source) := by
  rw [mem_expressions]
  constructor
  · rintro ⟨b, hb, digits, hd, cs, hcs, hw⟩
    obtain ⟨hnext, links, ts, htokens, hlinks⟩ := tokens_of_mem_continuation hcs (0 + byteLength b + byteLength digits)
    have hall := tokenizes_number (mem_blanks.1 hb) hd hnext htokens
    rw [← hw] at hall
    rw [lex_eq_iff.2 hall]
    exact ⟨⟨⟨String.ofList digits, 0 + byteLength b⟩, links⟩, .cons ⟨rfl, rfl⟩ hlinks⟩
  · rintro ⟨⟨first, links⟩, hs⟩
    have htokens := lex_eq_iff.1 (rfl : lex source = lex source)
    generalize lex source = ts at hs htokens
    generalize source.toList = w at htokens
    obtain _ | ⟨⟨hlit, -⟩, hs⟩ := hs
    cases htokens with
    | @token _ b rest u _ hb hu _ _ h =>
    exact ⟨b, mem_blanks.2 hb, _, text_mem_number hu (acceptsLiteral_strict.1 hlit), rest,
      mem_continuation_of_tokens h hs, rfl⟩

end ArithLang.Grammar
