/-
How tokens lie in a text. `Tokenizes offset cs ts` says, without a scanner, that the characters `cs`, of
which the first stands at byte `offset`, are the tokens `ts` with blanks before, between and after them:
each token is well formed, begins where the bytes before it end, and a number is followed by no digit.

Main fact: the scanner finds exactly the tokens that lie in the text (`tokensFrom_eq_iff`). In particular
a character that is no blank and no digit is in the text exactly if it is a token (`mem_iff_kind`).
-/
import ArithLang.Scanner
import Mathlib.Data.List.TakeWhile

namespace ArithLang

/-! ## Bytes -/

/-- How many bytes the characters take. -/
def byteLength (cs : List Char) : Nat := (String.ofList cs).utf8ByteSize

@[simp] theorem byteLength_nil : byteLength [] = 0 := by simp [byteLength]

@[simp] theorem byteLength_append (cs ds : List Char) : byteLength (cs ++ ds) = byteLength cs + byteLength ds := by
  simp [byteLength, String.ofList_append]

@[simp] theorem byteLength_singleton (c : Char) : byteLength [c] = c.utf8Size := by
  rw [byteLength, ← String.singleton_eq_ofList, String.utf8ByteSize_singleton]

theorem byteLength_cons (c : Char) (cs : List Char) : byteLength (c :: cs) = c.utf8Size + byteLength cs := by
  rw [← List.singleton_append, byteLength_append, byteLength_singleton]

@[simp] theorem byteLength_toList (s : String) : byteLength s.toList = s.utf8ByteSize := by simp [byteLength]

/-! ## One token -/

def AllBlank (cs : List Char) : Prop := ∀ c ∈ cs, isBlank c = true

def AllDigits (cs : List Char) : Prop := ∀ c ∈ cs, c.isDigit = true

/-- The characters do not begin with a digit. -/
def NoDigitNext (cs : List Char) : Prop := ∀ c ∈ cs.head?, c.isDigit = false

/-- The characters do not end with a digit. -/
def NoDigitBefore (cs : List Char) : Prop := ∀ c ∈ cs.getLast?, c.isDigit = false

/-- The tokens there are: runs of digits, and single characters that are neither digits nor blanks. -/
inductive Token.WellFormed : Token → Prop
  | number {digits : List Char} {offset : Nat} : digits ≠ [] → AllDigits digits →
      WellFormed ⟨.number, String.ofList digits, offset⟩
  | symbol {c : Char} {offset : Nat} : isBlank c = false → c.isDigit = false →
      WellFormed ⟨.ofChar c, String.singleton c, offset⟩

theorem isBlank_of_isDigit {c : Char} (h : c.isDigit = true) : isBlank c = false := by
  rw [Bool.eq_false_iff]
  intro hb
  simp only [isBlank, Bool.or_eq_true, beq_iff_eq] at hb
  rcases hb with (rfl | rfl) | rfl <;> simp at h

theorem not_isDigit_of_isBlank {c : Char} (h : isBlank c = true) : c.isDigit = false := by
  by_contra hd
  rw [isBlank_of_isDigit (by simpa using hd)] at h
  cases h

theorem noDigitNext_of_allBlank {cs : List Char} (h : AllBlank cs) : NoDigitNext cs := fun c hc =>
  not_isDigit_of_isBlank (h c (List.mem_of_head? hc))

theorem isBlank_iff {c : Char} : isBlank c = true ↔ c ∈ " \t\n".toList := by
  simp [isBlank, or_assoc]

theorem TokenKind.ofChar_ne_number (c : Char) : ofChar c ≠ .number := by
  unfold ofChar; split <;> nofun

/-- The end of a token is the number of bytes up to it. -/
theorem Token.stop_span (t : Token) : t.span.stop = t.offset + byteLength t.text.toList := by
  rw [byteLength_toList]; rfl

theorem Token.stop_span_add {t : Token} {offset : Nat} {blanks : List Char} (hat : t.offset = offset + byteLength blanks)
    (rest : List Char) :
    t.span.stop + byteLength rest = offset + byteLength (blanks ++ (t.text.toList ++ rest)) := by
  rw [stop_span, hat, byteLength_append, byteLength_append]; omega

theorem nextToken_append_blanks {blanks : List Char} (h : AllBlank blanks) (offset : Nat) (cs : List Char) :
    nextToken offset (blanks ++ cs) = nextToken (offset + byteLength blanks) cs := by
  induction blanks generalizing offset with
  | nil => simp
  | cons b blanks ih =>
    obtain ⟨hb, hblanks⟩ := List.forall_mem_cons.1 h
    rw [List.cons_append, nextToken, if_pos hb, ih hblanks, byteLength_cons, Nat.add_assoc]

theorem nextToken_of_allBlank {cs : List Char} (h : AllBlank cs) (offset : Nat) : nextToken offset cs = none := by
  rw [← List.append_nil cs, nextToken_append_blanks h]; rfl

theorem takeWhile_digits {digits rest : List Char} (h : AllDigits digits) (hrest : NoDigitNext rest) :
    (digits ++ rest).takeWhile Char.isDigit = digits ∧ (digits ++ rest).dropWhile Char.isDigit = rest := by
  rw [List.takeWhile_append_of_pos h, List.dropWhile_append_of_pos h]
  cases rest with
  | nil => simp
  | cons c rest => simp [hrest c rfl]

/-- A well-formed token that begins the text after blanks is the next token. -/
theorem nextToken_of_wellFormed {offset : Nat} {blanks rest : List Char} {t : Token} (hb : AllBlank blanks)
    (ht : t.WellFormed) (hat : t.offset = offset + byteLength blanks)
    (hrest : t.kind = .number → NoDigitNext rest) :
    nextToken offset (blanks ++ (t.text.toList ++ rest)) = some (t, rest) := by
  rw [nextToken_append_blanks hb, ← hat]
  cases ht with
  | @number digits at' hne hdigits =>
    obtain ⟨d, digits, rfl⟩ := List.exists_cons_of_ne_nil hne
    obtain ⟨hd, hdigits⟩ := List.forall_mem_cons.1 hdigits
    obtain ⟨htake, hdrop⟩ := takeWhile_digits hdigits (hrest rfl)
    simp only [String.toList_ofList, List.cons_append, nextToken, isBlank_of_isDigit hd, hd, htake, hdrop]
    rfl
  | @symbol c at' hblank hdigit =>
    simp only [String.toList_singleton, List.singleton_append, nextToken, hblank, hdigit]
    rfl

/-- There is a next token unless only blanks are left, and it begins the text after blanks. -/
theorem nextToken_spec (offset : Nat) (cs : List Char) :
    match nextToken offset cs with
    | none => AllBlank cs
    | some (t, rest) => ∃ blanks, AllBlank blanks ∧ t.WellFormed ∧ t.offset = offset + byteLength blanks ∧
        (t.kind = .number → NoDigitNext rest) ∧ cs = blanks ++ (t.text.toList ++ rest) := by
  induction cs generalizing offset with
  | nil => exact nofun
  | cons c cs ih =>
    -- a blank is skipped, a digit begins a number, anything else is a token by itself
    by_cases hb : isBlank c = true
    · rw [nextToken, if_pos hb]
      have ih := ih (offset + c.utf8Size)
      cases hnext : nextToken (offset + c.utf8Size) cs with
      | none =>
        rw [hnext] at ih
        exact List.forall_mem_cons.2 ⟨hb, ih⟩
      | some found =>
        obtain ⟨t, rest⟩ := found
        rw [hnext] at ih
        obtain ⟨blanks, hblanks, ht, hat, hrest, rfl⟩ := ih
        refine ⟨c :: blanks, List.forall_mem_cons.2 ⟨hb, hblanks⟩, ht, ?_, hrest, rfl⟩
        rw [hat, byteLength_cons, Nat.add_assoc]
    · by_cases hd : c.isDigit = true
      · rw [nextToken, if_neg hb, if_pos hd]
        refine ⟨[], nofun, .number (List.cons_ne_nil _ _) ?_, by simp, fun _ x hx => ?_, ?_⟩
        · exact List.forall_mem_cons.2 ⟨hd, fun c hc => List.mem_takeWhile_imp hc⟩
        · have hnot := List.head?_dropWhile_not Char.isDigit cs
          rw [Option.mem_def.1 hx] at hnot
          simpa using hnot
        · simp [List.takeWhile_append_dropWhile]
      · rw [nextToken, if_neg hb, if_neg hd]
        refine ⟨[], nofun, .symbol (by simpa using hb) (by simpa using hd), by simp, fun h => ?_, by simp⟩
        exact absurd h (TokenKind.ofChar_ne_number c)

/-! ## All tokens -/

/-- The characters `cs`, the first at byte `offset`, are the tokens with blanks around them. -/
inductive Tokenizes : Nat → List Char → List Token → Prop
  | blank {offset : Nat} {cs : List Char} : AllBlank cs → Tokenizes offset cs []
  | token {offset : Nat} {blanks rest : List Char} {t : Token} {ts : List Token} : AllBlank blanks → t.WellFormed →
      t.offset = offset + byteLength blanks → (t.kind = .number → NoDigitNext rest) →
      Tokenizes t.span.stop rest ts → Tokenizes offset (blanks ++ (t.text.toList ++ rest)) (t :: ts)

theorem tokenizes_tokensFrom (offset : Nat) (cs : List Char) : Tokenizes offset cs (tokensFrom offset cs) := by
  fun_induction tokensFrom offset cs with
  | case1 offset cs hnone =>
    have hspec := nextToken_spec offset cs
    rw [hnone] at hspec
    exact .blank hspec
  | case2 offset cs t rest hsome ih =>
    have hspec := nextToken_spec offset cs
    rw [hsome] at hspec
    obtain ⟨blanks, hblanks, ht, hat, hrest, rfl⟩ := hspec
    exact .token hblanks ht hat hrest ih

theorem Tokenizes.eq_tokensFrom {offset : Nat} {cs : List Char} {ts : List Token} (h : Tokenizes offset cs ts) :
    tokensFrom offset cs = ts := by
  induction h with
  | blank h => exact tokensFrom_of_none (nextToken_of_allBlank h _)
  | token hblanks ht hat hrest _ ih =>
    rw [tokensFrom_of_some (nextToken_of_wellFormed hblanks ht hat hrest), ih]

/-- The scanner finds exactly the tokens that lie in the text. -/
theorem tokensFrom_eq_iff {offset : Nat} {cs : List Char} {ts : List Token} :
    tokensFrom offset cs = ts ↔ Tokenizes offset cs ts :=
  ⟨fun h => h ▸ tokenizes_tokensFrom offset cs, Tokenizes.eq_tokensFrom⟩

theorem lex_eq_iff {source : String} {ts : List Token} : lex source = ts ↔ Tokenizes 0 source.toList ts :=
  tokensFrom_eq_iff

/-! ## Texts put together -/

theorem Tokenizes.append_blanks {offset : Nat} {blanks cs : List Char} {ts : List Token} (hb : AllBlank blanks)
    (h : Tokenizes (offset + byteLength blanks) cs ts) : Tokenizes offset (blanks ++ cs) ts := by
  cases h with
  | blank hcs => exact .blank (List.forall_mem_append.2 ⟨hb, hcs⟩)
  | @token _ more rest t ts hmore ht hat hrest h =>
    rw [← List.append_assoc]
    exact .token (List.forall_mem_append.2 ⟨hb, hmore⟩) ht (by rw [hat, byteLength_append, Nat.add_assoc]) hrest h

theorem NoDigitNext.append {cs ds : List Char} (hcs : NoDigitNext cs) (hds : NoDigitNext ds) :
    NoDigitNext (cs ++ ds) := by
  cases cs with
  | nil => exact hds
  | cons c cs => exact hcs

/-- A number ends with a digit. -/
theorem Token.WellFormed.not_noDigitBefore {t : Token} (h : t.WellFormed) (hk : t.kind = .number) (cs : List Char) :
    ¬NoDigitBefore (cs ++ t.text.toList) := by
  intro hno
  cases h with
  | number hne hdigits =>
    obtain ⟨digits, d, rfl⟩ := (List.eq_nil_or_concat _).resolve_left hne
    have hd := hno d (by simp)
    rw [hdigits d (by simp)] at hd
    cases hd
  | @symbol c => exact TokenKind.ofChar_ne_number c hk

theorem NoDigitBefore.of_append {cs ds : List Char} (h : NoDigitBefore (cs ++ ds)) : NoDigitBefore ds := by
  rcases List.eq_nil_or_concat ds with rfl | ⟨ds, d, rfl⟩
  · exact nofun
  · intro c hc
    exact h c (by simpa using hc)

/-- A text may be cut wherever there is not a digit on both sides. -/
theorem Tokenizes.append {offset : Nat} {cs ds : List Char} {ts us : List Token} (h : Tokenizes offset cs ts)
    (h' : Tokenizes (offset + byteLength cs) ds us) (hcut : NoDigitBefore cs ∨ NoDigitNext ds) :
    Tokenizes offset (cs ++ ds) (ts ++ us) := by
  induction h with
  | blank hb => exact .append_blanks hb h'
  | @token offset blanks rest t ts hb ht hat hrest _ ih =>
    rw [← Token.stop_span_add hat] at h'
    rw [← List.append_assoc] at hcut
    have hnext : t.kind = .number → NoDigitNext (rest ++ ds) := by
      intro hk
      cases rest with
      | nil =>
        rw [List.append_nil] at hcut
        exact hcut.resolve_left (ht.not_noDigitBefore hk blanks)
      | cons c rest => exact hrest hk
    have := Tokenizes.token hb ht hat hnext (ih h' (hcut.imp_left .of_append))
    simpa only [List.append_assoc, List.cons_append] using this

/-! ## What is in the tokens -/

theorem Tokenizes.wellFormed {offset : Nat} {cs : List Char} {ts : List Token} (h : Tokenizes offset cs ts) :
    ∀ t ∈ ts, t.WellFormed := by
  induction h with
  | blank => nofun
  | token _ ht _ _ _ ih => exact List.forall_mem_cons.2 ⟨ht, ih⟩

theorem TokenKind.symbol_ofChar (c : Char) : (ofChar c).symbol = String.singleton c := by
  unfold ofChar; split <;> rfl

theorem TokenKind.ofChar_injective : Function.Injective ofChar := by
  intro c d h
  have hs := congrArg (fun k => k.symbol.toList) h
  simpa only [symbol_ofChar, String.toList_singleton, List.cons.injEq, and_true] using hs

/-- A well-formed token has a character that is no digit exactly if that is its kind. -/
theorem Token.WellFormed.mem_iff_kind {t : Token} (h : t.WellFormed) {c : Char} (hc : c.isDigit = false) :
    c ∈ t.text.toList ↔ t.kind = .ofChar c := by
  cases h with
  | number _ hdigits =>
    constructor
    · intro hmem
      rw [String.toList_ofList] at hmem
      rw [hdigits c hmem] at hc; cases hc
    · intro hk; exact absurd hk.symm (TokenKind.ofChar_ne_number c)
  | @symbol d _ _ _ =>
    rw [String.toList_singleton, List.mem_singleton, TokenKind.ofChar_injective.eq_iff, eq_comm]

/-- A character that is no blank and no digit is in the text exactly if it is a token. -/
theorem Tokenizes.mem_iff_kind {offset : Nat} {cs : List Char} {ts : List Token} (h : Tokenizes offset cs ts)
    {c : Char} (hb : isBlank c = false) (hd : c.isDigit = false) : c ∈ cs ↔ ∃ t ∈ ts, t.kind = .ofChar c := by
  have outside : ∀ {blanks : List Char}, AllBlank blanks → c ∉ blanks := by
    intro blanks hblanks hmem
    rw [hblanks c hmem] at hb; cases hb
  induction h with
  | blank hblanks => simp [outside hblanks]
  | token hblanks ht _ _ _ ih =>
    simp only [List.mem_append, outside hblanks, ht.mem_iff_kind hd, ih, List.mem_cons, false_or,
      or_and_right, exists_or, exists_eq_left]

/-- A text that begins with a digit after blanks has a number as its first token. -/
theorem Tokenizes.head_number {offset : Nat} {blanks cs : List Char} {d : Char} {ts : List Token}
    (hb : AllBlank blanks) (hd : d.isDigit = true) (h : Tokenizes offset (blanks ++ d :: cs) ts) :
    ∃ t ∈ ts.head?, t.kind = .number := by
  have hnext : nextToken offset (blanks ++ d :: cs) = _ := nextToken_append_blanks hb offset (d :: cs)
  rw [nextToken, if_neg (by simp [isBlank_of_isDigit hd]), if_pos hd] at hnext
  rw [← h.eq_tokensFrom, tokensFrom_of_some hnext]
  exact ⟨_, rfl, rfl⟩

/-- A text that ends with a digit has a number as its last token. -/
theorem Tokenizes.last_number {offset : Nat} {cs : List Char} {d : Char} {ts : List Token} (hd : d.isDigit = true)
    (h : Tokenizes offset (cs ++ [d]) ts) : ∃ t ∈ ts.getLast?, t.kind = .number := by
  generalize hw : cs ++ [d] = w at h
  induction h generalizing cs with
  | blank hb =>
    have := hb d (by rw [← hw]; simp)
    rw [isBlank_of_isDigit hd] at this; cases this
  | @token offset blanks rest t ts hb ht hat hrest h ih =>
    rcases List.eq_nil_or_concat rest with rfl | ⟨rest, c, rfl⟩
    · -- nothing follows, so the digit is the last one of this token
      have hts : ts = [] := by rw [← h.eq_tokensFrom, tokensFrom_nil]
      subst hts
      refine ⟨t, rfl, ?_⟩
      cases ht with
      | number => rfl
      | symbol _ hc =>
        have hlast := congrArg List.getLast? hw
        simp only [String.toList_singleton, List.append_nil, List.getLast?_concat, Option.some.injEq] at hlast
        rw [← hlast, hd] at hc; cases hc
    · have hc := congrArg List.getLast? hw
      simp only [List.concat_eq_append, ← List.append_assoc, List.getLast?_concat, Option.some.injEq] at hc
      subst hc
      obtain ⟨u, hu, hk⟩ := ih List.concat_eq_append.symm
      refine ⟨u, ?_, hk⟩
      cases ts with
      | nil => cases hu
      | cons => simpa using hu

end ArithLang
