/-
The scanner cuts a source text into tokens, one at a time. `nextToken` reads the first token of a
list of characters, `lex` all of them. A `Scanner` is a position in a text from which tokens are
taken; it may hold one token that was looked at and not yet taken.

Main facts: a token leaves less text behind (`nextToken_length`), and the tokens a scanner has still
to give are its only meaning: `next` takes their head and `peek` leaves them as they are
(`toList_eq_next`, `toList_peek`).
-/
import ArithLang.Token

namespace ArithLang

/-! ## One token -/

/-- Blanks separate tokens and are otherwise ignored. A carriage return is no blank. -/
def isBlank (c : Char) : Bool := c == ' ' || c == '\t' || c == '\n'

/-- The first token of `cs`, which begins at byte `offset`, and the characters after it. -/
def nextToken (offset : Nat) : List Char → Option (Token × List Char)
  | [] => none
  | c :: cs =>
    if isBlank c then nextToken (offset + c.utf8Size) cs
    else if c.isDigit then
      some (⟨.number, String.ofList (c :: cs.takeWhile Char.isDigit), offset⟩, cs.dropWhile Char.isDigit)
    else some (⟨.ofChar c, String.singleton c, offset⟩, cs)

/-- Every token takes at least one character. -/
theorem nextToken_length {offset : Nat} {cs : List Char} {t : Token} {rest : List Char}
    (h : nextToken offset cs = some (t, rest)) : rest.length < cs.length := by
  induction cs generalizing offset with
  | nil => simp [nextToken] at h
  | cons c cs ih =>
    rw [nextToken] at h
    split at h
    · exact Nat.lt_succ_of_lt (ih h)
    · split at h
      · obtain ⟨-, rfl⟩ := Prod.mk.inj (Option.some.inj h)
        exact Nat.lt_succ_of_le (List.dropWhile_suffix Char.isDigit).length_le
      · obtain ⟨-, rfl⟩ := Prod.mk.inj (Option.some.inj h)
        exact Nat.lt_succ_self _

/-! ## All tokens -/

/-- The tokens of `cs`, which begins at byte `offset`. -/
def tokensFrom (offset : Nat) (cs : List Char) : List Token :=
  match _ : nextToken offset cs with
  | none => []
  | some (t, rest) => t :: tokensFrom t.span.stop rest
termination_by cs.length
decreasing_by exact nextToken_length ‹_›

/-- The tokens of a source text, in order. Every text has tokens; none is refused. -/
def lex (source : String) : List Token := tokensFrom 0 source.toList

theorem tokensFrom_of_none {offset : Nat} {cs : List Char} (h : nextToken offset cs = none) :
    tokensFrom offset cs = [] := by
  rw [tokensFrom]; split <;> simp_all

theorem tokensFrom_of_some {offset : Nat} {cs rest : List Char} {t : Token}
    (h : nextToken offset cs = some (t, rest)) : tokensFrom offset cs = t :: tokensFrom t.span.stop rest := by
  rw [tokensFrom]; split <;> simp_all

theorem tokensFrom_nil (offset : Nat) : tokensFrom offset [] = [] := tokensFrom_of_none rfl

/-! ## Taking tokens one by one -/

structure Scanner where
  /-- The characters not yet read. -/
  rest : List Char
  /-- The byte offset of `rest` in the source. -/
  offset : Nat
  /-- A token that was looked at and not yet taken. -/
  pending : Option Token

namespace Scanner

def ofSource (source : String) : Scanner := ⟨source.toList, 0, none⟩

/-- The scanner once every token is taken. -/
def finish (s : Scanner) : Scanner := ⟨[], s.offset + (String.ofList s.rest).utf8ByteSize, none⟩

/-- Read a token from the text, whether or not one is pending. -/
def read (s : Scanner) : Option Token × Scanner :=
  match nextToken s.offset s.rest with
  | none => (none, s.finish)
  | some (t, rest) => (some t, ⟨rest, t.span.stop, none⟩)

/-- Take the next token. -/
def next (s : Scanner) : Option Token × Scanner :=
  match s.pending with
  | some t => (some t, { s with pending := none })
  | none => s.read

/-- Look at the next token without taking it. -/
def peek (s : Scanner) : Option Token × Scanner :=
  match s.pending with
  | some t => (some t, s)
  | none => let (t, s') := s.read; (t, { s' with pending := t })

/-- The tokens still to be taken. -/
def toList (s : Scanner) : List Token := s.pending.toList ++ tokensFrom s.offset s.rest

/-- Take all tokens that are left. -/
def takeAll (s : Scanner) : List Token × Scanner := (s.toList, s.finish)

@[simp] theorem toList_ofSource (source : String) : (ofSource source).toList = lex source := by
  simp [toList, ofSource, lex]

/-- Taking a token takes the first of the tokens still to come. -/
theorem toList_eq_next (s : Scanner) : s.toList = s.next.1.toList ++ s.next.2.toList := by
  obtain ⟨rest, offset, pending⟩ := s
  cases pending with
  | some t => simp [next, toList]
  | none =>
    cases h : nextToken offset rest with
    | none => simp [next, read, finish, toList, h, tokensFrom_of_none h, tokensFrom_nil]
    | some p => simp [next, read, toList, h, tokensFrom_of_some h]

/-- Looking at a token takes none. -/
@[simp] theorem toList_peek (s : Scanner) : s.peek.2.toList = s.toList := by
  obtain ⟨rest, offset, pending⟩ := s
  cases pending with
  | some t => rfl
  | none =>
    cases h : nextToken offset rest with
    | none => simp [peek, read, finish, toList, h, tokensFrom_of_none h, tokensFrom_nil]
    | some p => simp [peek, read, toList, h, tokensFrom_of_some h]

@[simp] theorem toList_finish (s : Scanner) : s.finish.toList = [] := by simp [toList, finish, tokensFrom_nil]

end Scanner

end ArithLang
