/-
A scanner is a cursor over the tokens of its source. What can be done with either is the same: take the next
token, look at it, take all that are left, keep a copy and go on from a copy (`Operation`). A cursor is an index
into a fixed list of tokens and nothing else; a scanner has characters left to read, a byte offset, and perhaps a
token that was looked at.

Main fact: whatever is done, in whatever order, both give the same answers (`scanner_follows_cursor`). Scanner and
index belong together (`Scanner.At`) if the tokens the scanner has still to give are those from the index on,
whether or not the first of them is pending, and what it has left to read is the end of the source. Each operation
keeps that (`simulates_cursor`), and so does every sequence of operations (`Simulates.performAll`).
-/
import ArithLang.Proofs.Scanner.Tiling
import Mathlib.Data.List.Forall2

namespace ArithLang

/-! ## Operations on a source of tokens -/

/-- Something that tokens are taken from one by one. -/
structure TokenSource (σ : Type) where
  next : σ → Option Token × σ
  peek : σ → Option Token × σ
  takeAll : σ → List Token × σ

inductive Operation where
  | next
  | peek
  | takeAll
  /-- Keep a copy. -/
  | save
  /-- Go on from the copy that was made after `k` others, and keep it. -/
  | restore (k : Nat)

inductive Answer where
  | token (t? : Option Token)
  | tokens (ts : List Token)
  /-- The number of copies there are. -/
  | copies (n : Nat)

/-- A source in use, with the copies that were made of it, the first one first. -/
structure Reading (σ : Type) where
  current : σ
  copies : List σ

namespace TokenSource

variable {σ τ : Type}

/-- The answer to an operation and what is left. To go on from a copy that was never made changes nothing. -/
def perform (source : TokenSource σ) (r : Reading σ) : Operation → Answer × Reading σ
  | .next => (.token (source.next r.current).1, { r with current := (source.next r.current).2 })
  | .peek => (.token (source.peek r.current).1, { r with current := (source.peek r.current).2 })
  | .takeAll => (.tokens (source.takeAll r.current).1, { r with current := (source.takeAll r.current).2 })
  | .save => (.copies (r.copies.length + 1), { r with copies := r.copies ++ [r.current] })
  | .restore k => (.copies r.copies.length, { r with current := r.copies[k]?.getD r.current })

/-- The answers to operations done one after the other. -/
def performAll (source : TokenSource σ) (r : Reading σ) : List Operation → List Answer × Reading σ
  | [] => ([], r)
  | op :: ops =>
    let (answer, r) := source.perform r op
    let (answers, r) := source.performAll r ops
    (answer :: answers, r)

/-! ## Simulation -/

/-- What is in use belongs together by `R`, and so do the copies, one by one. -/
structure Together (R : σ → τ → Prop) (r : Reading σ) (r' : Reading τ) : Prop where
  current : R r.current r'.current
  copies : List.Forall₂ R r.copies r'.copies

/-- Taking and looking give the same answers where `R` holds, and keep it. -/
structure Simulates (source : TokenSource σ) (source' : TokenSource τ) (R : σ → τ → Prop) : Prop where
  next : ∀ s i, R s i → (source.next s).1 = (source'.next i).1 ∧ R (source.next s).2 (source'.next i).2
  peek : ∀ s i, R s i → (source.peek s).1 = (source'.peek i).1 ∧ R (source.peek s).2 (source'.peek i).2
  takeAll : ∀ s i, R s i → (source.takeAll s).1 = (source'.takeAll i).1 ∧ R (source.takeAll s).2 (source'.takeAll i).2

variable {source : TokenSource σ} {source' : TokenSource τ} {R : σ → τ → Prop} {r : Reading σ} {r' : Reading τ}

/-- One operation. Copies are kept and gone back to without being looked into. -/
theorem Simulates.perform (h : source.Simulates source' R) (hr : Together R r r') (op : Operation) :
    (source.perform r op).1 = (source'.perform r' op).1 ∧
      Together R (source.perform r op).2 (source'.perform r' op).2 := by
  have hlen := hr.copies.length_eq
  cases op with
  | next =>
    obtain ⟨hanswer, hnext⟩ := h.next _ _ hr.current
    exact ⟨congrArg Answer.token hanswer, hnext, hr.copies⟩
  | peek =>
    obtain ⟨hanswer, hpeek⟩ := h.peek _ _ hr.current
    exact ⟨congrArg Answer.token hanswer, hpeek, hr.copies⟩
  | takeAll =>
    obtain ⟨hanswer, hall⟩ := h.takeAll _ _ hr.current
    exact ⟨congrArg Answer.tokens hanswer, hall, hr.copies⟩
  | save => exact ⟨congrArg (Answer.copies <| · + 1) hlen, hr.current, List.rel_append hr.copies (.cons hr.current .nil)⟩
  | restore k =>
    refine ⟨congrArg Answer.copies hlen, ?_, hr.copies⟩
    simp only [TokenSource.perform]
    by_cases hk : k < r.copies.length
    · have hk' : k < r'.copies.length := hlen ▸ hk
      rw [List.getElem?_eq_getElem hk, List.getElem?_eq_getElem hk']
      exact hr.copies.get hk hk'
    · rw [List.getElem?_eq_none (by omega), List.getElem?_eq_none (by omega)]
      exact hr.current

/-- Any sequence of operations. -/
theorem Simulates.performAll (h : source.Simulates source' R) (hr : Together R r r') (ops : List Operation) :
    (source.performAll r ops).1 = (source'.performAll r' ops).1 ∧
      Together R (source.performAll r ops).2 (source'.performAll r' ops).2 := by
  induction ops generalizing r r' with
  | nil => exact ⟨rfl, hr⟩
  | cons op ops ih =>
    obtain ⟨hanswer, hr⟩ := h.perform hr op
    obtain ⟨hanswers, hr⟩ := ih hr
    exact ⟨congrArg₂ List.cons hanswer hanswers, hr⟩

end TokenSource

/-- An index into a list of tokens, which stops at the end of the list. -/
def cursor (ts : List Token) : TokenSource Nat where
  next i := (ts[i]?, min (i + 1) ts.length)
  peek i := (ts[i]?, i)
  takeAll i := (ts.drop i, ts.length)

namespace Scanner

def source : TokenSource Scanner := ⟨next, peek, takeAll⟩

/-! ## What one operation gives and leaves -/

theorem fst_next (s : Scanner) : s.next.1 = s.toList.head? := by
  obtain ⟨rest, offset, pending⟩ := s
  cases pending with
  | some t => rfl
  | none =>
    cases h : nextToken offset rest with
    | none => simp [next, read, toList, h, tokensFrom_of_none h]
    | some p => simp [next, read, toList, h, tokensFrom_of_some h]

theorem toList_next (s : Scanner) : s.next.2.toList = s.toList.tail := by
  have heq := s.toList_eq_next
  rw [fst_next] at heq
  cases hts : s.toList with
  | nil => rw [hts] at heq; exact (List.append_eq_nil_iff.1 heq.symm).2
  | cons t ts => rw [hts] at heq; exact (List.cons.inj heq).2.symm

theorem fst_peek (s : Scanner) : s.peek.1 = s.toList.head? := by
  rw [← fst_next]
  obtain ⟨rest, offset, pending⟩ := s
  cases pending <;> rfl

/-! ## What is left to read -/

/-- What the scanner has left to read is the end of the source from its offset on. -/
def IsSuffix (text : String) (s : Scanner) : Prop :=
  ∃ before, text.toList = before ++ s.rest ∧ s.offset = byteLength before

variable {text : String} {s : Scanner}

theorem IsSuffix.finish (h : s.IsSuffix text) : s.finish.IsSuffix text := by
  obtain ⟨before, htext, hat⟩ := h
  refine ⟨before ++ s.rest, by rw [htext, Scanner.finish, List.append_nil], ?_⟩
  rw [byteLength_append, ← hat]
  rfl

theorem IsSuffix.token (h : s.IsSuffix text) {t : Token} {rest : List Char}
    (hnext : nextToken s.offset s.rest = some (t, rest)) (pending : Option Token) :
    IsSuffix text ⟨rest, t.span.stop, pending⟩ := by
  obtain ⟨before, htext, hat⟩ := h
  have hspec := nextToken_spec s.offset s.rest
  rw [hnext] at hspec
  obtain ⟨blanks, -, -, hat', -, hrest⟩ := hspec
  refine ⟨before ++ blanks ++ t.text.toList, by rw [htext, hrest]; simp, ?_⟩
  rw [Token.stop_span, hat', hat, byteLength_append, byteLength_append]

theorem IsSuffix.read (h : s.IsSuffix text) (pending : Option Token) :
    IsSuffix text { s.read.2 with pending } := by
  unfold Scanner.read
  cases hnext : nextToken s.offset s.rest with
  | none => exact h.finish
  | some found => exact h.token hnext pending

theorem IsSuffix.next (h : s.IsSuffix text) : s.next.2.IsSuffix text := by
  obtain ⟨rest, offset, pending⟩ := s
  cases pending with
  | some t => exact h
  | none => exact h.read _

theorem IsSuffix.peek (h : s.IsSuffix text) : s.peek.2.IsSuffix text := by
  obtain ⟨rest, offset, pending⟩ := s
  cases pending with
  | some t => exact h
  | none => exact h.read _

/-- The scanner in the bytes of the source. -/
structure InBytes (text : String) (s : Scanner) : Prop where
  /-- What is left to read begins between two characters of the source, at the scanner's offset, and ends with it. -/
  remainder : (Span.ofText s.offset (.ofList s.rest)).Covers text (.ofList s.rest)
  stop : (Span.ofText s.offset (.ofList s.rest)).stop = text.utf8ByteSize
  /-- The token that is read next is cut out of the source between characters, and so is what remains after it. -/
  slices : ∀ t rest, nextToken s.offset s.rest = some (t, rest) → s.offset ≤ t.span.start ∧ t.span.Covers text t.text ∧
    (Span.ofText t.span.stop (.ofList rest)).Covers text (.ofList rest)

theorem IsSuffix.covers (h : s.IsSuffix text) :
    (Span.ofText s.offset (.ofList s.rest)).Covers text (.ofList s.rest) := by
  obtain ⟨before, htext, hat⟩ := h
  have hcut : text = .ofList before ++ .ofList s.rest ++ "" := by rw [← String.toList_inj]; simpa using htext
  rw [hcut]
  exact Span.covers_of_append hat rfl

theorem IsSuffix.inBytes (h : s.IsSuffix text) : s.InBytes text where
  remainder := h.covers
  stop := by
    obtain ⟨before, htext, hat⟩ := h
    rw [Span.stop_ofText, ← byteLength_toList text, htext, byteLength_append, hat]
    rfl
  slices t rest hnext := by
    obtain ⟨before, htext, hat⟩ := h
    have hspec := nextToken_spec s.offset s.rest
    rw [hnext] at hspec
    obtain ⟨blanks, -, -, hat', -, hrest⟩ := hspec
    have hcut : text = .ofList (before ++ blanks) ++ t.text ++ .ofList rest := by
      rw [← String.toList_inj, htext, hrest]; simp
    refine ⟨?_, ?_, (IsSuffix.token ⟨before, htext, hat⟩ hnext none).covers⟩
    · rw [Token.span, Span.start_ofText, hat']
      exact Nat.le_add_right _ _
    · rw [hcut]
      exact Span.covers_of_append (by rw [Token.span, Span.start_ofText, hat', hat, ← byteLength_append]; rfl) rfl

/-! ## Scanner and index -/

/-- The scanner stands at index `i` of the tokens of its source, whether or not a token is pending. -/
structure At (text : String) (s : Scanner) (i : Nat) : Prop where
  le : i ≤ (lex text).length
  tokens : s.toList = (lex text).drop i
  suffix : s.IsSuffix text

theorem at_ofSource (text : String) : At text (.ofSource text) 0 :=
  ⟨Nat.zero_le _, toList_ofSource text, [], rfl, rfl⟩

theorem simulates_cursor (text : String) : source.Simulates (cursor (lex text)) (At text) where
  next s i h := by
    refine ⟨?_, ?_⟩
    · exact s.fst_next.trans (by rw [h.tokens, List.head?_drop]; rfl)
    · refine ⟨Nat.min_le_right _ _, ?_, h.suffix.next⟩
      change s.next.2.toList = (lex text).drop (min (i + 1) (lex text).length)
      rw [toList_next, h.tokens, List.tail_drop]
      rcases Nat.le_total (i + 1) (lex text).length with hle | hle
      · rw [Nat.min_eq_left hle]
      · rw [Nat.min_eq_right hle, List.drop_length, List.drop_of_length_le hle]
  peek s i h := by
    refine ⟨?_, h.le, (toList_peek s).trans h.tokens, h.suffix.peek⟩
    exact s.fst_peek.trans (by rw [h.tokens, List.head?_drop]; rfl)
  takeAll s i h := ⟨h.tokens, Nat.le_refl _, (toList_finish s).trans List.drop_length.symm, h.suffix.finish⟩

/-! ## All that is left -/

/-- Taking token after token until there is none gives the tokens `ts` and leaves the scanner `s'`. -/
inductive Drains : Scanner → List Token → Scanner → Prop
  | done {s s' : Scanner} : s.next = (none, s') → Drains s [] s'
  | token {s s₁ s' : Scanner} {t : Token} {ts : List Token} : s.next = (some t, s₁) → Drains s₁ ts s' →
      Drains s (t :: ts) s'

/-- Reading a token does not move the end of the text. -/
theorem finish_next (s : Scanner) : s.next.2.finish = s.finish := by
  obtain ⟨rest, offset, pending⟩ := s
  cases pending with
  | some t => rfl
  | none =>
    simp only [next, read]
    have hspec := nextToken_spec offset rest
    cases hnext : nextToken offset rest with
    | none => simp [finish]
    | some found =>
      obtain ⟨t, rest'⟩ := found
      rw [hnext] at hspec
      obtain ⟨blanks, -, -, hat, -, hrest⟩ := hspec
      have hend : t.span.stop + byteLength rest' = offset + byteLength rest := by
        rw [Token.stop_span, hat, hrest, byteLength_append, byteLength_append]; omega
      exact congrArg (Scanner.mk [] · none) hend

/-- Where no token is left, none is given and the text is read to its end. -/
theorem next_of_toList_eq_nil {s : Scanner} (h : s.toList = []) : s.next = (none, s.finish) := by
  obtain ⟨rest, offset, pending⟩ := s
  obtain ⟨hpending, hrest⟩ := List.append_eq_nil_iff.1 h
  cases pending with
  | some t => cases hpending
  | none =>
    simp only [next, read]
    cases hnext : nextToken offset rest with
    | none => rfl
    | some found => rw [tokensFrom_of_some hnext] at hrest; cases hrest

/-- To take all tokens is to take one after the other. -/
theorem drains_takeAll (s : Scanner) : s.Drains s.takeAll.1 s.takeAll.2 := by
  change s.Drains s.toList s.finish
  generalize hts : s.toList = ts
  induction ts generalizing s with
  | nil => exact .done (next_of_toList_eq_nil hts)
  | cons t ts ih =>
    have hnext : s.next = (some t, s.next.2) := Prod.ext (by rw [fst_next, hts]; rfl) rfl
    refine .token hnext ?_
    rw [← finish_next]
    exact ih _ (by rw [toList_next, hts]; rfl)

end Scanner

/-! ## Past the end -/

/-- The tokens in an answer. -/
def Answer.given : Answer → List Token
  | token t? => t?.toList
  | tokens ts => ts
  | copies _ => []

open TokenSource

/-- One operation past the end of the tokens, which is not to go back to a copy. -/
theorem given_perform_cursor {ts : List Token} {r : Reading Nat} (h : ts.length ≤ r.current) {op : Operation}
    (hop : ∀ k, op ≠ .restore k) :
    ((cursor ts).perform r op).1.given = [] ∧ ts.length ≤ ((cursor ts).perform r op).2.current := by
  cases op with
  | next => exact ⟨by simp [perform, cursor, Answer.given, h], Nat.le_min.2 ⟨Nat.le_succ_of_le h, Nat.le_refl _⟩⟩
  | peek => exact ⟨by simp [perform, cursor, Answer.given, h], h⟩
  | takeAll => exact ⟨List.drop_of_length_le h, Nat.le_refl _⟩
  | save => exact ⟨rfl, h⟩
  | restore k => exact absurd rfl (hop k)

/-- Past the end no token is given any more, as long as no copy is gone back to. -/
theorem given_performAll_cursor {ts : List Token} {r : Reading Nat} (h : ts.length ≤ r.current) {ops : List Operation}
    (hops : ∀ op ∈ ops, ∀ k, op ≠ .restore k) : ∀ a ∈ ((cursor ts).performAll r ops).1, a.given = [] := by
  induction ops generalizing r with
  | nil => exact nofun
  | cons op ops ih =>
    obtain ⟨hop, hops⟩ := List.forall_mem_cons.1 hops
    obtain ⟨hgiven, hpast⟩ := given_perform_cursor h hop
    exact List.forall_mem_cons.2 ⟨hgiven, ih hpast hops⟩

/-! ## Every sequence of operations -/

/-- Whatever is done with a scanner and its copies, the answers are those of an index into the tokens of the source
and copies of that index. The scanner and every copy have the end of the source left to read, between characters;
taking all tokens is taking one after the other; and once the index is at the end no token is given any more, as
long as no copy is gone back to. -/
theorem scanner_follows_cursor (text : String) (ops : List Operation) :
    let used := Scanner.source.performAll ⟨.ofSource text, []⟩ ops
    let index := (cursor (lex text)).performAll ⟨0, []⟩ ops
    used.1 = index.1 ∧ Together (Scanner.At text) used.2 index.2 ∧
    (∀ s ∈ used.2.current :: used.2.copies, s.InBytes text ∧ s.Drains s.takeAll.1 s.takeAll.2) ∧
    (index.2.current = (lex text).length → ∀ later : List Operation, (∀ op ∈ later, ∀ k, op ≠ .restore k) →
      ∀ a ∈ (Scanner.source.performAll used.2 later).1, a.given = []) := by
  intro used index
  have hsim := Scanner.simulates_cursor text
  obtain ⟨hanswers, htogether⟩ : used.1 = index.1 ∧ Together (Scanner.At text) used.2 index.2 :=
    hsim.performAll ⟨Scanner.at_ofSource text, .nil⟩ ops
  have hsuffix : ∀ s ∈ used.2.current :: used.2.copies, s.IsSuffix text := by
    refine ((List.forall₂_and_left (R := Scanner.At text) _ (index.2.current :: index.2.copies)).1 ?_).1
    exact (List.Forall₂.cons htogether.current htogether.copies).imp fun s i hat => ⟨hat.suffix, hat⟩
  refine ⟨hanswers, htogether, fun s hs => ⟨(hsuffix s hs).inBytes, s.drains_takeAll⟩, fun hend later hlater => ?_⟩
  -- what is done later is still done with a scanner at that index
  obtain ⟨hsame, -⟩ := hsim.performAll htogether later
  rw [hsame]
  exact given_performAll_cursor (Nat.le_of_eq hend.symm) hlater

end ArithLang
