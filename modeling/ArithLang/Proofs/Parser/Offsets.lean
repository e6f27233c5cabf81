/-
The offsets of tokens have no part in how they are read. Tokens are alike if they differ in their offsets only;
trees and chains are compared by erasing the offsets in them. Parsers on alike tokens read chains that are alike
(`Reads.alike`), so they return trees of one shape, with the offsets of their own tokens, or the same error about
the tokens at one index of both lists (`parse_alike`).
-/
import ArithLang.Proofs.Parser.Descent

namespace ArithLang

/-- Both are values or both are errors, and they are related. -/
def SameResult {ε α : Type} (errors : ε → ε → Prop) (values : α → α → Prop) : Except ε α → Except ε α → Prop
  | .ok a, .ok b => values a b
  | .error e, .error e' => errors e e'
  | _, _ => False

/-- Steps that end in the same way are followed by steps that end in the same way. -/
theorem SameResult.bind {ε α β : Type} {errors : ε → ε → Prop} {values : α → α → Prop} {results : β → β → Prop}
    {x y : Except ε α} {f g : α → Except ε β} (h : SameResult errors values x y)
    (hfg : ∀ a b, values a b → SameResult errors results (f a) (g b)) : SameResult errors results (x >>= f) (y >>= g) := by
  rcases x with e | a <;> rcases y with e' | b
  · exact h
  · exact h.elim
  · exact h.elim
  · exact hfg a b h

theorem SameResult.mono {ε α : Type} {errors more : ε → ε → Prop} {values : α → α → Prop} {x y : Except ε α}
    (h : SameResult errors values x y) (herrors : ∀ e e', errors e e' → more e e') : SameResult more values x y := by
  rcases x with e | a <;> rcases y with e' | b
  · exact herrors _ _ h
  · exact h.elim
  · exact h.elim
  · exact h

/-! ## Offsets erased -/

def Located.erase {α : Type} (x : Located α) : Located α := ⟨x.value, 0⟩

theorem Located.erase_eq_iff {α : Type} {x y : Located α} : x.erase = y.erase ↔ x.value = y.value := by
  simp [erase]

def Symbol.offset : Symbol → Nat
  | literal text => text.offset
  | operator op => op.offset

namespace Expr

/-- The tree without its offsets. -/
def erase : Expr → Expr
  | literal text => literal text.erase
  | binary op left right => binary op.erase left.erase right.erase

/-- The offsets in the tree, in source order. -/
def offsets (e : Expr) : List Nat := e.inOrder.map Symbol.offset

theorem nodeCount_erase (e : Expr) : e.erase.nodeCount = e.nodeCount := by
  induction e with
  | literal text => rfl
  | binary op left right ihl ihr => simp only [erase, nodeCount, ihl, ihr]

theorem isLiteral_erase (e : Expr) : e.erase.isLiteral = e.isLiteral := by cases e <;> rfl

theorem isAdditiveFree_erase (e : Expr) : e.erase.isAdditiveFree = e.isAdditiveFree := by
  induction e with
  | literal text => rfl
  | binary op left right ihl ihr => simp only [erase, isAdditiveFree, Located.erase, ihl, ihr]

theorem isCanonical_erase (e : Expr) : e.erase.isCanonical = e.isCanonical := by
  induction e with
  | literal text => rfl
  | binary op left right ihl ihr =>
    simp only [erase, isCanonical, Located.erase, ihl, ihr, isAdditiveFree_erase, isLiteral_erase]

end Expr

def Link.erase (l : Link) : Link := ⟨l.op.erase, l.operand.erase⟩

def Chain.erase (c : Chain) : Chain := ⟨c.first.erase, c.links.map Link.erase⟩

theorem Expr.chain_erase (e : Expr) : e.erase.chain = e.chain.erase := by
  induction e with
  | literal text => rfl
  | binary op left right ihl ihr =>
    simp [erase, chain, ihl, ihr, Chain.erase, Chain.extend, Chain.after, Link.erase]

/-- Offsets have no part in the grouping. -/
theorem Chain.toExpr_erase (c : Chain) : c.toExpr.erase = c.erase.toExpr := by
  have hcanonical : c.toExpr.erase.isCanonical = true := by rw [Expr.isCanonical_erase, isCanonical_toExpr]
  rw [← Expr.toExpr_chain hcanonical, Expr.chain_erase, chain_toExpr]

/-! ## Alike tokens -/

/-- The tokens differ in their offsets at most. -/
structure Token.Alike (t u : Token) : Prop where
  kind : t.kind = u.kind
  text : t.text = u.text

theorem Token.Alike.operatorIn? {t u : Token} (h : t.Alike u) (ops : Operator → Bool) :
    Chain.operatorIn? ops t = Chain.operatorIn? ops u := by
  rw [Chain.operatorIn?, Chain.operatorIn?, h.kind]

theorem Symbol.offsets_of_readFrom {o : ParseOptions} {symbols : List Symbol} {ts : List Token}
    (h : List.Forall₂ (ReadFrom o) symbols ts) : symbols.map offset = ts.map Token.offset := by
  induction h with
  | nil => rfl
  | @cons s t _ _ hs _ ih =>
    rw [List.map_cons, List.map_cons, ih]
    cases s with
    | literal text => rw [← hs.2]; rfl
    | operator op => rw [hs.2]; rfl

/-- The errors are of one kind and have one text. They point at the ends of the two lists of tokens, or at both
tokens of one of the pairs. -/
inductive ParseError.Alike (pairs : List (Token × Token)) (eof eof' : Nat) : ParseError → ParseError → Prop
  | unexpectedEnd : Alike pairs eof eof' (.unexpectedEnd ⟨eof, 0⟩) (.unexpectedEnd ⟨eof', 0⟩)
  | expectedLiteral {t u : Token} : (t, u) ∈ pairs →
      Alike pairs eof eof' (.expectedLiteral t.text t.span) (.expectedLiteral t.text u.span)
  | trailingInput {t u : Token} : (t, u) ∈ pairs →
      Alike pairs eof eof' (.trailingInput t.text t.span) (.trailingInput t.text u.span)

theorem ParseError.Alike.mono {pairs more : List (Token × Token)} (hsub : pairs ⊆ more) {eof eof' : Nat}
    {e e' : ParseError} (h : Alike pairs eof eof' e e') : Alike more eof eof' e e' := by
  cases h with
  | unexpectedEnd => exact .unexpectedEnd
  | expectedLiteral hmem => exact .expectedLiteral (hsub hmem)
  | trailingInput hmem => exact .trailingInput (hsub hmem)

/-! ## Chains read from alike tokens -/

namespace Chain

variable {ops : Operator → Bool} {o : ParseOptions} {eof : Nat} {ts us : List Token} {n : Nat}

theorem ReadsLinks.alike {links : List Link} {failure : Option ParseError}
    (h : ReadsLinks ops o eof ts links failure n) (hal : List.Forall₂ Token.Alike ts us) (eof' : Nat) :
    ∃ links' failure', ReadsLinks ops o eof' us links' failure' n ∧ links.map Link.erase = links'.map Link.erase ∧
      Option.Rel (ParseError.Alike (ts.zip us) eof eof') failure failure' := by
  induction h generalizing us with
  | stop hs =>
    refine ⟨[], none, .stop fun u hu => ?_, rfl, .none⟩
    cases hal with
    | nil => cases hu
    | cons ht _ => cases hu; rw [← ht.operatorIn?]; exact hs _ rfl
  | dangling ht =>
    obtain _ | ⟨htu, hnil⟩ := hal
    cases hnil
    exact ⟨[], _, .dangling ((htu.operatorIn? ops).symm.trans ht), rfl, .some .unexpectedEnd⟩
  | refused ht hu =>
    obtain _ | ⟨htu, hal⟩ := hal
    obtain _ | ⟨huu, hal⟩ := hal
    refine ⟨[], _, .refused ((htu.operatorIn? ops).symm.trans ht) (huu.kind ▸ hu), rfl, .some ?_⟩
    rw [← huu.text]
    exact .expectedLiteral (by simp)
  | link ht hu _ ih =>
    obtain _ | ⟨htu, hal⟩ := hal
    obtain _ | ⟨huu, hal⟩ := hal
    obtain ⟨links', failure', hlinks, hsame, hfailure⟩ := ih hal
    refine ⟨_, failure', .link ((htu.operatorIn? ops).symm.trans ht) (huu.kind ▸ hu) hlinks, ?_, ?_⟩
    · simp only [List.map_cons, hsame, Link.erase, Located.erase, Token.located, huu.text]
    · have hsub : ∀ (x y : Token × Token) (xs : List (Token × Token)), xs ⊆ x :: y :: xs := fun x y xs =>
        List.Subset.trans (List.subset_cons_self _ _) (List.subset_cons_self _ _)
      cases hfailure with
      | none => exact .none
      | some he => exact .some (he.mono (hsub _ _ _))

/-- What is read from both lists: chains that differ in their offsets only, or errors that are alike. -/
def SameReading (pairs : List (Token × Token)) (eof eof' : Nat) :
    Except ParseError Chain → Except ParseError Chain → Prop :=
  SameResult (ParseError.Alike pairs eof eof') fun c d => c.erase = d.erase

theorem Reads.alike {r : Except ParseError Chain} (h : Reads ops o eof ts r n)
    (hal : List.Forall₂ Token.Alike ts us) (eof' : Nat) :
    ∃ r', Reads ops o eof' us r' n ∧ SameReading (ts.zip us) eof eof' r r' := by
  cases h with
  | nothing => cases hal; exact ⟨_, .nothing, .unexpectedEnd⟩
  | refused ht =>
    obtain _ | ⟨htu, hal⟩ := hal
    refine ⟨_, .refused (htu.kind ▸ ht), ?_⟩
    rw [← htu.text]
    exact .expectedLiteral List.mem_cons_self
  | failed ht h =>
    obtain _ | ⟨htu, hal⟩ := hal
    obtain ⟨links', failure', hlinks, -, hfailure⟩ := h.alike hal eof'
    obtain ⟨he⟩ := hfailure
    exact ⟨_, .failed (htu.kind ▸ ht) hlinks, he.mono (List.subset_cons_self _ _)⟩
  | chain ht h =>
    obtain _ | ⟨htu, hal⟩ := hal
    obtain ⟨links', failure', hlinks, hsame, hfailure⟩ := h.alike hal eof'
    cases hfailure
    refine ⟨_, .chain (htu.kind ▸ ht) hlinks, ?_⟩
    simp only [SameReading, SameResult, Chain.erase, hsame, Located.erase, Token.located, htu.text]

end Chain

/-! ## Parsers on alike tokens -/

namespace Parser

/-- The parsers differ at most in the offsets of their tokens. -/
structure Alike (p q : Parser) : Prop where
  tokens : List.Forall₂ Token.Alike p.tokens q.tokens
  position : p.position = q.position
  options : p.options = q.options

/-- What calls of the two parsers return: trees of one shape, with one value at each node, in which the offsets are
those of the tokens that each parser has taken; or errors that are alike. -/
def SameOutcome (p q : Parser) : Except ParseError Expr → Except ParseError Expr → Prop :=
  SameResult (ParseError.Alike (p.remaining.zip q.remaining) p.endOfTokens q.endOfTokens) fun e e' =>
    e.erase = e'.erase ∧ e.offsets = (p.remaining.take e.nodeCount).map Token.offset ∧
      e'.offsets = (q.remaining.take e.nodeCount).map Token.offset

theorem offsets_toExpr {o : ParseOptions} {c : Chain} {tokens : List Token} (h : c.Spells o tokens) :
    c.toExpr.offsets = tokens.map Token.offset ∧ c.toExpr.nodeCount = tokens.length := by
  rw [Expr.offsets, ← Expr.length_inOrder, Chain.inOrder_toExpr]
  exact ⟨Symbol.offsets_of_readFrom h, h.length_eq⟩

/-- Chains that differ in their offsets only make trees of one shape. -/
theorem sameOutcome_toExpr {p q : Parser} {o o' : ParseOptions} {c d : Chain} {n : Nat} (hsame : c.erase = d.erase)
    (hc : c.Spells o (p.remaining.take n)) (hd : d.Spells o' (q.remaining.take n)) :
    SameOutcome p q (.ok c.toExpr) (.ok d.toExpr) := by
  obtain ⟨hoffsets, hcount⟩ := offsets_toExpr hc
  obtain ⟨hoffsets', hcount'⟩ := offsets_toExpr hd
  have hshape : c.toExpr.erase = d.toExpr.erase := by rw [Chain.toExpr_erase, hsame, Chain.toExpr_erase]
  have hcounts : c.toExpr.nodeCount = d.toExpr.nodeCount := by
    rw [← Expr.nodeCount_erase, hshape, Expr.nodeCount_erase]
  refine ⟨hshape, ?_, ?_⟩
  · rw [hoffsets, hcount, List.length_take, ← List.take_eq_take_min]
  · rw [hoffsets', hcounts, hcount', List.length_take, ← List.take_eq_take_min]

/-- Parsers that differ in the offsets of their tokens only return the same up to offsets, and differ no more than
that afterwards. -/
theorem parse_alike {p q : Parser} (h : p.Alike q) :
    SameOutcome p q p.parse.1 q.parse.1 ∧ p.parse.2.Alike q.parse.2 := by
  have hal : List.Forall₂ Token.Alike p.remaining q.remaining := by
    rw [remaining, remaining, h.position]
    exact List.forall₂_drop _ h.tokens
  obtain ⟨r, n, hreads, heq⟩ := parse_eq p
  obtain ⟨r', m, hreads', heq'⟩ := parse_eq q
  obtain ⟨r'', hreads'', hsame⟩ := hreads.alike hal q.endOfTokens
  rw [h.options] at hreads''
  obtain ⟨rfl, rfl⟩ := hreads''.unique hreads'
  rw [heq, heq', h.options]
  refine ⟨?_, h.tokens, congrArg (· + n) h.position, h.options⟩
  rcases r with e | c <;> rcases r'' with e' | d
  · exact hsame
  · exact hsame.elim
  · exact hsame.elim
  · -- the same chain was read, and what comes after it decides in the same way
    have htrees := sameOutcome_toExpr hsame hreads.spells hreads'.spells
    have hsub : (p.remaining.drop n).zip (q.remaining.drop n) ⊆ p.remaining.zip q.remaining := by
      intro x hx
      rw [List.zip_eq_zipWith, ← List.drop_zipWith] at hx
      exact List.mem_of_mem_drop hx
    have hleft := List.forall₂_drop n hal
    generalize p.remaining.drop n = ts at hleft hsub
    generalize q.remaining.drop n = us at hleft hsub
    cases hleft with
    | nil => exact htrees
    | @cons t u ts us htu _ =>
      by_cases hend : q.options.requireEnd = true
      · simp only [answer, if_pos hend, ← htu.text]
        exact .trailingInput (hsub List.mem_cons_self)
      · simp only [answer, if_neg hend]
        exact htrees

end Parser

end ArithLang
