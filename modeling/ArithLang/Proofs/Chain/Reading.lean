/-
How far the front of a list of tokens is a chain, said without a cursor and without grouping: a literal,
then operators each followed by a literal, for as long as the next token is one of the operators asked for.
Each rule says what has been read, how it failed if it did, and how many tokens are gone.

Main facts: reading with few operators and going on with more is reading with more (`ReadsLinks.append`); a
list of tokens is read in one way only (`Reads.unique`); what is read is exactly the tokens that are gone
(`Reads.spells`), and tokens that spell a chain are read as that chain (`Reads.of_spells`). So a list of tokens
spells one chain at most (`Spells.unique`).
-/
import ArithLang.Proofs.Chain.Basic
import ArithLang.ParseError

namespace ArithLang.Chain

/-- The operator the token stands for, if it is one of `ops`. -/
def operatorIn? (ops : Operator → Bool) (t : Token) : Option Operator := (Operator.ofKind? t.kind).filter ops

theorem operatorIn?_mono {ops more : Operator → Bool} (hmore : ∀ op, ops op = true → more op = true) {t : Token}
    {op : Operator} (h : operatorIn? ops t = some op) : operatorIn? more t = some op := by
  rw [operatorIn?, Option.filter_eq_some_iff] at h ⊢
  exact ⟨h.1, hmore op h.2⟩

section

variable (ops : Operator → Bool) (o : ParseOptions) (eof : Nat)

/-- Reading `tokens` where an operator may stand yields `links`, and `n` tokens are gone. `failure` is why
the reading ended if it did not end before a token that is none of `ops`. -/
inductive ReadsLinks : List Token → List Link → Option ParseError → Nat → Prop
  | stop {tokens : List Token} : (∀ t ∈ tokens.head?, operatorIn? ops t = none) → ReadsLinks tokens [] none 0
  | dangling {t : Token} {op : Operator} : operatorIn? ops t = some op →
      ReadsLinks [t] [] (some (.unexpectedEnd ⟨eof, 0⟩)) 1
  | refused {t u : Token} {rest : List Token} {op : Operator} : operatorIn? ops t = some op →
      o.acceptsLiteral u.kind = false → ReadsLinks (t :: u :: rest) [] (some (.expectedLiteral u.text u.span)) 2
  | link {t u : Token} {rest : List Token} {op : Operator} {links : List Link} {failure : Option ParseError}
      {n : Nat} : operatorIn? ops t = some op → o.acceptsLiteral u.kind = true → ReadsLinks rest links failure n →
      ReadsLinks (t :: u :: rest) (⟨⟨op, t.offset⟩, u.located⟩ :: links) failure (n + 2)

/-- Reading `tokens` where a literal has to stand ends with `outcome`, and `n` tokens are gone. -/
inductive Reads : List Token → Except ParseError Chain → Nat → Prop
  | nothing : Reads [] (.error (.unexpectedEnd ⟨eof, 0⟩)) 0
  | refused {t : Token} {rest : List Token} : o.acceptsLiteral t.kind = false →
      Reads (t :: rest) (.error (.expectedLiteral t.text t.span)) 1
  | failed {t : Token} {rest : List Token} {links : List Link} {e : ParseError} {n : Nat} :
      o.acceptsLiteral t.kind = true → ReadsLinks ops o eof rest links (some e) n → Reads (t :: rest) (.error e) (n + 1)
  | chain {t : Token} {rest : List Token} {links : List Link} {n : Nat} :
      o.acceptsLiteral t.kind = true → ReadsLinks ops o eof rest links none n →
      Reads (t :: rest) (.ok ⟨t.located, links⟩) (n + 1)

end

variable {ops more : Operator → Bool} {o : ParseOptions} {eof : Nat} {t : Token} {tokens rest : List Token}
  {links links' : List Link} {failure failure' : Option ParseError} {e : ParseError} {c : Chain} {m n : Nat}

/-! ## Building readings -/

/-- After an operator, links are read like a chain. -/
theorem ReadsLinks.of_reads_ok {op : Operator} (ht : operatorIn? ops t = some op)
    (h : Reads ops o eof rest (.ok c) n) : ReadsLinks ops o eof (t :: rest) (c.after ⟨op, t.offset⟩) none (n + 1) := by
  cases h with
  | chain hu h => exact .link ht hu h

theorem ReadsLinks.of_reads_error {op : Operator} (ht : operatorIn? ops t = some op)
    (h : Reads ops o eof rest (.error e) n) : ∃ links, ReadsLinks ops o eof (t :: rest) links (some e) (n + 1) := by
  cases h with
  | nothing => exact ⟨_, .dangling ht⟩
  | refused hu => exact ⟨_, .refused ht hu⟩
  | failed hu h => exact ⟨_, .link ht hu h⟩

/-- A failure with few operators is one with more. -/
theorem ReadsLinks.mono (hmore : ∀ op, ops op = true → more op = true)
    (h : ReadsLinks ops o eof tokens links (some e) n) : ReadsLinks more o eof tokens links (some e) n := by
  -- not so for a reading that stopped, which may go on with more operators
  generalize hf : some e = f at h
  induction h with
  | stop => cases hf
  | dangling ht => exact .dangling (operatorIn?_mono hmore ht)
  | refused ht hu => exact .refused (operatorIn?_mono hmore ht) hu
  | link ht hu _ ih => exact .link (operatorIn?_mono hmore ht) hu (ih hf)

theorem ReadsLinks.append (hmore : ∀ op, ops op = true → more op = true)
    (h : ReadsLinks ops o eof tokens links none n) (h' : ReadsLinks more o eof (tokens.drop n) links' failure' m) :
    ReadsLinks more o eof tokens (links ++ links') failure' (n + m) := by
  generalize hf : (none : Option ParseError) = f at h
  induction h with
  | stop => simpa using h'
  | dangling => cases hf
  | refused => cases hf
  | @link t u rest op links failure n ht hu _ ih =>
    have := ReadsLinks.link (operatorIn?_mono hmore ht) hu (ih (by simpa using h') hf)
    rwa [show n + 2 + m = n + m + 2 by omega]

theorem Reads.mono (hmore : ∀ op, ops op = true → more op = true) (h : Reads ops o eof tokens (.error e) n) :
    Reads more o eof tokens (.error e) n := by
  cases h with
  | nothing => exact .nothing
  | refused ht => exact .refused ht
  | failed ht h => exact .failed ht (h.mono hmore)

/-- What goes on after a chain with more operators makes the chain longer. -/
theorem Reads.append (hmore : ∀ op, ops op = true → more op = true) (h : Reads ops o eof tokens (.ok c) n)
    (h' : ReadsLinks more o eof (tokens.drop n) links none m) : Reads more o eof tokens (.ok (c.extend links)) (n + m) := by
  cases h with
  | @chain t rest links' n ht h =>
    have := Reads.chain ht (h.append hmore (by simpa using h'))
    rwa [show n + 1 + m = n + m + 1 by omega]

theorem Reads.append_error (hmore : ∀ op, ops op = true → more op = true) (h : Reads ops o eof tokens (.ok c) n)
    (h' : ReadsLinks more o eof (tokens.drop n) links (some e) m) : Reads more o eof tokens (.error e) (n + m) := by
  cases h with
  | @chain t rest links' n ht h =>
    have := Reads.failed ht (h.append hmore (by simpa using h'))
    rwa [show n + 1 + m = n + m + 1 by omega]

/-! ## There is one reading -/

theorem ReadsLinks.unique (h : ReadsLinks ops o eof tokens links failure n)
    (h' : ReadsLinks ops o eof tokens links' failure' m) : links = links' ∧ failure = failure' ∧ n = m := by
  induction h generalizing links' m with
  | stop hs =>
    cases h' with
    | stop => exact ⟨rfl, rfl, rfl⟩
    | dangling ht => simp [ht] at hs
    | refused ht => simp [ht] at hs
    | link ht => simp [ht] at hs
  | dangling ht =>
    cases h' with
    | stop hs => simp [ht] at hs
    | dangling => exact ⟨rfl, rfl, rfl⟩
  | refused ht hu =>
    cases h' with
    | stop hs => simp [ht] at hs
    | refused => exact ⟨rfl, rfl, rfl⟩
    | link _ hu' => rw [hu] at hu'; cases hu'
  | link ht hu _ ih =>
    cases h' with
    | stop hs => simp [ht] at hs
    | refused _ hu' => rw [hu] at hu'; cases hu'
    | link ht' _ h =>
      obtain ⟨rfl, rfl, rfl⟩ := ih h
      rw [ht] at ht'; cases ht'
      exact ⟨rfl, rfl, rfl⟩

theorem Reads.unique {r r' : Except ParseError Chain} (h : Reads ops o eof tokens r n)
    (h' : Reads ops o eof tokens r' m) : r = r' ∧ n = m := by
  cases h with
  | nothing => cases h'; exact ⟨rfl, rfl⟩
  | refused ht =>
    cases h' with
    | refused => exact ⟨rfl, rfl⟩
    | failed ht' => rw [ht] at ht'; cases ht'
    | chain ht' => rw [ht] at ht'; cases ht'
  | failed ht hl =>
    cases h' with
    | refused ht' => rw [ht] at ht'; cases ht'
    | failed _ hl' => obtain ⟨-, hf, rfl⟩ := hl.unique hl'; cases hf; exact ⟨rfl, rfl⟩
    | chain _ hl' => obtain ⟨-, hf, -⟩ := hl.unique hl'; cases hf
  | chain ht hl =>
    cases h' with
    | refused ht' => rw [ht] at ht'; cases ht'
    | failed _ hl' => obtain ⟨-, hf, -⟩ := hl.unique hl'; cases hf
    | chain _ hl' => obtain ⟨rfl, -, rfl⟩ := hl.unique hl'; exact ⟨rfl, rfl⟩

/-! ## What is read -/

/-- The operators of the links are among those asked for. -/
theorem ReadsLinks.operators (h : ReadsLinks ops o eof tokens links failure n) : ∀ l ∈ links, ops l.op.value = true := by
  induction h with
  | stop => nofun
  | dangling => nofun
  | refused => nofun
  | link ht _ _ ih =>
    refine List.forall_mem_cons.2 ⟨?_, ih⟩
    exact (Option.filter_eq_some_iff.1 ht).2

/-- The reading stops only before a token that is none of the operators. -/
theorem ReadsLinks.stops (h : ReadsLinks ops o eof tokens links none n) :
    ∀ t ∈ (tokens.drop n).head?, operatorIn? ops t = none := by
  generalize hf : (none : Option ParseError) = f at h
  induction h with
  | stop hs => exact hs
  | dangling => cases hf
  | refused => cases hf
  | link _ _ _ ih => simpa using ih hf

theorem Reads.operators (h : Reads ops o eof tokens (.ok c) n) : ∀ l ∈ c.links, ops l.op.value = true := by
  cases h with
  | chain _ h => exact h.operators

theorem Reads.stops (h : Reads ops o eof tokens (.ok c) n) :
    ∀ t ∈ (tokens.drop n).head?, operatorIn? ops t = none := by
  cases h with
  | chain _ h => simpa using h.stops

/-- The links are the tokens that are gone. -/
theorem ReadsLinks.spells (h : ReadsLinks ops o eof tokens links none n) :
    List.Forall₂ (Symbol.ReadFrom o) (symbolsOf links) (tokens.take n) := by
  generalize hf : (none : Option ParseError) = f at h
  induction h with
  | stop => exact .nil
  | dangling => cases hf
  | refused => cases hf
  | link ht hu _ ih =>
    have hop := (Option.filter_eq_some_iff.1 ht).1
    exact .cons ⟨hop, rfl⟩ (.cons ⟨hu, rfl⟩ (ih hf))

theorem Reads.spells (h : Reads ops o eof tokens (.ok c) n) : c.Spells o (tokens.take n) := by
  cases h with
  | chain ht h => exact .cons ⟨ht, rfl⟩ h.spells

theorem ReadsLinks.le_length (h : ReadsLinks ops o eof tokens links failure n) : n ≤ tokens.length := by
  induction h with
  | stop => exact Nat.zero_le _
  | dangling => exact Nat.le_refl _
  | refused => simp
  | link _ _ _ ih => simpa using ih

theorem Reads.le_length {r : Except ParseError Chain} (h : Reads ops o eof tokens r n) : n ≤ tokens.length := by
  cases h with
  | nothing => exact Nat.le_refl _
  | refused => simp
  | failed _ h => simpa using h.le_length
  | chain _ h => simpa using h.le_length

theorem ReadsLinks.of_spells (hops : ∀ l ∈ links, ops l.op.value = true)
    (h : List.Forall₂ (Symbol.ReadFrom o) (symbolsOf links) tokens)
    (hrest : ∀ t ∈ rest.head?, operatorIn? ops t = none) :
    ReadsLinks ops o eof (tokens ++ rest) links none tokens.length := by
  induction links generalizing tokens with
  | nil => cases h; exact .stop hrest
  | cons l links ih =>
    obtain ⟨hl, hlinks⟩ := List.forall_mem_cons.1 hops
    cases h with
    | @cons _ t _ _ hop h =>
      cases h with
      | @cons _ u _ tokens hlit h =>
        obtain ⟨⟨op, at'⟩, operand⟩ := l
        obtain ⟨hop, rfl⟩ := hop
        obtain ⟨hlit, rfl⟩ := hlit
        exact .link (Option.filter_eq_some_iff.2 ⟨hop, hl⟩) hlit (ih hlinks h)

/-- Tokens that spell a chain are read as that chain if no operator follows. -/
theorem Reads.of_spells (hops : ∀ l ∈ c.links, ops l.op.value = true) (h : c.Spells o tokens)
    (hrest : ∀ t ∈ rest.head?, operatorIn? ops t = none) : Reads ops o eof (tokens ++ rest) (.ok c) tokens.length := by
  obtain ⟨first, links⟩ := c
  cases h with
  | cons hlit h =>
    obtain ⟨hlit, rfl⟩ := hlit
    exact .chain hlit (.of_spells hops h hrest)

/-- Tokens that spell a chain, and nothing after them. -/
theorem Spells.reads (h : c.Spells o tokens) (eof : Nat) :
    Reads (fun _ => true) o eof tokens (.ok c) tokens.length := by
  have hreads : Reads (fun _ => true) o eof (tokens ++ []) (.ok c) tokens.length :=
    .of_spells (fun _ _ => rfl) h nofun
  rwa [List.append_nil] at hreads

/-- A list of tokens spells one chain at most. -/
theorem Spells.unique {d : Chain} (h : c.Spells o tokens) (h' : d.Spells o tokens) : c = d :=
  Except.ok.inj ((h.reads 0).unique (h'.reads 0)).1

end ArithLang.Chain
