/-
The parser reads chains. Its loops know two precedences and build the tree while they go; the chain under
the tree is read without either (`Chain.Reads`). `Reader.Reads` says that a reader reads the chains over some
operators and groups them in a given way. The one loop of `separatedBy` takes such a reader to one over more
operators (`Reads.separatedBy`): its invariant is that the operand in hand was read to its end, so that the
next token is none of the operand's own operators. From that follow the two levels of the grammar
(`product_reads`, `sum_reads`) and what `parse` returns, from any position (`parse_eq`).
-/
import ArithLang.Parser
import ArithLang.Proofs.Chain.Grouping
import ArithLang.Proofs.Chain.Reading

namespace ArithLang.Parser

open Chain

/-! ## One token -/

theorem getElem?_position (p : Parser) : p.tokens[p.position]? = p.remaining.head? := by
  rw [remaining, List.head?_drop]

theorem takeOperator?_eq_some {ops : List Operator} {p q : Parser} {op : Located Operator}
    (h : p.takeOperator? ops = some (op, q)) : ∃ t rest symbol, p.remaining = t :: rest ∧
      operatorIn? ops.contains t = some symbol ∧ op = ⟨symbol, t.offset⟩ ∧ q = p.skip 1 := by
  simp only [takeOperator?, getElem?_position, Option.bind_eq_bind, Option.bind_eq_some_iff] at h
  obtain ⟨t, ht, symbol, hsymbol, h⟩ := h
  cases h
  obtain ⟨rest, hrest⟩ := List.head?_eq_some_iff.1 ht
  exact ⟨t, rest, symbol, hrest, hsymbol, rfl, rfl⟩

theorem takeOperator?_eq_none {ops : List Operator} {p : Parser} (h : p.takeOperator? ops = none) :
    ∀ t ∈ p.remaining.head?, operatorIn? ops.contains t = none := by
  intro t ht
  simp only [takeOperator?, getElem?_position, Option.mem_def.1 ht] at h
  cases hop : (Operator.ofKind? t.kind).filter ops.contains with
  | none => exact hop
  | some op => simp [hop] at h

namespace Reader

/-! ## Readers of chains -/

/-- The reader reads the chain over `ops` that comes next, and groups it with `group`. -/
def Reads (operand : Reader) (ops : Operator → Bool) (group : Chain → Expr) : Prop :=
  ∀ p : Parser, ∃ r n, Chain.Reads ops p.options p.endOfTokens p.remaining r n ∧
    operand.read p = (r.map group, p.skip n)

theorem literal_reads : literal.Reads (fun _ => false) fun c => .literal c.first := by
  intro p
  have none_in : ∀ t : Token, operatorIn? (fun _ => false) t = none := fun t => by simp [operatorIn?]
  simp only [literal, readLiteral, advance, getElem?_position]
  rcases hrem : p.remaining with _ | ⟨t, rest⟩
  · exact ⟨_, _, .nothing, rfl⟩
  · by_cases ht : p.options.acceptsLiteral t.kind = true
    · exact ⟨_, _, .chain ht (.stop fun t _ => none_in t), by simp [ht]; rfl⟩
    · simp only [Bool.not_eq_true] at ht
      exact ⟨_, _, .refused ht, by simp [ht]; rfl⟩

/-! ## The loop -/

/-- An operator of the loop with the operand after it. -/
abbrev Piece := Located Operator × Chain

/-- The links of pieces put one after the other. -/
def joined (pieces : List Piece) : List Link := pieces.flatMap fun x => x.2.after x.1

/-- The operands of the pieces put to the right of `left` one after the other. -/
def fold (group : Chain → Expr) (left : Expr) (pieces : List Piece) : Expr :=
  pieces.foldl (fun left x => .binary x.1 left (group x.2)) left

/-- The pieces that the loop over `ops` cuts the links into, if its operands are chains over `inner`. -/
def Cut (inner : Operator → Bool) (ops : List Operator) (pieces : List Piece) : Prop :=
  ∀ x ∈ pieces, ops.contains x.1.value = true ∧ ∀ l ∈ x.2.links, inner l.op.value = true

/-- The operators of either level. -/
def either (inner : Operator → Bool) (ops : List Operator) (op : Operator) : Bool := inner op || ops.contains op

section

variable {operand : Reader} {inner : Operator → Bool} {group : Chain → Expr} {ops : List Operator}

theorem inner_le_either (op : Operator) (h : inner op = true) : either inner ops op = true := by
  rw [either, h, Bool.true_or]

theorem ops_le_either (op : Operator) (h : ops.contains op = true) : either inner ops op = true := by
  rw [either, h, Bool.or_true]

theorem operatorIn?_either_eq_none {t : Token} (h : operatorIn? inner t = none)
    (h' : operatorIn? ops.contains t = none) : operatorIn? (either inner ops) t = none := by
  simp only [operatorIn?, Option.filter_eq_none_iff] at h h' ⊢
  intro op hop
  rw [either, Bool.or_eq_true, not_or]
  exact ⟨h op hop, h' op hop⟩

/-- What the loop does when the operand in hand was read to its end. -/
theorem continueFrom_reads (hread : operand.Reads inner group) (left : Expr) (p : Parser)
    (hend : ∀ t ∈ p.remaining.head?, operatorIn? inner t = none) :
    ∃ links failure n, ReadsLinks (either inner ops) p.options p.endOfTokens p.remaining links failure n ∧
      (operand.continueFrom ops left p).2 = p.skip n ∧
      (∀ e, failure = some e → (operand.continueFrom ops left p).1 = .error e) ∧
      (failure = none → ∃ pieces, Cut inner ops pieces ∧ joined pieces = links ∧
        (operand.continueFrom ops left p).1 = .ok (fold group left pieces)) := by
  fun_induction continueFrom operand ops left p with
  | case1 left p hnone =>
    refine ⟨[], none, 0, .stop fun t ht => ?_, rfl, fun _ h => (by cases h),
      fun _ => ⟨[], List.forall_mem_nil _, rfl, rfl⟩⟩
    exact operatorIn?_either_eq_none (hend t ht) (takeOperator?_eq_none hnone t ht)
  | case2 left p op q hop e r hr =>
    obtain ⟨t, rest, symbol, hrem, ht, rfl, rfl⟩ := takeOperator?_eq_some hop
    obtain ⟨outcome, n, hreads, heq⟩ := hread (p.skip 1)
    obtain ⟨rfl, rfl⟩ : outcome = .error e ∧ r = (p.skip 1).skip n := by
      rw [hr] at heq; cases outcome <;> cases heq; exact ⟨rfl, rfl⟩
    rw [remaining_skip, hrem] at hreads
    obtain ⟨links, hlinks⟩ := ReadsLinks.of_reads_error (operatorIn?_mono ops_le_either ht)
      (hreads.mono inner_le_either)
    refine ⟨links, some e, n + 1, hrem ▸ hlinks, by rw [skip_skip, Nat.add_comm], ?_, fun h => by cases h⟩
    rintro _ ⟨⟩
    rfl
  | case3 left p op q hop right r hr ih =>
    obtain ⟨t, rest, symbol, hrem, ht, rfl, rfl⟩ := takeOperator?_eq_some hop
    obtain ⟨outcome, n, hreads, heq⟩ := hread (p.skip 1)
    obtain ⟨c, rfl, rfl, rfl⟩ : ∃ c, outcome = .ok c ∧ right = group c ∧ r = (p.skip 1).skip n := by
      rw [hr] at heq; rcases outcome with _ | c <;> cases heq; exact ⟨c, rfl, rfl, rfl⟩
    -- the operand was read to its end, which is what the rest of the loop asks for
    obtain ⟨links, failure, m, hlinks, hpos, hfail, hfold⟩ := ih (by rw [remaining_skip]; exact hreads.stops)
    have hskip : ((p.skip 1).skip n).skip m = p.skip (n + m + 1) := by
      rw [skip_skip, skip_skip, show 1 + (n + m) = n + m + 1 by omega]
    rw [hskip] at hpos
    simp only [remaining_skip, hrem, List.drop_succ_cons, List.drop_zero] at hreads hlinks
    have ht' : operatorIn? (either inner ops) t = some symbol := operatorIn?_mono ops_le_either ht
    cases failure with
    | some e =>
      obtain ⟨links', hlinks'⟩ := ReadsLinks.of_reads_error ht' (hreads.append_error inner_le_either hlinks)
      exact ⟨links', some e, _, hrem ▸ hlinks', hpos, hfail, fun h => by cases h⟩
    | none =>
      obtain ⟨pieces, hcut, rfl, hval⟩ := hfold rfl
      have hlinks' := ReadsLinks.of_reads_ok ht' (hreads.append inner_le_either hlinks)
      refine ⟨_, none, _, hrem ▸ hlinks', hpos, fun _ h => (by cases h),
        fun _ => ⟨(⟨symbol, t.offset⟩, c) :: pieces, ?_, rfl, hval⟩⟩
      exact List.forall_mem_cons.2 ⟨⟨(Option.filter_eq_some_iff.1 ht).2, hreads.operators⟩, hcut⟩

/-- Operands with operators between them are chains over the operators of both, grouped to the left. -/
theorem Reads.separatedBy {group' : Chain → Expr} (hread : operand.Reads inner group)
    (hgroup : ∀ (c : Chain) (pieces : List Piece), (∀ l ∈ c.links, inner l.op.value = true) →
      Cut inner ops pieces → group' (c.extend (joined pieces)) = fold group (group c) pieces) :
    (operand.separatedBy ops).Reads (either inner ops) group' := by
  intro p
  obtain ⟨outcome, n, hreads, heq⟩ := hread p
  simp only [Reader.separatedBy, heq]
  rcases outcome with e | c
  · exact ⟨.error e, n, hreads.mono inner_le_either, rfl⟩
  · have hend : ∀ t ∈ (p.skip n).remaining.head?, operatorIn? inner t = none := by
      rw [remaining_skip]; exact hreads.stops
    obtain ⟨links, failure, m, hlinks, hpos, hfail, hfold⟩ := @continueFrom_reads _ _ _ ops hread (group c) _ hend
    rw [skip_skip] at hpos
    rw [remaining_skip] at hlinks
    cases failure with
    | some e => exact ⟨.error e, n + m, hreads.append_error inner_le_either hlinks, Prod.ext (hfail e rfl) hpos⟩
    | none =>
      obtain ⟨pieces, hcut, rfl, hval⟩ := hfold rfl
      have hgroup := hgroup c pieces hreads.operators hcut
      exact ⟨_, n + m, hreads.append inner_le_either hlinks, Prod.ext (hval.trans (congrArg _ hgroup.symm)) hpos⟩

end

/-! ## The two levels of the grammar -/

theorem product_reads : product.Reads (either (fun _ => false) [.multiply, .divide]) Chain.product := by
  refine literal_reads.separatedBy fun c pieces hc hcut => ?_
  -- an operand of a product is a literal, so it has no links of its own
  have hnil : ∀ d : Chain, (∀ l ∈ d.links, false = true) → d.links = [] := fun d h =>
    List.eq_nil_iff_forall_not_mem.2 fun l hl => by cases h l hl
  have hjoin : joined pieces = pieces.map fun x => ⟨x.1, x.2.first⟩ := by
    induction pieces with
    | nil => rfl
    | cons x pieces ih =>
      obtain ⟨hx, hpieces⟩ := List.forall_mem_cons.1 hcut
      rw [joined, List.flatMap_cons, ← joined, ih hpieces, after, hnil x.2 hx.2]
      rfl
  rw [Chain.product, extend, hnil c hc, hjoin, List.nil_append, applyLinks, List.foldl_map]
  rfl

theorem sum_reads : sum.Reads (fun _ => true) toExpr := by
  have hall : either (either (fun _ => false) [.multiply, .divide]) [.add, .subtract] = fun _ => true := by
    funext op; cases op <;> rfl
  have hfree : ∀ op, either (fun _ => false) [.multiply, .divide] op = true → op.isAdditive = false := by
    intro op; cases op <;> decide
  have hadd : ∀ op, [Operator.add, .subtract].contains op = true → op.isAdditive = true := by
    intro op; cases op <;> decide
  rw [← hall]
  refine product_reads.separatedBy fun c pieces hc hcut => ?_
  rw [← toExpr_of_additiveFree fun l hl => hfree _ (hc l hl)]
  clear hc
  induction pieces generalizing c with
  | nil => rw [joined, List.flatMap_nil, extend_nil]; rfl
  | cons x pieces ih =>
    obtain ⟨⟨hx, hlinks⟩, hpieces⟩ := List.forall_mem_cons.1 hcut
    have hsplit : c.extend (joined (x :: pieces)) = (c.extend (x.2.after x.1)).extend (joined pieces) := by
      simp [extend, joined]
    rw [hsplit, ih _ hpieces, toExpr_extend_after (hadd _ hx) fun l hl => hfree _ (hlinks l hl)]
    rfl

end Reader

/-! ## Expressions -/

/-- What is made of a chain read with the tokens `left` after it, or of the failure to read one. -/
def answer (o : ParseOptions) : Except ParseError Chain → List Token → Except ParseError Expr
  | .error e, _ => .error e
  | .ok c, [] => .ok c.toExpr
  | .ok c, t :: _ => if o.requireEnd then .error (.trailingInput t.text t.span) else .ok c.toExpr

/-- A tree is made of a chain with nothing in the way after it. -/
theorem answer_eq_ok {o : ParseOptions} {r : Except ParseError Chain} {left : List Token} {e : Expr}
    (h : answer o r left = .ok e) : ∃ c, r = .ok c ∧ e = c.toExpr ∧ (o.requireEnd = true → left = []) := by
  rcases r with e' | c
  · cases h
  · cases left with
    | nil => cases h; exact ⟨c, rfl, rfl, fun _ => rfl⟩
    | cons t rest =>
      rw [answer] at h
      split at h <;> cases h
      rename_i hend
      exact ⟨c, rfl, rfl, fun h => absurd h hend⟩

/-- If no tree is made, no chain was read or a token after it is in the way. -/
theorem answer_eq_error {o : ParseOptions} {r : Except ParseError Chain} {left : List Token} {e : ParseError}
    (h : answer o r left = .error e) : r = .error e ∨ ∃ t, left.head? = some t ∧ e = .trailingInput t.text t.span := by
  rcases r with e' | c
  · cases h; exact .inl rfl
  · cases left with
    | nil => cases h
    | cons t rest =>
      rw [answer] at h
      split at h <;> cases h
      exact .inr ⟨t, rfl, rfl⟩

/-- What a call returns, in terms of the chain that comes next. -/
theorem parse_eq (p : Parser) : ∃ r n, Chain.Reads (fun _ => true) p.options p.endOfTokens p.remaining r n ∧
    p.parse = (answer p.options r (p.remaining.drop n), p.skip n) := by
  obtain ⟨r, n, hreads, heq⟩ := Reader.sum_reads p
  refine ⟨r, n, hreads, ?_⟩
  rcases r with e | c
  · simp only [parse, heq]; rfl
  · simp only [parse, heq, Except.map, getElem?_position, remaining_skip]
    cases p.remaining.drop n with
    | nil => rfl
    | cons t rest => rfl

/-- A new parser reads from the front of its tokens, and its position is the number of tokens that are gone. -/
theorem parse_ofTokens_eq (tokens : List Token) (o : ParseOptions) :
    ∃ r n, Chain.Reads (fun _ => true) o (ofTokens tokens o).endOfTokens tokens r n ∧
      (ofTokens tokens o).parse = (answer o r (tokens.drop n), ⟨tokens, n, o⟩) := by
  obtain ⟨r, n, hreads, heq⟩ := parse_eq (ofTokens tokens o)
  refine ⟨r, n, hreads, heq.trans ?_⟩
  rw [skip, ofTokens, Nat.zero_add]
  rfl

/-- A new parser that succeeds has read a chain and grouped it. -/
theorem reads_of_parse_ok {tokens : List Token} {o : ParseOptions} {e : Expr} {q : Parser}
    (h : (ofTokens tokens o).parse = (.ok e, q)) :
    ∃ c n, Chain.Reads (fun _ => true) o (ofTokens tokens o).endOfTokens tokens (.ok c) n ∧ e = c.toExpr ∧
      q = ⟨tokens, n, o⟩ ∧ (o.requireEnd = true → tokens.drop n = []) := by
  obtain ⟨r, n, hreads, heq⟩ := parse_ofTokens_eq tokens o
  rw [heq] at h
  obtain ⟨hans, rfl⟩ := Prod.mk.inj h
  obtain ⟨c, rfl, rfl, hend⟩ := answer_eq_ok hans
  exact ⟨c, n, hreads, rfl, rfl, hend⟩

end ArithLang.Parser
