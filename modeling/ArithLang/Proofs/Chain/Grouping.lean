/-
Chains and trees. `toExpr` groups a chain in one pass from left to right with two trees in hand, the
sum so far and the term in progress; `Expr.chain` takes a tree apart again. The two are inverse to each
other between chains and canonical trees: the chain of a grouped chain is the chain (`chain_toExpr`), what
is grouped is canonical (`isCanonical_toExpr`), and a canonical tree is the grouping of its chain
(`toExpr_chain`).

A tree is canonical if each of its nodes is one of a sum of products, both associated to the left.
-/
import ArithLang.Proofs.Chain.Basic
import ArithLang.Expr

namespace ArithLang

/-! ## Trees taken apart -/

namespace Expr

/-- The symbols of the tree, left operand, operator, right operand. -/
def inOrder : Expr → List Symbol
  | literal text => [.literal text]
  | binary op left right => left.inOrder ++ .operator op :: right.inOrder

/-- The chain of the literals and operators of the tree, whatever its shape. -/
def chain : Expr → Chain
  | literal text => ⟨text, []⟩
  | binary op left right => left.chain.extend (right.chain.after op)

theorem symbols_chain (e : Expr) : e.chain.symbols = e.inOrder := by
  induction e with
  | literal text => rfl
  | binary op left right ihl ihr =>
    rw [inOrder, ← ihl, ← ihr]
    simp only [chain, Chain.symbols, Chain.extend, Chain.symbolsOf_append, Chain.symbolsOf_after, List.cons_append]

theorem length_inOrder (e : Expr) : e.inOrder.length = e.nodeCount := by
  induction e with
  | literal text => rfl
  | binary op left right ihl ihr =>
    simp only [inOrder, nodeCount, List.length_append, List.length_cons, ihl, ihr]; omega

/-! ## Canonical trees -/

def isLiteral : Expr → Bool
  | literal _ => true
  | binary .. => false

/-- The tree has no `+` and no `-`. -/
def isAdditiveFree : Expr → Bool
  | literal _ => true
  | binary op left right => !op.value.isAdditive && left.isAdditiveFree && right.isAdditiveFree

/-- At every node, the right operand of `+` and `-` is free of both; the left operand of `*` and `/`
is free of `+` and `-`, and the right one is a literal. -/
def isCanonical : Expr → Bool
  | literal _ => true
  | binary op left right =>
    left.isCanonical && right.isCanonical &&
      if op.value.isAdditive then right.isAdditiveFree else left.isAdditiveFree && right.isLiteral

end Expr

namespace Chain

/-! ## Grouping -/

/-- The operations of `links` carried out on `e` one after the other. -/
def applyLinks (e : Expr) (links : List Link) : Expr :=
  links.foldl (fun left l => .binary l.op left (.literal l.operand)) e

/-- A chain as a product, whatever its operators. -/
def product (c : Chain) : Expr := applyLinks (.literal c.first) c.links

/-- What is in hand after a part of a chain: the sum so far with the operator that waits for its right
operand, if there was an additive operator, and the term in progress. -/
structure Grouping where
  sum : Option (Expr × Located Operator)
  term : Expr

namespace Grouping

/-- The tree if nothing more comes. -/
def close (g : Grouping) : Expr :=
  match g.sum with
  | none => g.term
  | some (left, op) => .binary op left g.term

/-- An additive operator ends the term, any other operator extends it. -/
def step (g : Grouping) (l : Link) : Grouping :=
  if l.op.value.isAdditive then ⟨some (g.close, l.op), .literal l.operand⟩
  else ⟨g.sum, .binary l.op g.term (.literal l.operand)⟩

end Grouping

/-- The tree of a chain: products first, then their sum, each from left to right. -/
def toExpr (c : Chain) : Expr := (c.links.foldl Grouping.step ⟨none, .literal c.first⟩).close

/-- Every operator of the links is `*` or `/`. -/
def AdditiveFree (links : List Link) : Prop := ∀ l ∈ links, l.op.value.isAdditive = false

theorem foldl_step_of_additiveFree {links : List Link} (h : AdditiveFree links) (g : Grouping) :
    links.foldl Grouping.step g = ⟨g.sum, applyLinks g.term links⟩ := by
  induction links generalizing g with
  | nil => rfl
  | cons l links ih =>
    obtain ⟨hl, hlinks⟩ := List.forall_mem_cons.1 h
    have hstep : g.step l = ⟨g.sum, .binary l.op g.term (.literal l.operand)⟩ := by simp [Grouping.step, hl]
    rw [List.foldl_cons, ih hlinks, hstep]
    rfl

theorem toExpr_of_additiveFree {c : Chain} (h : AdditiveFree c.links) : c.toExpr = c.product := by
  rw [toExpr, foldl_step_of_additiveFree h]; rfl

/-- A term more: the tree so far becomes the left operand. -/
theorem toExpr_extend_after {op : Located Operator} (hop : op.value.isAdditive = true) {d : Chain}
    (hd : AdditiveFree d.links) (c : Chain) :
    (c.extend (d.after op)).toExpr = .binary op c.toExpr d.product := by
  have hstep : ∀ g : Grouping, g.step ⟨op, d.first⟩ = ⟨some (g.close, op), .literal d.first⟩ := fun g => by
    simp [Grouping.step, hop]
  rw [toExpr, extend, after, List.foldl_append, List.foldl_cons, hstep, foldl_step_of_additiveFree hd]
  rfl

/-- A factor more, as long as there is only one term. -/
theorem toExpr_extend_factor {l : Link} (hl : l.op.value.isAdditive = false) {c : Chain}
    (hc : AdditiveFree c.links) : (c.extend [l]).toExpr = .binary l.op c.toExpr (.literal l.operand) := by
  have h : AdditiveFree (c.extend [l]).links := by
    intro m hm
    rcases List.mem_append.1 hm with hm | hm
    · exact hc m hm
    · rw [List.mem_singleton.1 hm]; exact hl
  rw [toExpr_of_additiveFree h, toExpr_of_additiveFree hc]
  simp only [product, applyLinks, extend, List.foldl_append, List.foldl_cons, List.foldl_nil]

/-! ## The chain of a grouped chain -/

theorem chain_close_step (g : Grouping) (l : Link) : (g.step l).close.chain = g.close.chain.extend [l] := by
  rcases g with ⟨_ | ⟨left, op⟩, term⟩ <;> by_cases hl : l.op.value.isAdditive <;>
    simp [Grouping.step, Grouping.close, hl, Expr.chain, extend, after]

theorem chain_foldl_step (g : Grouping) (links : List Link) :
    (links.foldl Grouping.step g).close.chain = g.close.chain.extend links := by
  induction links generalizing g with
  | nil => simp
  | cons l links ih => rw [List.foldl_cons, ih, chain_close_step]; simp [extend]

theorem chain_toExpr (c : Chain) : c.toExpr.chain = c := by
  rw [toExpr, chain_foldl_step]
  simp [Grouping.close, Expr.chain, extend]

theorem inOrder_toExpr (c : Chain) : c.toExpr.inOrder = c.symbols := by rw [← Expr.symbols_chain, chain_toExpr]

/-! ## Grouped chains are canonical -/

/-- The trees in hand are canonical, and the term has no additive operator. -/
structure Grouping.WF (g : Grouping) : Prop where
  term : g.term.isCanonical = true
  free : g.term.isAdditiveFree = true
  sum : ∀ left op, g.sum = some (left, op) → left.isCanonical = true ∧ op.value.isAdditive = true

theorem Grouping.WF.close {g : Grouping} (h : g.WF) : g.close.isCanonical = true := by
  obtain ⟨_ | ⟨left, op⟩, term⟩ := g
  · exact h.term
  · obtain ⟨hleft, hop⟩ := h.sum left op rfl
    simp [Grouping.close, Expr.isCanonical, hleft, hop, h.term, h.free]

theorem Grouping.WF.step {g : Grouping} (h : g.WF) (l : Link) : (g.step l).WF := by
  unfold Grouping.step
  split
  · rename_i hl
    refine ⟨rfl, rfl, ?_⟩
    rintro left op hsum
    cases hsum
    exact ⟨h.close, hl⟩
  · rename_i hl
    exact ⟨by simp [Expr.isCanonical, hl, h.term, h.free, Expr.isLiteral],
      by simp [Expr.isAdditiveFree, hl, h.free], h.sum⟩

theorem Grouping.WF.foldl {g : Grouping} (h : g.WF) (links : List Link) : (links.foldl Grouping.step g).WF := by
  induction links generalizing g with
  | nil => exact h
  | cons l links ih => exact ih (h.step l)

theorem isCanonical_toExpr (c : Chain) : c.toExpr.isCanonical = true :=
  (Grouping.WF.foldl (g := ⟨none, .literal c.first⟩) ⟨rfl, rfl, nofun⟩ c.links).close

end Chain

/-! ## Canonical trees are grouped chains -/

namespace Expr

theorem additiveFree_chain {e : Expr} (h : e.isAdditiveFree = true) : Chain.AdditiveFree e.chain.links := by
  induction e with
  | literal text => simp [chain, Chain.AdditiveFree]
  | binary op left right ihl ihr =>
    simp only [isAdditiveFree, Bool.and_eq_true, Bool.not_eq_true'] at h
    obtain ⟨⟨hop, hl⟩, hr⟩ := h
    intro l hmem
    simp only [chain, Chain.extend, Chain.after, List.mem_append, List.mem_cons] at hmem
    rcases hmem with hmem | rfl | hmem
    exacts [ihl hl l hmem, hop, ihr hr l hmem]

theorem toExpr_chain {e : Expr} (h : e.isCanonical = true) : e.chain.toExpr = e := by
  induction e with
  | literal text => rfl
  | binary op left right ihl ihr =>
    simp only [isCanonical, Bool.and_eq_true] at h
    obtain ⟨⟨hl, hr⟩, hshape⟩ := h
    -- the right operand is a whole term after `+` and `-`, and a single literal after `*` and `/`
    split at hshape
    · rename_i hop
      have hfree := additiveFree_chain hshape
      have hright : right.chain.product = right := by rw [← Chain.toExpr_of_additiveFree hfree, ihr hr]
      rw [chain, Chain.toExpr_extend_after hop hfree, ihl hl, hright]
    · rename_i hop
      obtain ⟨hfree, hlit⟩ := Bool.and_eq_true_iff.1 hshape
      cases right with
      | literal text =>
        have := Chain.toExpr_extend_factor (l := ⟨op, text⟩) (by simpa using hop) (additiveFree_chain hfree)
        rw [ihl hl] at this
        exact this
      | binary => cases hlit

end Expr

end ArithLang
