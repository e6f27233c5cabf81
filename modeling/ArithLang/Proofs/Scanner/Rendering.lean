/-
Tokens written out. A text is put together from pieces: each is a blank gap, which may be empty, and a kind of token
with one of its texts. The scanner gives the pieces back, each at the place where it was written, if and only if no
number follows another without a gap (`lex_render_iff`).

Gaps and pieces are what `Tokenizes` asks for by themselves, except that no digit may come after a number; and that
is a matter of the next piece alone (`noDigitNext_render_cons`).
-/
import ArithLang.Proofs.Scanner.Tiling
import Mathlib.Data.List.Chain

namespace ArithLang

/-! ## Pieces -/

/-- The texts that tokens of a kind have. -/
inductive TokenKind.Spelled : TokenKind → String → Prop
  | number {text : String} : text ≠ "" → (∀ c ∈ text.toList, c.isDigit = true) → Spelled .number text
  | plus : Spelled .plus "+"
  | minus : Spelled .minus "-"
  | star : Spelled .star "*"
  | slash : Spelled .slash "/"
  | other {c : Char} : c ∉ "+-*/ \t\n".toList → c.isDigit = false → Spelled (.other c) (String.singleton c)

/-- A text of spaces, tabs and newlines. -/
structure Gap where
  text : String
  blank : ∀ c ∈ text.toList, c ∈ " \t\n".toList

/-- A token to be written, and the gap before it. -/
structure Piece where
  gap : Gap
  kind : TokenKind
  text : String
  spelled : kind.Spelled text

/-- Two numbers have a gap between them. -/
def Piece.Apart (p q : Piece) : Prop := p.kind = .number → q.kind = .number → q.gap.text ≠ ""

/-- The pieces one after the other, and a gap at the end. -/
def render (pieces : List Piece) (last : Gap) : String :=
  String.join (pieces.map fun p => p.gap.text ++ p.text) ++ last.text

/-- The token that is written when the piece begins at byte `offset`. -/
def Piece.token (offset : Nat) (p : Piece) : Token := ⟨p.kind, p.text, offset + p.gap.text.utf8ByteSize⟩

@[simp] theorem Piece.kind_token (offset : Nat) (p : Piece) : (p.token offset).kind = p.kind := rfl
@[simp] theorem Piece.text_token (offset : Nat) (p : Piece) : (p.token offset).text = p.text := rfl

/-- The tokens that are written from byte `offset` on. -/
def written (offset : Nat) : List Piece → List Token
  | [] => []
  | p :: pieces => p.token offset :: written (p.token offset).span.stop pieces

theorem toList_render_nil (last : Gap) : (render [] last).toList = last.text.toList := by
  simp [render, String.join]

theorem toList_render_cons (p : Piece) (pieces : List Piece) (last : Gap) :
    (render (p :: pieces) last).toList = p.gap.text.toList ++ (p.text.toList ++ (render pieces last).toList) := by
  simp [render]

/-- Each token stands after the pieces before it and its own gap. -/
theorem written_eq (offset : Nat) (pieces : List Piece) : written offset pieces = pieces.mapIdx fun i p =>
    ⟨p.kind, p.text, offset + (render (pieces.take i) p.gap).utf8ByteSize⟩ := by
  induction pieces generalizing offset with
  | nil => rfl
  | cons p pieces ih =>
    have hfirst : render [] p.gap = p.gap.text := by
      rw [← String.toList_inj, toList_render_nil]
    have hnext (i : Nat) (g : Gap) : (p.token offset).span.stop + (render (pieces.take i) g).utf8ByteSize =
        offset + (render (p :: pieces.take i) g).utf8ByteSize := by
      rw [Token.stop_span, ← byteLength_toList (render (p :: pieces.take i) g), toList_render_cons]
      simp only [Piece.token, byteLength_append, byteLength_toList]
      omega
    simp only [written, ih, List.mapIdx_cons, List.take_zero, List.take_succ_cons, hfirst, hnext]
    rfl

/-! ## Pieces as tokens -/

theorem Gap.allBlank (g : Gap) : AllBlank g.text.toList := fun c hc => isBlank_iff.2 (g.blank c hc)

theorem TokenKind.Spelled.wellFormed {k : TokenKind} {text : String} (h : k.Spelled text) (offset : Nat) :
    (Token.mk k text offset).WellFormed := by
  cases h with
  | number hne hdigits =>
    rw [← String.ofList_toList (s := text)]
    exact .number (mt String.toList_eq_nil_iff.1 hne) hdigits
  | plus => exact .symbol (c := '+') rfl rfl
  | minus => exact .symbol (c := '-') rfl rfl
  | star => exact .symbol (c := '*') rfl rfl
  | slash => exact .symbol (c := '/') rfl rfl
  | @other c hc hd =>
    have hblank : isBlank c = false := by
      rw [Bool.eq_false_iff, Ne, isBlank_iff]
      exact fun hmem => hc (List.mem_append_right "+-*/".toList hmem)
    have hkind : ofChar c = .other c := by
      rcases ofChar_cases c with ⟨rfl, -⟩ | ⟨rfl, -⟩ | ⟨rfl, -⟩ | ⟨rfl, -⟩ | ⟨-, h⟩
      · exact absurd (by decide) hc
      · exact absurd (by decide) hc
      · exact absurd (by decide) hc
      · exact absurd (by decide) hc
      · exact h
    rw [← hkind]
    exact .symbol hblank hd

/-- The first character of a token is a digit exactly if the token is a number. -/
theorem Token.WellFormed.noDigitNext_iff {t : Token} (h : t.WellFormed) (cs : List Char) :
    NoDigitNext (t.text.toList ++ cs) ↔ t.kind ≠ .number := by
  cases h with
  | @number digits _ hne hdigits =>
    obtain ⟨d, digits, rfl⟩ := List.exists_cons_of_ne_nil hne
    simp [NoDigitNext, hdigits d List.mem_cons_self]
  | @symbol c _ _ hd => simp [NoDigitNext, hd, TokenKind.ofChar_ne_number]

theorem noDigitNext_render_nil (last : Gap) : NoDigitNext (render [] last).toList := by
  rw [toList_render_nil]
  exact noDigitNext_of_allBlank last.allBlank

/-- What is written begins with a digit only if its first piece is a number without a gap. -/
theorem noDigitNext_render_cons (p : Piece) (pieces : List Piece) (last : Gap) :
    NoDigitNext (render (p :: pieces) last).toList ↔ (p.kind = .number → p.gap.text ≠ "") := by
  have hgap := p.gap.allBlank
  rw [toList_render_cons]
  by_cases hempty : p.gap.text = ""
  · have htext := (p.spelled.wellFormed 0).noDigitNext_iff (render pieces last).toList
    simpa [hempty] using htext
  · obtain ⟨b, blanks, hb⟩ := List.exists_cons_of_ne_nil (mt String.toList_eq_nil_iff.1 hempty)
    have hdigit : b.isDigit = false := not_isDigit_of_isBlank (hgap b (by rw [hb]; exact List.mem_cons_self))
    simp [NoDigitNext, hb, hdigit, hempty]

/-! ## Scanning what was written -/

/-- Where the blanks before the first token are known, it is known what is after it. -/
theorem tokenizes_cons_iff {offset : Nat} {blanks rest : List Char} {t : Token} {ts : List Token} (hb : AllBlank blanks)
    (ht : t.WellFormed) (hat : t.offset = offset + byteLength blanks) :
    Tokenizes offset (blanks ++ (t.text.toList ++ rest)) (t :: ts) ↔
      (t.kind = .number → NoDigitNext rest) ∧ Tokenizes t.span.stop rest ts := by
  refine ⟨fun h => ?_, fun h => .token hb ht hat h.1 h.2⟩
  generalize hcs : blanks ++ (t.text.toList ++ rest) = cs at h
  cases h with
  | @token _ blanks' rest' _ _ _ _ hat' hrest h =>
    -- both cuts of the text are at the byte where the token begins
    have htext : String.ofList blanks ++ String.ofList (t.text.toList ++ rest) =
        String.ofList blanks' ++ String.ofList (t.text.toList ++ rest') := by
      rw [← String.ofList_append, ← String.ofList_append, hcs]
    have hsize : byteLength blanks = byteLength blanks' := by omega
    obtain ⟨-, hafter⟩ := append_inj_of_size htext hsize
    obtain rfl : rest = rest' := List.append_cancel_left (String.ofList_injective hafter)
    exact ⟨hrest, h⟩

theorem tokenizes_render_iff {offset : Nat} {pieces : List Piece} {last : Gap} :
    Tokenizes offset (render pieces last).toList (written offset pieces) ↔ pieces.IsChain Piece.Apart := by
  induction pieces generalizing offset with
  | nil =>
    rw [toList_render_nil]
    exact ⟨fun _ => .nil, fun _ => .blank last.allBlank⟩
  | cons p pieces ih =>
    have hwf : (p.token offset).WellFormed := p.spelled.wellFormed _
    have hat : (p.token offset).offset = offset + byteLength p.gap.text.toList := by rw [byteLength_toList]; rfl
    rw [toList_render_cons, written, ← Piece.text_token offset p, tokenizes_cons_iff p.gap.allBlank hwf hat, ih,
      Piece.kind_token]
    cases pieces with
    | nil => simp [noDigitNext_render_nil]
    | cons q pieces => rw [noDigitNext_render_cons, List.isChain_cons_cons, Piece.Apart]

/-- Tokens that are written out are found again, with their kinds and texts, each after as many bytes as were written
before it, if and only if there is a gap wherever a number follows a number. -/
theorem lex_render_iff (pieces : List Piece) (last : Gap) :
    (lex (render pieces last) = pieces.mapIdx fun i p =>
      ⟨p.kind, p.text, (render (pieces.take i) p.gap).utf8ByteSize⟩) ↔ pieces.IsChain Piece.Apart := by
  have hplaces := written_eq 0 pieces
  simp only [Nat.zero_add] at hplaces
  rw [← hplaces, lex_eq_iff, tokenizes_render_iff]

end ArithLang
