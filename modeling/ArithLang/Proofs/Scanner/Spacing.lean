/-
The blanks of a text have no part in its tokens but for their offsets, unless they stand between two digits. Texts
that come from each other by adding and removing single blanks, never between two digits, are respaced (`Respaced`).

Main fact: texts are respaced if and only if their tokens are of the same kinds with the same texts
(`respaced_iff_alike`). For the tokens after a cut are those of the characters after it, moved by the bytes before it
(`Tokenizes.shift`), and one blank more at a cut moves them by one byte more. The other way round, every text can be
respaced to the texts of its tokens with one blank before each (`Tokenizes.respaced`).
-/
import ArithLang.Proofs.Parser.Offsets
import ArithLang.Proofs.Scanner.Layout
import Mathlib.Logic.Relation

namespace ArithLang

/-! ## Tokens moved -/

/-- The token when `n` more bytes stand before it. -/
def Token.shift (n : Nat) (t : Token) : Token := { t with offset := t.offset + n }

theorem Token.WellFormed.shift {t : Token} (h : t.WellFormed) (n : Nat) : (t.shift n).WellFormed := by
  cases h with
  | number hne hdigits => exact .number hne hdigits
  | symbol hb hd => exact .symbol hb hd

theorem Tokenizes.shift {offset : Nat} {cs : List Char} {ts : List Token} (h : Tokenizes offset cs ts) (n : Nat) :
    Tokenizes (offset + n) cs (ts.map (·.shift n)) := by
  induction h with
  | blank hb => exact .blank hb
  | @token offset blanks rest t ts hb ht hat hrest _ ih =>
    have hstop : (t.shift n).span.stop = t.span.stop + n := by
      rw [Token.stop_span, Token.stop_span]
      exact Nat.add_right_comm _ _ _
    exact .token hb (ht.shift n) (by rw [Token.shift, hat, Nat.add_right_comm]) hrest (hstop ▸ ih)

/-! ## What is in a token but its place -/

def Token.content (t : Token) : TokenKind × String := (t.kind, t.text)

theorem Token.alike_iff {t u : Token} : t.Alike u ↔ t.content = u.content :=
  ⟨fun h => Prod.ext h.kind h.text, fun h => ⟨congrArg Prod.fst h, congrArg Prod.snd h⟩⟩

theorem Token.forall₂_alike_iff {ts us : List Token} :
    List.Forall₂ Alike ts us ↔ ts.map content = us.map content := by
  rw [← List.forall₂_eq_eq_eq, List.forall₂_map_left_iff, List.forall₂_map_right_iff]
  exact ⟨List.Forall₂.imp fun _ _ => alike_iff.1, List.Forall₂.imp fun _ _ => alike_iff.2⟩

/-! ## Blanks added and removed -/

/-- The second text has one blank more than the first, and not between two digits. -/
inductive OneBlankMore : String → String → Prop
  | intro {before after : List Char} {b : Char} : isBlank b = true → NoDigitBefore before ∨ NoDigitNext after →
      OneBlankMore (.ofList (before ++ after)) (.ofList (before ++ b :: after))

/-- The texts differ in their blanks only, and each run of digits of one is a run of digits of the other. -/
def Respaced : String → String → Prop := Relation.EqvGen OneBlankMore

theorem content_of_oneBlankMore {s s' : String} (h : OneBlankMore s s') :
    (lex s).map Token.content = (lex s').map Token.content := by
  obtain @⟨before, after, b, hb, hcut⟩ := h
  have hbefore := tokenizes_tokensFrom 0 before
  have hafter := tokenizes_tokensFrom (0 + byteLength before) after
  have hblank : Tokenizes (0 + byteLength before) ([b] ++ after) _ :=
    .append_blanks (by simpa [AllBlank] using hb) (hafter.shift (byteLength [b]))
  have hmore : NoDigitNext ([b] ++ after) := by
    rintro c ⟨⟩
    exact not_isDigit_of_isBlank hb
  rw [lex_eq_iff.2 (by rw [String.toList_ofList]; exact hbefore.append hafter hcut),
    lex_eq_iff.2 (by rw [String.toList_ofList]; exact hbefore.append hblank (.inr hmore))]
  rw [List.map_append, List.map_append, List.map_map]
  rfl

theorem alike_of_respaced {s s' : String} (h : Respaced s s') : List.Forall₂ Token.Alike (lex s) (lex s') := by
  rw [Token.forall₂_alike_iff]
  induction h with
  | rel _ _ h => exact content_of_oneBlankMore h
  | refl => rfl
  | symm _ _ _ ih => exact ih.symm
  | trans _ _ _ _ _ ih ih' => exact ih.trans ih'

/-! ## One blank before each token -/

theorem noDigitBefore_concat {cs : List Char} {c : Char} (h : c.isDigit = false) : NoDigitBefore (cs ++ [c]) := by
  intro d hd
  rw [List.getLast?_concat, Option.mem_some_iff] at hd
  exact hd ▸ h

theorem not_isDigit_space : ' '.isDigit = false := by decide

theorem respaced_append_blanks {blanks : List Char} (before after : List Char) (hb : AllBlank blanks)
    (hcut : NoDigitBefore before ∨ NoDigitNext after) :
    Respaced (.ofList (before ++ after)) (.ofList (before ++ (blanks ++ after))) := by
  induction blanks with
  | nil => exact .refl _
  | cons b blanks ih =>
    obtain ⟨hb, hblanks⟩ := List.forall_mem_cons.1 hb
    refine .trans _ _ _ (ih hblanks) (.rel _ _ (.intro hb (hcut.imp id fun hafter => ?_)))
    refine NoDigitNext.append (fun c hc => ?_) hafter
    exact not_isDigit_of_isBlank (hblanks c (List.mem_of_head? hc))

/-- The texts of the tokens, each after one blank. -/
def spaced (ts : List Token) : List Char := ts.flatMap fun t => ' ' :: t.text.toList

theorem Tokenizes.respaced {offset : Nat} {cs : List Char} {ts : List Token} (h : Tokenizes offset cs ts)
    (before : List Char) (hcut : NoDigitBefore before ∨ NoDigitNext cs) :
    Respaced (.ofList (before ++ cs)) (.ofList (before ++ spaced ts)) := by
  induction h generalizing before with
  | @blank offset cs hb =>
    have hless := respaced_append_blanks before [] hb (.inr nofun)
    rw [List.append_nil cs] at hless
    exact .symm _ _ hless
  | @token offset blanks rest t ts hb ht hat hrest _ ih =>
    have hspace : NoDigitBefore (before ++ [' ']) := noDigitBefore_concat not_isDigit_space
    -- one blank is put in first, so that the others can be taken out
    have hmore : Respaced (.ofList (before ++ (blanks ++ (t.text.toList ++ rest))))
        (.ofList (before ++ ' ' :: (blanks ++ (t.text.toList ++ rest)))) := .rel _ _ (.intro (by decide) hcut)
    have hless := respaced_append_blanks (before ++ [' ']) (t.text.toList ++ rest) hb (.inl hspace)
    have hnext : NoDigitBefore (before ++ ' ' :: t.text.toList) ∨ NoDigitNext rest := by
      cases ht with
      | number hne hdigits => exact .inr (hrest rfl)
      | @symbol c _ _ hc =>
        left
        rw [String.toList_singleton, List.append_cons]
        exact noDigitBefore_concat hc
    have hrest := ih _ hnext
    simp only [List.append_assoc, List.cons_append, List.nil_append] at hless hrest
    refine .trans _ _ _ hmore (.trans _ _ _ (.symm _ _ hless) ?_)
    rw [spaced, List.flatMap_cons, List.cons_append]
    exact hrest

theorem respaced_spaced (s : String) : Respaced s (.ofList (spaced (lex s))) := by
  have h := (tokenizes_tokensFrom 0 s.toList).respaced [] (.inl nofun)
  rwa [List.nil_append, List.nil_append, String.ofList_toList] at h

/-- The tokens of two texts differ in their offsets at most if and only if the texts differ in their blanks at most,
and no run of digits is split or joined. -/
theorem respaced_iff_alike {s s' : String} : Respaced s s' ↔ List.Forall₂ Token.Alike (lex s) (lex s') := by
  refine ⟨alike_of_respaced, fun h => ?_⟩
  have hspaced : spaced (lex s) = spaced (lex s') := by
    have htexts := congrArg (List.flatMap fun x => ' ' :: x.2.toList) (Token.forall₂_alike_iff.1 h)
    rw [List.flatMap_map, List.flatMap_map] at htexts
    exact htexts
  exact .trans _ _ _ (respaced_spaced s) (hspaced ▸ .symm _ _ (respaced_spaced s'))

end ArithLang
