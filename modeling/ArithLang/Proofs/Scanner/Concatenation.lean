/-
Two texts one after the other. The tokens of the whole are those of the first text and then those of the second one,
moved by the bytes of the first; but where there is a digit on both sides of the cut, the number that ends the first
text and the number that begins the second one are one number of the whole (`lex_append`).

Without such digits the cut is one between tokens (`Tokenizes.append`). With them, only the last token of the first
text has something to do with the second one, so the tokens before it are passed over one by one
(`Tokenizes.append_of_digits`).
-/
import ArithLang.Proofs.Scanner.Rendering
import ArithLang.Proofs.Scanner.Spacing

namespace ArithLang

/-! ## A number on both sides -/

/-- A digit ends the first text and a digit begins the second one. -/
def CutsNumber (a b : String) : Prop :=
  (∃ c ∈ a.toList.getLast?, c.isDigit = true) ∧ ∃ c ∈ b.toList.head?, c.isDigit = true

theorem not_noDigitBefore_iff {cs : List Char} : ¬NoDigitBefore cs ↔ ∃ c ∈ cs.getLast?, c.isDigit = true := by
  unfold NoDigitBefore
  push Not
  simp only [ne_eq, Bool.not_eq_false]

theorem not_noDigitNext_iff {cs : List Char} : ¬NoDigitNext cs ↔ ∃ c ∈ cs.head?, c.isDigit = true := by
  unfold NoDigitNext
  push Not
  simp only [ne_eq, Bool.not_eq_false]

theorem cutsNumber_iff {a b : String} : CutsNumber a b ↔ ¬NoDigitBefore a.toList ∧ ¬NoDigitNext b.toList := by
  rw [not_noDigitBefore_iff, not_noDigitNext_iff]
  rfl

/-- The number that is written when the second token follows the first one without a gap. -/
def Token.join (t u : Token) : Token := ⟨.number, t.text ++ u.text, t.offset⟩

theorem Token.stop_join {t u : Token} (h : u.offset = t.span.stop) : (t.join u).span.stop = u.span.stop := by
  rw [stop_span, stop_span, h, stop_span, join, String.toList_append, byteLength_append, Nat.add_assoc]

theorem Token.WellFormed.join {t u : Token} (ht : t.WellFormed) (hu : u.WellFormed) (hkt : t.kind = .number)
    (hku : u.kind = .number) : (t.join u).WellFormed := by
  have hdigits : AllDigits (t.text.toList ++ u.text.toList) :=
    List.forall_mem_append.2 ⟨ht.kind_eq_number_iff.1 hkt, hu.kind_eq_number_iff.1 hku⟩
  have hne : t.text.toList ++ u.text.toList ≠ [] := fun hnil =>
    ht.text_ne_empty (String.toList_eq_nil_iff.1 (List.append_eq_nil_iff.1 hnil).1)
  rw [Token.join, ← String.ofList_toList (s := t.text ++ u.text), String.toList_append]
  exact .number hne hdigits

/-! ## The tokens at a cut -/

variable {offset : Nat} {cs ds : List Char} {ts us : List Token}

/-- A token ends with a digit only if it is a number. -/
theorem Token.WellFormed.kind_of_digitBefore {t : Token} (h : t.WellFormed) (hdigit : ¬NoDigitBefore t.text.toList) :
    t.kind = .number := by
  cases h with
  | number => rfl
  | @symbol c _ _ hc =>
    refine absurd (fun d hd => ?_) hdigit
    rw [String.toList_singleton] at hd
    cases hd
    exact hc

theorem not_noDigitBefore_of_append (h : ¬NoDigitBefore (cs ++ ds)) (hds : ds ≠ []) : ¬NoDigitBefore ds := fun hno =>
  h (forall_getLast?_append hno fun hnil => absurd hnil hds)

/-- A text that begins with a digit begins with a number. -/
theorem Tokenizes.of_digitNext (h : Tokenizes offset ds us) (hdigit : ¬NoDigitNext ds) :
    ∃ u after rest, us = u :: rest ∧ ds = u.text.toList ++ after ∧ u.WellFormed ∧ u.kind = .number ∧
      u.offset = offset ∧ NoDigitNext after ∧ Tokenizes u.span.stop after rest := by
  cases h with
  | blank hb => exact absurd (noDigitNext_of_allBlank hb) hdigit
  | @token _ blanks after u rest hb hu hat hafter h =>
    cases blanks with
    | nil =>
      have hk : u.kind = .number := by
        by_contra hk
        exact hdigit ((hu.noDigitNext_iff after).2 hk)
      exact ⟨u, after, rest, rfl, rfl, hu, hk, by simpa using hat, hafter hk, h⟩
    | cons b blanks =>
      refine absurd ?_ hdigit
      rintro c ⟨⟩
      exact not_isDigit_of_isBlank (hb b List.mem_cons_self)

/-- Where a number is cut, the last token before the cut and the first one after it are joined. -/
theorem Tokenizes.append_of_digits (h : Tokenizes offset cs ts) (h' : Tokenizes (offset + byteLength cs) ds us)
    (hcs : ¬NoDigitBefore cs) (hds : ¬NoDigitNext ds) :
    ∃ front t u rest, ts = front ++ [t] ∧ us = u :: rest ∧ t.kind = .number ∧ u.kind = .number ∧
      Tokenizes offset (cs ++ ds) (front ++ t.join u :: rest) := by
  induction h with
  | blank hb => exact absurd (noDigitBefore_of_allBlank hb) hcs
  | @token offset blanks rest t ts hb ht hat hrest h ih =>
    rw [← Token.stop_span_add hat] at h'
    by_cases hnil : rest = []
    · -- this is the last token before the cut
      subst hnil
      obtain rfl : ts = [] := by rw [← h.eq_tokensFrom, tokensFrom_nil]
      have htext : t.text.toList ≠ [] := mt String.toList_eq_nil_iff.1 ht.text_ne_empty
      rw [List.append_nil] at hcs
      have hkt : t.kind = .number := ht.kind_of_digitBefore (not_noDigitBefore_of_append hcs htext)
      obtain ⟨u, after, rest, rfl, rfl, hu, hku, hat', hafter, h⟩ := h'.of_digitNext hds
      rw [byteLength_nil, Nat.add_zero] at hat'
      refine ⟨[], t, u, rest, rfl, rfl, hkt, hku, ?_⟩
      have hjoined := Tokenizes.token hb (ht.join hu hkt hku) hat (fun _ => hafter) ((Token.stop_join hat').symm ▸ h)
      simpa [Token.join] using hjoined
    · -- the digit before the cut is one of the rest
      have hdigit := not_noDigitBefore_of_append (List.append_assoc _ _ _ ▸ hcs) hnil
      obtain ⟨front, t', u, us, rfl, rfl, hkt, hku, h⟩ := ih h' hdigit
      refine ⟨t :: front, t', u, us, rfl, rfl, hkt, hku, ?_⟩
      have hnext : t.kind = .number → NoDigitNext (rest ++ ds) := by
        intro hk
        obtain ⟨c, rest, rfl⟩ := List.exists_cons_of_ne_nil hnil
        exact hrest hk
      have htoken := Tokenizes.token hb ht hat hnext h
      simpa only [List.append_assoc, List.cons_append] using htoken

/-! ## Whole texts -/

/-- Texts put together have the tokens of both, those of the second text moved by the bytes of the first, unless a
number is cut. Then the last token of the first text and the first one of the second are one number, where the first
of the two stands, and the others are as before. -/
theorem lex_append (a b : String) :
    (¬CutsNumber a b → lex (a ++ b) = lex a ++ (lex b).map (·.shift a.utf8ByteSize)) ∧
    (CutsNumber a b → ∃ front t u rest, lex a = front ++ [t] ∧ lex b = u :: rest ∧
      t.kind = .number ∧ u.kind = .number ∧
      lex (a ++ b) = front ++ ⟨.number, t.text ++ u.text, t.offset⟩ :: rest.map (·.shift a.utf8ByteSize)) := by
  have ha : Tokenizes 0 a.toList (lex a) := tokenizes_tokensFrom 0 a.toList
  have hb : Tokenizes (0 + byteLength a.toList) b.toList ((lex b).map (·.shift a.utf8ByteSize)) := by
    rw [byteLength_toList]
    exact (tokenizes_tokensFrom 0 b.toList).shift a.utf8ByteSize
  rw [cutsNumber_iff, lex_eq_iff, String.toList_append]
  constructor
  · intro hcut
    refine ha.append hb ?_
    rwa [not_and_or, not_not, not_not] at hcut
  · rintro ⟨hbefore, hnext⟩
    obtain ⟨front, t, u, rest, hfront, hrest, hkt, hku, h⟩ := ha.append_of_digits hb hbefore hnext
    obtain ⟨u, rest', hlex, rfl, rfl⟩ := List.map_eq_cons_iff.1 hrest
    exact ⟨front, t, u, rest', hfront, hlex, hkt, hku, lex_eq_iff.2 (by rw [String.toList_append]; exact h)⟩

/-- The number that is cut stands after a letter of two bytes. -/
theorem lex_append_cut_number : CutsNumber "é12" "34 5" ∧
    lex ("é12" ++ "34 5") = [⟨.other 'é', "é", 0⟩, ⟨.number, "1234", 2⟩, ⟨.number, "5", 7⟩] := by
  have ha : lex "é12" = [⟨.other 'é', "é", 0⟩] ++ [⟨.number, "12", 2⟩] := by decide +kernel
  have hb : lex "34 5" = [⟨.number, "34", 0⟩, ⟨.number, "5", 3⟩] := by decide +kernel
  have hcut : CutsNumber "é12" "34 5" := ⟨⟨'2', by decide +kernel, rfl⟩, '3', by decide +kernel, rfl⟩
  refine ⟨hcut, ?_⟩
  obtain ⟨front, t, u, rest, hfront, hrest, -, -, h⟩ := (lex_append "é12" "34 5").2 hcut
  obtain ⟨rfl, hlast⟩ := List.append_inj' (ha.symm.trans hfront) rfl
  obtain rfl : _ = t := List.singleton_injective hlast
  obtain ⟨rfl, rfl⟩ := List.cons.inj (hb.symm.trans hrest)
  exact h

end ArithLang
