/-
Integers as texts. An integer that is not negative is written as one number token, and that is a literal with the same
value; a literal has a value if it is a run of digits, and the value is written as the run without the zeros in front
(`integers_as_texts`).

That only runs of digits have a value does not hang on the reader of integers: a reader that takes signs, or marks
between the digits, may be used if it reads runs of digits right and the bytes are looked at as well
(`checkedNumber_eq`).
-/
import ArithLang.Proofs.Grammar.Basic
import ArithLang.Proofs.Number.Digits
import ArithLang.Proofs.Scanner.Tiling

namespace ArithLang

/-- Digits and nothing else, one at least. -/
def IsDigitRun (text : String) : Prop := text ≠ "" ∧ ∀ c ∈ text.toList, c ∈ "0123456789".toList

instance : DecidablePred IsDigitRun := fun text =>
  @instDecidableAnd _ _ (inferInstanceAs (Decidable (text ≠ ""))) (List.decidableBAll _ _)

theorem isDigitRun_iff {text : String} : IsDigitRun text ↔ text.toList ≠ [] ∧ AllDigits text.toList := by
  unfold IsDigitRun AllDigits
  simp only [Grammar.isDigit_iff, ne_eq, String.toList_eq_nil_iff]

/-! ## Written integers -/

theorem toList_text_natCast (n : ℕ) : (Number.int n).text.toList = Nat.toDigits 10 n := by
  have hneg : ¬(n : ℤ) < 0 := by omega
  simp [Number.text, hneg]

theorem isDigitRun_text_natCast (n : ℕ) : IsDigitRun (Number.int n).text := by
  rw [isDigitRun_iff, toList_text_natCast]
  exact ⟨Nat.toDigits_ne_nil, allDigits_toDigits n⟩

theorem lex_of_isDigitRun {text : String} (h : IsDigitRun text) : lex text = [⟨.number, text, 0⟩] := by
  have hnumber : text.toList ∈ Grammar.number := Grammar.mem_number.2 (isDigitRun_iff.1 h)
  have hblank : AllBlank [] := nofun
  have hend : NoDigitNext [] := nofun
  have hrest : Tokenizes (0 + byteLength [] + byteLength text.toList) [] [] := .blank hblank
  have htokens := Grammar.tokenizes_number hblank hnumber hend hrest
  rw [lex_eq_iff]
  simpa using htokens

/-! ## Literals -/

theorem literalValue?_of_isDigitRun {text : String} (h : IsDigitRun text) :
    literalValue? text = some (placeValue text.toList) := by
  obtain ⟨hne, hdigits⟩ := isDigitRun_iff.1 h
  exact literalValue?_eq_some_iff.2 ⟨hne, hdigits, (ofDigitChars_eq_placeValue _).symm⟩

theorem literalValue?_of_not_isDigitRun {text : String} (h : ¬IsDigitRun text) : literalValue? text = none := by
  cases hvalue : literalValue? text with
  | none => rfl
  | some n =>
    obtain ⟨hne, hdigits, -⟩ := literalValue?_eq_some_iff.1 hvalue
    exact absurd (isDigitRun_iff.2 ⟨hne, hdigits⟩) h

theorem value_of_isDigitRun {text : String} (h : IsDigitRun text) (offset : Nat) :
    (Expr.literal ⟨text, offset⟩).value = .ok (.int (placeValue text.toList)) :=
  Expr.value_literal_eq_ok_iff.2 ⟨_, literalValue?_of_isDigitRun h, rfl⟩

theorem value_of_not_isDigitRun {text : String} (h : ¬IsDigitRun text) (offset : Nat) :
    (Expr.literal ⟨text, offset⟩).value = .error (.invalidLiteral text (.ofText offset text)) := by
  have herror : literalNumber ⟨text, offset⟩ = .error (.invalidLiteral text (.ofText offset text)) :=
    literalNumber_eq_error_iff.2 ⟨literalValue?_of_not_isDigitRun h, rfl⟩
  rw [Expr.value_literal, herror]
  rfl

theorem placeValue_toDigits (n : ℕ) : placeValue (Nat.toDigits 10 n) = n := by
  rw [← ofDigitChars_eq_placeValue, Nat.ofDigitChars_ten_toDigits]

/-! ## Readers that take more -/

/-- The reader takes runs of digits for what they stand for. Of other texts nothing is said. -/
def ReadsDigits (read? : String → Option ℤ) : Prop :=
  ∀ text, IsDigitRun text → read? text = some (placeValue text.toList : ℤ)

/-- A literal as `read?` takes it, if all of its bytes are those of digits. -/
def checkedNumber (read? : String → Option ℤ) (text : Located String) : Except EvalError ℤ :=
  let digits := text.value ≠ "" ∧ (bytesOf text.value.toList).all fun b => 0x30 ≤ b && b ≤ 0x39
  match read? text.value with
  | some n => if digits then .ok n else .error (.invalidLiteral text.value (.ofText text.offset text.value))
  | none => .error (.invalidLiteral text.value (.ofText text.offset text.value))

/-- A digit is one byte, and its byte is in no other character. -/
theorem utf8EncodeChar_digit_iff {c : Char} :
    (∀ b ∈ String.utf8EncodeChar c, 0x30 ≤ b ∧ b ≤ 0x39) ↔ c.isDigit = true := by
  have hdigit : c.isDigit = true ↔ 48 ≤ c.val.toNat ∧ c.val.toNat ≤ 57 := by
    simp [Char.isDigit, UInt32.le_iff_toNat_le]
  rw [hdigit]
  -- a character outside ASCII has bytes from 128 on only
  fun_cases String.utf8EncodeChar c <;>
    simp only [List.mem_cons, List.not_mem_nil, or_false, forall_eq_or_imp, forall_eq, UInt8.le_iff_toNat_le,
      UInt8.toNat_ofNat', UInt8.reduceToNat] <;>
    omega

theorem bytesOf_digits_iff {cs : List Char} :
    ((bytesOf cs).all fun b => 0x30 ≤ b && b ≤ 0x39) = true ↔ AllDigits cs := by
  simp only [List.all_eq_true, bytesOf, List.mem_flatMap, Bool.and_eq_true, decide_eq_true_eq, forall_exists_index,
    and_imp, AllDigits, ← utf8EncodeChar_digit_iff]
  exact ⟨fun h c hc b hb => h b c hc hb, fun h b c hc hb => h c hc b hb⟩

theorem checkedNumber_eq {read? : String → Option ℤ} (h : ReadsDigits read?) (text : Located String) :
    checkedNumber read? text = literalNumber text := by
  have hcheck : (text.value ≠ "" ∧ (bytesOf text.value.toList).all fun b => 0x30 ≤ b && b ≤ 0x39) ↔
      IsDigitRun text.value := by
    rw [isDigitRun_iff, bytesOf_digits_iff, ne_eq, ne_eq, String.toList_eq_nil_iff]
  unfold checkedNumber literalNumber
  by_cases hrun : IsDigitRun text.value
  · rw [h _ hrun, literalValue?_of_isDigitRun hrun]
    exact if_pos (hcheck.2 hrun)
  · rw [literalValue?_of_not_isDigitRun hrun]
    cases read? text.value with
    | none => rfl
    | some n => exact if_neg (mt hcheck.1 hrun)

/-- Digits, and marks after the first one. -/
def readMarked? (cs : List Char) : Option ℕ :=
  if cs.head?.any Char.isDigit ∧ cs.all fun c => c.isDigit || c == '_' then
    some (Nat.ofDigitChars 10 (cs.filter (· ≠ '_')) 0)
  else none

/-- Digits and marks, with a sign in front of them or none. -/
def readSigned? (text : String) : Option ℤ :=
  match text.toList with
  | '-' :: cs => (readMarked? cs).map fun n => -(n : ℤ)
  | '+' :: cs => (readMarked? cs).map fun n => (n : ℤ)
  | cs => (readMarked? cs).map fun n => (n : ℤ)

theorem readMarked?_of_digits {cs : List Char} (hne : cs ≠ []) (h : AllDigits cs) :
    readMarked? cs = some (placeValue cs) := by
  obtain ⟨d, ds, rfl⟩ := List.exists_cons_of_ne_nil hne
  have hmarks : (d :: ds).filter (· ≠ '_') = d :: ds := by
    refine List.filter_eq_self.2 fun c hc => ?_
    simp only [ne_eq, decide_not, Bool.not_eq_true', decide_eq_false_iff_not]
    rintro rfl
    exact not_mem_of_allDigits h rfl hc
  have hall : ((d :: ds).all fun c => c.isDigit || c == '_') = true :=
    List.all_eq_true.2 fun c hc => by rw [h c hc, Bool.true_or]
  have hhead : (d :: ds).head?.any Char.isDigit = true := h d List.mem_cons_self
  rw [readMarked?, if_pos ⟨hhead, hall⟩, hmarks, ofDigitChars_eq_placeValue]

theorem readsDigits_readSigned? : ReadsDigits readSigned? := by
  intro text h
  obtain ⟨hne, hdigits⟩ := isDigitRun_iff.1 h
  have hread := readMarked?_of_digits hne hdigits
  unfold readSigned?
  split
  · rename_i hsign
    rw [hsign] at hdigits
    exact absurd List.mem_cons_self (not_mem_of_allDigits hdigits rfl)
  · rename_i hsign
    rw [hsign] at hdigits
    exact absurd List.mem_cons_self (not_mem_of_allDigits hdigits rfl)
  · rw [hread]
    rfl

/-! ## There and back -/

/-- An integer that is not negative is written as one number token that spans the text, and as a literal that token has
the integer for its value. A literal has a value if and only if it is a run of digits: the digits count by their places,
and the value is written as the run without the zeros in front. Any other text is an invalid literal, also where a reader
of integers takes more than runs of digits. -/
theorem integers_as_texts :
    (∀ n : ℕ, lex (Number.int n).text = [⟨.number, (Number.int n).text, 0⟩] ∧
      (Token.mk .number (Number.int n).text 0).span = ⟨0, (Number.int n).text.utf8ByteSize⟩ ∧
      ∀ offset, (Expr.literal ⟨(Number.int n).text, offset⟩).value = .ok (.int n)) ∧
    (∀ text offset, IsDigitRun text → (Expr.literal ⟨text, offset⟩).value = .ok (.int (placeValue text.toList)) ∧
      (Number.int (placeValue text.toList)).text = String.ofList (withoutLeadingZeros text.toList)) ∧
    (∀ text offset, ¬IsDigitRun text →
      (Expr.literal ⟨text, offset⟩).value = .error (.invalidLiteral text (.ofText offset text))) ∧
    (∀ text ∈ ["", "+5", "-3", "1_000", "٣", "５"], ¬IsDigitRun text) ∧
    ∀ read?, ReadsDigits read? → ∀ text, checkedNumber read? text = literalNumber text := by
  refine ⟨fun n => ?_, fun text offset h => ⟨value_of_isDigitRun h offset, ?_⟩, fun text offset h =>
    value_of_not_isDigitRun h offset, by decide, fun read? h text => checkedNumber_eq h text⟩
  · have hrun := isDigitRun_text_natCast n
    refine ⟨lex_of_isDigitRun hrun, rfl, fun offset => ?_⟩
    rw [value_of_isDigitRun hrun, toList_text_natCast, placeValue_toDigits]
  · obtain ⟨-, hdigits⟩ := isDigitRun_iff.1 h
    rw [← String.toList_inj, toList_text_natCast, String.toList_ofList, ← ofDigitChars_eq_placeValue,
      toDigits_ofDigitChars hdigits]

/-- The literal 007 is seven and `+5` is none, also where the reader takes `+5` and `1_000`. -/
theorem integers_as_texts_signed :
    (IsDigitRun "007" ∧ (Expr.literal ⟨"007", 4⟩).value = .ok (.int (placeValue "007".toList))) ∧
    (¬IsDigitRun "+5" ∧ (Expr.literal ⟨"+5", 4⟩).value = .error (.invalidLiteral "+5" ⟨4, 2⟩)) ∧
    ReadsDigits readSigned? ∧
    readSigned? "+5" = some 5 ∧ checkedNumber readSigned? ⟨"+5", 4⟩ = .error (.invalidLiteral "+5" ⟨4, 2⟩) ∧
    readSigned? "1_000" = some 1000 ∧ checkedNumber readSigned? ⟨"1_000", 4⟩ = .error (.invalidLiteral "1_000" ⟨4, 5⟩) ∧
    checkedNumber readSigned? ⟨"007", 4⟩ = .ok 7 := by
  obtain ⟨-, hrun, hother, -, hreader⟩ := integers_as_texts
  have hcheck := hreader readSigned? readsDigits_readSigned?
  have hseven : IsDigitRun "007" := by decide
  have hfive : ¬IsDigitRun "+5" := by decide
  refine ⟨⟨hseven, (hrun _ 4 hseven).1⟩, ⟨hfive, hother _ 4 hfive⟩, readsDigits_readSigned?, by decide +kernel, ?_,
    by decide +kernel, ?_, ?_⟩
  · rw [hcheck]
    decide +kernel
  · rw [hcheck]
    decide +kernel
  · rw [hcheck]
    decide +kernel

end ArithLang
