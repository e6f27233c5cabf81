/-
The reader reads every JSON document as the value the grammar gives it, so no text is a document of two values
(`IsDocument.unique`). Parts of the reader that go on as long as they can, over blanks and over names and numbers, are
right only if nothing of that sort comes next (`NotAhead`); what comes next in a document are commas, colons and the
signs that close a list.
-/
import ArithLang.Proofs.Json.Reader

namespace ArithLang.Json

/-! ## What comes next -/

/-- None of the characters `p` holds of comes next. -/
def NotAhead (p : Char → Bool) (s : List Char) : Prop := ∀ c ∈ s.head?, p c = false

theorem NotAhead.mono {p q : Char → Bool} {s : List Char} (h : NotAhead q s) (hpq : ∀ c, q c = false → p c = false) :
    NotAhead p s := fun c hc => hpq c (h c hc)

theorem notAhead_cons {p : Char → Bool} {c : Char} (h : p c = false) (rest : List Char) : NotAhead p (c :: rest) := by
  intro d hd
  obtain rfl : c = d := by simpa using hd
  exact h

theorem takeWhile_append_of_notAhead {p : Char → Bool} {cs rest : List Char} (hall : cs.all p) (h : NotAhead p rest) :
    (cs ++ rest).takeWhile p = cs ∧ (cs ++ rest).dropWhile p = rest := by
  rw [List.takeWhile_append_of_pos (List.all_eq_true.1 hall), List.dropWhile_append_of_pos (List.all_eq_true.1 hall)]
  cases rest with
  | nil => simp
  | cons c rest => simp [h c rfl]

/-- The signs before which the reader looks for something other than a value. -/
def isGap (c : Char) : Bool := isSpace c || c = ']' || c = '\x7d'

/-- There is a first character, and something begins with it. -/
def Begins (s : List Char) : Prop := ∃ c rest, s = c :: rest ∧ isGap c = false

theorem Begins.append {cs : List Char} (h : Begins cs) (rest : List Char) : Begins (cs ++ rest) := by
  obtain ⟨c, cs', rfl, hc⟩ := h
  exact ⟨c, cs' ++ rest, rfl, hc⟩

theorem Begins.notAhead {cs : List Char} (h : Begins cs) : NotAhead isGap cs := by
  obtain ⟨c, cs', rfl, hc⟩ := h
  exact notAhead_cons hc cs'

/-! ## Words -/

theorem wordChars_of_digits {cs : List Char} (h : cs.all Char.isDigit) : cs.all isWordChar := by
  rw [List.all_eq_true] at h ⊢
  intro c hc
  simp [isWordChar, Char.isAlphanum, h c hc]

theorem wordChars_of_isInteger {cs : List Char} (h : isInteger cs) : cs.all isWordChar ∧ cs ≠ [] := by
  simp only [isInteger, Bool.and_eq_true, Bool.not_eq_true', List.isEmpty_eq_false_iff] at h
  exact ⟨wordChars_of_digits h.1.2, h.1.1⟩

theorem wordChars_of_isFraction {cs : List Char} (h : isFraction cs) : cs.all isWordChar := by
  cases cs with
  | nil => rfl
  | cons c cs =>
    simp only [isFraction, Bool.and_eq_true, decide_eq_true_eq] at h
    obtain ⟨⟨rfl, -⟩, hdigits⟩ := h
    rw [List.all_cons, wordChars_of_digits hdigits]
    rfl

/-- A sign that may stand in front is a word character. -/
theorem wordChars_of_unsigned {cs : List Char} {sign : Prop} [Decidable sign]
    (hsign : sign → ∃ c, cs.head? = some c ∧ isWordChar c) (h : (if sign then cs.tail else cs).all isWordChar) :
    cs.all isWordChar := by
  split at h
  next hhead =>
    obtain ⟨c, hc, hword⟩ := hsign hhead
    rw [List.eq_cons_of_mem_head? hc, List.all_cons, hword, h]
    rfl
  next => exact h

theorem wordChars_of_isExponent {cs : List Char} (h : isExponent cs) : cs.all isWordChar := by
  cases cs with
  | nil => rfl
  | cons c cs =>
    simp only [isExponent, Bool.and_eq_true, Bool.or_eq_true, decide_eq_true_eq] at h
    obtain ⟨⟨hc, -⟩, hdigits⟩ := h
    have hcs : cs.all isWordChar := by
      refine wordChars_of_unsigned ?_ (wordChars_of_digits hdigits)
      rintro (hplus | hminus)
      · exact ⟨'+', hplus, rfl⟩
      · exact ⟨'-', hminus, rfl⟩
    rw [List.all_cons, hcs, Bool.and_true]
    obtain rfl | rfl := hc <;> rfl

theorem wordChars_of_isNumber {cs : List Char} (h : isNumber cs) : cs.all isWordChar ∧ cs ≠ [] := by
  simp only [isNumber, Bool.and_eq_true] at h
  obtain ⟨⟨hinteger, hfraction⟩, hexponent⟩ := h
  obtain ⟨hhead, hne⟩ := wordChars_of_isInteger hinteger
  have hunsigned : (if cs.head? = some '-' then cs.tail else cs).all isWordChar := by
    generalize (if cs.head? = some '-' then cs.tail else cs) = unsigned at *
    have hmantissa : (unsigned.takeWhile isBeforeExponent).all isWordChar := by
      generalize unsigned.takeWhile isBeforeExponent = mantissa at *
      rw [← List.takeWhile_append_dropWhile (p := (· ≠ '.')) (l := mantissa), List.all_append, hhead,
        wordChars_of_isFraction hfraction]
      rfl
    rw [← List.takeWhile_append_dropWhile (p := isBeforeExponent) (l := unsigned), List.all_append, hmantissa,
      wordChars_of_isExponent hexponent]
    rfl
  constructor
  · exact wordChars_of_unsigned (fun hminus => ⟨'-', hminus, rfl⟩) hunsigned
  · rintro rfl
    exact hne rfl

theorem wordChars_of_scalar {word : List Char} {v : Value} (h : scalar? word = some v) :
    word.all isWordChar ∧ word ≠ [] := by
  rw [scalar?] at h
  split at h
  next hword => subst hword; decide
  split at h
  next hword => subst hword; decide
  split at h
  next hword => subst hword; decide
  split at h
  next hnumber => exact wordChars_of_isNumber hnumber
  next => exact nomatch h

theorem exists_cons_of_scalar {word : List Char} {v : Value} (h : scalar? word = some v) :
    ∃ c cs, word = c :: cs ∧ isWordChar c := by
  obtain ⟨hall, hne⟩ := wordChars_of_scalar h
  obtain ⟨c, cs, rfl⟩ := List.exists_cons_of_ne_nil hne
  exact ⟨c, cs, rfl, List.all_eq_true.1 hall c List.mem_cons_self⟩

theorem readScalar_append {word rest : List Char} {v : Value} (h : scalar? word = some v)
    (hrest : NotAhead isWordChar rest) : readScalar (word ++ rest) = some (v, rest) := by
  obtain ⟨htake, hdrop⟩ := takeWhile_append_of_notAhead (wordChars_of_scalar h).1 hrest
  rw [readScalar, htake, hdrop, h]
  rfl

/-! ## Strings -/

theorem length_of_unit {digits : List Char} {n : Nat} (h : unit? digits = some n) : digits.length = 4 := by
  rw [unit?] at h
  split at h
  next hlength => exact hlength
  next => exact nomatch h

theorem readEscaped_append {cs : List Char} {c : Char} (h : EscapedChar cs c) (rest : List Char) :
    readEscaped (cs ++ rest) = some (c, rest) := by
  cases h with
  | plain control quote backslash => simp [readEscaped, control, quote, backslash]
  | @short letter _ hletter =>
    -- the branch of `\u` comes before that of the other letters
    have hunit : letter ≠ 'u' := by
      rintro rfl
      exact nomatch hletter
    simp [readEscaped, hletter]
  | unit hunit hupper hlower =>
    have hlength := length_of_unit hunit
    simp [readEscaped, readUnits, ← hlength, hunit, hupper, hlower]
  | @pair digits digits' n m hunit hunit' hupper hlower =>
    have hlength := length_of_unit hunit
    have hlength' := length_of_unit hunit'
    simp [readEscaped, readUnits, List.take_append, List.drop_append, hlength, hlength', hunit, hunit', hupper, hlower]

theorem EscapedChar.head {cs : List Char} {c : Char} (h : EscapedChar cs c) :
    ∃ d rest, cs = d :: rest ∧ d ≠ '"' := by
  cases h with
  | plain _ quote _ => exact ⟨_, _, rfl, quote⟩
  | short _ => exact ⟨_, _, rfl, by decide⟩
  | unit _ _ _ => exact ⟨_, _, rfl, by decide⟩
  | pair _ _ _ _ => exact ⟨_, _, rfl, by decide⟩

theorem readText_append {cs text : List Char} (h : EscapedText cs text) (rest : List Char) {n : Nat}
    (hn : cs.length < n) : readText n (cs ++ '"' :: rest) = some (text, rest) := by
  induction h generalizing n with
  | nil =>
    cases n with
    | zero => exact absurd hn (by simp)
    | succ n => simp [readText]
  | @cons cs more c text h hmore ih =>
    obtain ⟨d, cs', rfl, hd⟩ := h.head
    cases n with
    | zero => exact absurd hn (by simp)
    | succ n =>
      have hlength : more.length < n := by
        simp only [List.length_append, List.length_cons] at hn
        omega
      have hread := readEscaped_append h (more ++ '"' :: rest)
      rw [List.cons_append] at hread
      simp [readText, hd, hread, ih hlength]

/-! ## What is written is read -/

/-- Right before `rest`, unless a character comes next on which `stop` holds, what `R` writes in at most `bound`
characters is read as it was written. -/
def Reads {α : Type} (R : List Char → α → Prop) (read : Reader α) (stop : Char → Bool) (bound : Nat) : Prop :=
  ∀ ⦃cs a⦄, R cs a → cs.length ≤ bound → ∀ rest, NotAhead stop rest → read (cs ++ rest) = some (a, rest)

theorem Quoted.begins {cs : List Char} {text : String} (h : Quoted cs text) : Begins cs := by
  cases h with
  | mk _ => exact ⟨_, _, rfl, by decide⟩

theorem reads_quoted (stop : Char → Bool) (bound : Nat) : Reads Quoted readQuoted stop bound := by
  intro _ text h _ rest _
  cases h with
  | @mk cs _ htext =>
    have hread : readText (cs.length + rest.length + 2) (cs ++ '"' :: rest) = some (text.toList, rest) :=
      readText_append htext rest (by omega)
    have hlength : ('"' :: cs ++ ['"'] ++ rest).length = cs.length + rest.length + 2 := by
      simp only [List.length_append, List.length_cons, List.length_nil]
      omega
    rw [readQuoted, hlength]
    simp [hread]

/-- The characters that would be taken for a part of a value or of the blanks after it. -/
def isLoose (c : Char) : Bool := isSpace c || isWordChar c

theorem isSpace_iff {c : Char} : isSpace c ↔ c = ' ' ∨ c = '\t' ∨ c = '\n' ∨ c = '\r' := by simp [isSpace, or_assoc]

theorem isGap_iff {c : Char} : isGap c ↔ isSpace c ∨ c = ']' ∨ c = '\x7d' := by simp [isGap, or_assoc]

theorem not_isSpace_of_not_isGap {c : Char} (h : isGap c = false) : isSpace c = false := by
  rw [Bool.eq_false_iff] at h ⊢
  exact fun hspace => h (isGap_iff.2 (.inl hspace))

theorem not_isWordChar_of_isGap {c : Char} (h : isGap c) : isWordChar c = false := by
  obtain hspace | rfl | rfl := isGap_iff.1 h
  · obtain rfl | rfl | rfl | rfl := isSpace_iff.1 hspace <;> decide
  · decide
  · decide

section
variable {α : Type} {R : List Char → α → Prop} {read : Reader α} {bound : Nat}

theorem Reads.spaced (hread : Reads R read isWordChar bound) (hbegins : ∀ cs a, R cs a → Begins cs) :
    Reads (Spaced R) (readSpaced read) isLoose bound := by
  intro _ a h hlength rest hrest
  cases h with
  | @mk before cs after _ hbefore h hafter =>
    have hbound : cs.length ≤ bound := by
      simp only [List.length_append] at hlength
      omega
    have hstart : NotAhead isSpace (cs ++ (after ++ rest)) :=
      ((hbegins _ _ h).append _).notAhead.mono fun c => not_isSpace_of_not_isGap
    have hstop : NotAhead isWordChar (after ++ rest) := by
      cases after with
      | nil => exact hrest.mono fun c hc => (Bool.or_eq_false_iff.1 hc).2
      | cons d after =>
        have hspace : isSpace d := List.all_eq_true.1 hafter d List.mem_cons_self
        exact notAhead_cons (not_isWordChar_of_isGap (isGap_iff.2 (.inl hspace))) _
    have hend : NotAhead isSpace rest := hrest.mono fun c hc => (Bool.or_eq_false_iff.1 hc).1
    rw [readSpaced, List.append_assoc, List.append_assoc, skipSpace, (takeWhile_append_of_notAhead hbefore hstart).2,
      hread h hbound _ hstop]
    simp only [Option.bind_eq_bind, Option.bind_some, skipSpace, (takeWhile_append_of_notAhead hafter hend).2]

theorem Reads.member (hread : Reads R read isWordChar bound) (hbegins : ∀ cs a, R cs a → Begins cs) :
    Reads (Member R) (readMember read) isLoose bound := by
  intro _ _ h hlength rest hrest
  cases h with
  | @mk name cs text a hname h =>
    simp only [List.length_append, List.length_cons] at hlength
    have hcolon : NotAhead isLoose (':' :: (cs ++ rest)) := notAhead_cons (by decide) _
    have hreadName := (reads_quoted isWordChar bound).spaced (fun _ _ => Quoted.begins) hname (by omega) _ hcolon
    have hreadValue := hread.spaced hbegins h (by omega) rest hrest
    rw [readMember, List.append_assoc, List.cons_append, hreadName]
    simp [hreadValue]

theorem readListed_append {cs : List Char} {as : List α} (hread : Reads R read isLoose bound) (h : Listed R cs as)
    (hbound : cs.length ≤ bound) {n : Nat} (hn : cs.length < n) {rest : List Char} (hrest : NotAhead isLoose rest)
    (hcomma : rest.head? ≠ some ',') : readListed read n (cs ++ rest) = some (as, rest) := by
  induction h generalizing n with
  | one h =>
    cases n with
    | zero => exact absurd hn (by omega)
    | succ n =>
      rw [readListed, hread h hbound rest hrest]
      simp [hcomma]
  | @more cs more a as h hmore ih =>
    simp only [List.length_append, List.length_cons] at hbound hn
    have hnext : NotAhead isLoose (',' :: (more ++ rest)) := notAhead_cons (by decide) _
    cases n with
    | zero => exact absurd hn (by omega)
    | succ n =>
      rw [readListed, List.append_assoc, List.cons_append, hread h (by omega) _ hnext]
      simp [ih (by omega) (show more.length < n by omega)]

/-- A list that is not empty begins with something other than the sign that closes it. -/
theorem Begins.skipSpace_append {cs : List Char} (h : Begins (skipSpace cs)) (rest : List Char) :
    Begins (skipSpace (cs ++ rest)) := by
  obtain ⟨c, cs', hcs, hc⟩ := h
  have hskip : skipSpace (cs ++ rest) = c :: (cs' ++ rest) := by
    rw [skipSpace, List.dropWhile_append, ← skipSpace, hcs]
    rfl
  exact ⟨c, cs' ++ rest, hskip, hc⟩

theorem Spaced.begins {cs : List Char} {a : α} (h : Spaced R cs a) (hbegins : ∀ cs a, R cs a → Begins cs) :
    Begins (skipSpace cs) := by
  cases h with
  | @mk before cs after _ hbefore h _ =>
    have hstart : Begins (cs ++ after) := (hbegins _ _ h).append _
    rw [List.append_assoc, skipSpace,
      (takeWhile_append_of_notAhead hbefore (hstart.notAhead.mono fun c => not_isSpace_of_not_isGap)).2]
    exact hstart

theorem Member.begins {cs : List Char} {m : String × α} (h : Member R cs m) : Begins (skipSpace cs) := by
  cases h with
  | mk hname _ => exact (hname.begins fun _ _ => Quoted.begins).skipSpace_append _

theorem Listed.begins {cs : List Char} {as : List α} (h : Listed R cs as)
    (hbegins : ∀ cs a, R cs a → Begins (skipSpace cs)) : Begins (skipSpace cs) := by
  cases h with
  | one h => exact hbegins _ _ h
  | more h _ => exact (hbegins _ _ h).skipSpace_append _

theorem readUpTo_empty {close : Char} {space : List Char} (hclose : isSpace close = false) (h : space.all isSpace)
    (rest : List Char) : readUpTo read close (space ++ close :: rest) = some ([], rest) := by
  rw [readUpTo, skipSpace, (takeWhile_append_of_notAhead h (notAhead_cons hclose rest)).2]
  simp

theorem readUpTo_append {close : Char} {cs : List Char} {as : List α} (hread : Reads R read isLoose bound)
    (hbegins : ∀ cs a, R cs a → Begins (skipSpace cs)) (hgap : isGap close) (hclose : isLoose close = false)
    (hcomma : close ≠ ',') (h : Listed R cs as) (hbound : cs.length ≤ bound) (rest : List Char) :
    readUpTo read close (cs ++ close :: rest) = some (as, rest) := by
  have hfirst : (skipSpace (cs ++ close :: rest)).head? ≠ some close := by
    obtain ⟨c, cs', hcs, hc⟩ := (h.begins hbegins).skipSpace_append (close :: rest)
    rw [hcs]
    rintro heq
    obtain rfl : c = close := Option.some.inj heq
    exact absurd hgap (by simp [hc])
  have hstop : NotAhead isLoose (close :: rest) := notAhead_cons hclose rest
  have hlength : cs.length < (cs ++ close :: rest).length := by
    simp only [List.length_append, List.length_cons]
    omega
  rw [readUpTo, if_neg hfirst, readListed_append hread h hbound hlength hstop (by simpa using hcomma)]
  simp

end

/-! ## Values -/

theorem Writes.begins {cs : List Char} {v : Value} (h : Writes cs v) : Begins cs := by
  cases h with
  | scalar h =>
    obtain ⟨c, cs', rfl, hword⟩ := exists_cons_of_scalar h
    refine ⟨c, cs', rfl, ?_⟩
    rw [Bool.eq_false_iff]
    intro hgap
    simp [not_isWordChar_of_isGap hgap] at hword
  | string h => exact h.begins
  | emptyArray _ | array _ | emptyObject _ | object _ => exact ⟨_, _, rfl, by decide⟩

theorem readValue_append (n : Nat) : Reads Writes (readValue n) isWordChar n := by
  -- the induction is on the bound, as lists of values have values in them: these are shorter than the list
  induction n with
  | zero =>
    intro cs v h hlength
    obtain ⟨c, cs', rfl, -⟩ := h.begins
    exact absurd hlength (by simp)
  | succ n ih =>
    have hitems : Reads (Spaced Writes) (readSpaced (readValue n)) isLoose n := ih.spaced fun _ _ => Writes.begins
    have hmembers : Reads (Member Writes) (readMember (readValue n)) isLoose n := ih.member fun _ _ => Writes.begins
    intro cs v h hlength rest hrest
    cases h with
    | scalar h =>
      obtain ⟨c, cs', rfl, hword⟩ := exists_cons_of_scalar h
      have hhead : c ≠ '"' ∧ c ≠ '[' ∧ c ≠ '\x7b' := by
        refine ⟨?_, ?_, ?_⟩ <;> rintro rfl <;> exact absurd hword (by decide)
      rw [readValue, ← readScalar_append h hrest]
      simp [hhead]
    | string h =>
      have hquote : (cs ++ rest).head? = some '"' := by
        cases h with
        | mk _ => rfl
      rw [readValue, if_pos hquote, reads_quoted isWordChar _ h hlength rest hrest]
      rfl
    | emptyArray h =>
      simp [readValue, readUpTo_empty (show isSpace ']' = false by decide) h rest]
    | array h =>
      simp only [List.length_append, List.length_cons, List.length_nil] at hlength
      have hread := readUpTo_append hitems (fun _ _ h => h.begins fun _ _ => Writes.begins)
        (show isGap ']' by decide) (by decide) (by decide) h (by omega) rest
      simp [readValue, hread]
    | emptyObject h =>
      simp [readValue, readUpTo_empty (show isSpace '\x7d' = false by decide) h rest]
    | object h =>
      simp only [List.length_append, List.length_cons, List.length_nil] at hlength
      have hread := readUpTo_append hmembers (fun _ _ => Member.begins)
        (show isGap '\x7d' by decide) (by decide) (by decide) h (by omega) rest
      simp [readValue, hread]

/-! ## Documents -/

/-- The reader reads every document. -/
theorem read?_of_isDocument {text : String} {v : Value} (h : IsDocument text v) : read? text = some v := by
  have hread : readSpaced (readValue text.length) text.toList = some (v, []) := by
    have hspaced := (readValue_append text.length).spaced (fun _ _ => Writes.begins) h
      (Nat.le_of_eq String.length_toList) [] (fun _ hc => nomatch hc)
    rwa [List.append_nil] at hspaced
  rw [read?, hread]

theorem read?_eq_some_iff {text : String} {v : Value} : read? text = some v ↔ IsDocument text v :=
  ⟨isDocument_of_read?, read?_of_isDocument⟩

example : read? " [\"\\u0041\\ud83d\\ude00\", -1.5e3, \x7b\"a\" : null\x7d]\n" =
    some (.array [.string "A😀", .number "-1.5e3", .object [("a", .null)]]) := by cbv

/-- A text is a document of one value at most. -/
theorem IsDocument.unique {text : String} {v w : Value} (hv : IsDocument text v) (hw : IsDocument text w) : v = w :=
  Option.some.inj ((read?_of_isDocument hv).symm.trans (read?_of_isDocument hw))

end ArithLang.Json
