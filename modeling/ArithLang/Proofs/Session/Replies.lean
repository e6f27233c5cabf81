/-
The answer to one line, said without the function that gives it. A line is a text with white space around it
(`Says`); it is answered with an output and codes (`Answered`), or it stops the session with an exit code (`Stops`).

Main facts: the session goes on after a reply if and only if the line is answered, and then the reply is that answer
(`answered_iff`); a reply ends the session if and only if the line stops it (`stops_iff`).
-/
import ArithLang.Proofs.Session.Lines
import Mathlib.Data.List.DropRight
import Mathlib.Data.List.Forall2

namespace ArithLang

/-! ## Text without the white space around it -/

/-- The line is the text with white space before and after it, and the text neither begins nor ends with any. -/
structure Trims (line text : String) : Prop where
  around : ∃ before after, line = before ++ text ++ after ∧
    ∀ c ∈ before.toList ++ after.toList, Text.isWhiteSpace c = true
  first : ∀ c ∈ text.toList.head?, Text.isWhiteSpace c = false
  last : ∀ c ∈ text.toList.getLast?, Text.isWhiteSpace c = false

theorem dropWhile_append_of_head {α : Type} {p : α → Bool} {before xs : List α} (hbefore : ∀ x ∈ before, p x = true)
    (hxs : ∀ x ∈ xs.head?, p x = false) : (before ++ xs).dropWhile p = xs := by
  rw [List.dropWhile_append_of_pos hbefore]
  cases xs with
  | nil => rfl
  | cons x xs => rw [List.dropWhile_cons_of_neg (by simp [hxs x rfl])]

theorem Text.trim_eq (line : String) :
    trim line = String.ofList ((line.toList.dropWhile isWhiteSpace).rdropWhile isWhiteSpace) := rfl

theorem Trims.eq_trim {line text : String} (h : Trims line text) : text = Text.trim line := by
  obtain ⟨⟨before, after, rfl, hws⟩, hfirst, hlast⟩ := h
  obtain ⟨hbefore, hafter⟩ := List.forall_mem_append.1 hws
  rw [← String.toList_inj, Text.trim_eq, String.toList_ofList, String.toList_append, String.toList_append]
  by_cases hempty : text.toList = []
  · have hall : ∀ c ∈ before.toList ++ text.toList ++ after.toList, Text.isWhiteSpace c = true := by
      simpa [hempty] using hws
    rw [List.dropWhile_eq_nil_iff.2 hall, List.rdropWhile_nil, hempty]
  · have hhead : ∀ c ∈ (text.toList ++ after.toList).head?, Text.isWhiteSpace c = false := by
      rwa [List.head?_append_of_ne_nil _ hempty]
    have hback : ∀ c ∈ text.toList.reverse.head?, Text.isWhiteSpace c = false := by rwa [List.head?_reverse]
    rw [List.append_assoc, dropWhile_append_of_head hbefore hhead, List.rdropWhile, List.reverse_append,
      dropWhile_append_of_head (by simpa using hafter) hback, List.reverse_reverse]

theorem trims_trim (line : String) : Trims line (Text.trim line) where
  around := by
    refine ⟨String.ofList (line.toList.takeWhile Text.isWhiteSpace),
      String.ofList ((line.toList.dropWhile Text.isWhiteSpace).rtakeWhile Text.isWhiteSpace), ?_, ?_⟩
    · rw [← String.toList_inj]
      simp [Text.trim_eq]
    · simp only [String.toList_ofList, List.forall_mem_append]
      exact ⟨fun c => List.mem_takeWhile_imp, fun c => List.mem_rtakeWhile_imp⟩
  first := by
    rw [Text.trim_eq, String.toList_ofList]
    intro c hc
    have hnot := List.head?_dropWhile_not Text.isWhiteSpace line.toList
    obtain ⟨after, hafter⟩ := List.rdropWhile_prefix Text.isWhiteSpace (line.toList.dropWhile Text.isWhiteSpace)
    rw [← hafter, List.head?_append, Option.mem_def.1 hc] at hnot
    exact hnot
  last := by
    rw [Text.trim_eq, String.toList_ofList]
    intro c hc
    obtain ⟨hne, rfl⟩ := List.mem_getLast?_eq_getLast hc
    exact Bool.eq_false_iff.2 (List.rdropWhile_last_not Text.isWhiteSpace _ hne)

theorem trims_iff {line text : String} : Trims line text ↔ text = Text.trim line :=
  ⟨Trims.eq_trim, fun h => h ▸ trims_trim line⟩

/-! ## Capitals -/

theorem toNat_toLower (c : Char) :
    c.toLower.toNat = if 65 ≤ c.toNat ∧ c.toNat ≤ 90 then c.toNat + 32 else c.toNat := by
  unfold Char.toLower
  have hcapital : ('A'.val ≤ c.val ∧ c.val ≤ 'Z'.val) ↔ 65 ≤ c.toNat ∧ c.toNat ≤ 90 := Iff.rfl
  simp only [ge_iff_le, hcapital]
  split
  case isTrue h =>
    have hadd : (c.val + ('a'.val - 'A'.val)).toNat = (c.toNat + 32) % 4294967296 := UInt32.toNat_add _ _
    change (c.val + ('a'.val - 'A'.val)).toNat = _
    omega
  case isFalse => rfl

theorem toNat_toUpper (c : Char) :
    c.toUpper.toNat = if 97 ≤ c.toNat ∧ c.toNat ≤ 122 then c.toNat - 32 else c.toNat := by
  unfold Char.toUpper
  have hsmall : ('a'.val ≤ c.val ∧ c.val ≤ 'z'.val) ↔ 97 ≤ c.toNat ∧ c.toNat ≤ 122 := Iff.rfl
  simp only [hsmall]
  split
  case isTrue h =>
    have hadd : (c.val + ('A'.val - 'a'.val)).toNat = (c.toNat + 4294967264) % 4294967296 := UInt32.toNat_add _ _
    change (c.val + ('A'.val - 'a'.val)).toNat = _
    omega
  case isFalse => rfl

theorem toLower_eq_iff {c letter : Char} (h : letter.isLower = true) :
    c.toLower = letter ↔ c = letter ∨ c = letter.toUpper := by
  have hbounds : (decide ('a'.val ≤ letter.val) && decide (letter.val ≤ 'z'.val)) = true := h
  have hletter : 97 ≤ letter.toNat ∧ letter.toNat ≤ 122 := by
    simpa [UInt32.le_iff_toNat_le] using hbounds
  have hlower := toNat_toLower c
  have hupper := toNat_toUpper letter
  simp only [← Char.toNat_inj]
  split at hlower <;> split at hupper <;> omega

theorem map_toLower_eq_iff {cs letters : List Char} (h : ∀ letter ∈ letters, letter.isLower = true) :
    cs.map Char.toLower = letters ↔ List.Forall₂ (fun c letter => c = letter ∨ c = letter.toUpper) cs letters := by
  induction letters generalizing cs with
  | nil => simp
  | cons letter letters ih =>
    obtain ⟨hletter, hletters⟩ := List.forall_mem_cons.1 h
    cases cs with
    | nil => simp
    | cons c cs => rw [List.map_cons, List.cons.injEq, List.forall₂_cons, toLower_eq_iff hletter, ih hletters]

namespace Session

/-! ## One line -/

/-- The line is UTF-8, and without the white space around it, it is the text. -/
def Says (line : List UInt8) (text : String) : Prop :=
  ∃ whole : String, whole.toByteArray = line.toByteArray ∧ Trims whole text

/-- The text is `exit`, each letter small or capital. -/
def SaysExit (text : String) : Prop :=
  List.Forall₂ (fun c letter => c = letter ∨ c = letter.toUpper) text.toList "exit".toList

/-- What is printed in answer to a line, and the codes of the failures reported. -/
structure Answer where
  output : String
  codes : List String

/-- The answer to a line after which the session goes on. -/
inductive Answered (o : ParseOptions) (line : List UInt8) : Answer → Prop
  | blank : Says line "" → Answered o line ⟨"", []⟩
  | value {text : String} {e : Expr} {n : Number} : Says line text → text ≠ "" → ¬SaysExit text →
      run text o = .ok (e, n) → Answered o line ⟨n.text ++ "\n", []⟩
  | failure {text : String} {e : Error} : Says line text → text ≠ "" → ¬SaysExit text →
      run text o = .error e → Answered o line ⟨"", [e.diagnostic.code]⟩

/-- The line ends the session with the exit code: it says `exit`, or it is not UTF-8. -/
inductive Stops (line : List UInt8) : Nat → Prop
  | exit {text : String} : Says line text → SaysExit text → Stops line 0
  | undecodable : (∀ text : String, text.toByteArray ≠ line.toByteArray) → Stops line 1

/-- The answer that a reply is. -/
def Reply.answer (r : Reply) : Answer := ⟨r.output, r.reports.filterMap Report.code?⟩

theorem isExit_iff {text : String} : isExit text = true ↔ SaysExit text := by
  rw [isExit, beq_iff_eq]
  exact map_toLower_eq_iff (List.all_eq_true.1 (by decide))

theorem SaysExit.ne_empty {text : String} (h : SaysExit text) : text ≠ "" := by
  rintro rfl
  cases h

theorem Says.eq_trim {line : List UInt8} {text whole : String} (h : Says line text)
    (hwhole : whole.toByteArray = line.toByteArray) : text = Text.trim whole := by
  obtain ⟨whole', hwhole', htrims⟩ := h
  rw [htrims.eq_trim, String.toByteArray_inj.1 (hwhole'.trans hwhole.symm)]

theorem fromUTF8?_eq_none_iff {bytes : ByteArray} :
    String.fromUTF8? bytes = none ↔ ∀ text : String, text.toByteArray ≠ bytes := by
  simp only [Option.eq_none_iff_forall_ne_some, Ne, fromUTF8?_eq_some_iff]

theorem replyTo_of_line {line : List UInt8} {text : String} (h : Says line text) (o : ParseOptions) :
    replyTo o line = if text = "" then .silence else if isExit text then .stop else match run text o with
      | .ok (_, n) => .value n
      | .error e => .failure e := by
  obtain ⟨whole, hwhole, htrims⟩ := h
  obtain rfl := trims_iff.1 htrims
  have hdecode := fromUTF8?_eq_some_iff.2 hwhole
  unfold replyTo
  split
  next hnone => exact nomatch hnone.symm.trans hdecode
  next whole' hsome =>
    obtain rfl : whole' = whole := Option.some.inj (hsome.symm.trans hdecode)
    rfl

variable {o : ParseOptions} {line : List UInt8}

theorem Answered.replyTo {a : Answer} (h : Answered o line a) :
    (replyTo o line).exitCode? = none ∧ (replyTo o line).answer = a := by
  cases h with
  | blank htext =>
    rw [replyTo_of_line htext, if_pos rfl]
    exact ⟨rfl, rfl⟩
  | value htext hne hexit hrun =>
    rw [replyTo_of_line htext, if_neg hne, if_neg (mt isExit_iff.1 hexit), hrun]
    exact ⟨rfl, rfl⟩
  | failure htext hne hexit hrun =>
    rw [replyTo_of_line htext, if_neg hne, if_neg (mt isExit_iff.1 hexit), hrun]
    exact ⟨rfl, rfl⟩

theorem Stops.replyTo {code : Nat} (h : Stops line code) (o : ParseOptions) :
    (replyTo o line).exitCode? = some code ∧ (replyTo o line).answer = ⟨"", []⟩ := by
  cases h with
  | exit htext hexit =>
    rw [replyTo_of_line htext, if_neg hexit.ne_empty, if_pos (isExit_iff.2 hexit)]
    exact ⟨rfl, rfl⟩
  | undecodable hnot =>
    rw [Session.replyTo, fromUTF8?_eq_none_iff.2 hnot]
    exact ⟨rfl, rfl⟩

/-- There are no other lines. -/
theorem answered_or_stops (o : ParseOptions) (line : List UInt8) :
    (∃ a, Answered o line a) ∨ ∃ code, Stops line code := by
  by_cases hutf8 : ∃ whole : String, whole.toByteArray = line.toByteArray
  · obtain ⟨whole, hwhole⟩ := hutf8
    have htext : Says line (Text.trim whole) := ⟨whole, hwhole, trims_trim whole⟩
    by_cases hexit : SaysExit (Text.trim whole)
    · exact .inr ⟨0, .exit htext hexit⟩
    · left
      by_cases hempty : Text.trim whole = ""
      · exact ⟨_, .blank (hempty ▸ htext)⟩
      · cases hrun : run (Text.trim whole) o with
        | ok r => exact ⟨_, .value htext hempty hexit hrun⟩
        | error e => exact ⟨_, .failure htext hempty hexit hrun⟩
  · exact .inr ⟨1, .undecodable (not_exists.1 hutf8)⟩

theorem answered_iff {a : Answer} :
    Answered o line a ↔ (replyTo o line).exitCode? = none ∧ (replyTo o line).answer = a := by
  refine ⟨Answered.replyTo, fun ⟨hgoes, ha⟩ => ?_⟩
  obtain ⟨a', h⟩ | ⟨code, h⟩ := answered_or_stops o line
  · rwa [← ha, h.replyTo.2]
  · rw [(h.replyTo o).1] at hgoes; cases hgoes

theorem stops_iff {code : Nat} : Stops line code ↔ (replyTo o line).exitCode? = some code := by
  refine ⟨fun h => (h.replyTo o).1, fun hends => ?_⟩
  obtain ⟨a, h⟩ | ⟨code', h⟩ := answered_or_stops o line
  · rw [h.replyTo.1] at hends; cases hends
  · rw [(h.replyTo o).1] at hends; cases hends; exact h

end Session

end ArithLang
