/-
Text between quotes is read back as it was, with either of the two quotes: no escape is the start of another one, and
none begins with the quote. So where a quoted text ends, and what it is, can be seen from its front
(`doubleQuoted_append_inj`, `singleQuoted_append_inj`). Quoted text has no line break in it (`Escaped.newline_not_mem`).

Which characters are written by their code points has no part in this.
-/
import ArithLang.Proofs.Json.Grammar
import ArithLang.Text.Escape
import Mathlib.Data.List.Basic

namespace ArithLang.Text

/-! ## Hexadecimal digits -/

/-- The number that hexadecimal digits stand for. -/
def hexValue (digits : List Char) : ℕ := digits.foldl (fun n c => 16 * n + (Json.hexDigit? c).getD 0) 0

theorem hexDigit?_digitChar : ∀ d < 16, Json.hexDigit? (Nat.digitChar d) = some d := by decide

theorem hexValue_concat (digits : List Char) {d : ℕ} (h : d < 16) :
    hexValue (digits ++ [Nat.digitChar d]) = 16 * hexValue digits + d := by
  rw [hexValue, List.foldl_append, List.foldl_cons, List.foldl_nil, hexDigit?_digitChar d h]
  rfl

/-- The digits of a number, from the last one to the first. -/
theorem toDigits_sixteen_induction {P : ℕ → List Char → Prop} (hdigit : ∀ d < 16, P d [Nat.digitChar d])
    (hmore : ∀ n d digits, d < 16 → P n digits → P (16 * n + d) (digits ++ [Nat.digitChar d])) (n : ℕ) :
    P n (Nat.toDigits 16 n) := by
  induction n using Nat.strongRecOn with
  | ind n ih =>
    by_cases hn : n < 16
    · rw [Nat.toDigits_of_lt_base hn]
      exact hdigit n hn
    · have hlast : n % 16 < 16 := Nat.mod_lt n (by decide)
      have hrest := hmore (n / 16) (n % 16) _ hlast (ih (n / 16) (by omega))
      rwa [Nat.div_add_mod, ← Nat.toDigits_of_base_le (by decide) (Nat.not_lt.1 hn)] at hrest

theorem hexValue_toDigits (n : ℕ) : hexValue (Nat.toDigits 16 n) = n := by
  refine toDigits_sixteen_induction (P := fun n digits => hexValue digits = n) (fun d hd => ?_) ?_ n
  · exact (hexValue_concat [] hd).trans (Nat.zero_add d)
  · rintro n d digits hd rfl
    exact hexValue_concat digits hd

theorem isSome_hexDigit?_of_mem_toDigits {n : ℕ} : ∀ c ∈ Nat.toDigits 16 n, (Json.hexDigit? c).isSome = true := by
  have hone : ∀ d < 16, (Json.hexDigit? (Nat.digitChar d)).isSome = true := by decide
  refine toDigits_sixteen_induction (P := fun _ digits => ∀ c ∈ digits, (Json.hexDigit? c).isSome = true)
    (fun d hd => ?_) (fun _ d digits hd ih => ?_) n
  · simpa using hone d hd
  · exact List.forall_mem_append.2 ⟨ih, by simpa using hone d hd⟩

/-! ## One character -/

/-- The character after a backslash, for the escapes of two characters. -/
def unescape : Char → Char
  | '0' => '\x00'
  | 't' => '\t'
  | 'r' => '\r'
  | 'n' => '\n'
  | c => c

/-- The first character of an escaped text, and the characters after it. -/
def readEscaped : List Char → Option (Char × List Char)
  | '\\' :: 'u' :: '\x7b' :: s =>
    some (Char.ofNat (hexValue (s.takeWhile (· ≠ '\x7d'))), (s.dropWhile (· ≠ '\x7d')).tail)
  | '\\' :: letter :: s => some (unescape letter, s)
  | c :: s => some (c, s)
  | [] => none

/-- The two quotes that text is written between. -/
def IsQuote (c : Char) : Prop := c = '"' ∨ c = '\''

/-- The ways in which a character is written between two quotes `quote`. -/
inductive Escaped (quote : Char) : Char → List Char → Prop
  | letter {l : Char} : l ≠ 'u' → l ≠ '\n' → Escaped quote (unescape l) ['\\', l]
  | codePoint {c : Char} : Escaped quote c (['\\', 'u', '\x7b'] ++ Nat.toDigits 16 c.toNat ++ ['\x7d'])
  | plain {c : Char} : c ≠ '\\' → c ≠ quote → c ≠ '\n' → Escaped quote c [c]

variable {quote : Char}

theorem escaped_escape (hquote : IsQuote quote) (c : Char) : Escaped quote c (escape quote c) := by
  unfold escape
  split
  next h => rw [h]; exact .letter (l := '0') (by decide) (by decide)
  split
  next h => rw [h]; exact .letter (l := 't') (by decide) (by decide)
  split
  next h => rw [h]; exact .letter (l := 'r') (by decide) (by decide)
  split
  next h => rw [h]; exact .letter (l := 'n') (by decide) (by decide)
  next hnewline =>
  split
  next h =>
    -- the quotes and the backslash stand for themselves after a backslash
    have hc : c = '\\' ∨ c = '"' ∨ c = '\'' := by
      rcases hquote with rfl | rfl <;> simp at h <;> tauto
    rcases hc with rfl | rfl | rfl
    · exact .letter (l := '\\') (by decide) (by decide)
    · exact .letter (l := '"') (by decide) (by decide)
    · exact .letter (l := '\'') (by decide) (by decide)
  next h =>
  split
  next => exact .codePoint
  next =>
    have hc : c ≠ '\\' ∧ c ≠ quote := by simpa using h
    exact .plain hc.1 hc.2 hnewline

theorem readEscaped_codePoint (n : ℕ) (rest : List Char) :
    readEscaped (['\\', 'u', '\x7b'] ++ Nat.toDigits 16 n ++ ['\x7d'] ++ rest) = some (Char.ofNat n, rest) := by
  have hdigits : ∀ c ∈ Nat.toDigits 16 n, decide (c ≠ '\x7d') = true := by
    intro c hc
    rw [decide_eq_true_iff]
    rintro rfl
    exact absurd (isSome_hexDigit?_of_mem_toDigits _ hc) (by decide)
  have htake : (Nat.toDigits 16 n ++ '\x7d' :: rest).takeWhile (· ≠ '\x7d') = Nat.toDigits 16 n := by
    rw [List.takeWhile_append_of_pos hdigits]
    simp
  have hdrop : (Nat.toDigits 16 n ++ '\x7d' :: rest).dropWhile (· ≠ '\x7d') = '\x7d' :: rest := by
    rw [List.dropWhile_append_of_pos hdigits]
    simp
  simp only [List.append_assoc, List.cons_append, List.nil_append, readEscaped, htake, hdrop, hexValue_toDigits,
    List.tail_cons]

namespace Escaped

variable {c : Char} {cs : List Char}

/-- A character is read back as it was, whichever way it is written. -/
theorem readEscaped_append (h : Escaped quote c cs) (rest : List Char) : readEscaped (cs ++ rest) = some (c, rest) := by
  cases h with
  | letter hunit _ => simp [readEscaped, hunit]
  | codePoint => rw [readEscaped_codePoint, Char.ofNat_toNat]
  | plain hbackslash _ _ => simp [readEscaped, hbackslash]

/-- Nothing is written so that it looks like the end of the text. -/
theorem append_ne_quote (h : Escaped quote c cs) (hquote : IsQuote quote) (rest rest' : List Char) :
    cs ++ rest ≠ quote :: rest' := by
  have hbackslash : '\\' ≠ quote := by rcases hquote with rfl | rfl <;> decide
  cases h with
  | letter _ _ => simp [hbackslash]
  | codePoint => simp [hbackslash]
  | plain _ hc _ => simp [hc]

theorem newline_not_mem (h : Escaped quote c cs) : '\n' ∉ cs := by
  cases h with
  | letter _ hnewline => simp [Ne.symm hnewline]
  | codePoint =>
    have hdigits : '\n' ∉ Nat.toDigits 16 c.toNat := fun hmem =>
      absurd (isSome_hexDigit?_of_mem_toDigits _ hmem) (by decide)
    simp [hdigits]
  | plain _ _ hnewline => simpa using Ne.symm hnewline

end Escaped

theorem escape_append_inj (hquote : IsQuote quote) {c d : Char} {rest rest' : List Char}
    (h : escape quote c ++ rest = escape quote d ++ rest') : c = d ∧ rest = rest' := by
  have hread := (escaped_escape hquote c).readEscaped_append rest
  rw [h, (escaped_escape hquote d).readEscaped_append rest'] at hread
  obtain ⟨rfl, rfl⟩ := Prod.mk.inj (Option.some.inj hread)
  exact ⟨rfl, rfl⟩

/-! ## Text -/

/-- An escaped text ends at the first quote that is by itself, and is the text of no other characters. -/
theorem flatMap_escape_append_inj (hquote : IsQuote quote) {cs ds rest rest' : List Char}
    (h : cs.flatMap (escape quote) ++ quote :: rest = ds.flatMap (escape quote) ++ quote :: rest') :
    cs = ds ∧ rest = rest' := by
  induction cs generalizing ds with
  | nil =>
    cases ds with
    | nil => exact ⟨rfl, (List.cons.inj h).2⟩
    | cons d ds =>
      rw [List.flatMap_cons, List.append_assoc] at h
      exact absurd h.symm ((escaped_escape hquote d).append_ne_quote hquote _ _)
  | cons c cs ih =>
    rw [List.flatMap_cons, List.append_assoc] at h
    cases ds with
    | nil => exact absurd h ((escaped_escape hquote c).append_ne_quote hquote _ _)
    | cons d ds =>
      rw [List.flatMap_cons, List.append_assoc] at h
      obtain ⟨rfl, hmore⟩ := escape_append_inj hquote h
      obtain ⟨rfl, hrest⟩ := ih hmore
      exact ⟨rfl, hrest⟩

theorem toList_doubleQuoted (s : String) :
    (doubleQuoted s).toList = '"' :: (s.toList.flatMap (escape '"') ++ ['"']) := String.toList_ofList

theorem toList_singleQuoted (c : Char) : (singleQuoted c).toList = '\'' :: (escape '\'' c ++ ['\'']) :=
  String.toList_ofList

theorem doubleQuoted_append_inj {s t : String} {rest rest' : List Char}
    (h : (doubleQuoted s).toList ++ rest = (doubleQuoted t).toList ++ rest') : s = t ∧ rest = rest' := by
  simp only [toList_doubleQuoted, List.cons_append, List.append_assoc, List.nil_append, List.cons.injEq, true_and] at h
  obtain ⟨htext, hrest⟩ := flatMap_escape_append_inj (.inl rfl) h
  exact ⟨String.toList_inj.1 htext, hrest⟩

theorem singleQuoted_append_inj {c d : Char} {rest rest' : List Char}
    (h : (singleQuoted c).toList ++ rest = (singleQuoted d).toList ++ rest') : c = d ∧ rest = rest' := by
  simp only [toList_singleQuoted, List.cons_append, List.append_assoc, List.nil_append, List.cons.injEq, true_and] at h
  obtain ⟨hc, hrest⟩ := escape_append_inj (.inr rfl) h
  exact ⟨hc, (List.cons.inj hrest).2⟩

theorem newline_not_mem_doubleQuoted (s : String) : '\n' ∉ (doubleQuoted s).toList := by
  have htext : '\n' ∉ s.toList.flatMap (escape '"') := fun hmem => by
    obtain ⟨c, -, hc⟩ := List.mem_flatMap.1 hmem
    exact (escaped_escape (.inl rfl) c).newline_not_mem hc
  simp [toList_doubleQuoted, htext]

theorem newline_not_mem_singleQuoted (c : Char) : '\n' ∉ (singleQuoted c).toList := by
  have hchar : '\n' ∉ escape '\'' c := (escaped_escape (.inr rfl) c).newline_not_mem
  simp [toList_singleQuoted, hchar]

end ArithLang.Text
