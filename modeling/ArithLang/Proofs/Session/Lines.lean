/-
The lines of an input. Bytes are cut into lines in one way only (`splitLines_eq_iff`): each line ends with the only
newline in it, and only the last one may lack it. So lines that are complete do not depend on what comes after them
(`splitLines_append`); and the lines of a text are texts, since no byte of another character is that of a newline
(`exists_text_of_mem_splitLines`).
-/
import ArithLang.Proofs.Scanner.Tiling
import ArithLang.Session

namespace ArithLang

/-- Bytes are a text exactly if they are its UTF-8. -/
theorem fromUTF8?_eq_some_iff {bytes : ByteArray} {text : String} :
    String.fromUTF8? bytes = some text ↔ text.toByteArray = bytes := by
  unfold String.fromUTF8?
  constructor
  · intro h
    split at h
    · cases h; rfl
    · cases h
  · rintro rfl
    rw [dif_pos text.isValidUTF8]
    rfl

namespace Session

/-! ## Lines -/

/-- Each line ends with its only newline. The last one may lack it, but then it is not empty. -/
inductive AreLines : List (List UInt8) → Prop
  | nil : AreLines []
  | rest {body : List UInt8} : body ≠ [] → newline ∉ body → AreLines [body]
  | line {body : List UInt8} {lines : List (List UInt8)} : newline ∉ body → AreLines lines →
      AreLines ((body ++ [newline]) :: lines)

/-- Bytes without a newline are the beginning of the first line. -/
theorem splitLines_append_of_not_mem {bytes : List UInt8} (hne : bytes ≠ []) (h : newline ∉ bytes)
    (more : List UInt8) :
    splitLines (bytes ++ more) = match splitLines more with
      | [] => [bytes]
      | line :: lines => (bytes ++ line) :: lines := by
  induction bytes with
  | nil => exact absurd rfl hne
  | cons b bytes ih =>
    rw [List.mem_cons, not_or] at h
    rw [List.cons_append, splitLines, if_neg (Ne.symm h.1)]
    cases bytes with
    | nil => rfl
    | cons c bytes =>
      rw [ih (List.cons_ne_nil _ _) h.2]
      cases splitLines more <;> rfl

theorem splitLines_newline_cons (bytes : List UInt8) : splitLines (newline :: bytes) = [newline] :: splitLines bytes := by
  rw [splitLines, if_pos rfl]

theorem areLines_splitLines (bytes : List UInt8) : AreLines (splitLines bytes) := by
  induction bytes with
  | nil => exact .nil
  | cons b bytes ih =>
    rw [splitLines]
    split
    case isTrue hb =>
      rw [hb]
      have hnot : newline ∉ ([] : List UInt8) := List.not_mem_nil
      exact .line hnot ih
    case isFalse hb =>
      have hnot {body : List UInt8} (h : newline ∉ body) : newline ∉ b :: body := by
        rw [List.mem_cons, not_or]
        exact ⟨Ne.symm hb, h⟩
      generalize splitLines bytes = lines at ih
      cases ih with
      | nil => exact .rest (List.cons_ne_nil _ _) (hnot List.not_mem_nil)
      | rest _ h => exact .rest (List.cons_ne_nil _ _) (hnot h)
      | line h hlines => exact .line (hnot h) hlines

theorem AreLines.splitLines_flatten {lines : List (List UInt8)} (h : AreLines lines) :
    splitLines lines.flatten = lines := by
  induction h with
  | nil => rfl
  | rest hne h => simpa [splitLines] using splitLines_append_of_not_mem hne h []
  | @line body lines h _ ih =>
    rw [List.flatten_cons, List.append_assoc, List.singleton_append]
    rcases eq_or_ne body [] with rfl | hne
    · rw [List.nil_append, splitLines_newline_cons, ih]; rfl
    · rw [splitLines_append_of_not_mem hne h, splitLines_newline_cons, ih]

/-- There is one way to cut bytes into lines. -/
theorem splitLines_eq_iff {bytes : List UInt8} {lines : List (List UInt8)} :
    splitLines bytes = lines ↔ lines.flatten = bytes ∧ AreLines lines := by
  constructor
  · rintro rfl
    exact ⟨flatten_splitLines bytes, areLines_splitLines bytes⟩
  · rintro ⟨rfl, h⟩
    exact h.splitLines_flatten

/-- The bytes end with a newline if there are any. -/
def Complete (bytes : List UInt8) : Prop := ∀ b ∈ bytes.getLast?, b = newline

theorem AreLines.append {lines more : List (List UInt8)} (h : AreLines lines) (hend : Complete lines.flatten)
    (hmore : AreLines more) : AreLines (lines ++ more) := by
  induction h with
  | nil => exact hmore
  | @rest body hne hbody =>
    have hlast : body.getLast hne = newline := hend _ (by simp [List.getLast?_eq_some_getLast hne])
    exact absurd (hlast ▸ List.getLast_mem hne) hbody
  | @line body lines hbody h ih =>
    refine .line hbody (ih fun b hb => hend b ?_)
    rw [List.flatten_cons, List.getLast?_append, Option.mem_def.1 hb]
    rfl

/-- What comes after complete lines has no part in them. -/
theorem splitLines_append {first : List UInt8} (h : Complete first) (rest : List UInt8) :
    splitLines (first ++ rest) = splitLines first ++ splitLines rest := by
  rw [splitLines_eq_iff, List.flatten_append, flatten_splitLines, flatten_splitLines]
  exact ⟨rfl, (areLines_splitLines first).append ((flatten_splitLines first).symm ▸ h) (areLines_splitLines rest)⟩

/-! ## Lines of a text -/

/-- The byte of a newline is in no other character. -/
theorem newline_not_mem_utf8EncodeChar {c : Char} (h : c ≠ '\n') : newline ∉ String.utf8EncodeChar c := by
  have hc : c.val.toNat ≠ 10 := fun hc => h (Char.ext (UInt32.toNat_inj.1 hc))
  suffices 10 ∉ (String.utf8EncodeChar c).map UInt8.toNat from fun hmem => this (List.mem_map_of_mem hmem)
  -- a character outside ASCII has bytes from 128 on only
  fun_cases String.utf8EncodeChar c <;>
    simp only [List.map_cons, List.map_nil, List.mem_cons, List.not_mem_nil, or_false, UInt8.toNat_ofNat'] <;>
    omega

theorem splitLines_bytesOf (cs : List Char) : ∃ parts : List (List Char), splitLines (bytesOf cs) = parts.map bytesOf := by
  induction cs with
  | nil => exact ⟨[], rfl⟩
  | cons c cs ih =>
    obtain ⟨parts, hparts⟩ := ih
    have hcons (cs : List Char) : bytesOf (c :: cs) = String.utf8EncodeChar c ++ bytesOf cs := rfl
    by_cases hc : c = '\n'
    · refine ⟨['\n'] :: parts, ?_⟩
      rw [hcons, hc, List.map_cons, ← hparts]
      exact splitLines_newline_cons _
    · have hne : String.utf8EncodeChar c ≠ [] := by
        rw [← List.length_pos_iff, String.length_utf8EncodeChar]
        exact c.utf8Size_pos
      rw [hcons, splitLines_append_of_not_mem hne (newline_not_mem_utf8EncodeChar hc), hparts]
      cases parts with
      | nil => exact ⟨[[c]], by simp [bytesOf]⟩
      | cons part parts => exact ⟨(c :: part) :: parts, rfl⟩

/-- The lines of a text are texts. -/
theorem exists_text_of_mem_splitLines {bytes : List UInt8} {text : String} (h : text.toByteArray = bytes.toByteArray)
    {line : List UInt8} (hline : line ∈ splitLines bytes) : ∃ t : String, t.toByteArray = line.toByteArray := by
  have hbytes : bytes = bytesOf text.toList := by
    rw [toByteArray_eq] at h
    have hlist := congrArg (·.data.toList) h
    simpa only [List.toList_data_toByteArray] using hlist.symm
  obtain ⟨parts, hparts⟩ := splitLines_bytesOf text.toList
  rw [hbytes, hparts] at hline
  obtain ⟨part, -, rfl⟩ := List.mem_map.1 hline
  refine ⟨String.ofList part, ?_⟩
  rw [toByteArray_eq, String.toList_ofList]

end Session

end ArithLang
