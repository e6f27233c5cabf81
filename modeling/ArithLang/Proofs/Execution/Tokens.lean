/-
The lines that show the tokens of a file. A token takes one line, whatever its characters are, and the line tells all of
the token: its text and its character are between quotes, and its offset ends at a comma (`Token.dump_injective`). So a
file has as many lines shown as it has tokens, and they tell its tokens (`tokenize_identifies_tokens`).
-/
import ArithLang.Proofs.Execution.Files
import ArithLang.Proofs.Number.Digits
import ArithLang.Proofs.Text.Escape

namespace ArithLang

/-! ## One token -/

theorem TokenKind.toList_name_other (c : Char) :
    (other c).name.toList = "Other(".toList ++ ((Text.singleQuoted c).toList ++ [')']) := by
  simp [name]

theorem TokenKind.name_injective : Function.Injective name := by
  intro k k' h
  have hchars := congrArg String.toList h
  cases k <;> cases k'
  case other.other c d =>
    rw [toList_name_other, toList_name_other, List.append_right_inj] at hchars
    obtain ⟨rfl, -⟩ := Text.singleQuoted_append_inj hchars
    rfl
  -- the other names are told apart by their first two letters
  all_goals first | rfl | simp [name] at hchars

theorem TokenKind.newline_not_mem_name (k : TokenKind) : '\n' ∉ k.name.toList := by
  cases k with
  | other c => simp [toList_name_other, Text.newline_not_mem_singleQuoted]
  | _ => decide

namespace Token

theorem toList_dump (t : Token) : t.dump.toList =
    "Token \x7b slice: ".toList ++ ((Text.doubleQuoted t.text).toList ++ (", offset: ".toList ++
      (Nat.toDigits 10 t.offset ++ (", kind: ".toList ++ (t.kind.name.toList ++ " \x7d".toList))))) := by
  unfold dump
  simp only [String.toList_append, List.append_assoc]
  rw [Nat.toList_repr]

/-- Everything that a token holds can be seen from its line. -/
theorem dump_injective : Function.Injective dump := by
  intro t t' h
  have hchars := congrArg String.toList h
  rw [toList_dump, toList_dump, List.append_right_inj] at hchars
  obtain ⟨htext, hafterText⟩ := Text.doubleQuoted_append_inj hchars
  have hcomma (rest : List Char) : NoDigitNext (", kind: ".toList ++ rest) := by
    intro c hc
    obtain rfl : ',' = c := Option.some.inj hc
    rfl
  rw [List.append_right_inj] at hafterText
  obtain ⟨hoffset, hafterOffset⟩ := toDigits_append_inj (hcomma _) (hcomma _) hafterText
  rw [List.append_right_inj, List.append_left_inj] at hafterOffset
  have hkind := TokenKind.name_injective (String.toList_inj.1 hafterOffset)
  obtain ⟨kind, text, offset⟩ := t
  exact congr (congr (congrArg mk hkind) htext) hoffset

theorem newline_not_mem_dump (t : Token) : '\n' ∉ t.dump.toList := by
  have hdigits : '\n' ∉ Nat.toDigits 10 t.offset := not_mem_of_allDigits (allDigits_toDigits _) rfl
  simp [toList_dump, Text.newline_not_mem_doubleQuoted, hdigits, t.kind.newline_not_mem_name]

end Token

/-! ## Lines -/

/-- Lines that each end with a line break are found again in the text, if they hold no others. Nothing comes after the
last break. -/
theorem splitOn_terminated {lines : List (List Char)} (h : ∀ line ∈ lines, '\n' ∉ line) :
    (lines.flatMap (· ++ ['\n'])).splitOn '\n' = lines ++ [[]] := by
  induction lines with
  | nil => rfl
  | cons line lines ih =>
    obtain ⟨hline, hlines⟩ := List.forall_mem_cons.1 h
    rw [List.flatMap_cons, List.append_assoc, List.singleton_append, List.splitOn_append_cons_self_of_not_mem hline,
      ih hlines, List.cons_append]

theorem splitOn_tokenize (source : String) :
    (tokenize source).output.toList.splitOn '\n' = (lex source).map (·.dump.toList) ++ [[]] := by
  have hlines : (tokenize source).output.toList = ((lex source).map (·.dump.toList)).flatMap (· ++ ['\n']) := by
    simp [tokenize, Outcome.success, List.flatMap_map]
  rw [hlines]
  refine splitOn_terminated fun line hline => ?_
  obtain ⟨t, -, rfl⟩ := List.mem_map.1 hline
  exact t.newline_not_mem_dump

theorem output_tokenize_eq_iff {source source' : String} :
    (tokenize source).output = (tokenize source').output ↔ lex source = lex source' := by
  constructor
  · intro h
    have hlines : (lex source).map (·.dump.toList) ++ [[]] = (lex source').map (·.dump.toList) ++ [[]] := by
      rw [← splitOn_tokenize, h, splitOn_tokenize]
    have hdump : Function.Injective fun t : Token => t.dump.toList := fun t t' ht =>
      Token.dump_injective (String.toList_inj.1 ht)
    exact List.map_injective_iff.2 hdump (List.append_cancel_right hlines)
  · intro h
    rw [tokenize, h, tokenize]

/-! ## Files -/

/-- A command line that asks for the tokens of a file gets one line for each of them and nothing else. What two such
command lines get is the same text if and only if the tokens are the same ones, with their kinds, texts and offsets. -/
theorem tokenize_identifies_tokens {words words' : List String} {file file' : String} {o o' : ParseOptions}
    (hwords : Command.ofLine words = .perform (.tokenize file) o)
    (hwords' : Command.ofLine words' = .perform (.tokenize file') o') {read read' : String → Option ByteArray}
    {source source' : String} (hfile : read file = some source.toUTF8) (hfile' : read' file' = some source'.toUTF8)
    (input input' : List UInt8) :
    let out := (Command.ofLine words).outcome read input
    let out' := (Command.ofLine words').outcome read' input'
    out = .success out.output ∧
      out.output.toList.splitOn '\n' = (lex source).map (fun t => t.dump.toList) ++ [[]] ∧
      (out.output = out'.output ↔ lex source = lex source') := by
  intro out out'
  have hout : out = tokenize source :=
    (congrArg (·.outcome read input) hwords).trans (onFile_of_utf8 hfile tokenize)
  have hout' : out' = tokenize source' :=
    (congrArg (·.outcome read' input') hwords').trans (onFile_of_utf8 hfile' tokenize)
  rw [hout, hout']
  exact ⟨rfl, splitOn_tokenize source, output_tokenize_eq_iff⟩

/-- The character U+0007 is shown by an escape of five characters. A file that has those five characters between quotes
has other tokens, and what is shown is not the same. -/
theorem tokenize_identifies_tokens_bell :
    let read := fun file => if file = "bell.p" then some "\x07".toUTF8 else some "'\\u\x7b7\x7d'".toUTF8
    Command.ofLine ["tokenize", "bell.p"] = .perform (.tokenize "bell.p") .strict ∧
      Command.ofLine ["--permissive", "tokenize", "text.p"] = .perform (.tokenize "text.p") .permissive ∧
      ((Command.ofLine ["tokenize", "bell.p"]).outcome read []).output.toList.splitOn '\n' =
        ["Token \x7b slice: \"\\u\x7b7\x7d\", offset: 0, kind: Other('\\u\x7b7\x7d') \x7d".toList, []] ∧
      ((Command.ofLine ["tokenize", "bell.p"]).outcome read []).output ≠
        ((Command.ofLine ["--permissive", "tokenize", "text.p"]).outcome read []).output := by
  intro read
  have hwords : Command.ofLine ["tokenize", "bell.p"] = .perform (.tokenize "bell.p") .strict := by decide +kernel
  have hwords' : Command.ofLine ["--permissive", "tokenize", "text.p"] = .perform (.tokenize "text.p") .permissive := by
    decide +kernel
  have hbell : read "bell.p" = some "\x07".toUTF8 := rfl
  have htext : read "text.p" = some "'\\u\x7b7\x7d'".toUTF8 := rfl
  obtain ⟨-, hlines, hsame⟩ := tokenize_identifies_tokens hwords hwords' hbell htext [] []
  refine ⟨hwords, hwords', hlines.trans ?_, fun h => ?_⟩
  · decide +kernel
  · exact absurd (hsame.1 h) (by decide +kernel)

end ArithLang
