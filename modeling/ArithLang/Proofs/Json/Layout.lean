/-
The indented document of a tree and the compact one are the same document, and the white space between strings is all
they differ in. Without the white space outside of strings the indented document is the compact one; and it is the
compact one with line breaks where they are due, each line indented by four spaces for every object around it
(`indentedJson_layout`).

Indentation is a property of pieces of a document that begin and end outside of strings (`Fragment`), and pieces are put
together (`Fragment.append`). A line break is a piece only together with what comes after its spaces, since a line has
to have something after them.
-/
import ArithLang.Proofs.Json.LineBreaks

namespace ArithLang

namespace Json

open Region

/-! ## White space outside of strings -/

/-- The character is in a string, or it is no white space. -/
def kept (p : Region × Char) : Bool := !(p.1 = outside && isSpace p.2)

/-- The text without the white space that is in no string. -/
def squeeze (text : List Char) : List Char := ((outside.mark text).filter kept).map Prod.snd

/-- The characters of the strings, with the quotes that close them. -/
def inStrings (text : List Char) : List Char := ((outside.mark text).filter (·.1 ≠ outside)).map Prod.snd

/-- How many braces of the text open an object. -/
def opened (text : List Char) : ℕ := (outside.mark text).count (outside, '\x7b')

/-- How many braces of the text close an object. -/
def closed (text : List Char) : ℕ := (outside.mark text).count (outside, '\x7d')

section
variable {cs : List Char} (h : outside.after cs = outside) (ds : List Char)
include h

theorem squeeze_append : squeeze (cs ++ ds) = squeeze cs ++ squeeze ds := by
  simp only [squeeze, mark_append, h, List.filter_append, List.map_append]

theorem opened_append : opened (cs ++ ds) = opened cs + opened ds := by
  rw [opened, mark_append, h, List.count_append, opened, opened]

theorem closed_append : closed (cs ++ ds) = closed cs + closed ds := by
  rw [closed, mark_append, h, List.count_append, closed, closed]

end

theorem next_of_isSpace {c : Char} (h : isSpace c = true) : outside.next c = outside := by
  rw [next, if_neg]
  rintro rfl
  exact absurd h (by decide)

/-- Without the white space, the other characters stand where they stood. -/
theorem mark_kept (r : Region) (cs : List Char) :
    r.mark (((r.mark cs).filter kept).map Prod.snd) = (r.mark cs).filter kept := by
  induction cs generalizing r with
  | nil => rfl
  | cons c cs ih =>
    rw [mark]
    by_cases hkept : kept (r, c) = true
    · rw [List.filter_cons_of_pos hkept, List.map_cons, mark, ih]
    · have hspace : r = outside ∧ isSpace c = true := by simpa [kept] using hkept
      obtain ⟨rfl, hc⟩ := hspace
      rw [List.filter_cons_of_neg hkept, next_of_isSpace hc, ih]

/-- Nothing in a string is lost with the white space. -/
theorem inStrings_squeeze (text : List Char) : inStrings (squeeze text) = inStrings text := by
  rw [inStrings, squeeze, mark_kept, List.filter_filter, inStrings]
  congr 1
  refine List.filter_congr fun p _ => ?_
  by_cases hout : p.1 = outside <;> simp [kept, hout]

/-! ## Pieces of documents -/

/-- Each line that begins in the text is indented by four spaces for every object around it, and something comes after
the spaces. Around the text are `depth` objects; the line that closes an object is not inside of it. -/
def LinesAt (depth : ℕ) (text : List Char) : Prop :=
  ∀ before line, text = before ++ '\n' :: line →
    ∃ n c rest, line = List.replicate (4 * n) ' ' ++ c :: rest ∧ c ≠ ' ' ∧ c ≠ '\n' ∧
      depth + opened before = closed before + n + (if c = '\x7d' then 1 else 0)

/-- The text begins outside of strings and inside of `depth` objects, and ends outside of strings and inside of
`depth'` objects. It is laid out line by line, and `squeezed` is what it is without white space. -/
structure Fragment (depth : ℕ) (text squeezed : List Char) (depth' : ℕ) : Prop where
  after : outside.after text = outside
  squeeze : squeeze text = squeezed
  objects : depth + opened text = depth' + closed text
  lines : LinesAt depth text

theorem LinesAt.append {d d' : ℕ} {cs ds : List Char} (hcs : LinesAt d cs) (hafter : outside.after cs = outside)
    (hdepth : d + opened cs = d' + closed cs) (hds : LinesAt d' ds) : LinesAt d (cs ++ ds) := by
  intro before line h
  -- the break of the line is in the second text, or in the first one together with the start of the line
  have hsecond (before' : List Char) (hbefore : before = cs ++ before') (hsplit : ds = before' ++ '\n' :: line) :
      ∃ n c rest, line = List.replicate (4 * n) ' ' ++ c :: rest ∧ c ≠ ' ' ∧ c ≠ '\n' ∧
        d + opened before = closed before + n + (if c = '\x7d' then 1 else 0) := by
    obtain ⟨n, c, rest, hline, hspace, hbreak, hn⟩ := hds before' line hsplit
    refine ⟨n, c, rest, hline, hspace, hbreak, ?_⟩
    rw [hbefore, opened_append hafter, closed_append hafter]
    omega
  rcases List.append_eq_append_iff.1 h with ⟨before', hbefore, hsplit⟩ | ⟨after, hcut, hsplit⟩
  · exact hsecond before' hbefore hsplit
  · cases after with
    | nil => exact hsecond [] (by simpa using hcut.symm) (by simpa using hsplit.symm)
    | cons b after =>
      obtain ⟨rfl, rfl⟩ := List.cons.inj hsplit
      obtain ⟨n, c, rest, rfl, hspace, hbreak, hn⟩ := hcs before after hcut
      exact ⟨n, c, rest ++ ds, by simp, hspace, hbreak, hn⟩

theorem Fragment.append {d d' d'' : ℕ} {cs cs' ds ds' : List Char} (hcs : Fragment d cs cs' d')
    (hds : Fragment d' ds ds' d'') : Fragment d (cs ++ ds) (cs' ++ ds') d'' where
  after := by rw [after_append, hcs.after, hds.after]
  squeeze := by rw [squeeze_append hcs.after, hcs.squeeze, hds.squeeze]
  objects := by
    rw [opened_append hcs.after, closed_append hcs.after]
    have hfirst := hcs.objects
    have hsecond := hds.objects
    omega
  lines := hcs.lines.append hcs.after hcs.objects hds.lines

theorem linesAt_of_not_mem {d : ℕ} {cs : List Char} (h : '\n' ∉ cs) : LinesAt d cs := by
  rintro before line rfl
  simp at h

theorem fragment_nil (d : ℕ) : Fragment d [] [] d := ⟨rfl, rfl, rfl, linesAt_of_not_mem nofun⟩

/-- A text with neither white space nor braces outside of strings is kept as it is. -/
theorem fragment_of_kept {cs : List Char} (hafter : outside.after cs = outside)
    (hkept : ∀ p ∈ outside.mark cs, p.1 = outside → isSpace p.2 = false ∧ p.2 ≠ '\x7b' ∧ p.2 ≠ '\x7d')
    (hline : '\n' ∉ cs) (d : ℕ) : Fragment d cs cs d where
  after := hafter
  squeeze := by
    have hall : (outside.mark cs).filter kept = outside.mark cs := by
      refine List.filter_eq_self.2 fun p hp => ?_
      by_cases hout : p.1 = outside
      · simp [kept, hout, (hkept p hp hout).1]
      · simp [kept, hout]
    rw [Json.squeeze, hall, map_snd_mark]
  objects := by
    have hopened : opened cs = 0 := List.count_eq_zero.2 fun hmem => (hkept _ hmem rfl).2.1 rfl
    have hclosed : closed cs = 0 := List.count_eq_zero.2 fun hmem => (hkept _ hmem rfl).2.2 rfl
    rw [hopened, hclosed]
  lines := linesAt_of_not_mem hline

theorem fragment_quoted (s : String) (d : ℕ) : Fragment d (quoted s).toList (quoted s).toList d := by
  obtain ⟨hafter, hmarks, hline⟩ := (quoted_quoted s).mark
  refine fragment_of_kept hafter (fun p hp hout => ?_) hline d
  rw [hmarks p hp hout]
  decide

theorem fragment_comma (d : ℕ) : Fragment d [','] [','] d := ⟨rfl, by decide, rfl, linesAt_of_not_mem (by decide)⟩

/-- After the colon, the value is one space away. -/
theorem fragment_colon (d : ℕ) : Fragment d [':', ' '] [':'] d := ⟨rfl, by decide, rfl, linesAt_of_not_mem (by decide)⟩

theorem fragment_open (d : ℕ) : Fragment d ['\x7b'] ['\x7b'] (d + 1) :=
  ⟨rfl, by decide, rfl, linesAt_of_not_mem (by decide)⟩

theorem fragment_close (d : ℕ) : Fragment (d + 1) ['\x7d'] ['\x7d'] d :=
  ⟨rfl, by decide, rfl, linesAt_of_not_mem (by decide)⟩

/-! ## Lines -/

theorem isSpace_indent (n : ℕ) : (indent n).toList.all isSpace = true := by
  rw [toList_indent, List.all_replicate]
  simp [show isSpace ' ' = true from rfl]

/-- White space has no part in what is squeezed and opens and closes nothing. -/
theorem space_outside {cs : List Char} (h : cs.all isSpace = true) :
    outside.after cs = outside ∧ squeeze cs = [] ∧ opened cs = 0 ∧ closed cs = 0 := by
  induction cs with
  | nil => exact ⟨rfl, rfl, rfl, rfl⟩
  | cons c cs ih =>
    rw [List.all_cons, Bool.and_eq_true] at h
    obtain ⟨hc, hcs⟩ := h
    have hone : outside.after [c] = outside := next_of_isSpace hc
    have hopen : c ≠ '\x7b' := by rintro rfl; exact absurd hc (by decide)
    have hclose : c ≠ '\x7d' := by rintro rfl; exact absurd hc (by decide)
    obtain ⟨hafter, hsqueeze, hopened, hclosed⟩ := ih hcs
    rw [← List.singleton_append, after_append, hone, squeeze_append hone, opened_append hone, closed_append hone,
      hafter, hsqueeze, hopened, hclosed]
    refine ⟨rfl, ?_, ?_, ?_⟩
    · simp [squeeze, kept, mark, hc]
    · simp [opened, mark, hopen]
    · simp [closed, mark, hclose]

/-- A line break may stand before a text that begins with the spaces its first line has to have. -/
theorem LinesAt.cons_break {d n : ℕ} {c : Char} {text rest : List Char} (h : LinesAt d text)
    (htext : text = List.replicate (4 * n) ' ' ++ c :: rest) (hspace : c ≠ ' ') (hbreak : c ≠ '\n')
    (hd : d = n + (if c = '\x7d' then 1 else 0)) : LinesAt d ('\n' :: text) := by
  intro before line hcut
  cases before with
  | nil =>
    obtain rfl : text = line := (List.cons.inj hcut).2
    refine ⟨n, c, rest, htext, hspace, hbreak, ?_⟩
    rw [show opened [] = 0 from rfl, show closed [] = 0 from rfl]
    omega
  | cons b before =>
    rw [List.cons_append, List.cons.injEq] at hcut
    obtain ⟨rfl, hcut⟩ := hcut
    have hone : outside.after ['\n'] = outside := rfl
    rw [← List.singleton_append, opened_append hone, closed_append hone, show opened ['\n'] = 0 from rfl,
      show closed ['\n'] = 0 from rfl, Nat.zero_add, Nat.zero_add]
    exact h before line hcut

/-- A fragment may stand on a line of its own if as many objects are around it as its first character asks for. -/
theorem Fragment.line {d d' n : ℕ} {c : Char} {cs ds : List Char} (h : Fragment d (c :: cs) ds d') (hspace : c ≠ ' ')
    (hbreak : c ≠ '\n') (hd : d = n + (if c = '\x7d' then 1 else 0)) :
    Fragment d (lineBreak n ++ c :: cs) ds d' := by
  have hline : '\n' ∉ (indent n).toList := by simp [toList_indent]
  obtain ⟨hafter, hsqueeze, hopened, hclosed⟩ := space_outside (isSpace_indent n)
  -- the spaces by themselves are a fragment of nothing, and the line break changes only where lines begin
  have hrest : Fragment d ((indent n).toList ++ c :: cs) ds d' :=
    Fragment.append ⟨hafter, hsqueeze, by rw [hopened, hclosed], linesAt_of_not_mem hline⟩ h
  exact ⟨hrest.after, hrest.squeeze, hrest.objects, hrest.lines.cons_break (by rw [toList_indent]) hspace hbreak hd⟩

/-- A line break is no brace, wherever it stands. -/
theorem opened_concat_break (text : List Char) : opened (text ++ ['\n']) = opened text := by
  simp [opened, mark_append, mark]

theorem closed_concat_break (text : List Char) : closed (text ++ ['\n']) = closed text := by
  simp [closed, mark_append, mark]

/-! ## Objects -/

theorem fragment_field {d : ℕ} {f f' : Field} (hname : f.name = f'.name)
    (hvalue : Fragment d f.value.toList f'.value.toList d) :
    Fragment d (lineBreak d ++ fieldText f) ((quoted f'.name).toList ++ ':' :: f'.value.toList) d := by
  have hfield := (fragment_quoted f.name d).append ((fragment_colon d).append hvalue)
  have hquote : (quoted f.name).toList = '"' :: (f.name.toList.flatMap escape ++ ['"']) := String.toList_ofList
  rw [← hname, fieldText]
  rw [hquote] at hfield ⊢
  exact hfield.line (by decide) (by decide) rfl

theorem fragment_indentedObject {d : ℕ} {fields fields' : List Field} (hne : fields ≠ [])
    (h : List.Forall₂ (fun f f' => f.name = f'.name ∧ Fragment (d + 1) f.value.toList f'.value.toList (d + 1)) fields
      fields') : Fragment d (indentedObject d fields).toList (compactObject fields').toList d := by
  have hfields : List.Forall₂ (fun text s => Fragment (d + 1) text s (d + 1))
      (fields.map fun f => lineBreak (d + 1) ++ fieldText f)
      (fields'.map fun f => (quoted f.name).toList ++ ':' :: f.value.toList) := by
    rw [List.forall₂_map_left_iff, List.forall₂_map_right_iff]
    exact h.imp fun _ _ hf => fragment_field hf.1 hf.2
  have hclose : Fragment (d + 1) (lineBreak d ++ ['\x7d']) ['\x7d'] d :=
    (fragment_close d).line (by decide) (by decide) rfl
  have hlisted := forall₂_intercalate (fragment_nil (d + 1)) (fragment_comma (d + 1)) (fun h h' => h.append h') hfields
  have hobject := (fragment_open d).append (hlisted.append hclose)
  rw [toList_indentedObject d hne, toList_compactObject]
  exact hobject

/-! ## The same document -/

theorem Spaced.append_space {α : Type} {R : List Char → α → Prop} {cs space : List Char} {a : α} (h : Spaced R cs a)
    (hspace : space.all isSpace = true) : Spaced R (cs ++ space) a := by
  cases h with
  | mk hbefore h hafter =>
    rw [List.append_assoc]
    exact .mk hbefore h (by rw [List.all_append, hafter, hspace]; rfl)

theorem Member.append_space {α : Type} {R : List Char → α → Prop} {cs space : List Char} {m : String × α}
    (h : Member R cs m) (hspace : space.all isSpace = true) : Member R (cs ++ space) m := by
  cases h with
  | mk hname h =>
    rw [List.append_assoc, List.cons_append]
    exact .mk hname (h.append_space hspace)

theorem Listed.append_space {α : Type} {R : List Char → α → Prop} {cs space : List Char} {ms : List (String × α)}
    (h : Listed (Member R) cs ms) (hspace : space.all isSpace = true) : Listed (Member R) (cs ++ space) ms := by
  induction h with
  | one h => exact .one (h.append_space hspace)
  | more h _ ih =>
    rw [List.append_assoc, List.cons_append]
    exact .more h ih

/-- Line breaks and spaces are allowed wherever the indented object has them. -/
theorem writes_indentedObject (d : ℕ) {fields : List Field} {members : List (String × Value)} (hne : fields ≠ [])
    (h : List.Forall₂ (fun f m => f.name = m.1 ∧ Writes f.value.toList m.2) fields members) :
    Writes (indentedObject d fields).toList (.object members) := by
  have hbreak (n : ℕ) : (lineBreak n).all isSpace = true := isSpace_indent n
  have hmembers : List.Forall₂ (Member Writes) (fields.map fun f => lineBreak (d + 1) ++ fieldText f) members := by
    rw [List.forall₂_map_left_iff]
    refine h.imp ?_
    rintro f ⟨_, v⟩ ⟨rfl, hv⟩
    have hname : Spaced Quoted (lineBreak (d + 1) ++ (quoted f.name).toList ++ []) f.name :=
      .mk (hbreak (d + 1)) (quoted_quoted f.name) rfl
    have hvalue : Spaced Writes ([' '] ++ f.value.toList ++ []) v := .mk rfl hv rfl
    simpa [fieldText] using Member.mk hname hvalue
  have hlisted := (listed_intercalate hmembers (by simpa using hne)).append_space (hbreak d)
  have hobject := Writes.object hlisted
  rw [toList_indentedObject d hne]
  simpa using hobject

/-- Every line of the text is indented by four spaces for each object around it: those opened before it and not closed,
without the object that the line itself closes. -/
def Indented (text : List Char) : Prop :=
  ∀ before line, text = before ++ line → before = [] ∨ (∃ lines, before = lines ++ ['\n']) →
    ∃ n c rest, line = List.replicate (4 * n) ' ' ++ c :: rest ∧ c ≠ ' ' ∧ c ≠ '\n' ∧
      opened before = closed before + n + (if c = '\x7d' then 1 else 0)

end Json

open Json

namespace Expr

theorem fragment_indentedJsonAt (e : Expr) (d : ℕ) :
    Fragment d (e.indentedJsonAt d).toList e.compactJson.toList d := by
  induction e generalizing d with
  | literal text =>
    exact fragment_indentedObject (by simp) (.cons ⟨rfl, fragment_quoted _ _⟩ (.cons ⟨rfl, fragment_quoted _ _⟩ .nil))
  | binary op left right ihl ihr =>
    exact fragment_indentedObject (by simp) (.cons ⟨rfl, fragment_quoted _ _⟩ (.cons ⟨rfl, fragment_quoted _ _⟩
      (.cons ⟨rfl, ihl (d + 1)⟩ (.cons ⟨rfl, ihr (d + 1)⟩ .nil))))

theorem writes_indentedJsonAt (e : Expr) (d : ℕ) : Writes (e.indentedJsonAt d).toList e.document := by
  induction e generalizing d with
  | literal text =>
    exact writes_indentedObject d (by simp) (.cons ⟨rfl, .string (quoted_quoted _)⟩
      (.cons ⟨rfl, .string (quoted_quoted _)⟩ .nil))
  | binary op left right ihl ihr =>
    exact writes_indentedObject d (by simp) (.cons ⟨rfl, .string (quoted_quoted _)⟩
      (.cons ⟨rfl, .string (quoted_quoted _)⟩ (.cons ⟨rfl, ihl (d + 1)⟩ (.cons ⟨rfl, ihr (d + 1)⟩ .nil))))

/-- An object begins with a brace. -/
theorem exists_indentedJson_eq_cons (e : Expr) : ∃ rest, e.indentedJson.toList = '\x7b' :: rest := by
  unfold indentedJson
  cases e with
  | literal text => exact ⟨_, toList_indentedObject 0 (by simp)⟩
  | binary op left right => exact ⟨_, toList_indentedObject 0 (by simp)⟩

theorem indented_indentedJson (e : Expr) : Indented e.indentedJson.toList := by
  rintro before line h (rfl | ⟨lines, rfl⟩)
  · obtain ⟨rest, hrest⟩ := e.exists_indentedJson_eq_cons
    exact ⟨0, '\x7b', rest, by rw [← hrest, h]; rfl, by decide, by decide, rfl⟩
  · have hlines := (e.fragment_indentedJsonAt 0).lines
    rw [List.append_assoc, List.singleton_append] at h
    obtain ⟨n, c, rest, hline, hspace, hbreak, hn⟩ := hlines lines line h
    refine ⟨n, c, rest, hline, hspace, hbreak, ?_⟩
    rw [opened_concat_break, closed_concat_break, ← hn, Nat.zero_add]

/-- Without the white space that is outside of strings, the indented document is the compact one; what is in strings is
the same in both, and so is the value they are documents of. Every line of the indented one is indented by four spaces
for each object around it. The indented one is the compact one with a line break after each brace that opens an object
and after each comma, one before each brace that closes an object, and a space after each colon. -/
theorem indentedJson_layout (e : Expr) :
    String.ofList (squeeze e.indentedJson.toList) = e.compactJson ∧
      inStrings e.indentedJson.toList = inStrings e.compactJson.toList ∧
      (∀ v, (IsDocument e.indentedJson v ↔ v = e.document) ∧ (IsDocument e.compactJson v ↔ v = e.document)) ∧
      Indented e.indentedJson.toList ∧
      e.indentedJson = String.ofList (layOut 0 (Region.outside.mark e.compactJson.toList)) := by
  have hsqueeze : squeeze e.indentedJson.toList = e.compactJson.toList := (e.fragment_indentedJsonAt 0).squeeze
  have hdocument : IsDocument e.indentedJson e.document := .of (e.writes_indentedJsonAt 0)
  have hcompact := e.isDocument_compactJson
  refine ⟨by rw [hsqueeze, String.ofList_toList], ?_, fun v => ⟨⟨?_, ?_⟩, ⟨?_, ?_⟩⟩, e.indented_indentedJson, ?_⟩
  · rw [← hsqueeze, inStrings_squeeze]
  · exact fun h => h.unique hdocument
  · exact fun h => h ▸ hdocument
  · exact fun h => h.unique hcompact
  · exact fun h => h ▸ hcompact
  · rw [(e.laidOut_indentedJsonAt 0).layOut]
    exact String.ofList_toList.symm

/-- A brace, white space and a line break inside of a string are left alone. -/
example : (binary ⟨.add, 1⟩ (literal ⟨"\x7b \"", 0⟩) (literal ⟨"\n", 2⟩)).indentedJson =
    "\x7b\n    \"type\": \"BinOp\",\n    \"operator\": \"+\",\n    \"left\": \x7b\n        \"type\": \"Literal\",\n" ++
      "        \"value\": \"\x7b \\\"\"\n    \x7d,\n    \"right\": \x7b\n        \"type\": \"Literal\",\n" ++
      "        \"value\": \"\\n\"\n    \x7d\n\x7d" := by decide +kernel

end Expr

end ArithLang
