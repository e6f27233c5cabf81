/-
Where the lines of an indented document end. The document is the compact one with line breaks and spaces put in
(`layOut`): outside of strings a line ends after a brace that opens an object, after a comma, and before a brace that
closes an object, and nowhere else. So each field and each closing brace has a line that begins with it
(`laidOut_indentedJsonAt`).

Pieces of the compact document that end outside of strings are laid out one after the other; all that a piece leaves to
the next one is how many objects are around it (`LaidOut.append`).
-/
import ArithLang.Proofs.Json.Regions
import ArithLang.Proofs.Json.Trees

namespace ArithLang

namespace Json

open Region

/-! ## Separators -/

/-- What begins every text belongs to the separators as well, but for the first text. -/
theorem intercalate_map_append {α : Type} (lead sep : List Char) (text : α → List Char) {as : List α} (hne : as ≠ []) :
    sep.intercalate (as.map fun a => lead ++ text a) = lead ++ (sep ++ lead).intercalate (as.map text) := by
  induction as with
  | nil => exact absurd rfl hne
  | cons a as ih =>
    cases as with
    | nil => simp
    | cons b as =>
      have hrest := ih (List.cons_ne_nil b as)
      simp only [List.map_cons, List.intercalate_cons_cons, List.append_assoc] at hrest ⊢
      rw [hrest]

/-- A relation of texts that holds of appended texts as well holds of texts with separators between them. -/
theorem forall₂_intercalate {R : List Char → List Char → Prop} {sep sep' : List Char} (hnil : R [] [])
    (hsep : R sep sep') (happend : ∀ {cs cs' ds ds'}, R cs cs' → R ds ds' → R (cs ++ ds) (cs' ++ ds'))
    {texts texts' : List (List Char)} (h : List.Forall₂ R texts texts') :
    R (sep.intercalate texts) (sep'.intercalate texts') := by
  induction h with
  | nil => exact hnil
  | cons h hrest ih =>
    cases hrest with
    | nil =>
      rw [List.intercalate_singleton, List.intercalate_singleton]
      exact h
    | cons _ _ =>
      rw [List.intercalate_cons_cons, List.intercalate_cons_cons]
      exact happend (happend h hsep) ih

/-! ## Indentation -/

theorem toList_indent (n : ℕ) : (indent n).toList = List.replicate (4 * n) ' ' := String.toList_ofList

/-- A line break and the spaces that the line after it begins with. -/
def lineBreak (depth : ℕ) : List Char := '\n' :: (indent depth).toList

/-- A field without the spaces before it. -/
def fieldText (f : Field) : List Char := (quoted f.name).toList ++ ([':', ' '] ++ f.value.toList)

/-- An object has each field on a line, and its last brace on one. -/
theorem toList_indentedObject (depth : ℕ) {fields : List Field} (hne : fields ≠ []) :
    (indentedObject depth fields).toList = '\x7b' :: ([','].intercalate
      (fields.map fun f => lineBreak (depth + 1) ++ fieldText f) ++ (lineBreak depth ++ ['\x7d'])) := by
  have htexts : (fields.map fun f => indent (depth + 1) ++ quoted f.name ++ ": " ++ f.value).map String.toList =
      fields.map fun f => (indent (depth + 1)).toList ++ fieldText f := by
    simp [fieldText, Function.comp_def]
  have hlines := intercalate_map_append ['\n'] [','] (fun f => (indent (depth + 1)).toList ++ fieldText f) hne
  rw [← htexts] at hlines
  unfold lineBreak
  simp only [List.cons_append, List.nil_append] at hlines ⊢
  rw [hlines]
  unfold indentedObject
  simp only [String.toList_append, String.toList_intercalate, List.append_assoc]
  rfl

/-! ## Laying out -/

/-- How many objects are around what comes after the character. -/
def depthAfter (depth : ℕ) (p : Region × Char) : ℕ :=
  if p = (outside, '\x7b') then depth + 1 else if p = (outside, '\x7d') then depth - 1 else depth

/-- What is written for a character that has `depth` objects around it. -/
def layOutChar (depth : ℕ) (p : Region × Char) : List Char :=
  if p = (outside, '\x7b') then '\x7b' :: lineBreak (depth + 1)
  else if p = (outside, '\x7d') then lineBreak (depth - 1) ++ ['\x7d']
  else if p = (outside, ',') then ',' :: lineBreak depth
  else if p = (outside, ':') then [':', ' ']
  else [p.2]

/-- The marked characters written over lines, with `depth` objects around them. -/
def layOut : ℕ → List (Region × Char) → List Char
  | _, [] => []
  | depth, p :: ps => layOutChar depth p ++ layOut (depthAfter depth p) ps

theorem layOut_append (depth : ℕ) (ps qs : List (Region × Char)) :
    layOut depth (ps ++ qs) = layOut depth ps ++ layOut (ps.foldl depthAfter depth) qs := by
  induction ps generalizing depth with
  | nil => rfl
  | cons p ps ih => rw [List.cons_append, layOut, layOut, ih, List.append_assoc, List.foldl_cons]

/-- The compact text begins and ends outside of strings, with `depth` objects around it and then `depth'`, and `text` is
what it is over lines. -/
structure LaidOut (depth : ℕ) (compact text : List Char) (depth' : ℕ) : Prop where
  after : outside.after compact = outside
  layOut : layOut depth (outside.mark compact) = text
  depth : (outside.mark compact).foldl depthAfter depth = depth'

theorem LaidOut.append {d d' d'' : ℕ} {cs cs' ds ds' : List Char} (hcs : LaidOut d cs cs' d')
    (hds : LaidOut d' ds ds' d'') : LaidOut d (cs ++ ds) (cs' ++ ds') d'' where
  after := by rw [after_append, hcs.after, hds.after]
  layOut := by rw [mark_append, hcs.after, layOut_append, hcs.layOut, hcs.depth, hds.layOut]
  depth := by rw [mark_append, hcs.after, List.foldl_append, hcs.depth, hds.depth]

theorem laidOut_nil (d : ℕ) : LaidOut d [] [] d := ⟨rfl, rfl, rfl⟩

theorem laidOut_open (d : ℕ) : LaidOut d ['\x7b'] ('\x7b' :: lineBreak (d + 1)) (d + 1) :=
  ⟨rfl, List.append_nil _, rfl⟩

theorem laidOut_close (d : ℕ) : LaidOut (d + 1) ['\x7d'] (lineBreak d ++ ['\x7d']) d := ⟨rfl, List.append_nil _, rfl⟩

theorem laidOut_comma (d : ℕ) : LaidOut d [','] (',' :: lineBreak d) d := ⟨rfl, List.append_nil _, rfl⟩

theorem laidOut_colon (d : ℕ) : LaidOut d [':'] [':', ' '] d := ⟨rfl, rfl, rfl⟩

/-- A character of a string is written as it is, and so is a quote. -/
theorem layOutChar_of_string {p : Region × Char} (h : p.1 = outside → p.2 = '"') (d : ℕ) :
    depthAfter d p = d ∧ layOutChar d p = [p.2] := by
  have hne {c : Char} (hc : c ≠ '"') : p ≠ (outside, c) := by
    rintro rfl
    exact hc (h rfl)
  unfold depthAfter layOutChar
  simp only [hne (show '\x7b' ≠ '"' by decide), hne (show '\x7d' ≠ '"' by decide), hne (show ',' ≠ '"' by decide),
    hne (show ':' ≠ '"' by decide), if_false, and_self]

theorem layOut_of_string {ps : List (Region × Char)} (h : ∀ p ∈ ps, p.1 = outside → p.2 = '"') (d : ℕ) :
    ps.foldl depthAfter d = d ∧ layOut d ps = ps.map Prod.snd := by
  induction ps with
  | nil => exact ⟨rfl, rfl⟩
  | cons p ps ih =>
    obtain ⟨hp, hps⟩ := List.forall_mem_cons.1 h
    obtain ⟨hdepth, hchar⟩ := layOutChar_of_string hp d
    obtain ⟨hend, hrest⟩ := ih hps
    rw [List.foldl_cons, layOut, hdepth, hchar, hrest]
    exact ⟨hend, rfl⟩

/-- Strings are written as they are, whatever braces, commas and colons they have in them. -/
theorem laidOut_quoted (s : String) (d : ℕ) : LaidOut d (quoted s).toList (quoted s).toList d := by
  obtain ⟨hafter, hmarks, -⟩ := (quoted_quoted s).mark
  obtain ⟨hdepth, htext⟩ := layOut_of_string hmarks d
  exact ⟨hafter, by rw [htext, map_snd_mark], hdepth⟩

/-! ## Objects -/

theorem laidOut_indentedObject {d : ℕ} {fields fields' : List Field} (hne : fields' ≠ [])
    (h : List.Forall₂ (fun f f' => f.name = f'.name ∧ LaidOut (d + 1) f.value.toList f'.value.toList (d + 1)) fields
      fields') : LaidOut d (compactObject fields).toList (indentedObject d fields').toList d := by
  have hfields : List.Forall₂ (fun compact text => LaidOut (d + 1) compact text (d + 1))
      (fields.map fun f => (quoted f.name).toList ++ ':' :: f.value.toList) (fields'.map fieldText) := by
    rw [List.forall₂_map_left_iff, List.forall₂_map_right_iff]
    refine h.imp fun f f' ⟨hname, hvalue⟩ => ?_
    rw [fieldText, ← hname]
    exact (laidOut_quoted f.name (d + 1)).append ((laidOut_colon (d + 1)).append hvalue)
  have hlisted := forall₂_intercalate (laidOut_nil (d + 1)) (laidOut_comma (d + 1)) (fun h h' => h.append h') hfields
  have hobject := ((laidOut_open d).append hlisted).append (laidOut_close d)
  -- the break before the first field comes with the brace, each other one with the comma before it
  have hlines := intercalate_map_append (lineBreak (d + 1)) [','] fieldText hne
  rw [toList_compactObject, toList_indentedObject d hne, hlines]
  exact hobject

end Json

open Json

theorem Expr.laidOut_indentedJsonAt (e : Expr) (d : ℕ) :
    LaidOut d e.compactJson.toList (e.indentedJsonAt d).toList d := by
  induction e generalizing d with
  | literal text =>
    exact laidOut_indentedObject (by simp) (.cons ⟨rfl, laidOut_quoted _ _⟩ (.cons ⟨rfl, laidOut_quoted _ _⟩ .nil))
  | binary op left right ihl ihr =>
    exact laidOut_indentedObject (by simp) (.cons ⟨rfl, laidOut_quoted _ _⟩ (.cons ⟨rfl, laidOut_quoted _ _⟩
      (.cons ⟨rfl, ihl (d + 1)⟩ (.cons ⟨rfl, ihr (d + 1)⟩ .nil))))

end ArithLang
