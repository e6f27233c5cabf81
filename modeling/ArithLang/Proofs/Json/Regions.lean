/-
Inside and outside of strings. Where strings are is told by a walk over the characters of a text (`Region.mark`), and the
walk is right about the strings of the grammar: of their characters only the quote they begin with is outside
(`Quoted.mark`). They have no line break in them.
-/
import ArithLang.Proofs.Json.Grammar
import Mathlib.Data.List.Basic

namespace ArithLang.Json

/-! ## Inside and outside of strings -/

/-- Where a character stands: in no string, in one, or in one and right after a backslash. -/
inductive Region where
  | outside
  | inside
  | escaped
deriving DecidableEq

namespace Region

/-- Where the character after `c` stands. -/
def next : Region → Char → Region
  | outside, c => if c = '"' then inside else outside
  | inside, c => if c = '"' then outside else if c = '\\' then escaped else inside
  | escaped, _ => inside

/-- Where the character after `cs` stands. -/
def after (r : Region) (cs : List Char) : Region := cs.foldl next r

/-- The characters, each with where it stands. The first one stands in `r`. -/
def mark : Region → List Char → List (Region × Char)
  | _, [] => []
  | r, c :: cs => (r, c) :: mark (r.next c) cs

@[simp] theorem after_nil (r : Region) : r.after [] = r := rfl

@[simp] theorem after_cons (r : Region) (c : Char) (cs : List Char) : r.after (c :: cs) = (r.next c).after cs := rfl

theorem after_append (r : Region) (cs ds : List Char) : r.after (cs ++ ds) = (r.after cs).after ds := List.foldl_append

theorem map_snd_mark (r : Region) (cs : List Char) : (r.mark cs).map Prod.snd = cs := by
  induction cs generalizing r with
  | nil => rfl
  | cons c cs ih => rw [mark, List.map_cons, ih]

theorem mark_append (r : Region) (cs ds : List Char) : r.mark (cs ++ ds) = r.mark cs ++ (r.after cs).mark ds := by
  induction cs generalizing r with
  | nil => rfl
  | cons c cs ih => simp only [List.cons_append, mark, after_cons, ih]

end Region

open Region

/-! ## Strings of the grammar -/

/-- All of the text is inside of a string that goes on after it, and nothing in it breaks the line. -/
structure InString (cs : List Char) : Prop where
  after : inside.after cs = inside
  marks : ∀ p ∈ inside.mark cs, p.1 ≠ outside
  line : '\n' ∉ cs

theorem InString.append {cs ds : List Char} (hcs : InString cs) (hds : InString ds) : InString (cs ++ ds) where
  after := by rw [after_append, hcs.after, hds.after]
  marks p hp := by
    rw [mark_append, hcs.after, List.mem_append] at hp
    exact hp.elim (hcs.marks p) (hds.marks p)
  line := by simp [hcs.line, hds.line]

theorem inString_of_plain {cs : List Char} (h : ∀ c ∈ cs, c ≠ '"' ∧ c ≠ '\\' ∧ c ≠ '\n') : InString cs := by
  induction cs with
  | nil => exact ⟨rfl, nofun, nofun⟩
  | cons c cs ih =>
    obtain ⟨⟨hquote, hbackslash, hline⟩, hcs⟩ := List.forall_mem_cons.1 h
    have hnext : inside.next c = inside := by rw [next, if_neg hquote, if_neg hbackslash]
    have hrest := ih hcs
    refine ⟨by rw [after_cons, hnext, hrest.after], fun p hp => ?_, ?_⟩
    · rw [mark, hnext, List.mem_cons] at hp
      rcases hp with rfl | hp
      · exact nofun
      · exact hrest.marks p hp
    · simp [Ne.symm hline, hrest.line]

theorem inString_backslash {c : Char} (h : c ≠ '\n') : InString ['\\', c] where
  after := rfl
  marks p hp := by
    have hmark : p = (inside, '\\') ∨ p = (escaped, c) := by simpa [mark, next] using hp
    rcases hmark with rfl | rfl <;> exact nofun
  line := by simp [Ne.symm h]

theorem isSome_hexDigit?_of_unit {digits : List Char} {n : ℕ} (h : unit? digits = some n) :
    ∀ c ∈ digits, (hexDigit? c).isSome = true := by
  have hvalues : ∃ values, digits.mapM hexDigit? = some values := by
    rw [unit?] at h
    split at h
    · obtain ⟨values, hvalues, -⟩ := Option.map_eq_some_iff.1 h
      exact ⟨values, hvalues⟩
    · cases h
  clear h
  induction digits with
  | nil => simp
  | cons c digits ih =>
    obtain ⟨values, hvalues⟩ := hvalues
    simp only [List.mapM_cons, Option.bind_eq_bind, Option.bind_eq_some_iff] at hvalues
    obtain ⟨d, hd, rest, hrest, -⟩ := hvalues
    exact List.forall_mem_cons.2 ⟨by rw [hd]; rfl, ih ⟨rest, hrest⟩⟩

/-- An escape with the number of a character does not end the string. -/
theorem inString_unit {digits : List Char} {n : ℕ} (h : unit? digits = some n) :
    InString ('\\' :: 'u' :: digits) := by
  refine (inString_backslash (by decide : 'u' ≠ '\n')).append (inString_of_plain fun c hc => ?_)
  have hdigit := isSome_hexDigit?_of_unit h c hc
  refine ⟨?_, ?_, ?_⟩ <;> rintro rfl <;> exact absurd hdigit (by decide)

theorem EscapedChar.inString {cs : List Char} {c : Char} (h : EscapedChar cs c) : InString cs := by
  cases h with
  | plain control quote backslash =>
    refine inString_of_plain fun d hd => ?_
    obtain rfl : d = c := by simpa using hd
    refine ⟨quote, backslash, ?_⟩
    rintro rfl
    exact absurd control (by decide)
  | @short letter _ hletter =>
    refine inString_backslash ?_
    rintro rfl
    cases hletter
  | unit hunit _ _ => exact inString_unit hunit
  | pair hunit hunit' _ _ => exact (inString_unit hunit).append (inString_unit hunit')

theorem EscapedText.inString {cs text : List Char} (h : EscapedText cs text) : InString cs := by
  induction h with
  | nil => exact ⟨rfl, nofun, nofun⟩
  | cons h _ ih => exact h.inString.append ih

/-- What is outside of strings in a string is the quote it begins with. -/
theorem Quoted.mark {cs : List Char} {text : String} (h : Quoted cs text) :
    outside.after cs = outside ∧ (∀ p ∈ outside.mark cs, p.1 = outside → p.2 = '"') ∧ '\n' ∉ cs := by
  cases h with
  | @mk cs _ h =>
    have hin := h.inString
    have hafter : inside.after (cs ++ ['"']) = outside := by rw [after_append, hin.after]; rfl
    refine ⟨hafter, fun p hp hout => ?_, by simp [hin.line]⟩
    have hp : p ∈ (outside, '"') :: inside.mark (cs ++ ['"']) := hp
    rw [mark_append, hin.after, List.mem_cons, List.mem_append] at hp
    rcases hp with rfl | hp | hp
    · rfl
    · exact absurd hout (hin.marks p hp)
    · obtain rfl : p = (inside, '"') := by simpa [Region.mark] using hp
      cases hout

end ArithLang.Json
