/-
The JSON of a tree is well-formed (`isDocument_compactJson`): strings are escaped so that they are read back as they
were, whatever characters they have (`quoted_quoted`), and an object is written from fields that are.

Main fact: the tree is read off its JSON but for the offsets, so trees have one JSON if and only if they differ in their
offsets at most (`compactJson_without_offsets`).
-/
import ArithLang.Expr.Json
import ArithLang.Proofs.Json.Completeness
import ArithLang.Proofs.Parser.Offsets

namespace ArithLang

namespace Json

/-! ## Strings -/

theorem unit?_control : ∀ n < 0x20, unit? ['0', '0', Nat.digitChar (n / 16), Nat.digitChar (n % 16)] = some n := by
  decide

theorem escapedChar_escape (c : Char) : EscapedChar (escape c) c := by
  rw [escape]
  split
  next h =>
    obtain rfl | rfl : c = '"' ∨ c = '\\' := by simpa using h
    · exact .short rfl
    · exact .short rfl
  next hspecial =>
  obtain ⟨hquote, hbackslash⟩ : c ≠ '"' ∧ c ≠ '\\' := by simpa using hspecial
  split
  next h => exact h ▸ .short rfl
  split
  next h => exact h ▸ .short rfl
  split
  next h => exact h ▸ .short rfl
  split
  next h => exact h ▸ .short rfl
  split
  next h => exact h ▸ .short rfl
  split
  next hcontrol =>
    have hupper : isUpperHalf c.toNat = false := by simp [isUpperHalf]; omega
    have hlower : isLowerHalf c.toNat = false := by simp [isLowerHalf]; omega
    have hunit := EscapedChar.unit (unit?_control _ hcontrol) hupper hlower
    rwa [Char.ofNat_toNat] at hunit
  next hcontrol => exact .plain (Nat.le_of_not_lt hcontrol) hquote hbackslash

theorem escapedText_flatMap_escape (text : List Char) : EscapedText (text.flatMap escape) text := by
  induction text with
  | nil => exact .nil
  | cons c text ih => exact .cons (escapedChar_escape c) ih

/-- A string is read back as it was. -/
theorem quoted_quoted (s : String) : Quoted (quoted s).toList s := by
  rw [quoted, String.toList_ofList]
  exact .mk (escapedText_flatMap_escape s.toList)

/-! ## Objects -/

theorem Spaced.of {α : Type} {R : List Char → α → Prop} {cs : List Char} {a : α} (h : R cs a) : Spaced R cs a := by
  have hspaced := @Spaced.mk α R [] cs [] a rfl h rfl
  rwa [List.nil_append, List.append_nil] at hspaced

theorem listed_intercalate {α : Type} {R : List Char → α → Prop} {texts : List (List Char)} {as : List α}
    (h : List.Forall₂ R texts as) (hne : texts ≠ []) : Listed R ([','].intercalate texts) as := by
  induction h with
  | nil => exact absurd rfl hne
  | @cons text a texts as h hrest ih =>
    cases hrest with
    | nil =>
      rw [List.intercalate_singleton]
      exact .one h
    | @cons text' _ texts _ _ _ =>
      have hmore := Listed.more h (ih (List.cons_ne_nil text' texts))
      rwa [List.intercalate_cons_cons, List.append_assoc]

theorem toList_compactObject (fields : List Field) : (compactObject fields).toList =
    '\x7b' :: [','].intercalate (fields.map fun f => (quoted f.name).toList ++ ':' :: f.value.toList) ++ ['\x7d'] := by
  simp [compactObject, String.toList_intercalate, Function.comp_def]

/-- The value of a field is a member under its name. -/
theorem writes_compactObject {fields : List Field} {members : List (String × Value)}
    (h : List.Forall₂ (fun f m => f.name = m.1 ∧ Writes f.value.toList m.2) fields members) :
    Writes (compactObject fields).toList (.object members) := by
  have hmembers : List.Forall₂ (Member Writes) (fields.map fun f => (quoted f.name).toList ++ ':' :: f.value.toList)
      members := by
    rw [List.forall₂_map_left_iff]
    refine h.imp ?_
    rintro f ⟨_, v⟩ ⟨rfl, hv⟩
    exact .mk (.of (quoted_quoted f.name)) (.of hv)
  rw [toList_compactObject]
  cases h with
  | nil => exact .emptyObject rfl
  | cons _ _ => exact .object (listed_intercalate hmembers (by simp))

end Json

open Json

/-! ## Trees -/

def Operator.ofSymbol? : String → Option Operator
  | "+" => some add
  | "-" => some subtract
  | "*" => some multiply
  | "/" => some divide
  | _ => none

theorem Operator.ofSymbol?_symbol (op : Operator) : ofSymbol? op.symbol = some op := by cases op <;> rfl

namespace Expr

/-- The value of the JSON of a tree. -/
def document : Expr → Value
  | literal text => .object [("type", .string "Literal"), ("value", .string text.value)]
  | binary op left right =>
    .object [("type", .string "BinOp"), ("operator", .string op.value.symbol), ("left", left.document),
      ("right", right.document)]

/-- The tree of a value, with all offsets zero. -/
def ofDocument? : Value → Option Expr
  | .object [("type", .string "Literal"), ("value", .string text)] => some (literal ⟨text, 0⟩)
  | .object [("type", .string "BinOp"), ("operator", .string symbol), ("left", left), ("right", right)] => do
    let op ← Operator.ofSymbol? symbol
    let left ← ofDocument? left
    let right ← ofDocument? right
    some (binary ⟨op, 0⟩ left right)
  | _ => none

theorem writes_compactJson (e : Expr) : Writes e.compactJson.toList e.document := by
  induction e with
  | literal text =>
    exact writes_compactObject (.cons ⟨rfl, .string (quoted_quoted _)⟩ (.cons ⟨rfl, .string (quoted_quoted _)⟩ .nil))
  | binary op left right ihl ihr =>
    exact writes_compactObject (.cons ⟨rfl, .string (quoted_quoted _)⟩ (.cons ⟨rfl, .string (quoted_quoted _)⟩
      (.cons ⟨rfl, ihl⟩ (.cons ⟨rfl, ihr⟩ .nil))))

theorem isDocument_compactJson (e : Expr) : IsDocument e.compactJson e.document := .of (writes_compactJson e)

theorem ofDocument?_document (e : Expr) : ofDocument? e.document = some e.erase := by
  induction e with
  | literal text => rw [document, ofDocument?]; rfl
  | binary op left right ihl ihr =>
    rw [document, ofDocument?, Operator.ofSymbol?_symbol, ihl, ihr]
    rfl

/-- Offsets are left out. -/
theorem compactJson_erase (e : Expr) : e.erase.compactJson = e.compactJson := by
  induction e with
  | literal text => rfl
  | binary op left right ihl ihr => simp only [erase, compactJson, ihl, ihr, Located.erase]

/-- A reader of JSON documents, and of nothing else, reads the tree off its JSON but for its offsets: that is the
document of one value. So trees with the same JSON differ in their offsets only. -/
theorem compactJson_without_offsets :
    (∀ text v, read? text = some v ↔ IsDocument text v) ∧
      ∀ e : Expr, (∀ v, IsDocument e.compactJson v ↔ v = e.document) ∧
        (read? e.compactJson).bind ofDocument? = some e.erase ∧
        ∀ e' : Expr, e.compactJson = e'.compactJson ↔ e.erase = e'.erase := by
  have hread (e : Expr) : (read? e.compactJson).bind ofDocument? = some e.erase := by
    rw [read?_eq_some_iff.2 (isDocument_compactJson e), Option.bind_some, ofDocument?_document]
  refine ⟨fun _ _ => read?_eq_some_iff, fun e => ⟨fun v => ?_, hread e, fun e' => ?_⟩⟩
  · exact ⟨fun h => h.unique (isDocument_compactJson e), fun h => h ▸ isDocument_compactJson e⟩
  constructor
  · intro h
    apply Option.some.inj
    rw [← hread e, ← hread e', h]
  · intro h
    rw [← compactJson_erase e, ← compactJson_erase e', h]

example : (literal ⟨"\x7b\"\\\n\x01é", 4⟩).compactJson =
    "\x7b\"type\":\"Literal\",\"value\":\"\x7b\\\"\\\\\\n\\u0001é\"\x7d" := by decide +kernel

end Expr

end ArithLang
