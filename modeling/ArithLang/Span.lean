/-
Places in a source text. Every position is a count of UTF-8 bytes from the start of the text, so a
character outside ASCII is wider than one.
-/

namespace ArithLang

structure Span where
  start : Nat
  length : Nat
deriving DecidableEq

/-- The position just after the last byte of the span. -/
def Span.stop (s : Span) : Nat := s.start + s.length

/-- The place of `text` when it begins at `offset`. -/
def Span.ofText (offset : Nat) (text : String) : Span := ⟨offset, text.utf8ByteSize⟩

/-- A value read at a position of the source. -/
structure Located (α : Type) where
  value : α
  offset : Nat
deriving DecidableEq

@[simp] theorem Span.start_ofText (offset : Nat) (text : String) : (ofText offset text).start = offset := rfl

@[simp] theorem Span.stop_ofText (offset : Nat) (text : String) :
    (ofText offset text).stop = offset + text.utf8ByteSize := rfl

end ArithLang
