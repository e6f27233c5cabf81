/-
Sets of characters given by ranges of code points.
-/

namespace ArithLang.Text

/-- Ranges of code points, each by its first and its last one. -/
abbrev CharRanges := List (Nat × Nat)

def CharRanges.contains (rs : CharRanges) (c : Char) : Bool :=
  rs.any fun (first, last) => first ≤ c.toNat && c.toNat ≤ last

end ArithLang.Text
