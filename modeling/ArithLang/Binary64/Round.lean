/-
The floating-point number nearest to a quotient, with one rounding: a quotient halfway between two
of them goes to the one of even rank.
-/
import ArithLang.Binary64.Basic
import ArithLang.Rounding

namespace ArithLang.Binary64

/-- The rank of the magnitude nearest to `num / den`. It is `rankLimit` or more if that magnitude is
too large to be finite. -/
def nearestRank (num den : Nat) : Nat :=
  let units := num * unitsOfOne
  let doublings := (units / den).log2 - 52
  doublings * runLength + roundHalfEven units (den * Nat.pow 2 doublings)

/-- The value of `negative` sign nearest to `num / den`, unless that is too large. -/
def ofMagnitude? (negative : Bool) (num den : Nat) : Option Binary64 :=
  if h : nearestRank num den < rankLimit then some (finite negative ⟨nearestRank num den, h⟩) else none

/-- The value nearest to `a / b` for `b ≠ 0`, unless that is too large. A negative quotient keeps its
sign when it is rounded to zero; the quotient zero has none. -/
def ofQuotient? (a b : Int) : Option Binary64 := ofMagnitude? (decide (a.sign * b.sign < 0)) a.natAbs b.natAbs

theorem nearestRank_mul_left (num den : Nat) {k : Nat} (hk : 0 < k) :
    nearestRank (k * num) (k * den) = nearestRank num den := by
  simp only [nearestRank, Nat.mul_assoc, Nat.mul_div_mul_left _ _ hk, roundHalfEven_mul_left _ _ hk]

end ArithLang.Binary64
