/-
The shortest decimal of a finite floating-point number: of the decimals that round to it, one with
the fewest significant digits, and of those the nearest one.

A grid is the set of multiples of a power of ten. The search goes from the coarsest grid down and
ends on the first that has a decimal which rounds to the number. On a grid only the two neighbours
of the number have to be looked at, since whatever lies between the number and a decimal that rounds
to it rounds to it too.
-/
import ArithLang.Binary64.Round

namespace ArithLang.Binary64

/-- The number `coefficient` · 10^`exponent`. -/
structure Decimal where
  coefficient : Nat
  exponent : Int
deriving DecidableEq

/-- Grids are counted from the one of the multiples of 10^-324. It is fine enough for every value. -/
def finestExponent : Int := -324

/-- The rank that `c` times the spacing of grid `g` is rounded to. -/
def rankOnGrid (c g : Nat) : Nat := nearestRank (c * Nat.pow 10 g) (Nat.pow 10 324)

/-- The decimal on grid `g` that is nearest to the magnitude of rank `r` among those that round to
it; if two are, the larger one. -/
def onGrid? (r g : Nat) : Option Nat :=
  let num := units r * Nat.pow 10 324
  let den := unitsOfOne * Nat.pow 10 g
  let below := num / den
  let above := below + 1
  let hits c := rankOnGrid c g == r
  if hits below && (!hits above || 2 * (num % den) < den) then some below
  else if hits above then some above
  else none

/-- The search on grid `g` and all finer ones, where `decimal?` is what a grid has. -/
def shortestFrom (decimal? : Nat → Option Nat) : Nat → Decimal
  | 0 => ⟨(decimal? 0).getD 0, finestExponent⟩
  | g + 1 =>
    match decimal? (g + 1) with
    | some c => ⟨c, finestExponent + (g + 1)⟩
    | none => shortestFrom decimal? g

/-- The shortest decimal of rank `r`. The search begins with the multiples of 10^308, because zero is
the only multiple of 10^309 that rounds to a finite value. -/
def shortest (r : Nat) : Decimal := shortestFrom (onGrid? r) 632

end ArithLang.Binary64
