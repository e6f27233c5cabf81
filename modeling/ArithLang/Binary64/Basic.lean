/-
Binary floating-point numbers of 64 bits. The finite values of one sign are numbered by their
magnitude, from zero on: that number is the value's rank, and what is left of its bits without the
sign. All of them are multiples of 2^-1074, and `units` says of which rank is which multiple.

Main fact: the bits of a value determine it (`ofBits_bits`).
-/

namespace ArithLang

/-- How many finite values there are of one sign. -/
def Binary64.rankLimit : Nat := 0x7FF0000000000000

inductive Binary64 where
  | finite (negative : Bool) (rank : Fin Binary64.rankLimit)
  | infinite (negative : Bool)
  | nan
deriving DecidableEq

namespace Binary64

/-! ## Magnitude -/

/-- How many ranks in a row are the same distance apart: 2^52. -/
def runLength : Nat := 0x10000000000000

/-- How many times the distance between neighbours of rank `r` has doubled from 2^-1074. The first
two runs of ranks share the smallest distance. -/
def doublings (r : Nat) : Nat := r / runLength - 1

/-- The magnitude of rank `r` as a multiple of 2^-1074. -/
def units (r : Nat) : Nat := (r - doublings r * runLength) * Nat.pow 2 (doublings r)

/-- The number one as a multiple of 2^-1074. -/
def unitsOfOne : Nat := Nat.pow 2 1074

/-- The integer part: digits after the point are dropped, so the result is never farther from zero.
What is not finite has none and gives zero. -/
def truncate : Binary64 → Int
  | finite negative rank =>
    let magnitude : Nat := units rank.val / unitsOfOne
    if negative then -(magnitude : Int) else magnitude
  | infinite _ | nan => 0

/-! ## Equality of values -/

/-- Equality of numeric values: the two zeros are equal, and `nan` equals nothing. -/
def sameValue : Binary64 → Binary64 → Bool
  | finite s r, finite s' r' => r == r' && (s == s' || r.val == 0)
  | infinite s, infinite s' => s == s'
  | _, _ => false

/-! ## Bits -/

/-- The highest of the 64 bits, which is the sign: 2^63. -/
def signWeight : Nat := 0x8000000000000000

def signBit (negative : Bool) : Nat := if negative then signWeight else 0

def bits : Binary64 → Nat
  | finite negative rank => signBit negative + rank.val
  | infinite negative => signBit negative + rankLimit
  | nan => 0x7FF8000000000000

/-- The value with the given bits, of which the lowest 64 count. -/
def ofBits (w : Nat) : Binary64 :=
  let negative := w / signWeight % 2 == 1
  let rank := w % signWeight
  if h : rank < rankLimit then finite negative ⟨rank, h⟩
  else if rank = rankLimit then infinite negative
  else nan

theorem rankLimit_lt : rankLimit < signWeight := by decide

theorem signBit_add_div (negative : Bool) {r : Nat} (h : r < signWeight) :
    ((signBit negative + r) / signWeight % 2 == 1) = negative := by
  cases negative
  · rw [signBit, if_neg Bool.false_ne_true, Nat.zero_add, Nat.div_eq_of_lt h]; rfl
  · rw [signBit, if_pos rfl, Nat.add_div_left _ (by decide : 0 < signWeight), Nat.div_eq_of_lt h]; rfl

theorem signBit_add_mod (negative : Bool) {r : Nat} (h : r < signWeight) : (signBit negative + r) % signWeight = r := by
  cases negative
  · rw [signBit, if_neg Bool.false_ne_true, Nat.zero_add, Nat.mod_eq_of_lt h]
  · rw [signBit, if_pos rfl, Nat.add_mod_left, Nat.mod_eq_of_lt h]

theorem ofBits_bits (x : Binary64) : ofBits x.bits = x := by
  cases x with
  | finite negative rank =>
    have h : rank.val < signWeight := Nat.lt_trans rank.isLt rankLimit_lt
    simp only [ofBits, bits, signBit_add_div negative h, signBit_add_mod negative h, rank.isLt, dite_true]
  | infinite negative =>
    have h := rankLimit_lt
    simp only [ofBits, bits, signBit_add_div negative h, signBit_add_mod negative h, Nat.lt_irrefl, dite_false,
      if_true]
  | nan => decide +kernel

end Binary64

end ArithLang
