/-
A floating-point number as an operand is its value without the fraction: the integer that is no larger in magnitude, is
less than one away and has the same sign, unless it is zero (`IsIntegerPart`). There is one such integer only.

Magnitudes are integers from 2^52 on, because neighbours are one unit or more apart there
(`exists_magnitude_eq_natCast`). So what is as large as that loses nothing, however many digits it has.
-/
import ArithLang.Proofs.Binary64.Quotient
import Mathlib.Algebra.Order.Floor.Semifield

namespace ArithLang

/-! ## Numbers without their fraction -/

/-- `n` is `q` without its fraction. -/
structure IsIntegerPart (q : ℚ) (n : ℤ) : Prop where
  le : |(n : ℚ)| ≤ |q|
  lt : |q| < |(n : ℚ)| + 1
  sign : n = 0 ∨ 0 < n ∧ 0 < q ∨ n < 0 ∧ q < 0

theorem isIntegerPart_intCast (n : ℤ) : IsIntegerPart n n where
  le := le_rfl
  lt := lt_add_one _
  sign := by
    rcases lt_trichotomy n 0 with h | h | h
    · exact .inr (.inr ⟨h, Int.cast_lt_zero.2 h⟩)
    · exact .inl h
    · exact .inr (.inl ⟨h, Int.cast_pos.2 h⟩)

/-- Integer parts of one number have the same absolute value, and its sign tells them from their opposites. -/
theorem IsIntegerPart.unique {q : ℚ} {m n : ℤ} (hm : IsIntegerPart q m) (hn : IsIntegerPart q n) : m = n := by
  have hle {a b : ℤ} (ha : IsIntegerPart q a) (hb : IsIntegerPart q b) : |a| ≤ |b| := by
    have hlt : |(a : ℚ)| < |(b : ℚ)| + 1 := ha.le.trans_lt hb.lt
    exact Int.lt_add_one_iff.1 (by exact_mod_cast hlt)
  have habs : |m| = |n| := le_antisymm (hle hm hn) (hle hn hm)
  rcases abs_eq_abs.1 habs with h | h
  · exact h
  · -- of two opposite integers other than zero, one has the wrong sign
    rcases hm.sign with hm0 | ⟨hpos, hq⟩ | ⟨hneg, hq⟩
    · omega
    · rcases hn.sign with hn0 | ⟨hn0, -⟩ | ⟨-, hq'⟩
      · omega
      · omega
      · exact absurd hq' (not_lt.2 hq.le)
    · rcases hn.sign with hn0 | ⟨-, hq'⟩ | ⟨hn0, -⟩
      · omega
      · exact absurd hq' (not_lt.2 hq.le)
      · omega

namespace Binary64

/-- The integer part of a number with a sign is that of its magnitude, with the sign. -/
theorem isIntegerPart_signed (negative : Bool) {m : ℚ} (hm : 0 ≤ m) :
    IsIntegerPart (signed negative m) (if negative then -(⌊m⌋₊ : ℤ) else ⌊m⌋₊) := by
  have habs : |((if negative then -(⌊m⌋₊ : ℤ) else ⌊m⌋₊ : ℤ) : ℚ)| = ⌊m⌋₊ := by cases negative <;> simp
  constructor
  · rw [habs, abs_signed negative hm]
    exact Nat.floor_le hm
  · rw [habs, abs_signed negative hm]
    exact Nat.lt_floor_add_one m
  · rcases Nat.eq_zero_or_pos ⌊m⌋₊ with h | h
    · left
      rw [h]
      cases negative <;> rfl
    · right
      have hpos : 0 < m := hm.lt_of_ne' fun h0 => by simp [h0] at h
      cases negative with
      | false => exact .inl ⟨Int.natCast_pos.2 h, hpos⟩
      | true => exact .inr ⟨Int.neg_neg_of_pos (Int.natCast_pos.2 h), neg_neg_of_pos hpos⟩

/-! ## Finite values -/

theorem floor_magnitude (r : ℕ) : ⌊magnitude r⌋₊ = units r / unitsOfOne := Nat.floor_div_eq_div (units r) unitsOfOne

theorem truncate_isIntegerPart (negative : Bool) (rank : Fin rankLimit) :
    IsIntegerPart (signed negative (magnitude rank)) (finite negative rank).truncate := by
  have hpart := isIntegerPart_signed negative (magnitude_nonneg rank)
  rw [floor_magnitude] at hpart
  exact hpart

theorem exists_magnitude_eq_natCast {r : ℕ} (h : 2 ^ 52 ≤ magnitude r) : ∃ k : ℕ, magnitude r = k := by
  have hunits : runLength * 2 ^ 1074 ≤ units r := by
    have hrun : (runLength : ℚ) = 2 ^ 52 := by norm_num [runLength]
    rw [magnitude, le_div_iff₀ unitsOfOne_pos, ← hrun] at h
    rw [← unitsOfOne_eq_two_pow]
    exact_mod_cast h
  obtain ⟨k, hk⟩ := exists_units_eq (.inr hunits)
  refine ⟨k, ?_⟩
  rw [magnitude_of_units_eq hk, step, unitsOfOne_eq, div_self (by positivity), mul_one]

/-- A value whose exponent is 0 is less than one. -/
theorem magnitude_lt_one {r : ℕ} (h : r < runLength) : magnitude r < 1 := by
  have hone : runLength < unitsOfOne := by decide +kernel
  have hunits : units r = r := by
    have hr := units_mul_add (d := 0) (m := r) (.inl rfl) (by omega)
    rwa [Nat.zero_mul, Nat.zero_add, pow_zero, Nat.mul_one] at hr
  rw [magnitude, div_lt_one unitsOfOne_pos, hunits]
  exact_mod_cast h.trans hone

/-- The exponent is in the 11 bits after the sign. -/
theorem bits_finite_exponent (negative : Bool) (rank : Fin rankLimit) :
    (finite negative rank).bits / 2 ^ 52 % 2 ^ 11 = rank / 2 ^ 52 := by
  have hrank : rank.val < 2 ^ 11 * 2 ^ 52 := rank.isLt.trans rankLimit_lt
  have hbit : signBit negative = (if negative then 2 ^ 11 else 0) * 2 ^ 52 := by cases negative <;> rfl
  rw [bits, hbit]
  split <;> omega

end Binary64

open Binary64

/-- The operand that a finite floating-point number counts as is its integer part and no other integer. From 2^52 on
it is the number itself; for a number with the exponent 0, which is subnormal or one of the two zeros, it is 0. -/
theorem operand_float_integerPart (negative : Bool) (rank : Fin rankLimit) :
    ∃ q : ℚ, (finite negative rank).value? = some q ∧
      (∀ n : ℤ, (Number.float (finite negative rank)).operand = n ↔ IsIntegerPart q n) ∧
      (2 ^ 52 ≤ |q| → ((Number.float (finite negative rank)).operand : ℚ) = q) ∧
      ((finite negative rank).bits / 2 ^ 52 % 2 ^ 11 = 0 → (Number.float (finite negative rank)).operand = 0) := by
  have hnonneg := magnitude_nonneg rank
  have hpart : IsIntegerPart _ (Number.float (finite negative rank)).operand := truncate_isIntegerPart negative rank
  refine ⟨_, value?_finite negative rank, fun n => ?_, fun hlarge => ?_, fun hexponent => ?_⟩
  · exact ⟨fun h => h ▸ hpart, hpart.unique⟩
  · rw [abs_signed negative hnonneg] at hlarge
    obtain ⟨k, hk⟩ := exists_magnitude_eq_natCast hlarge
    have hvalue : signed negative (magnitude rank) = ((if negative then -(k : ℤ) else k : ℤ) : ℚ) := by
      rw [hk]
      cases negative <;> simp [signed]
    rw [hvalue] at hpart ⊢
    exact congrArg Int.cast (hpart.unique (isIntegerPart_intCast _))
  · rw [bits_finite_exponent] at hexponent
    have hsmall := magnitude_lt_one (show rank.val < runLength from (Nat.div_eq_zero_iff_lt (by decide)).1 hexponent)
    refine hpart.unique ⟨?_, ?_, .inl rfl⟩
    · rw [Int.cast_zero, abs_zero]
      exact abs_nonneg _
    · rw [abs_signed negative hnonneg, Int.cast_zero, abs_zero, zero_add]
      exact hsmall

/-- The number that is written 1e23. -/
example : (Number.float (.ofBits 0x44B52D02C7E14AF6)).operand = 99999999999999991611392 := by decide +kernel

end ArithLang
