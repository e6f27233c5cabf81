/-
What the bits of a floating-point number stand for, after IEEE 754: a sign, an exponent of 11 bits and a fraction of
52 bits (`valueOfBits?`). Of a finite value these are the sign and the `magnitude` of its rank (`value?_finite`).

Magnitudes grow with their ranks (`magnitude_strictMono`). For a rank is `d * 2^52 + m` where `d` is how many times
the distance of neighbours has doubled, and then it is `m * 2^d` units of magnitude (`units_mul_add`); this is so at
the first rank of the next run as well, where `m` is `2^53`.
-/
import ArithLang.Binary64.Basic
import Mathlib.Algebra.Order.Field.Power
import Mathlib.Data.Rat.Floor
import Mathlib.Order.Monotone.Basic
import Mathlib.Tactic.FieldSimp
import Mathlib.Tactic.Linarith
import Mathlib.Tactic.NormNum
import Mathlib.Tactic.Positivity
import Mathlib.Tactic.Ring

namespace ArithLang.Binary64

/-! ## Units -/

theorem runLength_pos : 0 < runLength := by decide

theorem unitsOfOne_eq_two_pow : unitsOfOne = 2 ^ 1074 := by decide +kernel

theorem unitsOfOne_eq : (unitsOfOne : ℚ) = 2 ^ 1074 := by
  rw [unitsOfOne_eq_two_pow, Nat.cast_pow, Nat.cast_ofNat]

/-- Every rank is in a run of ranks that are the same distance apart. -/
theorem exists_doublings (r : ℕ) :
    ∃ d m, r = d * runLength + m ∧ (d = 0 ∨ runLength ≤ m) ∧ m < 2 * runLength := by
  have hr := Nat.div_add_mod r runLength
  have hm := Nat.mod_lt r runLength_pos
  obtain h | ⟨d, h⟩ : r / runLength = 0 ∨ ∃ d, r / runLength = d + 1 :=
    (Nat.eq_zero_or_pos _).imp id fun h => ⟨_, (Nat.sub_add_cancel h).symm⟩
  · exact ⟨0, r, by omega, .inl rfl, by rw [h] at hr; omega⟩
  · refine ⟨d, runLength + r % runLength, ?_, .inr (Nat.le_add_right _ _), by omega⟩
    rw [h, Nat.mul_comm, Nat.add_mul, Nat.one_mul] at hr
    omega

theorem units_mul_add {d m : ℕ} (hlow : d = 0 ∨ runLength ≤ m) (hhigh : m ≤ 2 * runLength) :
    units (d * runLength + m) = m * 2 ^ d := by
  have hdiv : (d * runLength + m) / runLength = d + m / runLength := by
    rw [Nat.add_comm, Nat.add_mul_div_right _ _ runLength_pos, Nat.add_comm]
  obtain rfl | hlt := Nat.eq_or_lt_of_le hhigh
  · -- the first rank of the next run
    have hd : doublings (d * runLength + 2 * runLength) = d + 1 := by
      rw [doublings, hdiv, Nat.mul_div_cancel _ runLength_pos]
      rfl
    rw [units, hd, Nat.pow_eq, Nat.pow_succ, show d * runLength + 2 * runLength - (d + 1) * runLength = runLength by
      rw [Nat.add_mul]; omega]
    ring
  · have hd : doublings (d * runLength + m) = d := by
      rw [doublings, hdiv]
      rcases hlow with rfl | hlow
      · have := Nat.div_lt_of_lt_mul (Nat.mul_comm 2 _ ▸ hlt)
        omega
      · rw [Nat.div_eq_of_lt_le (k := 1) (by omega) (by omega)]
        omega
    rw [units, hd, Nat.pow_eq, Nat.add_sub_cancel_left]

theorem units_strictMono : StrictMono units := by
  refine strictMono_nat_of_lt_succ fun r => ?_
  obtain ⟨d, m, rfl, hlow, hhigh⟩ := exists_doublings r
  rw [Nat.add_assoc, units_mul_add hlow hhigh.le, units_mul_add (hlow.imp id Nat.le_succ_of_le) hhigh]
  exact Nat.mul_lt_mul_of_pos_right (Nat.lt_succ_self m) (Nat.two_pow_pos d)

/-- From `2^(52 + d)` units on, and from 0 on if `d` is 0, ranks are multiples of `2^d`. -/
theorem exists_units_eq {r d : ℕ} (h : d = 0 ∨ runLength * 2 ^ d ≤ units r) : ∃ k, units r = k * 2 ^ d := by
  obtain ⟨e, m, rfl, hlow, hhigh⟩ := exists_doublings r
  rw [units_mul_add hlow hhigh.le] at h ⊢
  obtain hlt | hle := Nat.lt_or_ge e d
  · have hunits : m * 2 ^ e < runLength * 2 ^ d :=
      calc m * 2 ^ e < 2 * runLength * 2 ^ e := Nat.mul_lt_mul_of_pos_right hhigh (Nat.two_pow_pos e)
        _ = runLength * 2 ^ (e + 1) := by ring
        _ ≤ runLength * 2 ^ d := Nat.mul_le_mul_left _ (Nat.pow_le_pow_right Nat.two_pos hlt)
    omega
  · obtain ⟨n, rfl⟩ := Nat.exists_eq_add_of_le hle
    exact ⟨m * 2 ^ n, by ring⟩

/-! ## Magnitudes -/

/-- The magnitude of the values of rank `r`. -/
def magnitude (r : ℕ) : ℚ := units r / unitsOfOne

theorem unitsOfOne_pos : (0 : ℚ) < unitsOfOne := by
  rw [unitsOfOne_eq]
  positivity

/-- How far neighbours are apart when their distance has doubled `d` times. -/
def step (d : ℕ) : ℚ := 2 ^ d / unitsOfOne

theorem step_pos (d : ℕ) : 0 < step d := div_pos (by positivity) unitsOfOne_pos

theorem magnitude_of_units_eq {r d k : ℕ} (h : units r = k * 2 ^ d) : magnitude r = k * step d := by
  rw [magnitude, h, Nat.cast_mul, Nat.cast_pow, Nat.cast_ofNat, mul_div_assoc, step]

theorem magnitude_mul_add {d m : ℕ} (hlow : d = 0 ∨ runLength ≤ m) (hhigh : m ≤ 2 * runLength) :
    magnitude (d * runLength + m) = m * step d :=
  magnitude_of_units_eq (units_mul_add hlow hhigh)

theorem magnitude_strictMono : StrictMono magnitude := fun _ _ h =>
  div_lt_div_of_pos_right (Nat.cast_lt.2 (units_strictMono h)) unitsOfOne_pos

theorem magnitude_zero : magnitude 0 = 0 := by
  rw [magnitude, show units 0 = 0 by rfl, Nat.cast_zero, zero_div]

theorem magnitude_nonneg (r : ℕ) : 0 ≤ magnitude r := by
  rw [← magnitude_zero]
  exact magnitude_strictMono.monotone (Nat.zero_le r)

/-- The magnitude of the first rank that is too large. -/
theorem magnitude_rankLimit : magnitude rankLimit = 2 ^ 1024 := by
  have hlimit : rankLimit = 2046 * runLength + runLength := rfl
  rw [hlimit, magnitude_mul_add (.inr le_rfl) (by decide), step, unitsOfOne_eq, ← mul_div_assoc, div_eq_iff (by positivity),
    show (runLength : ℚ) = 2 ^ 52 by norm_num [runLength], ← pow_add, ← pow_add]

theorem magnitude_last : magnitude (rankLimit - 1) = 2 ^ 1024 - 2 ^ 971 := by
  have hlast : rankLimit - 1 = 2045 * runLength + (2 * runLength - 1) := rfl
  rw [hlast, magnitude_mul_add (.inr (by decide)) (by decide), step, unitsOfOne_eq, ← mul_div_assoc,
    div_eq_iff (by positivity), show ((2 * runLength - 1 : ℕ) : ℚ) = 2 ^ 53 - 1 by norm_num [runLength], sub_mul,
    sub_mul, ← pow_add, ← pow_add, ← pow_add, one_mul]

/-! ## Values -/

/-- The number with the sign and magnitude given. -/
def signed (negative : Bool) (magnitude : ℚ) : ℚ := if negative then -magnitude else magnitude

/-- The number that 64 bits stand for: the highest one is the sign, the next 11 the exponent and the last 52 the
fraction. With the exponent 0 the number is subnormal, with the highest exponent it is no number. -/
def valueOfBits? (w : ℕ) : Option ℚ :=
  let exponent : ℕ := w / 2 ^ 52 % 2 ^ 11
  let fraction : ℕ := w % 2 ^ 52
  if exponent = 2 ^ 11 - 1 then none
  else some (signed (w / 2 ^ 63 % 2 == 1)
    (if exponent = 0 then fraction * 2 ^ (-1074 : ℤ) else (2 ^ 52 + fraction) * 2 ^ ((exponent : ℤ) - 1075)))

def value? (x : Binary64) : Option ℚ := valueOfBits? x.bits

theorem valueOfBits?_signBit_add (negative : Bool) {r : ℕ} (h : r < signWeight) :
    valueOfBits? (signBit negative + r) =
      if r / 2 ^ 52 = 2 ^ 11 - 1 then none
      else some (signed negative (if r / 2 ^ 52 = 0 then (r % 2 ^ 52 : ℕ) * 2 ^ (-1074 : ℤ)
        else (2 ^ 52 + (r % 2 ^ 52 : ℕ)) * 2 ^ (((r / 2 ^ 52 : ℕ) : ℤ) - 1075))) := by
  have hsign : ((signBit negative + r) / 2 ^ 63 % 2 == 1) = negative := signBit_add_div negative h
  have hbit : signBit negative = (if negative then 2 ^ 11 else 0) * 2 ^ 52 := by cases negative <;> rfl
  have hr : r < 2 ^ 11 * 2 ^ 52 := h
  have hexponent : (signBit negative + r) / 2 ^ 52 % 2 ^ 11 = r / 2 ^ 52 := by rw [hbit]; split <;> omega
  have hfraction : (signBit negative + r) % 2 ^ 52 = r % 2 ^ 52 := by rw [hbit]; split <;> omega
  simp only [valueOfBits?, hsign, hexponent, hfraction]

theorem value?_finite (negative : Bool) (rank : Fin rankLimit) :
    (finite negative rank).value? = some (signed negative (magnitude rank)) := by
  have hrank : rank.val / 2 ^ 52 < 2 ^ 11 - 1 := Nat.div_lt_of_lt_mul rank.isLt
  have hlast : rank.val % 2 ^ 52 < runLength := Nat.mod_lt _ (by decide)
  have hdigits : rank.val = rank.val / 2 ^ 52 * runLength + rank.val % 2 ^ 52 := (Nat.div_add_mod' _ _).symm
  rw [value?, bits, valueOfBits?_signBit_add negative (rank.isLt.trans rankLimit_lt), if_neg hrank.ne]
  generalize rank.val / 2 ^ 52 = exponent at hdigits
  generalize rank.val % 2 ^ 52 = fraction at hdigits hlast
  rw [hdigits]
  cases exponent with
  | zero =>
    rw [if_pos rfl, magnitude_mul_add (.inl rfl) (by omega), step, unitsOfOne_eq, pow_zero, one_div, zpow_neg]
    norm_cast
  | succ d =>
    have hrun : (d + 1) * runLength + fraction = d * runLength + (runLength + fraction) := by ring
    rw [if_neg (Nat.succ_ne_zero d), hrun, magnitude_mul_add (.inr (by omega)) (by omega), step, unitsOfOne_eq]
    congr 3
    · norm_num [runLength]
    · rw [← zpow_natCast, ← zpow_natCast, ← zpow_sub₀ two_ne_zero]
      congr 1
      push_cast
      ring

theorem value?_infinite (negative : Bool) : (infinite negative).value? = none := by
  rw [value?, bits, valueOfBits?_signBit_add negative rankLimit_lt, if_pos (by decide)]

theorem value?_nan : nan.value? = none := by
  rw [value?, bits, valueOfBits?, if_pos (by decide)]

end ArithLang.Binary64
