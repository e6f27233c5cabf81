/-
The integer part of a rounded quotient. A quotient with a dividend of 2^53 at most has the integer part that the
integers have for it, because it is never rounded up to the next integer (`operand_divide`). With 2^53 + 1 it is.

A quotient that is no integer is `1 / den` below the next one at least, for the divisor `den`. It is moved by half the
distance of neighbours at most, and `2^52` such distances are not more than the quotient, unless that is much smaller
than 1. So half of one is `num / den / 2^53` at most, which is `1 / den` only if the quotient is not moved at all
(`units_nearestRank_div`).
-/
import ArithLang.Proofs.Binary64.Quotient

namespace ArithLang

/-! ## Rounding to a natural number -/

theorem div_le_roundHalfEven (num den : ℕ) : num / den ≤ roundHalfEven num den := by
  unfold roundHalfEven
  dsimp only
  split_ifs <;> omega

/-- A quotient that is a natural number is not moved. -/
theorem roundHalfEven_mul (k : ℕ) {den : ℕ} (hd : 0 < den) : roundHalfEven (k * den) den = k := by
  unfold roundHalfEven
  rw [Nat.mul_mod_left, Nat.mul_div_cancel k hd]
  exact if_pos hd

namespace Binary64

/-! ## Integer parts of magnitudes -/

/-- The nearest magnitude is a multiple of the distance of its neighbours. -/
theorem exists_units_nearestRank_eq (num : ℕ) {den : ℕ} (hd : 0 < den) :
    ∃ d m, units (nearestRank num den) = m * 2 ^ d ∧ m = roundHalfEven (num * unitsOfOne) (den * 2 ^ d) ∧
      m ≤ 2 * runLength ∧ (d = 0 ∨ runLength * (den * 2 ^ d) ≤ num * unitsOfOne) ∧
      num * unitsOfOne < 2 * runLength * (den * 2 ^ d) := by
  obtain ⟨d, hrank, hlow, hhigh⟩ := exists_nearestRank_eq num hd
  obtain ⟨hrun, hnext⟩ := roundHalfEven_mem_run (Nat.mul_pos hd (Nat.two_pow_pos d)) hlow hhigh
  exact ⟨d, _, by rw [hrank, units_mul_add hrun hnext], rfl, hnext, hlow, hhigh⟩

/-- The integer part of a magnitude that is exactly the quotient. -/
theorem div_unitsOfOne_of_mul_eq {units num den : ℕ} (hd : 0 < den) (h : units * den = num * unitsOfOne) :
    units / unitsOfOne = num / den := by
  have hone : 0 < unitsOfOne := by decide +kernel
  rw [← Nat.mul_div_mul_right units unitsOfOne hd, h, Nat.mul_comm unitsOfOne, Nat.mul_div_mul_right _ _ hone]

/-- Neighbours are so close that `2^d` units, half of them at most, do not lead from a quotient to the next integer. -/
theorem div_unitsOfOne_of_lt {num den d : ℕ} (hd : 0 < den) (h : den * 2 ^ d < 2 * unitsOfOne) :
    roundHalfEven (num * unitsOfOne) (den * 2 ^ d) * 2 ^ d / unitsOfOne = num / den := by
  have hpow : 0 < 2 ^ d := Nat.two_pow_pos d
  have hup := (roundHalfEven_bounds (num * unitsOfOne) (Nat.mul_pos hd hpow)).1
  have hfloor := div_le_roundHalfEven (num * unitsOfOne) (den * 2 ^ d)
  generalize roundHalfEven (num * unitsOfOne) (den * 2 ^ d) = m at hup hfloor
  refine Nat.div_eq_of_lt_le ?_ ?_
  · -- one is a multiple of the distance, so the integer part of the quotient is one too
    obtain ⟨j, hj⟩ : ∃ j, unitsOfOne = j * 2 ^ d := by
      have hlt : 2 ^ d < 2 ^ (1074 + 1) :=
        calc 2 ^ d ≤ den * 2 ^ d := Nat.le_mul_of_pos_left _ hd
          _ < 2 * unitsOfOne := h
          _ = 2 ^ (1074 + 1) := by rw [unitsOfOne_eq_two_pow, ← pow_succ']
      have hexponent : d < 1074 + 1 := (pow_lt_pow_iff_right₀ Nat.one_lt_two).1 hlt
      have hle : d ≤ 1074 := Nat.le_of_lt_succ hexponent
      exact ⟨2 ^ (1074 - d), by rw [unitsOfOne_eq_two_pow, ← pow_add, Nat.sub_add_cancel hle]⟩
    have hmul : num / den * j ≤ m := by
      refine le_trans ((Nat.le_div_iff_mul_le (Nat.mul_pos hd hpow)).2 ?_) hfloor
      calc num / den * j * (den * 2 ^ d) = num / den * den * unitsOfOne := by rw [hj]; ring
        _ ≤ num * unitsOfOne := Nat.mul_le_mul_right _ (Nat.div_mul_le_self num den)
    calc num / den * unitsOfOne = num / den * j * 2 ^ d := by rw [hj, Nat.mul_assoc]
      _ ≤ m * 2 ^ d := Nat.mul_le_mul_right _ hmul
  · have hnext : num + 1 ≤ (num / den + 1) * den := Nat.lt_mul_of_div_lt (Nat.lt_succ_self _) hd
    refine Nat.lt_of_mul_lt_mul_left (a := 2 * den) ?_
    calc 2 * den * (m * 2 ^ d) = 2 * m * (den * 2 ^ d) := by ring
      _ ≤ 2 * (num * unitsOfOne) + den * 2 ^ d := hup
      _ < 2 * (num * unitsOfOne) + 2 * unitsOfOne := Nat.add_lt_add_left h _
      _ = 2 * ((num + 1) * unitsOfOne) := by ring
      _ ≤ 2 * ((num / den + 1) * den * unitsOfOne) := Nat.mul_le_mul_left _ (Nat.mul_le_mul_right _ hnext)
      _ = 2 * den * ((num / den + 1) * unitsOfOne) := by ring

/-- Rounding a quotient with a dividend of 2^53 at most does not change its integer part. -/
theorem units_nearestRank_div {num den : ℕ} (hd : 0 < den) (hnum : num ≤ 2 ^ 53) :
    units (nearestRank num den) / unitsOfOne = num / den := by
  obtain ⟨d, m, hunits, hm, hle, hlow, hhigh⟩ := exists_units_nearestRank_eq num hd
  have hrun : 2 * runLength = 2 ^ 53 := by decide
  have hone : 2 ^ 53 < unitsOfOne := by decide +kernel
  rw [hunits]
  rcases hlow with rfl | hlow
  · -- the quotient is among the smallest magnitudes, and both integer parts are zero
    have hlt : num < den := by
      by_contra hge
      rw [pow_zero, mul_one, hrun] at hhigh
      have := Nat.mul_le_mul (Nat.not_lt.1 hge) hone.le
      omega
    rw [pow_zero, mul_one, Nat.div_eq_of_lt hlt, Nat.div_eq_of_lt (by omega)]
  · have hstep : runLength * (den * 2 ^ d) ≤ runLength * (2 * unitsOfOne) :=
      calc runLength * (den * 2 ^ d) ≤ num * unitsOfOne := hlow
        _ ≤ 2 * runLength * unitsOfOne := Nat.mul_le_mul_right _ (hrun ▸ hnum)
        _ = runLength * (2 * unitsOfOne) := by ring
    rcases (Nat.le_of_mul_le_mul_left hstep runLength_pos).lt_or_eq with hlt | heq
    · rw [hm, div_unitsOfOne_of_lt hd hlt]
    · -- half a step is exactly `1 / den`, but then the quotient begins its run
      have hexact : num * unitsOfOne = runLength * (den * 2 ^ d) := by
        refine le_antisymm ?_ hlow
        rw [heq]
        exact (Nat.mul_le_mul_right _ (hrun ▸ hnum)).trans_eq (by ring)
      rw [hexact, roundHalfEven_mul runLength (Nat.mul_pos hd (Nat.two_pow_pos d))] at hm
      refine div_unitsOfOne_of_mul_eq hd ?_
      rw [hexact, hm]
      ring

/-! ## Integer parts of quotients -/

theorem truncate_finite (negative : Bool) (r : Fin rankLimit) : (finite negative r).truncate =
    if negative then -((units r / unitsOfOne : ℕ) : ℤ) else (units r / unitsOfOne : ℕ) := rfl

/-- The quotient of integers without its fraction, by its sign and the absolute values. -/
theorem tdiv_eq_signed (a b : ℤ) : a.tdiv b =
    if a.sign * b.sign < 0 then -((a.natAbs / b.natAbs : ℕ) : ℤ) else (a.natAbs / b.natAbs : ℕ) := by
  rcases eq_or_ne a 0 with rfl | ha
  · simp
  rcases eq_or_ne b 0 with rfl | hb
  · simp
  obtain ⟨m, rfl | rfl⟩ := a.eq_nat_or_neg <;> obtain ⟨n, rfl | rfl⟩ := b.eq_nat_or_neg <;>
    simp_all [Int.sign_natCast_of_ne_zero]

theorem nearestRank_lt_rankLimit_of_le {num den : ℕ} (hd : 0 < den) (hnum : num ≤ 2 ^ 53) :
    nearestRank num den < rankLimit := by
  rw [nearestRank_lt_rankLimit_iff num hd]
  have htwice : (2 ^ 970 + 2 ^ 970 : ℚ) ≤ 2 ^ 1024 := by
    rw [← two_mul, ← pow_succ']
    exact pow_le_pow_right₀ one_le_two (by norm_num)
  calc (num / den : ℚ) ≤ num := div_le_self (Nat.cast_nonneg num) (Nat.one_le_cast.2 hd)
    _ ≤ 2 ^ 53 := by exact_mod_cast hnum
    _ < 2 ^ 970 := pow_lt_pow_right₀ one_lt_two (by norm_num)
    _ ≤ 2 ^ 1024 - 2 ^ 970 := le_sub_iff_add_le.2 htwice

theorem truncate_ofQuotient? {a b : ℤ} (ha : |a| ≤ 2 ^ 53) (hb : b ≠ 0) :
    ∃ x, ofQuotient? a b = some x ∧ x.truncate = a.tdiv b := by
  have hnum : a.natAbs ≤ 2 ^ 53 := by
    rw [Int.abs_eq_natAbs] at ha
    exact_mod_cast ha
  have hden : 0 < b.natAbs := Int.natAbs_pos.2 hb
  have hr := nearestRank_lt_rankLimit_of_le hden hnum
  refine ⟨finite _ ⟨_, hr⟩, by rw [ofQuotient?, ofMagnitude?, dif_pos hr], ?_⟩
  rw [truncate_finite, units_nearestRank_div hden hnum, tdiv_eq_signed]
  simp only [decide_eq_true_eq]

end Binary64

/-! ## Division -/

/-- A dividend of 2^53 at most, divided by any number but zero, has a quotient, which is as an operand the quotient of
the integers without its fraction. It is not so for 2^53 + 1 divided by 1. -/
theorem operand_divide (span : Span) :
    (∀ a b : ℤ, |a| ≤ 2 ^ 53 → b ≠ 0 → ∃ x, Operator.divide.apply span a b = .ok (.float x) ∧
      (Number.float x).operand = a.tdiv b) ∧
    ∃ x, Operator.divide.apply span (2 ^ 53 + 1) 1 = .ok (.float x) ∧
      (Number.float x).operand ≠ (2 ^ 53 + 1 : ℤ).tdiv 1 := by
  constructor
  · intro a b ha hb
    obtain ⟨x, hx, htruncate⟩ := Binary64.truncate_ofQuotient? ha hb
    exact ⟨x, by rw [Operator.apply_divide hb, hx], htruncate⟩
  · have hx : Binary64.ofQuotient? (2 ^ 53 + 1) 1 = some (.finite false ⟨0x4340000000000000, by decide⟩) := by
      decide +kernel
    refine ⟨_, by rw [Operator.apply_divide one_ne_zero, hx], ?_⟩
    decide +kernel

/-- This quotient is negative and one part in 2^27 - 2 off an integer of larger magnitude. -/
theorem operand_divide_near_integer :
    |(-(2 ^ 53 - 3) : ℤ)| ≤ 2 ^ 53 ∧ (2 ^ 27 - 2 : ℤ) ≠ 0 ∧
      ∃ x, Operator.divide.apply ⟨2, 1⟩ (-(2 ^ 53 - 3)) (2 ^ 27 - 2) = .ok (.float x) ∧
        (Number.float x).operand = -2 ^ 26 := by
  have ha : |(-(2 ^ 53 - 3) : ℤ)| ≤ 2 ^ 53 := by decide
  have hb : (2 ^ 27 - 2 : ℤ) ≠ 0 := by decide
  obtain ⟨x, hx, hoperand⟩ := (operand_divide ⟨2, 1⟩).1 _ _ ha hb
  exact ⟨ha, hb, x, hx, hoperand.trans (by decide +kernel)⟩

end ArithLang
