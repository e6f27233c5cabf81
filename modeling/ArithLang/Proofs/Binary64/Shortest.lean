/-
The search for the shortest decimal. Whatever a grid has that is rounded to a value, one of the two neighbours of the
value on that grid is rounded to it as well (`rankOnGrid_ne_of_onGrid?_eq_none`), and the finest grid always has one
(`onGrid?_zero_ne_none`). So the search ends on a decimal that is rounded to the value, and nothing on the next coarser
grid is (`shortest_isShortest`).

Main fact: such a decimal has the fewest significant digits of all that are rounded to the value
(`Decimal.IsShortest.significantDigits_le`).
-/
import ArithLang.Binary64.Shortest
import ArithLang.Proofs.Binary64.Rounded
import Mathlib.Algebra.Order.Floor.Semifield
import Mathlib.Data.List.TakeWhile
import Mathlib.Data.Nat.Cast.Order.Field
import Mathlib.Data.Nat.Digits.Lemmas

namespace ArithLang.Binary64

/-! ## Decimals -/

namespace Decimal

def value (d : Decimal) : ℚ := d.coefficient * 10 ^ d.exponent

/-- How many digits the coefficient has, without the zeros at its end. -/
def significantDigits (d : Decimal) : ℕ := ((Nat.digits 10 d.coefficient).dropWhile (· == 0)).length

theorem value_nonneg (d : Decimal) : 0 ≤ d.value := by
  unfold value
  positivity

/-- Zeros moved from the power of ten to the end of the coefficient. -/
theorem value_mul_pow (m t : ℕ) (e : ℤ) : value ⟨m * 10 ^ t, e⟩ = m * 10 ^ (e + t) := by
  rw [value, zpow_add₀ (by norm_num), zpow_natCast]
  push_cast
  ring

theorem significantDigits_mul_pow (m t : ℕ) (e e' : ℤ) :
    significantDigits ⟨m * 10 ^ t, e⟩ = significantDigits ⟨m, e'⟩ := by
  unfold significantDigits
  rcases Nat.eq_zero_or_pos m with rfl | hm
  · rw [Nat.zero_mul]
  · rw [Nat.mul_comm, Nat.digits_base_pow_mul (by decide) hm, List.dropWhile_append_of_pos]
    simp

/-- The zeros at the end of a coefficient, apart from the significant digits. -/
theorem exists_mul_pow_eq_coefficient (d : Decimal) :
    ∃ m t, d.coefficient = m * 10 ^ t ∧ m < 10 ^ d.significantDigits := by
  have hsplit := List.takeWhile_append_dropWhile (p := (· == 0)) (l := Nat.digits 10 d.coefficient)
  have hzeros : (Nat.digits 10 d.coefficient).takeWhile (· == 0) =
      List.replicate ((Nat.digits 10 d.coefficient).takeWhile (· == 0)).length 0 :=
    List.eq_replicate_of_mem fun n hn => by simpa using List.mem_takeWhile_imp hn
  refine ⟨Nat.ofDigits 10 ((Nat.digits 10 d.coefficient).dropWhile (· == 0)),
    ((Nat.digits 10 d.coefficient).takeWhile (· == 0)).length, ?_, ?_⟩
  · conv_lhs => rw [← Nat.ofDigits_digits 10 d.coefficient, ← hsplit, Nat.ofDigits_append, hzeros]
    rw [Nat.ofDigits_replicate_zero, Nat.zero_add, List.length_replicate, Nat.mul_comm]
  · refine Nat.ofDigits_lt_base_pow_length (by decide) fun n hn => ?_
    exact Nat.digits_lt_base (by decide) ((List.dropWhile_sublist _).subset hn)

theorem significantDigits_le_of_lt {d : Decimal} {k : ℕ} (h : d.coefficient < 10 ^ k) : d.significantDigits ≤ k :=
  (List.dropWhile_sublist _).length_le.trans (Nat.digits_length_le_iff (by decide) _ |>.2 h)

/-- `d` is rounded to rank `r`, and no multiple of the next power of ten is. -/
structure IsShortest (d : Decimal) (r : ℕ) : Prop where
  rounds : RoundsToRank d.value r
  coarser : ∀ c : ℕ, ¬ RoundsToRank (c * 10 ^ (d.exponent + 1)) r

/-- Fewer digits would leave a multiple of the next power of ten between both decimals, if the other one is no such
multiple itself. -/
theorem IsShortest.significantDigits_le {d d' : Decimal} {r : ℕ} (h : d.IsShortest r) (h' : RoundsToRank d'.value r) :
    d.significantDigits ≤ d'.significantDigits := by
  obtain ⟨m, t, hcoefficient, hm⟩ := exists_mul_pow_eq_coefficient d'
  have hvalue : d'.value = m * 10 ^ (d'.exponent + t) := by
    rw [← value_mul_pow, ← hcoefficient]
  rw [hvalue] at h'
  refine significantDigits_le_of_lt ?_
  by_contra hlong
  rw [not_lt] at hlong
  rcases le_or_gt (d.exponent + 1) (d'.exponent + t) with hcoarse | hfine
  · obtain ⟨n, hn⟩ := Int.le.dest hcoarse
    refine h.coarser (m * 10 ^ n) ?_
    rw [← hn, zpow_add₀ (by norm_num), zpow_natCast, mul_comm ((10 : ℚ) ^ _), ← mul_assoc] at h'
    exact_mod_cast h'
  · rcases Nat.eq_zero_or_pos d'.significantDigits with hzero | hpos
    · -- without significant digits the other decimal is zero
      rw [hzero, pow_zero, Nat.lt_one_iff] at hm
      refine h.coarser 0 ?_
      rw [hm, Nat.cast_zero, zero_mul] at h'
      rwa [Nat.cast_zero, zero_mul]
    · obtain ⟨k, hk⟩ := Nat.exists_eq_add_of_lt hpos
      rw [Nat.zero_add] at hk
      have hmid : ((10 ^ k : ℕ) : ℚ) * 10 ^ (d.exponent + 1) = (10 ^ (k + 1) : ℕ) * 10 ^ d.exponent := by
        rw [zpow_add_one₀ (by norm_num)]
        push_cast
        ring
      rw [hk] at hm hlong
      refine h.coarser (10 ^ k) (h'.of_between h.rounds ?_ ?_)
      · rw [hmid]
        have hpow : (10 : ℚ) ^ (d'.exponent + t) ≤ 10 ^ d.exponent := zpow_le_zpow_right₀ (by norm_num) (by omega)
        exact mul_le_mul (by exact_mod_cast hm.le) hpow (by positivity) (by positivity)
      · rw [hmid, value]
        exact mul_le_mul_of_nonneg_right (by exact_mod_cast hlong) (by positivity)

end Decimal

/-! ## Grids -/

/-- How far the decimals on grid `g` are apart. -/
def spacing (g : ℕ) : ℚ := 10 ^ (finestExponent + g)

theorem spacing_pos (g : ℕ) : 0 < spacing g := by
  unfold spacing
  positivity

theorem ten_pow_pos (n : ℕ) : 0 < Nat.pow 10 n := Nat.pow_pos (by decide)

theorem cast_ten_pow (n : ℕ) : ((Nat.pow 10 n : ℕ) : ℚ) = 10 ^ n := by
  rw [Nat.pow_eq, Nat.cast_pow, Nat.cast_ofNat]

theorem spacing_eq (g : ℕ) : spacing g = 10 ^ g / 10 ^ 324 := by
  rw [spacing, finestExponent, zpow_add₀ (by norm_num), zpow_neg, zpow_natCast, mul_comm, ← div_eq_mul_inv]
  rfl

theorem rankOnGrid_eq_iff {c g r : ℕ} : rankOnGrid c g = r ↔ RoundsToRank (c * spacing g) r := by
  have hgrids : ∀ n, nearestRank (c * Nat.pow 10 g) (Nat.pow 10 n) = r ↔ RoundsToRank (c * (10 ^ g / 10 ^ n)) r := by
    intro n
    rw [nearestRank_eq_iff (ten_pow_pos n), Nat.cast_mul, cast_ten_pow, cast_ten_pow, mul_div_assoc]
  rw [spacing_eq]
  exact hgrids 324

/-- The largest decimal on grid `g` up to the magnitude of rank `r`. -/
def below (r g : ℕ) : ℕ := units r * Nat.pow 10 324 / (unitsOfOne * Nat.pow 10 g)

theorem below_bounds (r g : ℕ) : below r g * spacing g ≤ magnitude r ∧ magnitude r < (below r g + 1 : ℕ) * spacing g := by
  have hgrids : ∀ n, magnitude r = (units r * Nat.pow 10 n : ℕ) / (unitsOfOne * Nat.pow 10 g : ℕ) * (10 ^ g / 10 ^ n) := by
    intro n
    have hone := unitsOfOne_pos.ne'
    rw [magnitude, Nat.cast_mul, Nat.cast_mul, cast_ten_pow, cast_ten_pow]
    field_simp
  have hquotient : magnitude r = (units r * Nat.pow 10 324 : ℕ) / (unitsOfOne * Nat.pow 10 g : ℕ) * spacing g := by
    rw [spacing_eq]
    exact hgrids 324
  have hlow : (below r g : ℚ) ≤ (units r * Nat.pow 10 324 : ℕ) / (unitsOfOne * Nat.pow 10 g : ℕ) := Nat.cast_div_le
  have hhigh : ((units r * Nat.pow 10 324 : ℕ) / (unitsOfOne * Nat.pow 10 g : ℕ) : ℚ) < (below r g + 1 : ℕ) := by
    rw [Nat.cast_succ, below, ← Nat.floor_div_eq_div (K := ℚ)]
    exact Nat.lt_floor_add_one _
  rw [hquotient]
  exact ⟨mul_le_mul_of_nonneg_right hlow (spacing_pos g).le, mul_lt_mul_of_pos_right hhigh (spacing_pos g)⟩

theorem rankOnGrid_of_onGrid?_eq_some {r g c : ℕ} (h : onGrid? r g = some c) : rankOnGrid c g = r := by
  unfold onGrid? at h
  simp only at h
  split at h
  · rename_i hbelow
    obtain rfl := Option.some.inj h
    exact beq_iff_eq.1 (Bool.and_eq_true_iff.1 hbelow).1
  · split at h
    · rename_i habove
      obtain rfl := Option.some.inj h
      exact beq_iff_eq.1 habove
    · exact absurd h (Option.some_ne_none c).symm

/-- A grid without a result has nothing that is rounded to `r`, for what is next to the magnitude is rounded to `r` if
anything on that side is. -/
theorem rankOnGrid_ne_of_onGrid?_eq_none {r g : ℕ} (h : onGrid? r g = none) (c : ℕ) : rankOnGrid c g ≠ r := by
  have hneighbours : rankOnGrid (below r g) g ≠ r ∧ rankOnGrid (below r g + 1) g ≠ r := by
    unfold onGrid? at h
    simp only at h
    split at h
    · exact absurd h (Option.some_ne_none _)
    · split at h
      · exact absurd h (Option.some_ne_none _)
      · rename_i hbelow habove
        have habove : rankOnGrid (below r g + 1) g ≠ r := fun heq => habove (beq_iff_eq.2 heq)
        have hmiss : (rankOnGrid (below r g + 1) g == r) = false := beq_eq_false_iff_ne.2 habove
        refine ⟨fun heq => hbelow (Bool.and_eq_true_iff.2 ⟨beq_iff_eq.2 heq, Bool.or_eq_true_iff.2 (.inl ?_)⟩), habove⟩
        exact congrArg (!·) hmiss
  obtain ⟨hbelow, habove⟩ := hneighbours
  obtain ⟨hlow, hhigh⟩ := below_bounds r g
  rw [Ne, rankOnGrid_eq_iff] at hbelow habove ⊢
  intro hc
  rcases le_or_gt c (below r g) with hle | hlt
  · exact hbelow (hc.of_between (roundsToRank_magnitude r)
      (mul_le_mul_of_nonneg_right (by exact_mod_cast hle) (spacing_pos g).le) hlow)
  · exact habove ((roundsToRank_magnitude r).of_between hc hhigh.le
      (mul_le_mul_of_nonneg_right (by exact_mod_cast hlt) (spacing_pos g).le))

/-- The multiples of 10^-324 are less than half the smallest distance of neighbours apart. -/
theorem onGrid?_zero_ne_none (r : ℕ) : onGrid? r 0 ≠ none := by
  intro h
  refine rankOnGrid_ne_of_onGrid?_eq_none h (below r 0 + 1) (rankOnGrid_eq_iff.2 (roundsToRank_of_close ?_))
  obtain ⟨hlow, hhigh⟩ := below_bounds r 0
  have hfine : spacing 0 < 2 ^ (-1075 : ℤ) := by
    have hpowers : 2 ^ 1075 < 10 ^ 324 := by decide +kernel
    rw [spacing_eq, pow_zero, one_div, zpow_neg]
    exact inv_strictAnti₀ (by positivity) (by exact_mod_cast hpowers)
  refine lt_of_le_of_lt ?_ hfine
  rw [Nat.cast_succ] at hhigh ⊢
  rw [abs_le]
  constructor <;> linarith

/-! ## The search -/

theorem isShortest_of_rankOnGrid {c g r : ℕ} (h : rankOnGrid c g = r) (hcoarser : ∀ c', rankOnGrid c' (g + 1) ≠ r) :
    Decimal.IsShortest ⟨c, finestExponent + g⟩ r := by
  refine ⟨rankOnGrid_eq_iff.1 h, fun c' hc' => hcoarser c' (rankOnGrid_eq_iff.2 ?_)⟩
  rwa [spacing, Nat.cast_succ, ← add_assoc]

theorem shortestFrom_isShortest {r : ℕ} (g : ℕ) (hcoarser : ∀ c, rankOnGrid c (g + 1) ≠ r) :
    (shortestFrom (onGrid? r) g).IsShortest r := by
  induction g with
  | zero =>
    obtain ⟨c, hc⟩ := Option.ne_none_iff_exists'.1 (onGrid?_zero_ne_none r)
    have hshortest := isShortest_of_rankOnGrid (rankOnGrid_of_onGrid?_eq_some hc) hcoarser
    rw [Nat.cast_zero, add_zero] at hshortest
    rwa [shortestFrom, hc]
  | succ g ih =>
    rw [shortestFrom]
    cases hc : onGrid? r (g + 1) with
    | some c =>
      have hshortest := isShortest_of_rankOnGrid (rankOnGrid_of_onGrid?_eq_some hc) hcoarser
      rwa [Nat.cast_succ] at hshortest
    | none => exact ih (rankOnGrid_ne_of_onGrid?_eq_none hc)

/-- Of the multiples of 10^309 zero is rounded to zero, and all others are too large. -/
theorem rankOnGrid_coarsest {r : ℕ} (hpos : 0 < r) (hlimit : r < rankLimit) (c : ℕ) : rankOnGrid c 633 ≠ r := by
  rw [Ne, rankOnGrid_eq_iff]
  intro hc
  rcases Nat.eq_zero_or_pos c with rfl | hc'
  · rw [Nat.cast_zero, zero_mul, roundsToRank_zero_iff] at hc
    exact hpos.ne' hc
  · have hlarge : magnitude rankLimit ≤ c * spacing 633 :=
      calc magnitude rankLimit ≤ spacing 633 := by
            have hpowers : 2 ^ 1024 * 10 ^ 324 ≤ 10 ^ 633 := by decide +kernel
            rw [magnitude_rankLimit, spacing_eq, le_div_iff₀ (by positivity)]
            exact_mod_cast hpowers
        _ ≤ c * spacing 633 := le_mul_of_one_le_left (spacing_pos _).le (by exact_mod_cast hc')
    exact Nat.not_le.2 hlimit (hc.le_of_magnitude_le hlarge)

theorem shortest_isShortest {r : ℕ} (hpos : 0 < r) (hlimit : r < rankLimit) : (shortest r).IsShortest r :=
  shortestFrom_isShortest 632 (rankOnGrid_coarsest hpos hlimit)

end ArithLang.Binary64
