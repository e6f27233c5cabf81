/-
Quotients are rounded once, and to the nearest. Of two values that are equally near, a quotient goes to the one whose
last bit is 0 (`IsNearest`).

The argument is about magnitudes first (`Nearest`). A quotient is rounded on the multiples of `2^d` units, and the
magnitudes that are no such multiples are too small to be nearer (`nearestRank_nearest`); where the ranks end follows
from that (`nearestRank_lt_rankLimit_iff`). The sign is put back last (`IsNearest.nearest`, `Nearest.isNearest`).

Main fact: a division by a number other than zero has the nearest value, of which there is one only, or fails from
`2^1024 - 2^970` on, and asks for the rational quotient only (`divide_rounds_to_nearest`).
-/
import ArithLang.Evaluation
import ArithLang.Proofs.Binary64.Value

namespace ArithLang

/-! ## Rounding to a natural number -/

theorem abs_sub_roundHalfEven_le (num : ℕ) {den : ℕ} (hd : 0 < den) :
    |(num / den : ℚ) - roundHalfEven num den| ≤ 1 / 2 := by
  obtain ⟨hhigh, hlow, -⟩ := roundHalfEven_bounds num hd
  have hden : (0 : ℚ) < den := Nat.cast_pos.2 hd
  have hhigh : (2 * roundHalfEven num den * den : ℚ) ≤ 2 * num + den := by exact_mod_cast hhigh
  have hlow : (2 * num : ℚ) ≤ 2 * roundHalfEven num den * den + den := by exact_mod_cast hlow
  rw [abs_le, le_sub_iff_add_le, le_div_iff₀ hden, sub_le_iff_le_add, div_le_iff₀ hden]
  constructor <;> linarith

theorem even_roundHalfEven {num den : ℕ} (hd : 0 < den)
    (h : |(num / den : ℚ) - roundHalfEven num den| = 1 / 2) : Even (roundHalfEven num den) := by
  obtain ⟨-, -, heven⟩ := roundHalfEven_bounds num hd
  have hden : (den : ℚ) ≠ 0 := Nat.cast_ne_zero.2 hd.ne'
  refine Nat.even_iff.2 (heven ?_)
  rcases eq_or_eq_neg_of_abs_eq h with h | h
  · right
    rw [sub_eq_iff_eq_add, div_eq_iff hden] at h
    have : (2 * num : ℚ) = 2 * roundHalfEven num den * den + den := by linarith
    exact_mod_cast this
  · left
    rw [sub_eq_iff_eq_add, div_eq_iff hden] at h
    have : (2 * roundHalfEven num den * den : ℚ) = 2 * num + den := by linarith
    exact_mod_cast this

/-- No natural number is nearer, and if another one is as near, the result is even. -/
theorem roundHalfEven_nearest (num : ℕ) {den : ℕ} (hd : 0 < den) (k : ℕ) :
    |(num / den : ℚ) - roundHalfEven num den| ≤ |(num / den : ℚ) - k| ∧
      (k ≠ roundHalfEven num den → |(num / den : ℚ) - k| = |(num / den : ℚ) - roundHalfEven num den| →
        Even (roundHalfEven num den)) := by
  have hhalf := abs_sub_roundHalfEven_le num hd
  by_cases hk : k = roundHalfEven num den
  · exact ⟨by rw [hk], fun hne => absurd hk hne⟩
  · -- different natural numbers are 1 apart at least, so `k` is one half away at least
    have hapart : (1 : ℚ) ≤ |(k : ℚ) - roundHalfEven num den| := by
      have hint : (1 : ℤ) ≤ |(k : ℤ) - roundHalfEven num den| := Int.one_le_abs (by omega)
      exact_mod_cast hint
    have htriangle := abs_sub_le (k : ℚ) (num / den) (roundHalfEven num den)
    rw [abs_sub_comm (k : ℚ) (num / den)] at htriangle
    refine ⟨by linarith, fun _ htie => even_roundHalfEven hd ?_⟩
    linarith

namespace Binary64

/-! ## The nearest magnitude -/

/-- Of the numbers `x 0`, `x 1`, … before `x n`, none is nearer to `q` than `x i`; and `i` is even if another one is
as near. -/
structure Nearest (x : ℕ → ℚ) (n : ℕ) (q : ℚ) (i : ℕ) : Prop where
  lt : i < n
  le : ∀ j < n, |q - x i| ≤ |q - x j|
  even : ∀ j < n, j ≠ i → |q - x j| = |q - x i| → Even i

theorem Nearest.le_of_even {x : ℕ → ℚ} (hx : StrictMono x) {n : ℕ} {q : ℚ} {i j : ℕ} (hi : Nearest x n q i)
    (hj : Nearest x n q j) : j ≤ i := by
  by_contra hlt
  rw [Nat.not_le] at hlt
  have htie : |q - x i| = |q - x j| := le_antisymm (hi.le j hj.lt) (hj.le i hi.lt)
  have heven_i := hi.even j hj.lt hlt.ne' htie.symm
  have heven_j := hj.even i hi.lt hlt.ne htie
  -- both are even, so there is one between them, which is nearer than both
  have hnext : i + 1 < j := by
    obtain ⟨a, rfl⟩ := heven_i
    obtain ⟨b, rfl⟩ := heven_j
    omega
  have hleft : x i < x (i + 1) := hx (Nat.lt_succ_self i)
  have hright : x (i + 1) < x j := hx hnext
  have hmid := hi.le (i + 1) (hnext.trans hj.lt)
  rcases abs_eq_abs.1 htie with h | h
  · linarith
  · have hi' : |q - x i| = q - x i := abs_of_nonneg (by linarith)
    rw [hi'] at hmid
    rcases abs_cases (q - x (i + 1)) with ⟨habs, -⟩ | ⟨habs, -⟩ <;> rw [habs] at hmid <;> linarith

theorem Nearest.unique {x : ℕ → ℚ} (hx : StrictMono x) {n : ℕ} {q : ℚ} {i j : ℕ} (hi : Nearest x n q i)
    (hj : Nearest x n q j) : i = j :=
  le_antisymm (hj.le_of_even hx hi) (hi.le_of_even hx hj)

/-- The rank is made of the doublings of a run and of the quotient rounded on the multiples of that run. -/
theorem exists_nearestRank_eq (num : ℕ) {den : ℕ} (hd : 0 < den) :
    ∃ d, nearestRank num den = d * runLength + roundHalfEven (num * unitsOfOne) (den * 2 ^ d) ∧
      (d = 0 ∨ runLength * (den * 2 ^ d) ≤ num * unitsOfOne) ∧
      num * unitsOfOne < 2 * runLength * (den * 2 ^ d) := by
  refine ⟨(num * unitsOfOne / den).log2 - 52, by rw [← Nat.pow_eq]; rfl, ?_⟩
  generalize num * unitsOfOne = total
  have hrun : runLength = 2 ^ 52 := rfl
  constructor
  · by_cases hlog : (total / den).log2 ≤ 52
    · exact .inl (Nat.sub_eq_zero_of_le hlog)
    · have hne : total / den ≠ 0 := fun h => hlog (by rw [h]; decide)
      right
      calc runLength * (den * 2 ^ ((total / den).log2 - 52))
          = 2 ^ (52 + ((total / den).log2 - 52)) * den := by rw [hrun, Nat.pow_add]; ring
        _ = 2 ^ (total / den).log2 * den := by rw [Nat.add_sub_cancel' (by omega)]
        _ ≤ total := (Nat.le_div_iff_mul_le hd).1 (Nat.log2_self_le hne)
  · calc total < 2 ^ ((total / den).log2 + 1) * den := (Nat.div_lt_iff_lt_mul hd).1 Nat.lt_log2_self
      _ ≤ 2 ^ (53 + ((total / den).log2 - 52)) * den :=
        Nat.mul_le_mul_right _ (Nat.pow_le_pow_right Nat.two_pos (by omega))
      _ = 2 * runLength * (den * 2 ^ ((total / den).log2 - 52)) := by rw [hrun, Nat.pow_add]; ring

/-- Rounding stays in the run, or comes to the first rank of the next one. -/
theorem roundHalfEven_mem_run {num den d : ℕ} (hd : 0 < den) (hlow : d = 0 ∨ runLength * den ≤ num)
    (hhigh : num < 2 * runLength * den) :
    (d = 0 ∨ runLength ≤ roundHalfEven num den) ∧ roundHalfEven num den ≤ 2 * runLength := by
  obtain ⟨hdown, hup, -⟩ := roundHalfEven_bounds num hd
  generalize roundHalfEven num den = m at *
  constructor
  · refine hlow.imp id fun hlow => ?_
    by_contra hlt
    have : (m + 1) * den ≤ runLength * den := Nat.mul_le_mul_right _ (by omega)
    rw [Nat.add_mul, Nat.one_mul] at this
    rw [Nat.mul_assoc] at hup
    omega
  · by_contra hlt
    have : (2 * runLength + 1) * den ≤ m * den := Nat.mul_le_mul_right _ (by omega)
    rw [Nat.add_mul, Nat.one_mul] at this
    rw [Nat.mul_assoc] at hdown
    omega

/-- What is nearest among the multiples of a run is nearest among all magnitudes, for those that are no multiples are
below the run. -/
theorem nearest_of_multiples {d m n : ℕ} {x : ℚ} (hn : d * runLength + m < n) (hrun : d = 0 ∨ runLength ≤ m)
    (hnext : m ≤ 2 * runLength) (hx : d = 0 ∨ (runLength : ℚ) ≤ x)
    (hnearest : ∀ k : ℕ, |x - m| ≤ |x - k| ∧ (k ≠ m → |x - k| = |x - m| → Even m)) :
    Nearest magnitude n (x * step d) (d * runLength + m) := by
  have hmagnitude := magnitude_mul_add hrun hnext
  have hstep := step_pos d
  have hdistance : ∀ y : ℚ, |x * step d - y * step d| = |x - y| * step d :=
    fun y => by rw [← sub_mul, abs_mul, abs_of_pos hstep]
  suffices hall : ∀ j, |x * step d - m * step d| ≤ |x * step d - magnitude j| ∧ (j ≠ d * runLength + m →
      |x * step d - magnitude j| = |x * step d - m * step d| → Even (d * runLength + m)) by
    rw [← hmagnitude] at hall
    exact ⟨hn, fun j _ => (hall j).1, fun j _ => (hall j).2⟩
  intro j
  rw [hdistance]
  by_cases hj : d = 0 ∨ runLength * 2 ^ d ≤ units j
  · -- `j` is one of the multiples
    obtain ⟨k, hk⟩ := exists_units_eq hj
    have hmagnitude_j := magnitude_of_units_eq hk
    obtain ⟨hle, heven⟩ := hnearest k
    rw [hmagnitude_j, hdistance]
    refine ⟨mul_le_mul_of_nonneg_right hle hstep.le, fun hne htie => ?_⟩
    have hkm : k ≠ m := by
      rintro rfl
      exact hne (magnitude_strictMono.injective (hmagnitude_j.trans hmagnitude.symm))
    exact (Even.mul_left (by decide) d).add (heven hkm (mul_right_cancel₀ hstep.ne' htie))
  · -- `j` is below the run, and the first rank of the run is nearer already
    obtain ⟨hd0, hbelow⟩ := not_or.1 hj
    have hlt : magnitude j < runLength * step d := by
      rw [magnitude, step, ← mul_div_assoc]
      refine div_lt_div_of_pos_right ?_ unitsOfOne_pos
      exact_mod_cast Nat.not_le.1 hbelow
    have hfar : |x - m| * step d < |x * step d - magnitude j| :=
      calc |x - m| * step d ≤ |x - runLength| * step d :=
            mul_le_mul_of_nonneg_right (hnearest runLength).1 hstep.le
        _ = x * step d - runLength * step d := by
            rw [abs_of_nonneg (sub_nonneg.2 (hx.resolve_left hd0)), sub_mul]
        _ < x * step d - magnitude j := sub_lt_sub_left hlt _
        _ ≤ |x * step d - magnitude j| := le_abs_self _
    exact ⟨hfar.le, fun _ htie => absurd htie hfar.ne'⟩

theorem nearestRank_nearest {num den n : ℕ} (hd : 0 < den) (hn : nearestRank num den < n) :
    Nearest magnitude n (num / den) (nearestRank num den) := by
  obtain ⟨d, hrank, hlow, hhigh⟩ := exists_nearestRank_eq num hd
  have hden : 0 < den * 2 ^ d := Nat.mul_pos hd (Nat.two_pow_pos d)
  obtain ⟨hrun, hnext⟩ := roundHalfEven_mem_run hden hlow hhigh
  have hquotient : (num / den : ℚ) = (num * unitsOfOne : ℕ) / (den * 2 ^ d : ℕ) * step d := by
    have hone := unitsOfOne_pos.ne'
    have hden' : (den : ℚ) ≠ 0 := Nat.cast_ne_zero.2 hd.ne'
    rw [step]
    push_cast
    field_simp
  have hstart : d = 0 ∨ (runLength : ℚ) ≤ (num * unitsOfOne : ℕ) / (den * 2 ^ d : ℕ) := by
    refine hlow.imp id fun hlow => (le_div_iff₀ (Nat.cast_pos.2 hden)).2 ?_
    exact_mod_cast hlow
  rw [hrank] at hn ⊢
  rw [hquotient]
  exact nearest_of_multiples hn hrun hnext hstart (roundHalfEven_nearest _ hden)

/-! ## Where the ranks end -/

theorem nearestRank_lt_rankLimit_iff (num : ℕ) {den : ℕ} (hd : 0 < den) :
    nearestRank num den < rankLimit ↔ (num / den : ℚ) < 2 ^ 1024 - 2 ^ 970 := by
  have hlimit := magnitude_rankLimit
  have hlast := magnitude_last
  have hpos : (0 : ℚ) < 2 ^ 970 := by positivity
  rw [show (2 : ℚ) ^ 971 = 2 * 2 ^ 970 from pow_succ' _ _] at hlast
  generalize (2 : ℚ) ^ 1024 = limit at *
  generalize (2 : ℚ) ^ 970 = half at *
  constructor
  · intro hr
    have hnearest := nearestRank_nearest hd (hr.trans (Nat.lt_succ_self rankLimit))
    by_contra hq
    rw [not_lt] at hq
    have hrank : magnitude (nearestRank num den) ≤ limit - 2 * half :=
      hlast ▸ magnitude_strictMono.monotone (Nat.le_pred_of_lt hr)
    have hle := hnearest.le rankLimit (Nat.lt_succ_self _)
    rw [hlimit, abs_of_nonneg (by linarith)] at hle
    have hbelow : (num / den : ℚ) ≤ limit := by
      by_contra h
      rw [abs_of_nonneg (by linarith)] at hle
      linarith
    rw [abs_of_nonpos (by linarith)] at hle
    -- the last finite magnitude is as near as the one after it, and has an odd rank
    have hmiddle : (num / den : ℚ) = limit - half := by linarith
    have hsame : magnitude (nearestRank num den) = magnitude (rankLimit - 1) := by
      rw [hlast]
      linarith
    have hodd : nearestRank num den = rankLimit - 1 := magnitude_strictMono.injective hsame
    have heven := hnearest.even rankLimit (Nat.lt_succ_self _) hr.ne' (by
      rw [hodd, hlimit, hlast, hmiddle, abs_of_nonpos (by linarith), abs_of_nonneg (by linarith)]
      ring)
    rw [hodd] at heven
    exact absurd heven (by decide)
  · intro hq
    by_contra hr
    rw [not_lt] at hr
    have hnearest := nearestRank_nearest hd (Nat.lt_succ_self (nearestRank num den))
    have hrank : limit ≤ magnitude (nearestRank num den) := hlimit ▸ magnitude_strictMono.monotone hr
    have hle := hnearest.le (rankLimit - 1) (by omega)
    rw [hlast, abs_of_nonpos (by linarith)] at hle
    rcases abs_cases ((num / den : ℚ) - (limit - 2 * half)) with ⟨habs, -⟩ | ⟨habs, -⟩ <;> rw [habs] at hle <;>
      linarith

/-- A quotient of half the smallest magnitude at most is rounded to zero. -/
theorem nearestRank_eq_zero {num den : ℕ} (hd : 0 < den) (h : (num / den : ℚ) ≤ 2 ^ (-1075 : ℤ)) :
    nearestRank num den = 0 := by
  have hsmallest : magnitude 1 = 2 * 2 ^ (-1075 : ℤ) := by
    have hone : (1 : ℕ) = 0 * runLength + 1 := by decide
    rw [hone, magnitude_mul_add (.inl rfl) (by decide), step, unitsOfOne_eq, Nat.cast_one, one_mul, pow_zero, one_div,
      ← zpow_one_add₀ two_ne_zero, ← zpow_natCast, ← zpow_neg]
    rfl
  have hnonneg : (0 : ℚ) ≤ num / den := by positivity
  refine (nearestRank_nearest hd (Nat.lt_succ_self _)).unique magnitude_strictMono ⟨Nat.succ_pos _, fun j _ => ?_,
    fun _ _ _ _ => Even.zero⟩
  rw [magnitude_zero, sub_zero, abs_of_nonneg hnonneg]
  obtain rfl | hj := Nat.eq_zero_or_pos j
  · rw [magnitude_zero, sub_zero]
    exact le_abs_self _
  · have hle : magnitude 1 ≤ magnitude j := magnitude_strictMono.monotone hj
    rw [abs_of_nonpos (by linarith)]
    linarith

/-! ## The nearest value -/

/-- The value is a number, none is nearer to `q`, and the last bit of the value is 0 if another number is as near. -/
def IsNearest (q : ℚ) (x : Binary64) : Prop :=
  ∃ v, x.value? = some v ∧ ∀ (y : Binary64) (w : ℚ), y.value? = some w →
    |q - v| ≤ |q - w| ∧ (w ≠ v → |q - w| = |q - v| → Even x.bits)

theorem abs_sub_signed (q m : ℚ) : |q - signed (decide (q < 0)) m| = abs (|q| - m) := by
  by_cases hq : q < 0
  · rw [decide_eq_true hq, abs_of_neg hq, ← abs_neg]
    congr 1
    simp only [signed, if_true]
    ring
  · rw [decide_eq_false hq, abs_of_nonneg (not_lt.1 hq)]
    rfl

/-- With the other sign, a number is farther by its magnitude than zero is. -/
theorem abs_sub_signed_of_ne {q m : ℚ} {negative : Bool} (hs : negative ≠ decide (q < 0)) (hm : 0 ≤ m) :
    |q - signed negative m| = |q| + m := by
  by_cases hq : q < 0
  · obtain rfl : negative = false := by simpa [hq] using hs
    rw [abs_of_neg hq, signed, if_neg Bool.false_ne_true, abs_of_neg (by linarith)]
    ring
  · obtain rfl : negative = true := by simpa [hq] using hs
    rw [not_lt] at hq
    rw [abs_of_nonneg hq, signed, if_pos rfl, sub_neg_eq_add, abs_of_nonneg (by linarith)]

theorem abs_sub_abs_le_signed (q : ℚ) {m : ℚ} (negative : Bool) (hm : 0 ≤ m) :
    abs (|q| - m) ≤ |q - signed negative m| := by
  by_cases hs : negative = decide (q < 0)
  · rw [hs, abs_sub_signed]
  · rw [abs_sub_signed_of_ne hs hm, abs_le]
    have hq := abs_nonneg q
    constructor <;> linarith

theorem abs_signed (negative : Bool) {m : ℚ} (hm : 0 ≤ m) : |signed negative m| = m := by
  cases negative with
  | false => exact abs_of_nonneg hm
  | true => rw [signed, if_pos rfl, abs_neg, abs_of_nonneg hm]

theorem signed_zero (negative : Bool) : signed negative 0 = 0 := by cases negative <;> simp [signed]

theorem even_bits_finite (negative : Bool) (r : Fin rankLimit) : Even (finite negative r).bits ↔ Even r.val := by
  have hsign : Even (signBit negative) := by cases negative <;> decide
  rw [bits, Nat.even_add]
  simp [hsign]

/-- Only finite values are numbers. -/
theorem value?_eq_some_iff {x : Binary64} {v : ℚ} :
    x.value? = some v ↔ ∃ negative rank, x = finite negative rank ∧ v = signed negative (magnitude rank) := by
  cases x with
  | finite negative rank => rw [value?_finite]; simp [eq_comm]
  | infinite negative => rw [value?_infinite]; simp
  | nan => rw [value?_nan]; simp

/-- With the sign of the quotient, and for zero, only magnitudes count. -/
theorem abs_sub_signed_of_sign {q m : ℚ} {negative : Bool} (h : negative = decide (q < 0) ∨ m = 0) :
    |q - signed negative m| = abs (|q| - m) := by
  rcases h with rfl | rfl
  · exact abs_sub_signed q m
  · rw [signed_zero, sub_zero, sub_zero, abs_abs]

variable {q : ℚ} {negative : Bool} {r : Fin rankLimit}

/-- A nearest value has the nearest magnitude, and the sign of the quotient if it is not zero. -/
theorem IsNearest.nearest (h : IsNearest q (finite negative r)) :
    Nearest magnitude rankLimit |q| r ∧ (negative = decide (q < 0) ∨ magnitude r = 0) := by
  obtain ⟨v, hv, hnearest⟩ := h
  rw [value?_finite, Option.some.injEq] at hv
  subst hv
  have hr := magnitude_nonneg r
  have hsign : negative = decide (q < 0) ∨ magnitude r = 0 := by
    refine or_iff_not_imp_left.2 fun hs => ?_
    have hzero := (hnearest _ _ (value?_finite false ⟨0, by decide⟩)).1
    rw [abs_sub_signed_of_ne hs hr, magnitude_zero, signed_zero, sub_zero] at hzero
    linarith
  refine ⟨⟨r.isLt, fun j hj => ?_, fun j hj hne htie => ?_⟩, hsign⟩
  · have hle := (hnearest _ _ (value?_finite (decide (q < 0)) ⟨j, hj⟩)).1
    rwa [abs_sub_signed_of_sign hsign, abs_sub_signed] at hle
  · have hother : signed (decide (q < 0)) (magnitude j) ≠ signed negative (magnitude r) := fun h => by
      have habs := congrArg abs h
      rw [abs_signed _ (magnitude_nonneg j), abs_signed _ hr] at habs
      exact hne (magnitude_strictMono.injective habs)
    refine (even_bits_finite negative r).1 ((hnearest _ _ (value?_finite (decide (q < 0)) ⟨j, hj⟩)).2 hother ?_)
    rwa [abs_sub_signed_of_sign hsign, abs_sub_signed]

theorem Nearest.isNearest (h : Nearest magnitude rankLimit |q| r)
    (hsign : negative = decide (q < 0) ∨ magnitude r = 0) : IsNearest q (finite negative r) := by
  refine ⟨_, value?_finite negative r, fun y w hw => ?_⟩
  obtain ⟨negative', s, rfl, rfl⟩ := value?_eq_some_iff.1 hw
  have hfar := abs_sub_abs_le_signed q negative' (magnitude_nonneg s)
  have hle := h.le s s.isLt
  rw [abs_sub_signed_of_sign hsign, even_bits_finite]
  refine ⟨hle.trans hfar, fun hne htie => ?_⟩
  by_cases hs : s.val = r.val
  · -- of two opposite numbers, the one with the sign of the quotient is nearer
    rw [hs] at hne htie
    have hr0 : magnitude r ≠ 0 := fun h => hne (by rw [h, signed_zero, signed_zero])
    have hother : negative' ≠ decide (q < 0) := fun h => hne (by rw [h, hsign.resolve_right hr0])
    have hzero := h.le 0 (by decide)
    rw [abs_sub_signed_of_ne hother (magnitude_nonneg r)] at htie
    rw [magnitude_zero, sub_zero, abs_abs] at hzero
    exact absurd (le_antisymm (by linarith) (magnitude_nonneg r)) hr0
  · exact h.even s s.isLt hs (le_antisymm (hfar.trans_eq htie) hle)

/-- There is one nearest number. It is that of one value, or of both zeros. -/
theorem IsNearest.unique {x y : Binary64} (hx : IsNearest q x) (hy : IsNearest q y) : y.sameValue x = true := by
  obtain ⟨v, hv, -⟩ := id hx
  obtain ⟨w, hw, -⟩ := id hy
  obtain ⟨negative, r, rfl, -⟩ := value?_eq_some_iff.1 hv
  obtain ⟨negative', r', rfl, -⟩ := value?_eq_some_iff.1 hw
  obtain ⟨hr, hsign⟩ := hx.nearest
  obtain ⟨hr', hsign'⟩ := hy.nearest
  obtain rfl : r' = r := Fin.ext (hr'.unique magnitude_strictMono hr)
  simp only [sameValue, beq_self_eq_true, Bool.true_and, Bool.or_eq_true, beq_iff_eq]
  by_cases hzero : magnitude r' = 0
  · exact .inr (magnitude_strictMono.injective (hzero.trans magnitude_zero.symm))
  · exact .inl ((hsign'.resolve_right hzero).trans (hsign.resolve_right hzero).symm)

/-! ## Quotients of integers -/

theorem abs_quotient (a b : ℤ) : |(a / b : ℚ)| = a.natAbs / b.natAbs := by
  rw [abs_div, Nat.cast_natAbs, Nat.cast_natAbs, Int.cast_abs, Int.cast_abs]

theorem sign_mul_sign_neg_iff (a b : ℤ) : a.sign * b.sign < 0 ↔ (a / b : ℚ) < 0 := by
  rw [← Int.sign_mul, Int.sign_neg_iff, mul_neg_iff, div_neg_iff]
  norm_cast

theorem ofQuotient?_eq (a b : ℤ) : ofQuotient? a b =
    if h : nearestRank a.natAbs b.natAbs < rankLimit then some (finite (decide ((a / b : ℚ) < 0)) ⟨_, h⟩) else none := by
  rw [ofQuotient?, ofMagnitude?]
  simp only [sign_mul_sign_neg_iff]

theorem ofQuotient?_of_lt {a b : ℤ} (hb : b ≠ 0) (h : |(a / b : ℚ)| < 2 ^ 1024 - 2 ^ 970) :
    ∃ r, ofQuotient? a b = some (finite (decide ((a / b : ℚ) < 0)) r) ∧
      IsNearest (a / b) (finite (decide ((a / b : ℚ) < 0)) r) := by
  have hden := Int.natAbs_pos.2 hb
  rw [abs_quotient] at h
  have hr := (nearestRank_lt_rankLimit_iff _ hden).2 h
  refine ⟨⟨_, hr⟩, by rw [ofQuotient?_eq, dif_pos hr], Nearest.isNearest ?_ (.inl rfl)⟩
  rw [abs_quotient]
  exact nearestRank_nearest hden hr

theorem ofQuotient?_of_ge {a b : ℤ} (hb : b ≠ 0) (h : 2 ^ 1024 - 2 ^ 970 ≤ |(a / b : ℚ)|) : ofQuotient? a b = none := by
  rw [abs_quotient, ← not_lt, ← nearestRank_lt_rankLimit_iff _ (Int.natAbs_pos.2 hb)] at h
  rw [ofQuotient?_eq, dif_neg h]

theorem ofQuotient?_of_small {a b : ℤ} (hb : b ≠ 0) (h : |(a / b : ℚ)| ≤ 2 ^ (-1075 : ℤ)) :
    ofQuotient? a b = some (finite (decide ((a / b : ℚ) < 0)) ⟨0, by decide⟩) := by
  rw [abs_quotient] at h
  have hzero := nearestRank_eq_zero (Int.natAbs_pos.2 hb) h
  rw [ofQuotient?_eq, dif_pos (hzero ▸ by decide)]
  simp only [hzero]

/-- Equal quotients are rounded to the same value. -/
theorem ofQuotient?_congr {a b a' b' : ℤ} (hb : b ≠ 0) (hb' : b' ≠ 0) (h : (a / b : ℚ) = a' / b') :
    ofQuotient? a b = ofQuotient? a' b' := by
  have hcross : b'.natAbs * a.natAbs = b.natAbs * a'.natAbs := by
    rw [div_eq_div_iff (Int.cast_ne_zero.2 hb) (Int.cast_ne_zero.2 hb')] at h
    have hint : a * b' = a' * b := by exact_mod_cast h
    rw [← Int.natAbs_mul, ← Int.natAbs_mul, mul_comm b', hint, mul_comm a']
  have hrank : nearestRank a.natAbs b.natAbs = nearestRank a'.natAbs b'.natAbs :=
    calc nearestRank a.natAbs b.natAbs = nearestRank (b'.natAbs * a.natAbs) (b'.natAbs * b.natAbs) :=
          (nearestRank_mul_left _ _ (Int.natAbs_pos.2 hb')).symm
      _ = nearestRank (b.natAbs * a'.natAbs) (b.natAbs * b'.natAbs) := by rw [hcross, mul_comm b'.natAbs]
      _ = nearestRank a'.natAbs b'.natAbs := nearestRank_mul_left _ _ (Int.natAbs_pos.2 hb)
  simp only [ofQuotient?_eq, hrank, h]

end Binary64

/-! ## Division -/

theorem Operator.apply_divide {b : ℤ} (hb : b ≠ 0) (a : ℤ) (span : Span) : Operator.divide.apply span a b =
    match Binary64.ofQuotient? a b with
      | some x => .ok (.float x)
      | none => .error (.quotientTooLarge span) := by
  unfold apply
  exact if_neg hb

/-- A quotient of integers, however large they are, is rounded once, to the only number that is nearest. It has the
sign of the quotient also if that number is zero. It has no value from halfway between the last finite magnitude and
the next power of two on, and only then. Equal quotients have the same result. -/
theorem divide_rounds_to_nearest (span : Span) :
    (∀ a b : ℤ, b ≠ 0 → |(a / b : ℚ)| < 2 ^ 1024 - 2 ^ 970 → ∃ r, let x := Binary64.finite (decide ((a / b : ℚ) < 0)) r
      Operator.divide.apply span a b = .ok (.float x) ∧ Binary64.IsNearest (a / b) x ∧
        ∀ y, Binary64.IsNearest (a / b) y → y.sameValue x = true) ∧
    (∀ a b : ℤ, b ≠ 0 → |(a / b : ℚ)| ≤ 2 ^ (-1075 : ℤ) →
      Operator.divide.apply span a b = .ok (.float (.finite (decide ((a / b : ℚ) < 0)) ⟨0, by decide⟩))) ∧
    (∀ a b : ℤ, b ≠ 0 → 2 ^ 1024 - 2 ^ 970 ≤ |(a / b : ℚ)| →
      Operator.divide.apply span a b = .error (.quotientTooLarge span)) ∧
    (∀ a b a' b' : ℤ, b ≠ 0 → b' ≠ 0 → (a / b : ℚ) = a' / b' →
      Operator.divide.apply span a b = Operator.divide.apply span a' b') ∧
    ∀ a b k : ℤ, k ≠ 0 → Operator.divide.apply span (k * a) (k * b) = Operator.divide.apply span a b := by
  have hcongr : ∀ a b a' b' : ℤ, b ≠ 0 → b' ≠ 0 → (a / b : ℚ) = a' / b' →
      Operator.divide.apply span a b = Operator.divide.apply span a' b' := fun a b a' b' hb hb' h => by
    rw [Operator.apply_divide hb, Operator.apply_divide hb', Binary64.ofQuotient?_congr hb hb' h]
  refine ⟨fun a b hb h => ?_, fun a b hb h => ?_, fun a b hb h => ?_, hcongr, fun a b k hk => ?_⟩
  · obtain ⟨r, hr, hnearest⟩ := Binary64.ofQuotient?_of_lt hb h
    exact ⟨r, by rw [Operator.apply_divide hb, hr], hnearest, fun y hy => hnearest.unique hy⟩
  · rw [Operator.apply_divide hb, Binary64.ofQuotient?_of_small hb h]
  · rw [Operator.apply_divide hb, Binary64.ofQuotient?_of_ge hb h]
  · by_cases hb : b = 0
    · simp only [hb, mul_zero, Operator.apply, if_true]
    · refine hcongr _ _ _ _ (mul_ne_zero hk hb) hb ?_
      push_cast
      exact mul_div_mul_left _ _ (Int.cast_ne_zero.2 hk)

end ArithLang
