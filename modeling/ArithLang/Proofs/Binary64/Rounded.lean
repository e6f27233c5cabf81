/-
The numbers that are rounded to one value. They lie between the midpoints to the values next to it, so what is between
two of them is one as well (`RoundsToRank.of_between`), and what is close to the value itself is one (`roundsToRank_of_close`).

`RoundsToRank` is about magnitudes, and about all ranks: a number that is too large is rounded to a rank beyond the
finite ones. With a sign, and for finite values, it is rounding as IEEE 754 has it (`roundsTo_finite_iff`), which gives
one value at most (`RoundsTo.unique`).
-/
import ArithLang.Proofs.Binary64.Quotient

namespace ArithLang.Binary64

/-! ## Distances -/

/-- Of two numbers, the lower one is as near as the other one up to the midpoint. -/
theorem abs_sub_le_abs_sub_iff_le {a b : ℚ} (h : a < b) (q : ℚ) : |q - a| ≤ |q - b| ↔ 2 * q ≤ a + b := by
  rw [← sq_le_sq]
  constructor
  · intro hsq
    by_contra hlt
    nlinarith
  · intro hle
    nlinarith

theorem abs_sub_le_abs_sub_iff_ge {a b : ℚ} (h : a < b) (q : ℚ) : |q - b| ≤ |q - a| ↔ a + b ≤ 2 * q := by
  rw [← sq_le_sq]
  constructor
  · intro hsq
    by_contra hlt
    nlinarith
  · intro hle
    nlinarith

/-- Between two numbers to which `x i` is nearest, it is nearest as well. -/
theorem Nearest.of_between {x : ℕ → ℚ} (hx : StrictMono x) {n i : ℕ} {q q₁ q₂ : ℚ} (h₁ : Nearest x n q₁ i)
    (h₂ : Nearest x n q₂ i) (hle₁ : q₁ ≤ q) (hle₂ : q ≤ q₂) : Nearest x n q i := by
  refine ⟨h₁.lt, fun j hj => ?_, fun j hj hne htie => ?_⟩
  · rcases lt_trichotomy j i with hji | rfl | hij
    · rw [abs_sub_le_abs_sub_iff_ge (hx hji)]
      have := (abs_sub_le_abs_sub_iff_ge (hx hji) q₁).1 (h₁.le j hj)
      linarith
    · exact le_rfl
    · rw [abs_sub_le_abs_sub_iff_le (hx hij)]
      have := (abs_sub_le_abs_sub_iff_le (hx hij) q₂).1 (h₂.le j hj)
      linarith
  · -- at the midpoint to `x j`, the end on that side is the midpoint itself
    rcases lt_or_gt_of_ne hne with hji | hij
    · have hmid := (abs_sub_le_abs_sub_iff_le (hx hji) q).1 htie.le
      have hend := (abs_sub_le_abs_sub_iff_ge (hx hji) q₁).1 (h₁.le j hj)
      have hq : q₁ = q := by linarith
      exact h₁.even j hj hne (hq ▸ htie)
    · have hmid := (abs_sub_le_abs_sub_iff_ge (hx hij) q).1 htie.le
      have hend := (abs_sub_le_abs_sub_iff_le (hx hij) q₂).1 (h₂.le j hj)
      have hq : q₂ = q := by linarith
      exact h₂.even j hj hne (hq ▸ htie)

/-! ## Ranks -/

/-- The magnitude of rank `r` is the one nearest to `q`, and `r` is even if another one is as near. -/
def RoundsToRank (q : ℚ) (r : ℕ) : Prop := ∀ n, r < n → Nearest magnitude n q r

theorem RoundsToRank.unique {q : ℚ} {r s : ℕ} (hr : RoundsToRank q r) (hs : RoundsToRank q s) : r = s :=
  (hr (max r s + 1) (by omega)).unique magnitude_strictMono (hs (max r s + 1) (by omega))

theorem RoundsToRank.of_between {q q₁ q₂ : ℚ} {r : ℕ} (h₁ : RoundsToRank q₁ r) (h₂ : RoundsToRank q₂ r) (hle₁ : q₁ ≤ q)
    (hle₂ : q ≤ q₂) : RoundsToRank q r := fun n hn => (h₁ n hn).of_between magnitude_strictMono (h₂ n hn) hle₁ hle₂

theorem roundsToRank_nearestRank (num : ℕ) {den : ℕ} (hd : 0 < den) : RoundsToRank (num / den) (nearestRank num den) :=
  fun _ => nearestRank_nearest hd

theorem nearestRank_eq_iff {num den r : ℕ} (hd : 0 < den) : nearestRank num den = r ↔ RoundsToRank (num / den) r :=
  ⟨fun h => h ▸ roundsToRank_nearestRank num hd, fun h => (roundsToRank_nearestRank num hd).unique h⟩

/-- Every number from 0 on is a quotient. -/
theorem exists_quotient {q : ℚ} (hq : 0 ≤ q) : ∃ num den : ℕ, 0 < den ∧ q = num / den := by
  refine ⟨q.num.natAbs, q.den, q.den_pos, ?_⟩
  have hnum : (q.num.natAbs : ℚ) = q.num := by
    rw [← Int.cast_natCast, Int.natAbs_of_nonneg (Rat.num_nonneg.2 hq)]
  rw [hnum, Rat.num_div_den]

/-- Neighbours are apart by the distance of the smallest magnitudes at least. -/
theorem magnitude_add_le {r s : ℕ} (h : r < s) : magnitude r + 2 ^ (-1074 : ℤ) ≤ magnitude s := by
  have hunits : units r + 1 ≤ units s := units_strictMono h
  have hone : (2 : ℚ) ^ (-1074 : ℤ) = 1 / unitsOfOne := by
    rw [unitsOfOne_eq, zpow_neg, one_div]
    norm_cast
  rw [hone, magnitude, magnitude, ← add_div]
  exact div_le_div_of_nonneg_right (by exact_mod_cast hunits) unitsOfOne_pos.le

/-- What is nearer to a magnitude than half the smallest distance is rounded to it. -/
theorem roundsToRank_of_close {q : ℚ} {r : ℕ} (h : |q - magnitude r| < 2 ^ (-1075 : ℤ)) : RoundsToRank q r := by
  have htwice : (2 : ℚ) ^ (-1074 : ℤ) = 2 * 2 ^ (-1075 : ℤ) := by
    rw [← zpow_one_add₀ two_ne_zero]
    rfl
  have hfar : ∀ j, j ≠ r → |q - magnitude r| < |q - magnitude j| := by
    intro j hj
    rw [abs_lt] at h
    rw [lt_abs]
    have hapart : magnitude r + 2 ^ (-1074 : ℤ) ≤ magnitude j ∨ magnitude j + 2 ^ (-1074 : ℤ) ≤ magnitude r :=
      (lt_or_gt_of_ne hj).symm.imp magnitude_add_le magnitude_add_le
    rw [htwice] at hapart
    rcases abs_cases (q - magnitude r) with ⟨habs, -⟩ | ⟨habs, -⟩ <;> rw [habs] <;> rcases hapart with hapart | hapart
    · right; linarith
    · left; linarith
    · right; linarith
    · left; linarith
  intro n hn
  refine ⟨hn, fun j _ => ?_, fun j _ hne htie => absurd htie (hfar j hne).ne'⟩
  by_cases hj : j = r
  · rw [hj]
  · exact (hfar j hj).le

theorem roundsToRank_magnitude (r : ℕ) : RoundsToRank (magnitude r) r := by
  refine roundsToRank_of_close ?_
  rw [sub_self, abs_zero]
  positivity

/-- From a magnitude on, numbers are rounded to its rank at least. -/
theorem RoundsToRank.le_of_magnitude_le {q : ℚ} {r s : ℕ} (h : RoundsToRank q s) (hq : magnitude r ≤ q) : r ≤ s := by
  by_contra hlt
  rw [not_le] at hlt
  have hmagnitude := magnitude_strictMono hlt
  have hle := (abs_sub_le_abs_sub_iff_le hmagnitude q).1 ((h (r + 1) (by omega)).le r (Nat.lt_succ_self r))
  linarith

theorem roundsToRank_zero_iff {r : ℕ} : RoundsToRank 0 r ↔ r = 0 := by
  have hzero : RoundsToRank 0 0 := magnitude_zero ▸ roundsToRank_magnitude 0
  exact ⟨fun h => h.unique hzero, fun h => h ▸ hzero⟩

/-- The numbers that are rounded to a finite rank, from the last midpoint on there is none. -/
theorem RoundsToRank.lt_rankLimit_iff {q : ℚ} {r : ℕ} (hq : 0 ≤ q) (h : RoundsToRank q r) :
    r < rankLimit ↔ q < 2 ^ 1024 - 2 ^ 970 := by
  obtain ⟨num, den, hd, rfl⟩ := exists_quotient hq
  rw [← (nearestRank_eq_iff hd).2 h]
  exact nearestRank_lt_rankLimit_iff num hd

/-! ## Values -/

/-- The magnitude `q` with the sign given is rounded to `x`: this has the sign, no value is nearer, and the last bit is
0 if another one is as near. Numbers that are too large are rounded to no finite value. -/
structure RoundsTo (negative : Bool) (q : ℚ) (x : Binary64) : Prop where
  sign : ∃ rank, x = finite negative rank
  nearest : IsNearest (signed negative q) x
  finite : q < 2 ^ 1024 - 2 ^ 970

theorem roundsTo_finite_iff {negative negative' : Bool} {q : ℚ} (hq : 0 ≤ q) {rank : Fin rankLimit} :
    RoundsTo negative q (.finite negative' rank) ↔ negative' = negative ∧ RoundsToRank q rank := by
  have habs : |signed negative q| = q := abs_signed negative hq
  constructor
  · rintro ⟨⟨rank', hx⟩, hnearest, hlt⟩
    obtain ⟨rfl, -⟩ := Binary64.finite.inj hx
    refine ⟨rfl, ?_⟩
    -- among the finite ranks only one is nearest, and it is nearest among all
    obtain ⟨num, den, hd, rfl⟩ := exists_quotient hq
    have hr := (nearestRank_lt_rankLimit_iff num hd).2 hlt
    obtain ⟨hrank, -⟩ := hnearest.nearest
    rw [habs] at hrank
    rw [hrank.unique magnitude_strictMono (nearestRank_nearest hd hr)]
    exact roundsToRank_nearestRank num hd
  · rintro ⟨rfl, hrank⟩
    refine ⟨⟨rank, rfl⟩, Nearest.isNearest ?_ ?_, (hrank.lt_rankLimit_iff hq).1 rank.isLt⟩
    · rw [habs]
      exact hrank rankLimit rank.isLt
    · rcases hq.eq_or_lt with rfl | hpos
      · right
        rw [roundsToRank_zero_iff.1 hrank, magnitude_zero]
      · left
        cases negative' with
        | false => simp [signed, hpos.le]
        | true => simp [signed, hpos]

theorem RoundsTo.unique {negative : Bool} {q : ℚ} (hq : 0 ≤ q) {x y : Binary64} (hx : RoundsTo negative q x)
    (hy : RoundsTo negative q y) : x = y := by
  obtain ⟨r, rfl⟩ := hx.sign
  obtain ⟨s, rfl⟩ := hy.sign
  obtain ⟨-, hr⟩ := (roundsTo_finite_iff hq).1 hx
  obtain ⟨-, hs⟩ := (roundsTo_finite_iff hq).1 hy
  rw [Fin.ext (hr.unique hs)]

end ArithLang.Binary64
