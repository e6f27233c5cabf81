/-
Rounding a quotient of natural numbers to the nearest one; a quotient halfway between two goes to
the even one. Main facts: the result is off by half at most, and by half only if it is even
(`roundHalfEven_bounds`), and depends on the quotient only (`roundHalfEven_mul_left`).
-/

namespace ArithLang

def roundHalfEven (num den : Nat) : Nat :=
  let floor := num / den
  let twice := 2 * (num % den)
  if twice < den then floor
  else if den < twice then floor + 1
  else floor + floor % 2

theorem roundHalfEven_mul_left (num den : Nat) {k : Nat} (hk : 0 < k) :
    roundHalfEven (k * num) (k * den) = roundHalfEven num den := by
  have twice : 2 * (k * num % (k * den)) = k * (2 * (num % den)) := by
    rw [Nat.mul_mod_mul_left, Nat.mul_left_comm]
  simp only [roundHalfEven, twice, Nat.mul_div_mul_left _ _ hk, Nat.mul_lt_mul_left hk]

theorem roundHalfEven_bounds (num : Nat) {den : Nat} (hd : 0 < den) :
    2 * roundHalfEven num den * den ≤ 2 * num + den ∧ 2 * num ≤ 2 * roundHalfEven num den * den + den ∧
      (2 * roundHalfEven num den * den = 2 * num + den ∨ 2 * num = 2 * roundHalfEven num den * den + den →
        roundHalfEven num den % 2 = 0) := by
  have h := Nat.div_add_mod num den
  have hm := Nat.mod_lt num hd
  simp only [roundHalfEven]
  generalize num / den = q at *
  generalize num % den = r at *
  have hdown : 2 * q * den = 2 * (den * q) := by rw [Nat.mul_assoc, Nat.mul_comm q]
  have hup : 2 * (q + 1) * den = 2 * (den * q) + 2 * den := by
    rw [Nat.mul_add, Nat.add_mul, hdown, Nat.mul_one]
  split
  · omega
  · split
    · omega
    · have heven : (q + q % 2) % 2 = 0 := by omega
      refine ⟨?_, ?_, fun _ => heven⟩ <;>
        rcases Nat.mod_two_eq_zero_or_one q with hq | hq <;> simp only [hq, Nat.add_zero] <;> omega

end ArithLang
