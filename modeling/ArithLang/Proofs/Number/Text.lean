/-
Numbers by their texts. Both kinds of numbers are told apart by a mark that only floating-point numbers have
(`Binary64.exists_mark`), and within a kind the text is read back: an integer is its sign and its digits
(`read?_text_int`), and a finite floating-point number is what its decimal is rounded to.

Main fact: numbers with the same text are the same, and no decimal with fewer significant digits than the text would
do (`text_identifies_number`).
-/
import ArithLang.Number
import ArithLang.Proofs.Binary64.Text

namespace ArithLang

namespace Binary64

/-! ## Marks -/

theorem Decimal.exists_mark (d : Decimal) : ∃ c ∈ d.text.toList, c = '.' ∨ c = 'e' := by
  unfold text
  simp only [String.toList_ofList]
  split
  · refine ⟨'.', ?_, .inl rfl⟩
    unfold positional
    split
    · simp
    · dsimp only
      split <;> simp
  · exact ⟨'e', by simp [scientific], .inr rfl⟩

/-- Every floating-point number is written with a character that no integer is written with. -/
theorem exists_mark (x : Binary64) : ∃ c ∈ x.text.toList, c ≠ '-' ∧ c.isDigit = false := by
  cases x with
  | finite negative rank =>
    rcases Nat.eq_zero_or_pos rank with hzero | hpos
    · rw [text_finite_zero hzero, String.toList_append]
      exact ⟨'.', List.mem_append_right _ (by decide), by decide⟩
    · obtain ⟨c, hc, hmark⟩ := (shortest rank).exists_mark
      rw [text_finite_of_pos hpos, String.toList_append]
      refine ⟨c, List.mem_append_right _ hc, ?_⟩
      rcases hmark with rfl | rfl <;> decide
  | infinite negative => exact ⟨'i', by cases negative <;> decide, by decide⟩
  | nan => exact ⟨'N', by decide, by decide⟩

/-! ## Floating-point numbers -/

theorem bits_injective : Function.Injective bits := Function.LeftInverse.injective ofBits_bits

theorem read?_text_infinite (negative : Bool) : read? (infinite negative).text = none := by
  cases negative <;> decide +kernel

theorem text_injective {x y : Binary64} (hx : x ≠ nan) (hy : y ≠ nan) (h : x.text = y.text) : x = y := by
  have hread := congrArg read? h
  match x, y with
  | finite s r, finite s' r' =>
    obtain ⟨d, hd, hround, -⟩ := read?_text_finite s r
    obtain ⟨d', hd', hround', -⟩ := read?_text_finite s' r'
    rw [hd, hd', Option.some.injEq, Prod.mk.injEq] at hread
    obtain ⟨rfl, rfl⟩ := hread
    rw [Fin.ext (hround.unique hround')]
  | finite s r, infinite s' =>
    obtain ⟨d, hd, -⟩ := read?_text_finite s r
    rw [hd, read?_text_infinite] at hread
    cases hread
  | infinite s, finite s' r' =>
    obtain ⟨d, hd, -⟩ := read?_text_finite s' r'
    rw [hd, read?_text_infinite] at hread
    cases hread
  | infinite s, infinite s' =>
    cases s <;> cases s' <;> first | rfl | exact absurd h (by decide)
  | nan, _ => exact absurd rfl hx
  | _, nan => exact absurd rfl hy

/-- The smallest magnitude above zero is 2^-1074, and 5·10^-324 is close to it. -/
theorem roundsToRank_smallest : RoundsToRank (Decimal.value ⟨5, -324⟩) 1 := by
  refine roundsToRank_of_close ?_
  have hvalue : Decimal.value ⟨5, -324⟩ = 5 / 10 ^ 324 := by
    rw [Decimal.value, zpow_neg, div_eq_mul_inv]
    rfl
  have hmagnitude : magnitude 1 = 2 * (1 / 2 ^ 1075) := by
    have hunits : units 1 = 1 * 2 ^ 0 := rfl
    rw [magnitude_of_units_eq hunits, step, unitsOfOne_eq, pow_succ _ 1074, Nat.cast_one]
    field_simp
  have hhalf : (2 : ℚ) ^ (-1075 : ℤ) = 1 / 2 ^ 1075 := by
    rw [zpow_neg, one_div]
    rfl
  have hlow : (1 : ℚ) / 2 ^ 1075 < 5 / 10 ^ 324 := by
    have hpowers : 1 * 10 ^ 324 < 5 * 2 ^ 1075 := by decide +kernel
    exact (div_lt_div_iff₀ (by positivity) (by positivity)).2 (by exact_mod_cast hpowers)
  have hhigh : (5 : ℚ) / 10 ^ 324 < 3 * (1 / 2 ^ 1075) := by
    have hpowers : 5 * 2 ^ 1075 < 3 * 10 ^ 324 := by decide +kernel
    rw [mul_one_div]
    exact (div_lt_div_iff₀ (by positivity) (by positivity)).2 (by exact_mod_cast hpowers)
  rw [hvalue, hmagnitude, hhalf, abs_lt]
  generalize (1 : ℚ) / 2 ^ 1075 = half at *
  generalize (5 : ℚ) / 10 ^ 324 = value at *
  constructor <;> linarith

end Binary64

namespace Number

/-! ## Integers -/

theorem text_int (n : ℤ) : (int n).text = (if decide (n < 0) then "-" else "") ++ n.natAbs.repr := by
  simp only [text, decide_eq_true_eq]

theorem read?_text_int (n : ℤ) : Binary64.read? (int n).text = some (decide (n < 0), ⟨n.natAbs, 0⟩) := by
  have hwhole := Binary64.isMantissa_whole Nat.toDigits_ne_nil (allDigits_toDigits n.natAbs)
  rw [Nat.ofDigitChars_ten_toDigits] at hwhole
  rw [text_int]
  refine Binary64.read?_signed _ ?_
  rw [Nat.toList_repr]
  exact hwhole.readUnsigned?

theorem text_int_injective {m n : ℤ} (h : (int m).text = (int n).text) : m = n := by
  have hread := congrArg Binary64.read? h
  rw [read?_text_int, read?_text_int, Option.some.injEq, Prod.mk.injEq, Binary64.Decimal.mk.injEq,
    decide_eq_decide] at hread
  omega

theorem text_int_ne_text_float (n : ℤ) (x : Binary64) : (int n).text ≠ (float x).text := by
  intro h
  obtain ⟨c, hc, hminus, hdigit⟩ := x.exists_mark
  rw [show x.text = (int n).text from h.symm, text_int, String.toList_append, Nat.toList_repr] at hc
  rcases List.mem_append.1 hc with hc | hc
  · split at hc
    · exact hminus (List.mem_singleton.1 hc)
    · cases hc
  · rw [allDigits_toDigits _ c hc] at hdigit
    cases hdigit

/-! ## All numbers -/

/-- Numbers that are not `nan` have the same text if and only if they are the same integer or have the same bits; so no
integer is written as a floating-point number is, and the two zeros are written differently. The text of a finite value
is read as a sign and a decimal that is rounded to these bits only, and whatever decimal is rounded to them has as many
significant digits at least. -/
theorem text_identifies_number :
    (∀ x y : Number, x ≠ .float .nan → y ≠ .float .nan →
      (x.text = y.text ↔ (∃ n, x = .int n ∧ y = .int n) ∨ ∃ a b, x = .float a ∧ y = .float b ∧ a.bits = b.bits)) ∧
    (∀ n x, (int n).text ≠ (float x).text) ∧
    (float (.finite false ⟨0, by decide⟩)).text ≠ (float (.finite true ⟨0, by decide⟩)).text ∧
    ∀ negative rank, ∃ d, Binary64.read? (float (.finite negative rank)).text = some (negative, d) ∧
      (∀ y, Binary64.RoundsTo negative d.value y ↔ y.bits = (Binary64.finite negative rank).bits) ∧
      ∀ negative' (d' : Binary64.Decimal), Binary64.RoundsTo negative' d'.value (.finite negative rank) →
        d.significantDigits ≤ d'.significantDigits := by
  refine ⟨fun x y hx hy => ⟨fun h => ?_, ?_⟩, text_int_ne_text_float, ?_, fun negative rank => ?_⟩
  · match x, y with
    | int m, int n => exact .inl ⟨m, rfl, by rw [text_int_injective h]⟩
    | int m, float b => exact absurd h (text_int_ne_text_float m b)
    | float a, int n => exact absurd h.symm (text_int_ne_text_float n a)
    | float a, float b =>
      have hab : a = b := Binary64.text_injective (fun ha => hx (congrArg float ha)) (fun hb => hy (congrArg float hb)) h
      exact .inr ⟨a, b, rfl, rfl, congrArg Binary64.bits hab⟩
  · rintro (⟨n, rfl, rfl⟩ | ⟨a, b, rfl, rfl, hbits⟩)
    · rfl
    · rw [Binary64.bits_injective hbits]
  · decide
  · obtain ⟨d, hread, hround, hleast⟩ := Binary64.read?_text_finite negative rank
    have hfinite : Binary64.RoundsTo negative d.value (.finite negative rank) :=
      (Binary64.roundsTo_finite_iff d.value_nonneg).2 ⟨rfl, hround⟩
    refine ⟨d, hread, fun y => ⟨fun hy => ?_, fun hy => ?_⟩, fun negative' d' hd' => hleast d' ?_⟩
    · rw [hy.unique d.value_nonneg hfinite]
    · rw [Binary64.bits_injective hy]
      exact hfinite
    · exact ((Binary64.roundsTo_finite_iff d'.value_nonneg).1 hd').2

/-- The smallest value above zero is 2^-1074, to which 5·10^-324 is rounded, so its text has one significant digit; and
it is not the text of an integer. -/
theorem text_identifies_number_smallest :
    (int 5).text ≠ (float (.finite false ⟨1, by decide⟩)).text ∧
    Binary64.RoundsTo false (Binary64.Decimal.value ⟨5, -324⟩) (.finite false ⟨1, by decide⟩) ∧
    ∃ d, Binary64.read? (float (.finite false ⟨1, by decide⟩)).text = some (false, d) ∧ d.significantDigits ≤ 1 := by
  obtain ⟨htexts, -, -, hdecimals⟩ := text_identifies_number
  have hrounds : Binary64.RoundsTo false (Binary64.Decimal.value ⟨5, -324⟩) (.finite false ⟨1, by decide⟩) :=
    (Binary64.roundsTo_finite_iff (Binary64.Decimal.value_nonneg _)).2 ⟨rfl, Binary64.roundsToRank_smallest⟩
  refine ⟨fun h => ?_, hrounds, ?_⟩
  · obtain ⟨n, -, hn⟩ | ⟨a, b, ha, -⟩ := (htexts _ _ (by decide) (by decide)).1 h
    · cases hn
    · cases ha
  · obtain ⟨d, hread, -, hleast⟩ := hdecimals false ⟨1, by decide⟩
    exact ⟨d, hread, (hleast false _ hrounds).trans (by simp [Binary64.Decimal.significantDigits])⟩

end Number

end ArithLang
