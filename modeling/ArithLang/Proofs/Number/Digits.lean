/-
Digits in base ten. What a run of digits stands for is a matter of their places (`placeValue`), and the digits of that
number are the run again, without the zeros in front of it (`toDigits_ofDigitChars`). So a run stands for zero if it has
no other digit (`ofDigitChars_eq_zero_iff`).
-/
import ArithLang.Proofs.Evaluation.Value
import ArithLang.Proofs.Scanner.Layout
import Mathlib.Data.Nat.Digits.Defs

namespace ArithLang

/-! ## Digits -/

/-- The number that digits stand for by their places: the last digit counts ones, the one before it tens. -/
def placeValue (digits : List Char) : ℕ := Nat.ofDigits 10 (digits.reverse.map fun c => c.toNat - '0'.toNat)

/-- The digits from the first one on that is no zero; of zeros only, one is left. -/
def withoutLeadingZeros (digits : List Char) : List Char :=
  match digits.dropWhile (· == '0') with
  | [] => ['0']
  | rest => rest

theorem not_mem_of_allDigits {cs : List Char} {c : Char} (h : AllDigits cs) (hc : c.isDigit = false) : c ∉ cs := fun hmem => by
  rw [h c hmem] at hc
  cases hc

theorem allDigits_toDigits (n : ℕ) : AllDigits (Nat.toDigits 10 n) := fun _ hc =>
  Nat.isDigit_of_mem_toDigits (by decide) (by decide) hc

theorem allDigits_of_zeros {cs : List Char} (h : ∀ c ∈ cs, c = '0') : AllDigits cs := fun c hc => by
  rw [h c hc]
  rfl

/-- The digits of a number end where no digit is next, and are the digits of no other number. -/
theorem toDigits_append_inj {m n : ℕ} {rest rest' : List Char} (hrest : NoDigitNext rest) (hrest' : NoDigitNext rest')
    (h : Nat.toDigits 10 m ++ rest = Nat.toDigits 10 n ++ rest') : m = n ∧ rest = rest' := by
  obtain ⟨htake, hdrop⟩ := takeWhile_digits (allDigits_toDigits m) hrest
  obtain ⟨htake', hdrop'⟩ := takeWhile_digits (allDigits_toDigits n) hrest'
  rw [h] at htake hdrop
  have hvalue := congrArg (fun digits => Nat.ofDigitChars 10 digits 0) (htake.symm.trans htake')
  simp only [Nat.ofDigitChars_ten_toDigits] at hvalue
  exact ⟨hvalue, hdrop.symm.trans hdrop'⟩

/-! ## Values -/

theorem ofDigitChars_append (whole fraction : List Char) : Nat.ofDigitChars 10 (whole ++ fraction) 0 =
    Nat.ofDigitChars 10 whole 0 * 10 ^ fraction.length + Nat.ofDigitChars 10 fraction 0 := by
  rw [Nat.ofDigitChars_append, Nat.ofDigitChars_eq_ofDigitChars_zero, Nat.mul_comm]

theorem ofDigitChars_zeros_append (n : ℕ) (digits : List Char) :
    Nat.ofDigitChars 10 (List.replicate n '0' ++ digits) 0 = Nat.ofDigitChars 10 digits 0 := by
  rw [Nat.ofDigitChars_append, Nat.ofDigitChars_replicate_zero, Nat.mul_zero]

theorem ofDigitChars_append_zeros (digits : List Char) (n : ℕ) :
    Nat.ofDigitChars 10 (digits ++ List.replicate n '0') 0 = Nat.ofDigitChars 10 digits 0 * 10 ^ n := by
  rw [Nat.ofDigitChars_append, Nat.ofDigitChars_replicate_zero, Nat.mul_comm]

theorem ofDigitChars_eq_placeValue (digits : List Char) : Nat.ofDigitChars 10 digits 0 = placeValue digits := by
  unfold placeValue
  induction digits with
  | nil => rfl
  | cons c digits ih =>
    rw [Nat.ofDigitChars_cons, Nat.ofDigitChars_eq_ofDigitChars_zero, ih, List.reverse_cons, List.map_append,
      Nat.ofDigits_append, List.map_singleton, Nat.ofDigits_singleton]
    simp [Nat.add_comm]

theorem digitChar_of_isDigit {c : Char} (h : c.isDigit = true) :
    c.toNat - '0'.toNat < 10 ∧ Nat.digitChar (c.toNat - '0'.toNat) = c := by
  have hrange : 48 ≤ c.toNat ∧ c.toNat ≤ 57 := by
    simpa [Char.isDigit, UInt32.le_iff_toNat_le] using h
  have h0 : '0'.toNat = 48 := rfl
  have hlt : c.toNat - '0'.toNat < 10 := by omega
  refine ⟨hlt, Char.toNat_inj.1 ?_⟩
  rw [Nat.toNat_digitChar_of_lt_ten hlt]
  omega

/-- Digits read after others are written after them. -/
theorem toDigits_append_digits {digits : List Char} (h : AllDigits digits) {n : ℕ} (hn : 0 < n) :
    Nat.toDigits 10 n ++ digits = Nat.toDigits 10 (Nat.ofDigitChars 10 digits n) := by
  induction digits generalizing n with
  | nil => simp
  | cons c digits ih =>
    obtain ⟨hc, hdigits⟩ := List.forall_mem_cons.1 h
    obtain ⟨hlt, hchar⟩ := digitChar_of_isDigit hc
    have hfirst := Nat.toDigits_append_toDigits (b := 10) (by decide) hn hlt
    rw [Nat.toDigits_of_lt_base hlt, hchar] at hfirst
    rw [Nat.ofDigitChars_cons, ← ih hdigits (by omega), ← hfirst, List.append_assoc, List.singleton_append]

/-- The number of a run of digits is written as the run without the zeros in front. -/
theorem toDigits_ofDigitChars {digits : List Char} (h : AllDigits digits) :
    Nat.toDigits 10 (Nat.ofDigitChars 10 digits 0) = withoutLeadingZeros digits := by
  unfold withoutLeadingZeros
  induction digits with
  | nil => rfl
  | cons c digits ih =>
    obtain ⟨hc, hdigits⟩ := List.forall_mem_cons.1 h
    rw [Nat.ofDigitChars_cons, Nat.mul_zero, Nat.zero_add, List.dropWhile_cons]
    by_cases hzero : c = '0'
    · subst hzero
      exact ih hdigits
    · obtain ⟨hlt, hchar⟩ := digitChar_of_isDigit hc
      have hpos : 0 < c.toNat - '0'.toNat := by
        rw [Nat.pos_iff_ne_zero]
        intro h0
        rw [h0] at hchar
        exact hzero hchar.symm
      rw [if_neg (by simpa using hzero), ← toDigits_append_digits hdigits hpos, Nat.toDigits_of_lt_base hlt, hchar]
      rfl

theorem ofDigitChars_eq_zero_iff {digits : List Char} (h : AllDigits digits) :
    Nat.ofDigitChars 10 digits 0 = 0 ↔ ∀ c ∈ digits, c = '0' := by
  induction digits with
  | nil => simp
  | cons c digits ih =>
    obtain ⟨hc, hdigits⟩ := List.forall_mem_cons.1 h
    obtain ⟨-, hchar⟩ := digitChar_of_isDigit hc
    have hzero : c.toNat - '0'.toNat = 0 ↔ c = '0' := by
      refine ⟨fun h0 => ?_, fun h0 => by rw [h0]; rfl⟩
      rw [h0] at hchar
      exact hchar.symm
    rw [Nat.ofDigitChars_cons, Nat.ofDigitChars_eq_ofDigitChars_zero, Nat.add_eq_zero_iff, ih hdigits, Nat.mul_zero,
      Nat.zero_add, Nat.mul_eq_zero, hzero, List.forall_mem_cons]
    simp

/-! ## Literals -/

theorem literalValue?_eq_some_iff {text : String} {n : ℕ} : literalValue? text = some n ↔
    text.toList ≠ [] ∧ AllDigits text.toList ∧ n = Nat.ofDigitChars 10 text.toList 0 := by
  unfold literalValue? AllDigits
  simp only [List.all_eq_true]
  split
  · rename_i hdigits
    rw [Option.some.injEq, eq_comm]
    exact ⟨fun h => ⟨hdigits.1, hdigits.2, h⟩, fun h => h.2.2⟩
  · rename_i hdigits
    simp only [reduceCtorEq, false_iff]
    exact fun h => hdigits ⟨h.1, h.2.1⟩

theorem literalValue?_eq_zero_iff {text : String} :
    literalValue? text = some 0 ↔ text.toList ≠ [] ∧ ∀ c ∈ text.toList, c = '0' := by
  rw [literalValue?_eq_some_iff]
  constructor
  · rintro ⟨hne, hdigits, hzero⟩
    exact ⟨hne, (ofDigitChars_eq_zero_iff hdigits).1 hzero.symm⟩
  · rintro ⟨hne, hzeros⟩
    have hdigits := allDigits_of_zeros hzeros
    exact ⟨hne, hdigits, ((ofDigitChars_eq_zero_iff hdigits).2 hzeros).symm⟩

end ArithLang
