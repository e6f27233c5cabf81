/-
What a written floating-point number says when it is read as a decimal (`read?`): digits, a point with digits after it,
and a power of ten, of which the point and the power may be missing.

Main fact: the text of a finite value is read as its sign and a decimal that is rounded to its magnitude, and of all such
decimals this one has the fewest significant digits (`read?_text_finite`).
-/
import ArithLang.Binary64.Text
import ArithLang.Proofs.Binary64.Shortest
import ArithLang.Proofs.Number.Digits

namespace ArithLang.Binary64

/-! ## Reading decimals -/

/-- What stands before the first `mark`, and what stands after it if there is one. -/
def cut (mark : Char) : List Char → List Char × Option (List Char)
  | [] => ([], none)
  | c :: cs =>
    if c = mark then ([], some cs)
    else
      let (before, after) := cut mark cs
      (c :: before, after)

def readDigits? (cs : List Char) : Option ℕ := literalValue? (String.ofList cs)

/-- Digits, and a point with digits after it or none. -/
def readMantissa? (cs : List Char) : Option Decimal :=
  match cut '.' cs with
  | (whole, none) => do
    let n ← readDigits? whole
    return ⟨n, 0⟩
  | (whole, some fraction) => do
    let m ← readDigits? whole
    let n ← readDigits? fraction
    return ⟨m * 10 ^ fraction.length + n, -fraction.length⟩

def readExponent? : List Char → Option ℤ
  | '-' :: cs => (readDigits? cs).map fun n => -(n : ℤ)
  | cs => (readDigits? cs).map fun n => (n : ℤ)

/-- A mantissa, and a power of ten after an `e` or none. -/
def readUnsigned? (cs : List Char) : Option Decimal :=
  match cut 'e' cs with
  | (mantissa, none) => readMantissa? mantissa
  | (mantissa, some exponent) => do
    let d ← readMantissa? mantissa
    let e ← readExponent? exponent
    return ⟨d.coefficient, d.exponent + e⟩

/-- A decimal text: whether there is a minus sign in front, and the decimal without it. -/
def read? (text : String) : Option (Bool × Decimal) :=
  match text.toList with
  | '-' :: cs => (readUnsigned? cs).map fun d => (true, d)
  | cs => (readUnsigned? cs).map fun d => (false, d)

section
variable {mark : Char} {cs rest : List Char}

theorem cut_of_not_mem (h : mark ∉ cs) : cut mark cs = (cs, none) := by
  induction cs with
  | nil => rfl
  | cons c cs ih =>
    obtain ⟨hne, hmem⟩ := not_or.1 (mt List.mem_cons.2 h)
    rw [cut, if_neg (Ne.symm hne), ih hmem]

theorem cut_append (h : mark ∉ cs) : cut mark (cs ++ mark :: rest) = (cs, some rest) := by
  induction cs with
  | nil => exact if_pos rfl
  | cons c cs ih =>
    obtain ⟨hne, hmem⟩ := not_or.1 (mt List.mem_cons.2 h)
    rw [List.cons_append, cut, if_neg (Ne.symm hne), ih hmem]

end

section
variable {whole fraction : List Char}

theorem readDigits?_of_allDigits (hne : whole ≠ []) (h : AllDigits whole) :
    readDigits? whole = some (Nat.ofDigitChars 10 whole 0) := by
  rw [readDigits?, literalValue?_eq_some_iff, String.toList_ofList]
  exact ⟨hne, h, rfl⟩

theorem readMantissa?_whole (hne : whole ≠ []) (h : AllDigits whole) :
    readMantissa? whole = some ⟨Nat.ofDigitChars 10 whole 0, 0⟩ := by
  rw [readMantissa?, cut_of_not_mem (not_mem_of_allDigits h rfl)]
  simp only [readDigits?_of_allDigits hne h]
  rfl

theorem readMantissa?_point (hne : whole ≠ []) (hne' : fraction ≠ []) (h : AllDigits whole) (h' : AllDigits fraction) :
    readMantissa? (whole ++ '.' :: fraction) =
      some ⟨Nat.ofDigitChars 10 (whole ++ fraction) 0, -fraction.length⟩ := by
  rw [readMantissa?, cut_append (not_mem_of_allDigits h rfl), ofDigitChars_append]
  simp only [readDigits?_of_allDigits hne h, readDigits?_of_allDigits hne' h']
  rfl

theorem readExponent?_of_int (e : ℤ) :
    readExponent? ((if e < 0 then ['-'] else []) ++ Nat.toDigits 10 e.natAbs) = some e := by
  have hdigits := allDigits_toDigits e.natAbs
  have hread := readDigits?_of_allDigits Nat.toDigits_ne_nil hdigits
  rw [Nat.ofDigitChars_ten_toDigits] at hread
  split
  · have he : -(e.natAbs : ℤ) = e := by omega
    rw [List.cons_append, List.nil_append, readExponent?, hread]
    exact congrArg some he
  · have he : (e.natAbs : ℤ) = e := by omega
    rw [List.nil_append]
    unfold readExponent?
    split
    · rename_i hminus
      rw [hminus] at hdigits
      exact absurd List.mem_cons_self (not_mem_of_allDigits hdigits rfl)
    · rw [hread]
      exact congrArg some he

end

section
variable {cs exponent : List Char} {d : Decimal}

/-- `cs` is a mantissa for `d`, without a power of ten. -/
structure IsMantissa (cs : List Char) (d : Decimal) : Prop where
  not_mem : 'e' ∉ cs
  read : readMantissa? cs = some d

theorem isMantissa_whole {whole : List Char} (hne : whole ≠ []) (h : AllDigits whole) :
    IsMantissa whole ⟨Nat.ofDigitChars 10 whole 0, 0⟩ :=
  ⟨not_mem_of_allDigits h rfl, readMantissa?_whole hne h⟩

theorem isMantissa_point {whole fraction : List Char} (hne : whole ≠ []) (hne' : fraction ≠ []) (h : AllDigits whole)
    (h' : AllDigits fraction) :
    IsMantissa (whole ++ '.' :: fraction) ⟨Nat.ofDigitChars 10 (whole ++ fraction) 0, -fraction.length⟩ := by
  refine ⟨fun hmem => ?_, readMantissa?_point hne hne' h h'⟩
  rcases List.mem_append.1 hmem with hmem | hmem
  · exact not_mem_of_allDigits h rfl hmem
  · exact not_mem_of_allDigits h' rfl (List.mem_of_ne_of_mem (by decide) hmem)

theorem IsMantissa.readUnsigned? (h : IsMantissa cs d) : readUnsigned? cs = some d := by
  rw [Binary64.readUnsigned?, cut_of_not_mem h.not_mem]
  exact h.read

theorem IsMantissa.readUnsigned?_scientific {e : ℤ} (h : IsMantissa cs d) (he : readExponent? exponent = some e) :
    Binary64.readUnsigned? (cs ++ 'e' :: exponent) = some ⟨d.coefficient, d.exponent + e⟩ := by
  rw [Binary64.readUnsigned?, cut_append h.not_mem]
  simp only [h.read, he]
  rfl

theorem readDigits?_minus (cs : List Char) : readDigits? ('-' :: cs) = none := by
  cases hread : readDigits? ('-' :: cs) with
  | none => rfl
  | some n =>
    rw [readDigits?, literalValue?_eq_some_iff, String.toList_ofList] at hread
    exact absurd List.mem_cons_self (not_mem_of_allDigits hread.2.1 rfl)

theorem readUnsigned?_minus (cs : List Char) : readUnsigned? ('-' :: cs) = none := by
  have hmantissa : ∀ ds, readMantissa? ('-' :: ds) = none := fun ds => by
    unfold readMantissa?
    rw [cut, if_neg (by decide)]
    rcases cut '.' ds with ⟨whole, _ | fraction⟩
    all_goals
      simp only [readDigits?_minus]
      rfl
  unfold readUnsigned?
  rw [cut, if_neg (by decide)]
  rcases cut 'e' cs with ⟨mantissa, _ | exponent⟩
  · exact hmantissa mantissa
  · simp only [hmantissa]
    rfl

theorem read?_signed (negative : Bool) {text : String} (h : readUnsigned? text.toList = some d) :
    read? ((if negative then "-" else "") ++ text) = some (negative, d) := by
  unfold read?
  cases negative with
  | true =>
    have htext : ((if true then "-" else "") ++ text).toList = '-' :: text.toList := String.toList_append
    rw [htext]
    simp only [h]
    rfl
  | false =>
    have htext : ((if false then "-" else "") ++ text).toList = text.toList := by
      rw [String.toList_append]
      rfl
    rw [htext]
    split
    · rename_i hminus
      rw [hminus, readUnsigned?_minus] at h
      cases h
    · rw [h]
      rfl

end

/-! ## Written decimals -/

namespace Decimal

/-- The point stands between digits, and where the digits do not reach up to it there are zeros. -/
theorem isMantissa_positional {digits : List Char} (hne : digits ≠ []) (h : AllDigits digits) (point : ℤ) :
    ∃ k : ℕ, IsMantissa (positional digits point)
      ⟨Nat.ofDigitChars 10 digits 0 * 10 ^ k, point - digits.length - k⟩ := by
  have hlength : 0 < digits.length := List.length_pos_iff.2 hne
  have hzeros : ∀ n, AllDigits (List.replicate n '0') := fun n => allDigits_of_zeros fun _ => List.eq_of_mem_replicate
  unfold positional
  split
  · -- zeros from the point to the digits
    have hfraction : AllDigits (List.replicate (-point).toNat '0' ++ digits) := fun c hc =>
      (List.mem_append.1 hc).elim (hzeros _ c) (h c)
    have hmantissa := isMantissa_point (List.cons_ne_nil '0' []) (by simp [hne]) (hzeros 1) hfraction
    have hexponent : -((List.replicate (-point).toNat '0' ++ digits).length : ℤ) = point - digits.length - (0 : ℕ) := by
      rw [List.length_append, List.length_replicate]
      omega
    have hvalue : Nat.ofDigitChars 10 (['0'] ++ (List.replicate (-point).toNat '0' ++ digits)) 0 =
        Nat.ofDigitChars 10 digits 0 * 10 ^ 0 := by
      rw [Nat.pow_zero, Nat.mul_one]
      exact (ofDigitChars_zeros_append 1 _).trans (ofDigitChars_zeros_append _ _)
    rw [hvalue, hexponent] at hmantissa
    exact ⟨0, hmantissa⟩
  · dsimp only
    split
    · -- zeros from the digits to the point, and one after it
      rename_i hshort
      have hwhole : AllDigits (digits ++ List.replicate (point.toNat - digits.length) '0') := fun c hc =>
        (List.mem_append.1 hc).elim (h c) (hzeros _ c)
      have hmantissa := isMantissa_point (by simp [hne]) (List.cons_ne_nil '0' []) hwhole (hzeros 1)
      have hexponent : -((['0'].length : ℕ) : ℤ) =
          point - digits.length - (point.toNat - digits.length + 1 : ℕ) := by
        rw [List.length_singleton]
        omega
      rw [List.append_assoc _ _ ['0'], ← List.replicate_succ', ofDigitChars_append_zeros, hexponent] at hmantissa
      exact ⟨_, hmantissa⟩
    · have htake : digits.take point.toNat ≠ [] := List.ne_nil_of_length_pos (by rw [List.length_take]; omega)
      have hdrop : digits.drop point.toNat ≠ [] := List.ne_nil_of_length_pos (by rw [List.length_drop]; omega)
      have hmantissa := isMantissa_point htake hdrop (fun c hc => h c (List.mem_of_mem_take hc))
        (fun c hc => h c (List.mem_of_mem_drop hc))
      have hexponent : -((digits.drop point.toNat).length : ℤ) = point - digits.length - (0 : ℕ) := by
        rw [List.length_drop]
        omega
      rw [List.take_append_drop, hexponent] at hmantissa
      exact ⟨0, by simpa using hmantissa⟩

theorem readUnsigned?_scientific {digits : List Char} (hne : digits ≠ []) (h : AllDigits digits) (point : ℤ) :
    readUnsigned? (scientific digits point) = some ⟨Nat.ofDigitChars 10 digits 0, point - digits.length⟩ := by
  have hexponent := readExponent?_of_int (point - 1)
  match digits with
  | [] => exact absurd rfl hne
  | [c] =>
    have hmantissa := (isMantissa_whole hne h).readUnsigned?_scientific hexponent
    rw [Int.zero_add] at hmantissa
    exact hmantissa
  | c :: c' :: rest =>
    obtain ⟨hc, hrest⟩ := List.forall_mem_cons.1 h
    have hmantissa := isMantissa_point (List.cons_ne_nil c []) (List.cons_ne_nil c' rest)
      (List.forall_mem_singleton.2 hc) hrest
    have hread := hmantissa.readUnsigned?_scientific hexponent
    have hsum : -((c' :: rest).length : ℤ) + (point - 1) = point - (c :: c' :: rest).length := by
      have hcons : (c :: c' :: rest).length = (c' :: rest).length + 1 := rfl
      omega
    rw [hsum] at hread
    exact hread

/-- The text of a decimal is read as the decimal, up to zeros at the end of the coefficient. -/
theorem readUnsigned?_text (d : Decimal) :
    ∃ k : ℕ, readUnsigned? d.text.toList = some ⟨d.coefficient * 10 ^ k, d.exponent - k⟩ := by
  have hdigits := allDigits_toDigits d.coefficient
  have hne := Nat.toDigits_ne_nil (b := 10) (n := d.coefficient)
  have hpoint : d.pointPosition (Nat.toDigits 10 d.coefficient) - (Nat.toDigits 10 d.coefficient).length =
      d.exponent := by
    unfold pointPosition
    omega
  unfold text
  simp only [String.toList_ofList]
  split
  · obtain ⟨k, hmantissa⟩ := isMantissa_positional hne hdigits (d.pointPosition (Nat.toDigits 10 d.coefficient))
    refine ⟨k, ?_⟩
    rw [hmantissa.readUnsigned?, Nat.ofDigitChars_ten_toDigits, hpoint]
  · refine ⟨0, ?_⟩
    rw [readUnsigned?_scientific hne hdigits, Nat.ofDigitChars_ten_toDigits, hpoint]
    simp

end Decimal

/-! ## Written values -/

theorem Decimal.IsShortest.read?_text {d : Decimal} {r : ℕ} (h : d.IsShortest r) (negative : Bool) :
    ∃ d', read? ((if negative then "-" else "") ++ d.text) = some (negative, d') ∧ RoundsToRank d'.value r ∧
      ∀ d'' : Decimal, RoundsToRank d''.value r → d'.significantDigits ≤ d''.significantDigits := by
  obtain ⟨k, hread⟩ := d.readUnsigned?_text
  refine ⟨⟨d.coefficient * 10 ^ k, d.exponent - k⟩, read?_signed negative hread, ?_, fun d'' hd'' => ?_⟩
  · rw [value_mul_pow, Int.sub_add_cancel]
    exact h.rounds
  · rw [significantDigits_mul_pow _ _ _ d.exponent]
    exact h.significantDigits_le hd''

theorem text_finite_zero {rank : Fin rankLimit} (h : rank.val = 0) (negative : Bool) :
    (finite negative rank).text = (if negative then "-" else "") ++ "0.0" := by
  rw [text, if_pos h]

theorem text_finite_of_pos {rank : Fin rankLimit} (h : 0 < rank.val) (negative : Bool) :
    (finite negative rank).text = (if negative then "-" else "") ++ (shortest rank).text := by
  rw [text, if_neg h.ne']

/-- The text of a finite value is read as its sign and a decimal that is rounded to its magnitude, with the fewest
significant digits of all that are. -/
theorem read?_text_finite (negative : Bool) (rank : Fin rankLimit) :
    ∃ d, read? (finite negative rank).text = some (negative, d) ∧ RoundsToRank d.value rank ∧
      ∀ d' : Decimal, RoundsToRank d'.value rank → d.significantDigits ≤ d'.significantDigits := by
  rcases Nat.eq_zero_or_pos rank with hzero | hpos
  · refine ⟨⟨0, -1⟩, ?_, ?_, fun d' _ => Nat.zero_le _⟩
    · rw [text_finite_zero hzero]
      exact read?_signed negative rfl
    · rw [hzero, Decimal.value, Nat.cast_zero, zero_mul, roundsToRank_zero_iff]
  · rw [text_finite_of_pos hpos]
    exact (shortest_isShortest hpos rank.isLt).read?_text negative

end ArithLang.Binary64
