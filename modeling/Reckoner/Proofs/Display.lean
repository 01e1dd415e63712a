import Reckoner.Proofs.Expression.Numeral
import Reckoner.Proofs.Number.Nearest
import Reckoner.Proofs.Number.Scientific
import Reckoner.Proofs.Number.Significant
import Reckoner.Proofs.Number.Separators

/-!
# Displayed numbers read back

Without its commas a number shown without exponent is a signed numeral. It evaluates to a double that is at most one
unit of the last significant digit away from the shown one: half a unit is lost in the display, and the double nearest
to the display is no farther from it than the shown double itself. The grammar of expressions knows no exponent, so a
number shown with one is refused at its `e`.
-/

namespace Reckoner.Display

open Double (Canonical content exact signedExact ofMagnitude magnitudeBits)
open Expression (Numeral)

set_option autoImplicit false

variable {mantissa : Nat} {exponent : Int}

/-! ## Shown doubles as fractions -/

theorem fraction_ratio (mantissa : Nat) (exponent : Int) :
    ((fraction mantissa exponent).1 : ℚ) / (fraction mantissa exponent).2 = mantissa * 2 ^ exponent := by
  simp only [fraction]
  push_cast
  rw [mul_div_assoc, Double.pow_toNat_div]

theorem fraction_pos (hm : 0 < mantissa) (exponent : Int) :
    0 < (fraction mantissa exponent).1 ∧ 0 < (fraction mantissa exponent).2 :=
  ⟨Nat.mul_pos hm (Nat.two_pow_pos _), Nat.two_pow_pos _⟩

/-- The double rounded to the significant digits, a half going up. -/
def rounded (digits mantissa : Nat) (exponent : Int) : Decimal :=
  Decimal.significant digits (fraction mantissa exponent).1 (fraction mantissa exponent).2

/-- One unit of the last of the significant digits of a number. -/
def lastUnit (digits : Nat) (x : ℚ) : ℚ :=
  10 ^ (Int.log 10 |x| - digits + 1)

theorem lastUnit_pos (digits : Nat) (x : ℚ) : 0 < lastUnit digits x :=
  Decimal.ten_zpow_pos _

/-- Rounding to significant digits is correct in the unit of the last of them. -/
theorem rounded_correct (digits : Nat) (hm : 0 < mantissa) (exponent : Int) :
    NearestMultiple (lastUnit digits (mantissa * 2 ^ exponent)) (mantissa * 2 ^ exponent)
      (rounded digits mantissa exponent).exact := by
  obtain ⟨hnum, hden⟩ := fraction_pos hm exponent
  have hcorrect := Decimal.significant_nearestMultiple digits (fraction mantissa exponent).1 hden
  have hpos : (0 : ℚ) < mantissa * 2 ^ exponent := mul_pos (by exact_mod_cast hm) (Double.two_zpow_pos _)
  rw [Decimal.leadingExponent_eq_log hnum hden, fraction_ratio] at hcorrect
  rw [lastUnit, abs_of_pos hpos]
  exact hcorrect

theorem rounded_close (digits : Nat) (hm : 0 < mantissa) (exponent : Int) :
    |mantissa * 2 ^ exponent - (rounded digits mantissa exponent).exact| ≤ lastUnit digits (mantissa * 2 ^ exponent) / 2 := by
  rw [abs_sub_comm]
  exact (rounded_correct digits hm exponent).close (lastUnit_pos _ _)

theorem lastUnit_le {digits : Nat} (hdigits : 0 < digits) {x : ℚ} (hx : 0 < x) : lastUnit digits x ≤ x := by
  rw [lastUnit, abs_of_pos hx]
  calc (10 : ℚ) ^ (Int.log 10 x - digits + 1) ≤ 10 ^ Int.log 10 x := Decimal.ten_zpow_le (by omega)
    _ ≤ x := by exact_mod_cast Int.zpow_log_le_self (b := 10) (by norm_num) hx

/-! ## Fixed notation -/

theorem significantDigits_pos (s : Settings) : 0 < s.significantDigits := by
  unfold Settings.significantDigits
  omega

theorem significantDigits_le (s : Settings) : s.significantDigits ≤ 17 := by
  unfold Settings.significantDigits
  omega

/-- Without commas the fixed notation of a number is a signed numeral for the rounded number. -/
theorem fixed_numeral (s : Settings) (negative : Bool) (hm : 0 < mantissa) (exponent : Int) :
    ∃ n : Numeral, n.exact = (rounded s.significantDigits mantissa exponent).exact ∧
      (if s.thousandsSeparator then withSeparators (fixed s.significantDigits negative mantissa exponent)
        else fixed s.significantDigits negative mantissa exponent).filter (· != ',') = signedText negative n.text := by
  obtain ⟨hnum, hden⟩ := fraction_pos hm exponent
  obtain ⟨n, htext, hexact⟩ := Decimal.positional_exact (rounded s.significantDigits mantissa exponent)
    (Decimal.significant_coefficient_pos (significantDigits_pos s) hnum hden)
  have hfixed : fixed s.significantDigits negative mantissa exponent = signedText negative n.text := by
    rw [htext]
    rfl
  rw [hfixed]
  split
  · obtain ⟨m, hfilter, hm⟩ := withSeparators_numeral negative n
    exact ⟨m, hm.trans hexact, hfilter⟩
  · exact ⟨n, hexact, by rw [filter_signedText, filter_numeral n.all_numeral]⟩

/-- A numeral close to a double is read as a double that is at most twice as far away. -/
theorem numeral_value_close (hc : Canonical mantissa exponent) {n : Numeral} {gap : ℚ}
    (hclose : |mantissa * 2 ^ exponent - n.exact| ≤ gap) (hrange : n.exact < 2 ^ (1023 : Int)) :
    ∃ mantissa' exponent', Canonical mantissa' exponent' ∧ n.value = ofMagnitude false (magnitudeBits mantissa' exponent') ∧
      |(mantissa' : ℚ) * 2 ^ exponent' - mantissa * 2 ^ exponent| ≤ 2 * gap := by
  obtain ⟨mantissa', exponent', hnearest, hvalue⟩ := Double.ofDecimal_nearest false (hrange.le.trans Double.two_zpow_le_largest)
  have hle : |(mantissa' : ℚ) * 2 ^ exponent' - n.exact| ≤ |mantissa * 2 ^ exponent - n.exact| := hnearest.le hc
  refine ⟨mantissa', exponent', hnearest.canonical, hvalue, ?_⟩
  calc |(mantissa' : ℚ) * 2 ^ exponent' - mantissa * 2 ^ exponent|
      ≤ |(mantissa' : ℚ) * 2 ^ exponent' - n.exact| + |n.exact - mantissa * 2 ^ exponent| := abs_sub_le _ _ _
    _ ≤ gap + gap := add_le_add (hle.trans hclose) (by rw [abs_sub_comm]; exact hclose)
    _ = 2 * gap := (two_mul gap).symm

/-! ## Where an exponent is used -/

theorem scientificUpper_exact : scientificUpper.isFinite = true ∧ exact scientificUpper = 10 ^ 15 := by
  have hcontent : content scientificUpper = .finite false 8000000000000000 (-3) := rfl
  refine ⟨rfl, ?_⟩
  rw [Double.exact_of_content hcontent]
  simp only [signedExact, Bool.false_eq_true, if_false]
  norm_num

theorem scientificLower_isFinite : scientificLower.isFinite = true := rfl

theorem usesExponent_iff {x : Float} (hx : x.isFinite = true) :
    usesExponent x = true ↔ 10 ^ 15 ≤ |exact x| ∨ |exact x| < exact scientificLower ∧ exact x ≠ 0 := by
  obtain ⟨hfinite, hupper⟩ := scientificUpper_exact
  have habs := Double.abs_isFinite hx
  rw [usesExponent, Bool.or_eq_true, Bool.and_eq_true, Bool.not_eq_true', decide_eq_true_iff, decide_eq_true_iff,
    Double.le_iff hfinite habs, Double.lt_iff habs scientificLower_isFinite, Double.exact_abs hx, hupper,
    Bool.eq_false_iff, ne_eq, Double.beq_zero_iff hx]

theorem abs_lt_of_fixed {x : Float} (hx : x.isFinite = true) (h : usesExponent x = false) : |exact x| < 10 ^ 15 := by
  by_contra hlarge
  rw [(usesExponent_iff hx).mpr (Or.inl (not_lt.mp hlarge))] at h
  contradiction

theorem exact_ne_zero_of_exponent {x : Float} (hx : x.isFinite = true) (h : usesExponent x = true) : exact x ≠ 0 := by
  rcases (usesExponent_iff hx).mp h with hlarge | hsmall
  · intro hzero
    rw [hzero, abs_zero] at hlarge
    norm_num at hlarge
  · exact hsmall.2

/-! ## Scientific notation -/

theorem signedText_append (negative : Bool) (front back : List Char) :
    signedText negative (front ++ back) = signedText negative front ++ back := by
  cases negative <;> rfl

theorem exponentMark_chars (width : Nat) (e : Int) : ∃ back, Decimal.exponentMark width e = 'e' :: back ∧
    ∀ c ∈ back, c = '-' ∨ c = '+' ∨ Literal.isDigit c = true := by
  refine ⟨_, rfl, fun c hc => ?_⟩
  rcases List.mem_cons.mp hc with rfl | hc
  · split
    · exact Or.inl rfl
    · exact Or.inr (Or.inl rfl)
  · exact Or.inr (Or.inr (Literal.exponentMark_digits width e c hc))

/-- A number with an exponent is a signed numeral of eight characters, and the exponent behind it. -/
theorem scientific_numeral (negative : Bool) (mantissa : Nat) (exponent : Int) :
    ∃ (n : Numeral) (back : List Char), scientific negative mantissa exponent = signedText negative n.text ++ 'e' :: back ∧
      n.text.length = 8 ∧ ∀ c ∈ back, c = '-' ∨ c = '+' ∨ Literal.isDigit c = true := by
  generalize hrounded : rounded (scientificPlaces + 1) mantissa exponent = d
  have hscientific : scientific negative mantissa exponent = signedText negative (d.scientific scientificPlaces) := by
    rw [← hrounded]
    rfl
  obtain ⟨back, hmark, hback⟩ := exponentMark_chars 1 d.scientificExponent
  have hdigits : ∀ c ∈ Decimal.digits d.coefficient ++ List.replicate scientificPlaces '0', Literal.isDigit c = true := by
    intro c hc
    rcases List.mem_append.mp hc with hdigit | hzero
    · exact Decimal.isDigit_of_mem_digits hdigit
    · rw [List.eq_of_mem_replicate hzero]
      rfl
  have hlength : 7 ≤ (Decimal.digits d.coefficient ++ List.replicate scientificPlaces '0').length := by
    have hpos := Decimal.digitCount_pos d.coefficient
    rw [List.length_append, List.length_replicate]
    unfold Decimal.digitCount at hpos
    change 7 ≤ _ + 6
    omega
  rw [hscientific, Decimal.scientific, hmark]
  generalize Decimal.digits d.coefficient ++ List.replicate scientificPlaces '0' = ds at hdigits hlength
  cases ds with
  | nil => simp at hlength
  | cons lead more =>
    have hlead : ∀ c ∈ [lead], Literal.isDigit c = true := fun c hc => hdigits c (by simpa using Or.inl (List.mem_singleton.mp hc))
    have hplaces : ∀ c ∈ more.take scientificPlaces, Literal.isDigit c = true := fun c hc =>
      hdigits c (List.mem_cons_of_mem _ (List.mem_of_mem_take hc))
    refine ⟨Decimal.ofParts [lead] (more.take scientificPlaces) (by simp) hlead hplaces, back, ?_, ?_, hback⟩
    · rw [← signedText_append]
      rfl
    · rw [List.length_cons] at hlength
      change (lead :: '.' :: more.take 6).length = 8
      rw [List.length_cons, List.length_cons, List.length_take]
      omega

/-- The exponent is not read: the grammar goes on with no `e` behind a number. -/
theorem evaluateChars_scientific (t : Settings) (negative : Bool) (mantissa : Nat) (exponent : Int) :
    Expression.evaluateChars t ((scientific negative mantissa exponent).filter (· != ',')) =
      .error (.malformed (.unexpected 'e') (if negative then 9 else 8)) := by
  obtain ⟨n, back, htext, hlength, hback⟩ := scientific_numeral negative mantissa exponent
  have hvisible : Expression.Visible ('e' :: back) := by
    refine List.forall_mem_cons.mpr ⟨by decide, fun c hc => ?_⟩
    rcases hback c hc with rfl | rfl | hdigit
    · decide
    · decide
    · have := (Expression.isDigit_iff c).mp hdigit
      omega
  have hplain : ('e' :: back).filter (· != ',') = 'e' :: back := by
    refine List.filter_eq_self.mpr fun c hc => ?_
    rw [bne_iff_ne]
    rintro rfl
    rcases List.mem_cons.mp hc with h | h
    · exact absurd h (by decide)
    · rcases hback _ h with h | h | h <;> exact absurd h (by decide)
  have hstop : (Expression.Level.chain .sum).Stops ('e' :: back) := by
    have hnumeral : Expression.NoNumeral ('e' :: back) := Expression.noNumeral_cons rfl back
    simp [Expression.Level.Stops, Expression.sumOperator?, Expression.productOperator?, hnumeral]
  rw [htext, List.filter_append, hplain, filter_signedText, filter_numeral n.all_numeral,
    Expression.evaluateChars_unexpected t negative n hvisible hstop]
  cases negative with
  | false => exact congrArg (fun k => Except.error (Expression.Failure.malformed _ k)) hlength
  | true => exact congrArg (fun k => Except.error (Expression.Failure.malformed _ (k + 1))) hlength

/-! ## Reading back -/

/-- The text of a number without the commas between its groups of digits. -/
def withoutCommas (text : String) : String :=
  String.ofList (text.toList.filter (· != ','))

theorem evaluate_withoutCommas (t s : Settings) (x : Float) :
    Expression.evaluate t (withoutCommas (format s x)) = Expression.evaluateChars t ((formatChars s x).filter (· != ',')) := by
  simp [Expression.evaluate, withoutCommas, format]

theorem formatChars_of_pos (s : Settings) {x : Float} {negative : Bool} (hm : 0 < mantissa)
    (hcontent : content x = .finite negative mantissa exponent) :
    formatChars s x =
      if usesExponent x then scientific negative mantissa exponent
      else if s.thousandsSeparator then withSeparators (fixed s.significantDigits negative mantissa exponent)
      else fixed s.significantDigits negative mantissa exponent := by
  obtain ⟨m, rfl⟩ := Nat.exists_eq_add_of_lt hm
  unfold formatChars
  rw [hcontent]
  simp only [Nat.zero_add]

theorem abs_signedExact_sub (negative : Bool) (mantissa' : Nat) (exponent' : Int) (mantissa : Nat) (exponent : Int) :
    |signedExact negative mantissa' exponent' - signedExact negative mantissa exponent| =
      |(mantissa' : ℚ) * 2 ^ exponent' - mantissa * 2 ^ exponent| := by
  cases negative with
  | false => rfl
  | true =>
    rw [abs_sub_comm]
    simp only [signedExact, if_true]
    rw [neg_sub_neg]

/-- The fixed notation of a positive or negative double evaluates to a double within one unit of the last digit. -/
theorem evaluateChars_fixed (s : Settings) (negative : Bool) (hc : Canonical mantissa exponent) (hm : 0 < mantissa)
    (hrange : (mantissa : ℚ) * 2 ^ exponent < 10 ^ 15) :
    ∃ y : Float, y.isFinite = true ∧
      |exact y - signedExact negative mantissa exponent| ≤ lastUnit s.significantDigits (signedExact negative mantissa exponent) ∧
      ∀ t, Expression.evaluateChars t
        ((if s.thousandsSeparator then withSeparators (fixed s.significantDigits negative mantissa exponent)
          else fixed s.significantDigits negative mantissa exponent).filter (· != ',')) = .ok y := by
  obtain ⟨n, hexact, htext⟩ := fixed_numeral s negative hm exponent
  have hpos : (0 : ℚ) < mantissa * 2 ^ exponent := Double.signedExact_pos hm exponent
  have hclose := rounded_close s.significantDigits hm exponent
  have hunit := lastUnit_le (significantDigits_pos s) hpos
  rw [← hexact] at hclose
  have hbounded : n.exact < 2 ^ (1023 : Int) := by
    have hdistance := (abs_le.mp hclose).1
    have hsmall : n.exact < 2 * 10 ^ 15 := by linarith
    have hpower : (2 : ℚ) * 10 ^ 15 ≤ 2 ^ (51 : Int) := by norm_num
    exact hsmall.trans_le (hpower.trans (Double.two_zpow_le (by decide)))
  obtain ⟨mantissa', exponent', hc', hvalue, hdistance⟩ := numeral_value_close hc hclose hbounded
  have hy : (if negative then -n.value else n.value) = ofMagnitude negative (magnitudeBits mantissa' exponent') := by
    rw [hvalue, Double.neg_ofMagnitude false (Double.magnitudeBits_lt hc').le]
    cases negative <;> rfl
  refine ⟨_, Double.isFinite_ofMagnitude negative hc', ?_, fun t => ?_⟩
  · rw [Double.exact_ofMagnitude negative hc', abs_signedExact_sub, lastUnit, Double.abs_signedExact]
    rw [lastUnit, abs_of_pos hpos] at hdistance
    linarith
  · rw [htext, Expression.evaluateChars_signedNumeral, hy]

/--
Without its commas the text of a finite double in fixed notation evaluates to a double within one unit of the last
significant digit. In scientific notation the `e` behind the mantissa is unexpected.
-/
theorem format_reads_back (s : Settings) {x : Float} (hx : x.isFinite = true) :
    (usesExponent x = false → ∃ y : Float, (∀ t, Expression.evaluate t (withoutCommas (format s x)) = .ok y) ∧
        y.isFinite = true ∧ |exact y - exact x| ≤ lastUnit s.significantDigits (exact x) ∧ (exact x = 0 → exact y = 0)) ∧
      (usesExponent x = true → ∀ t, Expression.evaluate t (withoutCommas (format s x)) =
        .error (.malformed (.unexpected 'e') (if Double.isNegative x then 9 else 8))) := by
  obtain ⟨negative, mantissa, exponent, hcontent, hc, -⟩ := Double.content_of_isFinite hx
  have hexact : exact x = signedExact negative mantissa exponent := by
    rw [exact, hcontent]
    rfl
  have hnegative : Double.isNegative x = negative := by
    rw [Double.isNegative, hcontent]
  simp only [evaluate_withoutCommas, hnegative]
  by_cases hm : 0 < mantissa
  · rw [formatChars_of_pos s hm hcontent]
    refine ⟨fun hfixed => ?_, fun hexponent t => ?_⟩
    · have hrange := abs_lt_of_fixed hx hfixed
      rw [hexact, Double.abs_signedExact] at hrange
      obtain ⟨y, hfinite, hclose, heval⟩ := evaluateChars_fixed s negative hc hm hrange
      rw [hfixed, hexact]
      exact ⟨y, heval, hfinite, hclose, fun hzero => absurd (Double.signedExact_eq_zero.mp hzero) hm.ne'⟩
    · rw [hexponent]
      exact evaluateChars_scientific t negative mantissa exponent
  · obtain rfl : mantissa = 0 := by omega
    have hzero : exact x = 0 := hexact.trans (Double.signedExact_zero negative exponent)
    have htext : (formatChars s x).filter (· != ',') = signedText false Double.zeroNumeral.text := by
      rw [formatChars, hcontent]
      rfl
    have hvalue : Double.zeroNumeral.value = 0 := Double.zeroNumeral_value.trans rfl
    refine ⟨fun _ => ⟨0, fun t => ?_, rfl, ?_, fun _ => Double.exact_zero⟩, fun hexponent => ?_⟩
    · rw [htext, Expression.evaluateChars_signedNumeral, if_neg Bool.false_ne_true, hvalue]
    · rw [Double.exact_zero, hzero, sub_zero, abs_zero]
      exact (lastUnit_pos _ _).le
    · exact absurd hzero (exact_ne_zero_of_exponent hx hexponent)

/-- `1,234,567.9` reads back within a tenth of the number shown, and `1.000000e+15` is refused. -/
theorem format_reads_back_million :
    ((1234567.891 : Float).isFinite = true ∧ usesExponent 1234567.891 = false ∧
      ∃ y : Float, (∀ t, Expression.evaluate t (withoutCommas (format {} 1234567.891)) = .ok y) ∧
        y.isFinite = true ∧ |exact y - exact 1234567.891| ≤ lastUnit 8 (exact 1234567.891)) ∧
      (1e15 : Float).isFinite = true ∧ usesExponent 1e15 = true ∧
        Expression.evaluate {} (withoutCommas (format {} 1e15)) = .error (.malformed (.unexpected 'e') 8) := by
  have hfixed : usesExponent 1234567.891 = false := by decide +kernel
  have hexponent : usesExponent 1e15 = true := by decide +kernel
  obtain ⟨y, heval, hfinite, hclose, -⟩ := (format_reads_back {} (x := 1234567.891) rfl).1 hfixed
  exact ⟨⟨rfl, hfixed, y, heval, hfinite, hclose⟩, rfl, hexponent, (format_reads_back {} (x := 1e15) rfl).2 hexponent {}⟩

/-- The text of a finite double need not be an expression: no expression has an exponent. -/
theorem not_evaluates_scientific :
    (1e15 : Float).isFinite = true ∧ ¬ ∃ y, Expression.evaluate {} (withoutCommas (format {} 1e15)) = .ok y := by
  have hrefused : Expression.evaluate {} (withoutCommas (format {} 1e15)) = .error (.malformed (.unexpected 'e') 8) := by
    decide +kernel
  refine ⟨rfl, fun ⟨y, hy⟩ => ?_⟩
  rw [hrefused] at hy
  contradiction

end Reckoner.Display
