import Reckoner.Proofs.Display
import Reckoner.Proofs.Number.Special

/-!
# Displayed numbers read as numbers

The tolerant reading of numbers knows exponents. So the text of every finite double, without its commas, is read as a
finite double, and only that of zero as zero. Rounding for the display does not lead out of the range of the doubles: the
largest one is shown with seven digits, and the eighth would be rounded down. The three other texts are no numbers.
-/

namespace Reckoner.Display

open Double (Canonical content exact largest signedExact ofMagnitude magnitudeBits)
open Expression (Numeral NoNumeral)

set_option autoImplicit false

variable {mantissa : Nat} {exponent : Int}

/-! ## The size of rounded numbers -/

/-- A rounded number has at least one unit of its last digit, and half a unit is lost by rounding. -/
theorem rounded_half {digits : Nat} (hdigits : 0 < digits) (hm : 0 < mantissa) (exponent : Int) :
    0 < (rounded digits mantissa exponent).exact ∧
      |mantissa * 2 ^ exponent - (rounded digits mantissa exponent).exact| ≤ (rounded digits mantissa exponent).exact / 2 := by
  obtain ⟨hnum, hden⟩ := fraction_pos hm exponent
  have hcoefficient : 0 < (rounded digits mantissa exponent).coefficient :=
    Decimal.significant_coefficient_pos hdigits hnum hden
  have hgrid := Decimal.ten_zpow_pos (rounded digits mantissa exponent).exponent
  have hclose := Decimal.significant_close digits (fraction mantissa exponent).1 hden
  rw [fraction_ratio] at hclose
  have hunit : (10 : ℚ) ^ (rounded digits mantissa exponent).exponent ≤ (rounded digits mantissa exponent).exact :=
    le_mul_of_one_le_left hgrid.le (by exact_mod_cast hcoefficient)
  exact ⟨hgrid.trans_le hunit, hclose.trans (div_le_div_of_nonneg_right hunit (by norm_num))⟩

/-- The double that a rounded number is read as is not zero: zero is as far from the number as the number is large. -/
theorem mantissa_pos_of_nearest {digits : Nat} (hdigits : 0 < digits) (hc : Canonical mantissa exponent) (hm : 0 < mantissa)
    {mantissa' : Nat} {exponent' : Int} (h : Double.Nearest mantissa' exponent' (rounded digits mantissa exponent).exact) :
    0 < mantissa' := by
  obtain ⟨hpos, hhalf⟩ := rounded_half hdigits hm exponent
  have hle := (h.le hc).trans hhalf
  by_contra hzero
  obtain rfl : mantissa' = 0 := by omega
  rw [Nat.cast_zero, zero_mul, zero_sub, abs_neg, abs_of_pos hpos] at hle
  linarith

/-- With seven digits the largest double is `1.797693 * 10 ^ 308`, and the digits left out are below a half. -/
theorem largest_digits : (1797693 : ℚ) * 10 ^ (302 : Int) ≤ largest ∧ largest < (1797693 + 1 / 2) * 10 ^ (302 : Int) := by
  have hbelow : 1797693 * 10 ^ 302 + 2 ^ 971 ≤ 2 ^ 53 * 2 ^ 971 := by decide +kernel
  have habove : 2 * (2 ^ 53 * 2 ^ 971) < 2 * 2 ^ 971 + 3595387 * 10 ^ 302 := by decide +kernel
  have hbelow' := Nat.cast_le (α := ℚ).mpr hbelow
  have habove' := Nat.cast_lt (α := ℚ).mpr habove
  simp only [Nat.cast_add, Nat.cast_mul, Nat.cast_pow, Nat.cast_ofNat] at hbelow' habove'
  rw [largest, zpow_ofNat, zpow_ofNat]
  generalize (2 : ℚ) ^ 971 = power at *
  generalize (10 : ℚ) ^ 302 = power' at *
  constructor <;> linarith

theorem ten_zpow_le_largest : (10 : ℚ) ^ (308 : Int) ≤ largest := by
  calc (10 : ℚ) ^ (308 : Int) = 10 ^ (6 : Int) * 10 ^ (302 : Int) := Decimal.ten_zpow_add 6 302
    _ ≤ 1797693 * 10 ^ (302 : Int) := mul_le_mul_of_nonneg_right (by norm_num) (Decimal.ten_zpow_pos _).le
    _ ≤ largest := largest_digits.1

theorem largest_lt_ten_zpow : largest < 10 ^ (309 : Int) := by
  calc largest < (1797693 + 1 / 2) * 10 ^ (302 : Int) := largest_digits.2
    _ ≤ 10 ^ (7 : Int) * 10 ^ (302 : Int) := mul_le_mul_of_nonneg_right (by norm_num) (Decimal.ten_zpow_pos _).le
    _ = 10 ^ (309 : Int) := (Decimal.ten_zpow_add 7 302).symm

theorem seven_digits_le_largest {x : ℚ} {k : Nat} {lead : Int} (hlow : 10 ^ lead ≤ x) (hlarge : x ≤ largest)
    (hbound : k ≤ 10 ^ 7) (hnear : |x / 10 ^ (lead - 6) - k| ≤ 1 / 2) : (k : ℚ) * 10 ^ (lead - 6) ≤ largest := by
  have hlead : lead < 308 + 1 := Decimal.lt_of_ten_zpow_lt ((hlow.trans hlarge).trans_lt largest_lt_ten_zpow)
  rcases Int.lt_or_eq_of_le (Int.lt_add_one_iff.mp hlead) with hless | rfl
  · have hcoefficient : (k : ℚ) ≤ 10 ^ (7 : Int) := by exact_mod_cast hbound
    calc (k : ℚ) * 10 ^ (lead - 6) ≤ 10 ^ (7 : Int) * 10 ^ (lead - 6) :=
          mul_le_mul_of_nonneg_right hcoefficient (Decimal.ten_zpow_pos _).le
      _ = 10 ^ (7 + (lead - 6)) := (Decimal.ten_zpow_add _ _).symm
      _ ≤ 10 ^ (308 : Int) := Decimal.ten_zpow_le (by omega)
      _ ≤ largest := ten_zpow_le_largest
  · obtain ⟨hrounded, hlargest⟩ := largest_digits
    have hexponent : (308 : Int) - 6 = 302 := rfl
    rw [hexponent] at hnear ⊢
    have hquotient : x / 10 ^ (302 : Int) < 1797693 + 1 / 2 :=
      (div_lt_iff₀ (Decimal.ten_zpow_pos _)).mpr (hlarge.trans_lt hlargest)
    have hless : (k : ℚ) < 1797693 + 1 := by linarith [(abs_le.mp hnear).1]
    have hless' : k < 1797693 + 1 := by exact_mod_cast hless
    have hle : (k : ℚ) ≤ 1797693 := by exact_mod_cast Nat.lt_succ_iff.mp hless'
    exact (mul_le_mul_of_nonneg_right hle (Decimal.ten_zpow_pos _).le).trans hrounded

theorem rounded_le_largest (hc : Canonical mantissa exponent) (hm : 0 < mantissa) :
    (rounded (scientificPlaces + 1) mantissa exponent).exact ≤ largest := by
  obtain ⟨hnum, hden⟩ := fraction_pos hm exponent
  obtain ⟨hlow, -⟩ := Decimal.leadingExponent_spec hnum hden
  obtain ⟨-, hbound⟩ := Decimal.significant_coefficient_bounds (Nat.succ_pos scientificPlaces) hnum hden
  have hnear := Decimal.significant_coefficient_near (scientificPlaces + 1) (fraction mantissa exponent).1 hden
  have hexponent : Decimal.leadingExponent (fraction mantissa exponent).1 (fraction mantissa exponent).2 -
      (scientificPlaces + 1 : Nat) + 1 =
      Decimal.leadingExponent (fraction mantissa exponent).1 (fraction mantissa exponent).2 - 6 := by
    rw [show scientificPlaces = 6 from rfl]
    omega
  rw [fraction_ratio] at hlow hnear
  rw [hexponent] at hnear
  have hle := seven_digits_le_largest hlow hc.le_largest hbound hnear
  rw [← hexponent] at hle
  exact hle

/-! ## Texts of numbers -/

/-- The text is a sign, a numeral and perhaps an exponent, and stands for a number of the size. -/
structure Shows (negative : Bool) (text : List Char) (size : ℚ) : Prop where
  parts : ∃ (n : Numeral) (back : List Char) (e : Int), text = signedText negative (n.text ++ back) ∧ NoNumeral back ∧
    Literal.Plain back ∧ Literal.exponent? back = some e ∧ n.exact * 10 ^ e = size

namespace Shows

variable {negative : Bool} {text : List Char} {size : ℚ}

/-- In the reading of such a text the coefficient and the exponent make up the size. -/
theorem real? (h : Shows negative text size) :
    ∃ scaled : Literal.Scaled, Literal.real? text = some (.finite negative scaled) ∧
      scaled.coefficient * 10 ^ scaled.exponent = size := by
  obtain ⟨n, back, e, rfl, hstop, -, hback, hexact⟩ := h.parts
  refine ⟨_, by rw [Literal.real?_numeral negative n hstop, hback]; rfl, ?_⟩
  rw [← hexact, Numeral.exact, Decimal.ten_zpow_add, mul_assoc]

/-- Within the range of the doubles such a text is read as a double that is nearest to its number. -/
theorem float? (h : Shows negative text size) (hrange : size ≤ largest) :
    ∃ mantissa exponent, Double.Nearest mantissa exponent size ∧
      Literal.float? text = some (ofMagnitude negative (magnitudeBits mantissa exponent)) := by
  obtain ⟨n, back, e, rfl, hstop, hplain, hback, hexact⟩ := h.parts
  rw [← hexact, Numeral.exact, mul_assoc, ← Decimal.ten_zpow_add] at hrange ⊢
  obtain ⟨mantissa, exponent, hnearest, hvalue⟩ := Double.ofDecimal_nearest negative hrange
  exact ⟨mantissa, exponent, hnearest, by rw [Literal.float?_numeral negative n hstop hplain hback, hvalue]⟩

end Shows

theorem filter_exponentMark (width : Nat) (e : Int) :
    (Decimal.exponentMark width e).filter (· != ',') = Decimal.exponentMark width e := by
  refine List.filter_eq_self.mpr fun c hc => ?_
  rw [bne_iff_ne]
  rintro rfl
  obtain ⟨back, hmark, hback⟩ := exponentMark_chars width e
  rw [hmark] at hc
  rcases List.mem_cons.mp hc with h | h
  · exact absurd h (by decide)
  · rcases hback _ h with h | h | h <;> exact absurd h (by decide)

/-! ## Texts of shown numbers -/

/--
The significant digits of a shown number: the precision, held between 1 and 17, and seven if the number is large or small
enough for an exponent.
-/
def shownDigits (s : Settings) (x : Float) : Nat :=
  if x.abs < 1e15 ∧ (1e-10 ≤ x.abs ∨ x == 0) then (min (max s.precision 1) 17).toNat else 7

theorem shownDigits_eq (s : Settings) {x : Float} (hx : x.isFinite = true) :
    shownDigits s x = if usesExponent x then scientificPlaces + 1 else s.significantDigits := by
  have hupper : (1e15 : Float) = scientificUpper := rfl
  have hlower : (1e-10 : Float) = scientificLower := rfl
  have habs := Double.abs_isFinite hx
  have hthresholds : (x.abs < 1e15 ∧ (1e-10 ≤ x.abs ∨ (x == 0) = true)) ↔ ¬ usesExponent x = true := by
    rw [hupper, hlower, usesExponent_iff hx, Double.lt_iff habs scientificUpper_exact.1, scientificUpper_exact.2,
      Double.le_iff scientificLower_isFinite habs, Double.exact_abs hx, Double.beq_zero_iff hx, not_or, not_le,
      not_and_or, not_lt, ne_eq, not_not]
  by_cases hexponent : usesExponent x = true
  · rw [shownDigits, if_neg (by rw [hthresholds]; exact not_not.mpr hexponent), if_pos hexponent]
    rfl
  · rw [shownDigits, if_pos (hthresholds.mpr hexponent), if_neg hexponent]
    rfl

theorem shownDigits_pos (s : Settings) {x : Float} (hx : x.isFinite = true) : 0 < shownDigits s x := by
  rw [shownDigits_eq s hx]
  split
  · exact Nat.succ_pos _
  · exact significantDigits_pos s

theorem shownDigits_le (s : Settings) {x : Float} (hx : x.isFinite = true) : shownDigits s x ≤ 17 := by
  rw [shownDigits_eq s hx]
  split
  · decide
  · exact significantDigits_le s

section
variable {x : Float} {negative : Bool}

/-- Without its commas the text of a double other than zero stands for the double rounded to the digits shown. -/
theorem formatChars_shows (s : Settings) (hx : x.isFinite = true) (hm : 0 < mantissa)
    (hcontent : content x = .finite negative mantissa exponent) :
    Shows negative ((formatChars s x).filter (· != ',')) (rounded (shownDigits s x) mantissa exponent).exact := by
  rw [formatChars_of_pos s hm hcontent, shownDigits_eq s hx]
  obtain ⟨hnum, hden⟩ := fraction_pos hm exponent
  split
  · obtain ⟨hlow, hhigh⟩ := Decimal.significant_coefficient_bounds (Nat.succ_pos scientificPlaces) hnum hden
    have hscientific : scientific negative mantissa exponent =
        signedText negative ((rounded (scientificPlaces + 1) mantissa exponent).scientific scientificPlaces) := rfl
    have hlow' : 10 ^ scientificPlaces ≤ (rounded (scientificPlaces + 1) mantissa exponent).coefficient := hlow
    obtain ⟨n, htext, hexact⟩ := Decimal.scientific_exact hlow' hhigh
    refine ⟨n, Decimal.exponentMark 1 _, _, ?_, Expression.noNumeral_cons rfl _, Literal.plain_exponentMark _ _,
      Literal.exponent?_exponentMark _ _, hexact⟩
    rw [hscientific, htext, filter_signedText, List.filter_append, filter_numeral n.all_numeral, filter_exponentMark]
  · obtain ⟨n, hexact, htext⟩ := fixed_numeral s negative hm exponent
    refine ⟨n, [], 0, ?_, Expression.noNumeral_nil, by simp [Literal.Plain], rfl, by rw [zpow_zero, mul_one, hexact]⟩
    rw [htext, List.append_nil]

theorem shown_le_largest (s : Settings) (hx : x.isFinite = true) (hc : Canonical mantissa exponent) (hm : 0 < mantissa)
    (hcontent : content x = .finite negative mantissa exponent) :
    (rounded (shownDigits s x) mantissa exponent).exact ≤ largest := by
  rw [shownDigits_eq s hx]
  split
  · exact rounded_le_largest hc hm
  · next hfixed =>
    have hsize := abs_lt_of_fixed hx (by simpa using hfixed)
    rw [Double.exact_of_content hcontent, Double.abs_signedExact] at hsize
    have hhalf := (abs_le.mp (rounded_half (significantDigits_pos s) hm exponent).2).1
    have hsmall : (rounded s.significantDigits mantissa exponent).exact ≤ 2 * 10 ^ 15 := by linarith
    have hpower : (2 : ℚ) * 10 ^ 15 ≤ 2 ^ (51 : Int) := by norm_num
    exact hsmall.trans (hpower.trans ((Double.two_zpow_le (by decide)).trans Double.two_zpow_le_largest))

/-- The text of a double other than zero is read as a finite double other than zero. -/
theorem float?_formatChars (s : Settings) (hx : x.isFinite = true) (hc : Canonical mantissa exponent) (hm : 0 < mantissa)
    (hcontent : content x = .finite negative mantissa exponent) :
    ∃ y : Float, Literal.float? ((formatChars s x).filter (· != ',')) = some y ∧ y.isFinite = true ∧ exact y ≠ 0 := by
  obtain ⟨mantissa', exponent', hnearest, hread⟩ :=
    (formatChars_shows s hx hm hcontent).float? (shown_le_largest s hx hc hm hcontent)
  have hm' := mantissa_pos_of_nearest (shownDigits_pos s hx) hc hm hnearest
  refine ⟨_, hread, Double.isFinite_ofMagnitude negative hnearest.canonical, fun hzero => ?_⟩
  rw [Double.exact_ofMagnitude negative hnearest.canonical, Double.signedExact_eq_zero] at hzero
  exact hm'.ne' hzero

end

/-! ## Texts of no number -/

/-- The texts of doubles that are not finite. -/
def specialTexts : List String :=
  [errorText, infinityText, negativeInfinityText]

/-- The number on a display without its commas, if it is one. -/
def number? (text : String) : Option Float :=
  Literal.float? (text.toList.filter (· != ','))

theorem number?_format (s : Settings) (x : Float) :
    number? (format s x) = Literal.float? ((formatChars s x).filter (· != ',')) := by
  rw [number?, format, String.toList_ofList]

theorem number?_special {text : String} (h : text ∈ specialTexts) : number? text = none := by
  simp only [specialTexts, List.mem_cons, List.not_mem_nil, or_false] at h
  rcases h with rfl | rfl | rfl <;> decide +kernel

theorem format_special (s : Settings) {x : Float} (h : x.isFinite = false) : format s x ∈ specialTexts := by
  rcases Double.special_of_not_isFinite h with rfl | ⟨negative, rfl⟩
  · exact List.mem_cons_self
  · cases negative
    · exact List.mem_cons_of_mem _ List.mem_cons_self
    · exact List.mem_cons_of_mem _ (List.mem_cons_of_mem _ List.mem_cons_self)

theorem format_of_exact_zero (s : Settings) {x : Float} (hx : x.isFinite = true) (hzero : exact x = 0) :
    format s x = "0" := by
  obtain ⟨negative, mantissa, exponent, hcontent, -, -⟩ := Double.content_of_isFinite hx
  rw [Double.exact_of_content hcontent] at hzero
  obtain rfl : mantissa = 0 := Double.signedExact_eq_zero.mp hzero
  rw [format, formatChars, hcontent]
  rfl

/-- The text of a finite double is read as a finite double, and only the text of zero as zero. -/
theorem number?_finite (s : Settings) {x : Float} (hx : x.isFinite = true) :
    ∃ y : Float, number? (format s x) = some y ∧ y.isFinite = true ∧ (exact x = 0 ∧ y = 0 ∨ exact x ≠ 0 ∧ exact y ≠ 0) := by
  obtain ⟨negative, mantissa, exponent, hcontent, hc, -⟩ := Double.content_of_isFinite hx
  have hexact := Double.exact_of_content hcontent
  rw [number?_format, hexact, ne_eq, Double.signedExact_eq_zero]
  by_cases hm : 0 < mantissa
  · obtain ⟨y, hread, hfinite, hy⟩ := float?_formatChars s hx hc hm hcontent
    exact ⟨y, hread, hfinite, Or.inr ⟨hm.ne', hy⟩⟩
  · have hzero : mantissa = 0 := by omega
    refine ⟨0, ?_, rfl, Or.inl ⟨hzero, rfl⟩⟩
    rw [← number?_format, format_of_exact_zero s hx (by rw [hexact, hzero, Double.signedExact_zero])]
    decide +kernel

theorem format_zero (s : Settings) : format s 0 = "0" :=
  format_of_exact_zero s rfl Double.exact_zero

/-- A display shows one of the texts of no number exactly when the double is not finite. -/
theorem format_mem_special_iff (s : Settings) (x : Float) : format s x ∈ specialTexts ↔ x.isFinite = false := by
  refine ⟨fun h => ?_, format_special s⟩
  by_contra hx
  obtain ⟨y, hread, -⟩ := number?_finite s (Bool.not_eq_false _ ▸ hx)
  rw [number?_special h] at hread
  contradiction

end Reckoner.Display
