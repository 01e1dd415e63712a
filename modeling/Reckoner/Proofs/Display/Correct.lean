import Reckoner.Proofs.Display.Shown

/-!
# Displayed numbers are rounded correctly

Read as an exact number, the text of a finite double is the double rounded to the digits shown: the nearest multiple of the
unit of the last of them, and of two nearest ones the one farther from zero. It has the sign of the double, and only zero is
shown as zero.
-/

namespace Reckoner

open Double (content exact signedExact)

set_option autoImplicit false

/-! ## Exact readings -/

/-- The exact number of a reading; infinities and not-a-number have none. -/
def Literal.Real.exact? : Literal.Real → Option ℚ
  | .finite negative scaled =>
    let size : ℚ := scaled.coefficient * 10 ^ scaled.exponent
    some (if negative then -size else size)
  | _ => none

namespace Display

/-- The exact number that a shown text stands for: the commas are left out, and an exponent is a power of ten. -/
def shownExact? (text : String) : Option ℚ :=
  (Literal.real? (text.toList.filter (· != ','))).bind Literal.Real.exact?

theorem shownExact?_format {s : Settings} {x : Float} {negative : Bool} {size : ℚ}
    (h : Shows negative ((formatChars s x).filter (· != ',')) size) :
    shownExact? (format s x) = some (if negative then -size else size) := by
  obtain ⟨scaled, hreal, rfl⟩ := h.real?
  rw [shownExact?, format, String.toList_ofList, hreal]
  rfl

/-! ## Rounded texts -/

theorem log_bounds {x : ℚ} (hx : x ≠ 0) : (10 : ℚ) ^ Int.log 10 |x| ≤ |x| ∧ |x| < 10 ^ (Int.log 10 |x| + 1) :=
  ⟨by exact_mod_cast Int.zpow_log_le_self (b := 10) (by norm_num) (abs_pos.mpr hx),
    by exact_mod_cast Int.lt_zpow_succ_log_self (b := 10) (by norm_num) |x|⟩

theorem lastUnit_neg (digits : Nat) (x : ℚ) : lastUnit digits (-x) = lastUnit digits x := by
  rw [lastUnit, abs_neg, lastUnit]

/-- Read exactly, the text of a double other than zero is the double rounded to the digits shown, and has its sign. -/
theorem shownExact?_correct (s : Settings) {x : Float} (hx : x.isFinite = true) (hne : exact x ≠ 0) :
    ∃ d : ℚ, shownExact? (format s x) = some d ∧ NearestMultiple (lastUnit (shownDigits s x) (exact x)) (exact x) d ∧
      (0 < d ↔ 0 < exact x) ∧ d ≠ 0 := by
  obtain ⟨negative, mantissa, exponent, hcontent, -, -⟩ := Double.content_of_isFinite hx
  have hexact := Double.exact_of_content hcontent
  have hm : 0 < mantissa := by
    rw [hexact, ne_eq, Double.signedExact_eq_zero] at hne
    exact Nat.pos_of_ne_zero hne
  have hvalue : (0 : ℚ) < mantissa * 2 ^ exponent := Double.signedExact_pos hm exponent
  have hcorrect := rounded_correct (shownDigits s x) hm exponent
  have hpos := (rounded_half (shownDigits_pos s hx) hm exponent).1
  refine ⟨_, shownExact?_format (formatChars_shows s hx hm hcontent), ?_⟩
  rw [hexact]
  generalize (rounded (shownDigits s x) mantissa exponent).exact = size at *
  cases negative with
  | false => exact ⟨hcorrect, ⟨fun _ => hvalue, fun _ => hpos⟩, hpos.ne'⟩
  | true =>
    simp only [if_true, signedExact, lastUnit_neg, neg_pos]
    exact ⟨hcorrect.neg, ⟨fun h => absurd h hpos.not_gt, fun h => absurd h hvalue.not_gt⟩, neg_ne_zero.mpr hpos.ne'⟩

/--
A zero of either sign is shown as `0`. The text of any other finite double, read exactly, is the nearest multiple of the unit
of the last digit shown, at a tie the one farther from zero. It is at most half a unit away, has the sign of the double and
is not zero.
-/
theorem format_correct (s : Settings) {x : Float} (hx : x.isFinite = true) :
    (exact x = 0 → format s x = "0") ∧
      (exact x ≠ 0 → ∃ (e : Int) (d : ℚ), 10 ^ e ≤ |exact x| ∧ |exact x| < 10 ^ (e + 1) ∧
        shownExact? (format s x) = some d ∧ NearestMultiple (10 ^ (e - shownDigits s x + 1)) (exact x) d ∧
        |d - exact x| ≤ 1 / 2 * 10 ^ (e - shownDigits s x + 1) ∧ (0 < d ↔ 0 < exact x) ∧ d ≠ 0) := by
  refine ⟨format_of_exact_zero s hx, fun hne => ?_⟩
  obtain ⟨hlow, hhigh⟩ := log_bounds hne
  obtain ⟨d, hread, hcorrect, hsign, hzero⟩ := shownExact?_correct s hx hne
  have hclose := hcorrect.close (lastUnit_pos _ _)
  rw [div_eq_inv_mul, ← one_div] at hclose
  exact ⟨Int.log 10 |exact x|, d, hlow, hhigh, hread, hcorrect, hclose, hsign, hzero⟩

/-- With one digit `-2.5` lies halfway between `-2` and `-3` and is shown as `-3`. -/
theorem format_correct_tie :
    (-2.5 : Float).isFinite = true ∧ exact (-2.5) ≠ 0 ∧ format { precision := 1 } (-2.5) = "-3" ∧
      ∃ (e : Int) (d : ℚ), 10 ^ e ≤ |exact (-2.5)| ∧ |exact (-2.5)| < 10 ^ (e + 1) ∧ shownExact? "-3" = some d ∧
        NearestMultiple (10 ^ (e - shownDigits { precision := 1 } (-2.5) + 1)) (exact (-2.5)) d ∧ d ≠ 0 := by
  have hcontent : content (-2.5) = .finite true 5629499534213120 (-51) := rfl
  have hne : exact (-2.5) ≠ 0 := by
    rw [Double.exact_of_content hcontent, ne_eq, Double.signedExact_eq_zero]
    decide
  have htext : format { precision := 1 } (-2.5) = "-3" := by decide +kernel
  obtain ⟨e, d, hlow, hhigh, hread, hcorrect, -, -, hzero⟩ := (format_correct { precision := 1 } (x := -2.5) rfl).2 hne
  exact ⟨rfl, hne, htext, e, d, hlow, hhigh, htext ▸ hread, hcorrect, hzero⟩

end Display

end Reckoner
