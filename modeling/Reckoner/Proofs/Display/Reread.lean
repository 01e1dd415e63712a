import Reckoner.Proofs.Display.Correct
import Reckoner.Proofs.Number.Powers

/-!
# Rounding what a display is read as

The double that a rounded number is read as is not farther from it than the double that was rounded. Rounded to as many digits
it gives the same number again. Between two powers of ten the two doubles are rounded in the same unit, and only a tie on the
far side could be lost; the step between the two doubles excludes it. Where the display shows a power of ten and the double
read lies above it, the unit grows tenfold. Where that double lies below, the unit shrinks to a tenth and the double has to
be as close as the check of the powers says.
-/

namespace Reckoner.Display

open Double (Canonical Nearest PowerFits)

set_option autoImplicit false

/-! ## Units of the last digit -/

theorem lastUnit_eq {digits : Nat} {x : ℚ} {lead : Int} (hlow : 10 ^ lead ≤ x) (hhigh : x < 10 ^ (lead + 1)) :
    lastUnit digits x = 10 ^ (lead - digits + 1) := by
  rw [lastUnit, abs_of_pos ((Decimal.ten_zpow_pos lead).trans_le hlow), Decimal.log_eq hlow hhigh]

/--
A double with its leading power of ten, its rounding to some digits as a number of units of the last one, and the double
that the rounding is read as.
-/
structure Reread (digits mantissa : Nat) (exponent lead : Int) (units mantissa' : Nat) (exponent' : Int) : Prop where
  digits_pos : 0 < digits
  canonical : Canonical mantissa exponent
  lead_le : (10 : ℚ) ^ lead ≤ mantissa * 2 ^ exponent
  lt_lead : (mantissa : ℚ) * 2 ^ exponent < 10 ^ (lead + 1)
  low : 10 ^ (digits - 1) ≤ units
  high : units ≤ 10 ^ digits
  half_below : (units - 1 / 2) * 10 ^ (lead - digits + 1) ≤ (mantissa : ℚ) * 2 ^ exponent
  half_above : (mantissa : ℚ) * 2 ^ exponent < (units + 1 / 2) * 10 ^ (lead - digits + 1)
  nearest : Nearest mantissa' exponent' (units * 10 ^ (lead - digits + 1))

namespace Reread

variable {digits mantissa : Nat} {exponent lead : Int} {units mantissa' : Nat} {exponent' : Int}

theorem lead_eq (h : Reread digits mantissa exponent lead units mantissa' exponent') :
    (10 : ℚ) ^ lead = 10 ^ (digits - 1) * 10 ^ (lead - digits + 1) := by
  rw [mul_comm, Double.unit_mul_pow h.digits_pos]

theorem distance_le (h : Reread digits mantissa exponent lead units mantissa' exponent') :
    |(mantissa' : ℚ) * 2 ^ exponent' - units * 10 ^ (lead - digits + 1)| ≤
      |(mantissa : ℚ) * 2 ^ exponent - units * 10 ^ (lead - digits + 1)| :=
  h.nearest.le h.canonical

theorem half (h : Reread digits mantissa exponent lead units mantissa' exponent') :
    |(mantissa : ℚ) * 2 ^ exponent - units * 10 ^ (lead - digits + 1)| ≤ 10 ^ (lead - digits + 1) / 2 := by
  have hlow := h.half_below
  have hhigh := h.half_above
  exact abs_le.mpr ⟨by linarith, by linarith⟩

theorem close (h : Reread digits mantissa exponent lead units mantissa' exponent') :
    |(mantissa' : ℚ) * 2 ^ exponent' - units * 10 ^ (lead - digits + 1)| ≤ 10 ^ (lead - digits + 1) / 2 :=
  h.distance_le.trans h.half

/-- A double at the far end of a tie would be one step away from the other, and the other a whole number of steps. -/
theorem not_tie (h : Reread digits mantissa exponent lead units mantissa' exponent') :
    (mantissa' : ℚ) * 2 ^ exponent' < (units + 1 / 2) * 10 ^ (lead - digits + 1) := by
  by_contra hlarge
  have hunit := Decimal.ten_zpow_pos (lead - digits + 1)
  have hclose := (abs_le.mp h.close).2
  have htie : (mantissa' : ℚ) * 2 ^ exponent' - units * 10 ^ (lead - digits + 1) = 10 ^ (lead - digits + 1) / 2 := by linarith
  have hdistance := h.distance_le
  rw [htie, abs_of_pos (by linarith)] at hdistance
  have hbelow := h.half_below
  have habove := h.half_above
  have hother : (mantissa : ℚ) * 2 ^ exponent = (units - 1 / 2) * 10 ^ (lead - digits + 1) := by
    rcases le_abs.mp hdistance with hup | hdown <;> linarith
  have hstep := h.nearest.step_of_tie h.canonical (by linarith) (by linarith)
  have hsame : (2 : ℚ) ^ exponent = 10 ^ (lead - digits + 1) := by linarith
  rw [hsame] at hother
  have hmantissa : (mantissa : ℚ) = units - 1 / 2 := mul_right_cancel₀ hunit.ne' hother
  have hparity : 2 * mantissa + 1 = 2 * units := by
    have htwice : (2 : ℚ) * mantissa + 1 = 2 * units := by linarith
    exact_mod_cast htwice
  omega

/-- Between the same powers of ten the double read is rounded in the same unit. -/
theorem within (h : Reread digits mantissa exponent lead units mantissa' exponent')
    (hlow : (10 : ℚ) ^ lead ≤ mantissa' * 2 ^ exponent') (hhigh : (mantissa' : ℚ) * 2 ^ exponent' < 10 ^ (lead + 1)) :
    NearestMultiple (lastUnit digits (mantissa' * 2 ^ exponent')) (mantissa' * 2 ^ exponent')
      (units * 10 ^ (lead - digits + 1)) := by
  have hunit := Decimal.ten_zpow_pos (lead - digits + 1)
  have hclose := (abs_le.mp h.close).1
  rw [lastUnit_eq hlow hhigh]
  exact NearestMultiple.of_half hunit ((Decimal.ten_zpow_pos lead).le.trans hlow) (by linarith) h.not_tie

/-- A double read above the next power of ten is rounded down to it, in the greater unit. -/
theorem above (h : Reread digits mantissa exponent lead units mantissa' exponent')
    (habove : (10 : ℚ) ^ (lead + 1) ≤ mantissa' * 2 ^ exponent') :
    NearestMultiple (lastUnit digits (mantissa' * 2 ^ exponent')) (mantissa' * 2 ^ exponent')
      (units * 10 ^ (lead - digits + 1)) := by
  have hunit := Decimal.ten_zpow_pos (lead - digits + 1)
  have hclose := (abs_le.mp h.close).2
  have hnext := Double.next_power digits lead
  obtain rfl : units = 10 ^ digits := by
    refine le_antisymm h.high (not_lt.mp fun hless => ?_)
    have hless' : (units : ℚ) + 1 ≤ 10 ^ digits := by exact_mod_cast hless
    have := mul_le_mul_of_nonneg_right hless' hunit.le
    linarith
  push_cast at hclose ⊢
  rw [← hnext] at hclose ⊢
  have hgrown : (10 : ℚ) ^ (lead + 1 - digits + 1) = 10 * 10 ^ (lead - digits + 1) := by
    rw [← Decimal.ten_zpow_succ, add_sub_right_comm]
  have hlead : (10 : ℚ) ^ (lead + 1) = (10 ^ (digits - 1) : Nat) * 10 ^ (lead + 1 - digits + 1) := by
    push_cast
    rw [mul_comm, Double.unit_mul_pow h.digits_pos]
  have hpower : (10 : ℚ) ^ (lead - digits + 1) ≤ 10 ^ (lead + 1) := Decimal.ten_zpow_le (by omega)
  have hhigh : (mantissa' : ℚ) * 2 ^ exponent' < 10 ^ (lead + 1 + 1) := by
    rw [Decimal.ten_zpow_succ (lead + 1)]
    linarith
  rw [lastUnit_eq habove hhigh, hlead]
  rw [hlead] at habove hclose
  have hunit' := Decimal.ten_zpow_pos (lead + 1 - digits + 1)
  exact NearestMultiple.of_half hunit' ((mul_pos (by positivity) hunit').le.trans habove) (by linarith) (by linarith)

/-- A double read below the power of ten is rounded up to it, in the smaller unit. -/
theorem below (h : Reread digits mantissa exponent lead units mantissa' exponent') (hfits : PowerFits digits lead)
    (hbelow : (mantissa' : ℚ) * 2 ^ exponent' < 10 ^ lead) :
    NearestMultiple (lastUnit digits (mantissa' * 2 ^ exponent')) (mantissa' * 2 ^ exponent')
      (units * 10 ^ (lead - digits + 1)) := by
  have hunit := Decimal.ten_zpow_pos (lead - digits + 1)
  have hclose := (abs_le.mp h.close).1
  have hlead := h.lead_eq
  obtain rfl : units = 10 ^ (digits - 1) := by
    refine le_antisymm (not_lt.mp fun hmore => ?_) h.low
    have hmore' : (10 : ℚ) ^ (digits - 1) + 1 ≤ units := by exact_mod_cast hmore
    have := mul_le_mul_of_nonneg_right hmore' hunit.le
    linarith
  have hnearest := h.nearest
  have hdistance := h.distance_le
  have hhalf := h.half_above
  push_cast at hnearest hdistance hhalf ⊢
  rw [← hlead] at hnearest hdistance ⊢
  rw [add_mul, ← hlead] at hhalf
  have hstrict : (10 : ℚ) ^ lead < mantissa * 2 ^ exponent := by
    refine lt_of_le_of_ne h.lead_le fun heq => ?_
    rw [← heq, sub_self, abs_zero, abs_nonpos_iff, sub_eq_zero] at hdistance
    exact hbelow.ne hdistance
  have hgap := hfits.close_below h.digits_pos hnearest hbelow h.canonical hstrict (by linarith)
  have hshrunk : (10 : ℚ) ^ (lead - digits + 1) = 10 * 10 ^ (lead - 1 - digits + 1) := by
    rw [← Decimal.ten_zpow_succ, sub_right_comm, sub_add_cancel]
  have hpower : (10 : ℚ) ^ lead = (10 ^ digits : Nat) * 10 ^ (lead - 1 - digits + 1) := by
    push_cast
    rw [← Double.next_power, sub_add_cancel]
  have hlow : (10 : ℚ) ^ (lead - 1) ≤ mantissa' * 2 ^ exponent' := by
    have htenth : (10 : ℚ) ^ lead = 10 * 10 ^ (lead - 1) := by rw [← Decimal.ten_zpow_succ, sub_add_cancel]
    have hle : (10 : ℚ) ^ (lead - digits + 1) ≤ 10 ^ lead :=
      Decimal.ten_zpow_le (by have := h.digits_pos; omega)
    have hpos := Decimal.ten_zpow_pos (lead - 1)
    linarith
  rw [lastUnit_eq hlow (by rwa [sub_add_cancel]), hpower]
  rw [hpower, hshrunk] at hgap
  rw [hpower] at hbelow
  have hunit' := Decimal.ten_zpow_pos (lead - 1 - digits + 1)
  exact NearestMultiple.of_half hunit' ((Decimal.ten_zpow_pos _).le.trans hlow) (by linarith) (by linarith)

/-- The double that a rounded number is read as is rounded to the same number. -/
theorem nearestMultiple (h : Reread digits mantissa exponent lead units mantissa' exponent') (hfits : PowerFits digits lead) :
    NearestMultiple (lastUnit digits (mantissa' * 2 ^ exponent')) (mantissa' * 2 ^ exponent')
      (units * 10 ^ (lead - digits + 1)) := by
  rcases lt_or_ge ((mantissa' : ℚ) * 2 ^ exponent') (10 ^ lead) with hbelow | hlow
  · exact h.below hfits hbelow
  · rcases lt_or_ge ((mantissa' : ℚ) * 2 ^ exponent') (10 ^ (lead + 1)) with hhigh | habove
    · exact h.within hlow hhigh
    · exact h.above habove

end Reread

/-! ## Rounding again -/

section
variable {digits mantissa mantissa' : Nat} {exponent exponent' : Int}

theorem rounded_exact (digits : Nat) (hm : 0 < mantissa) (exponent : Int) :
    (rounded digits mantissa exponent).exact = (rounded digits mantissa exponent).coefficient *
      10 ^ (Int.log 10 ((mantissa : ℚ) * 2 ^ exponent) - digits + 1) := by
  obtain ⟨hnum, hden⟩ := fraction_pos hm exponent
  rw [← fraction_ratio, ← Decimal.leadingExponent_eq_log hnum hden]
  rfl

theorem reread_of_nearest (hdigits : 0 < digits) (hc : Canonical mantissa exponent) (hm : 0 < mantissa)
    (h : Nearest mantissa' exponent' (rounded digits mantissa exponent).exact) :
    Reread digits mantissa exponent (Int.log 10 ((mantissa : ℚ) * 2 ^ exponent)) (rounded digits mantissa exponent).coefficient
      mantissa' exponent' := by
  obtain ⟨hnum, hden⟩ := fraction_pos hm exponent
  obtain ⟨hlow, hhigh⟩ := Decimal.leadingExponent_spec hnum hden
  obtain ⟨hcoefficient, hcoefficient'⟩ := Decimal.significant_coefficient_bounds hdigits hnum hden
  obtain ⟨hbelow, habove⟩ := Decimal.significant_coefficient_half digits (fraction mantissa exponent).1 hden
  rw [rounded_exact digits hm] at h
  rw [Decimal.leadingExponent_eq_log hnum hden, fraction_ratio] at hlow hhigh hbelow habove
  exact ⟨hdigits, hc, hlow, hhigh, hcoefficient, hcoefficient', hbelow, habove, h⟩

/-- The double that a rounded number is read as is rounded to the same number. -/
theorem rounded_again (hdigits : 0 < digits) (hc : Canonical mantissa exponent) (hm : 0 < mantissa)
    (hfits : PowerFits digits (Int.log 10 ((mantissa : ℚ) * 2 ^ exponent)))
    (h : Nearest mantissa' exponent' (rounded digits mantissa exponent).exact) :
    (rounded digits mantissa' exponent').exact = (rounded digits mantissa exponent).exact := by
  have hm' := mantissa_pos_of_nearest hdigits hc hm h
  rw [rounded_exact digits hm]
  exact (rounded_correct digits hm' exponent').unique ((reread_of_nearest hdigits hc hm h).nearestMultiple hfits)

end

end Reckoner.Display
