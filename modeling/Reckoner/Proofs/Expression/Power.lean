import Mathlib.Analysis.SpecialFunctions.Pow.Real
import Reckoner.Expression.Power
import Reckoner.Proofs.Number.Integral

/-!
# Powers without gaps

A power function may fail where two finite doubles have no finite power: beyond the largest double, at the pole of a zero and
for a fractional exponent of a negative base. Whatever else it computes, the completed function has the infinities with the
right signs in these places, so that the parity of the exponent decides what a base and its opposite have in common.
-/

namespace Reckoner.Expression

open Double (exact infinity isNegative)

set_option autoImplicit false

/-! ## Parity -/

def IsInteger (x : Float) : Prop :=
  x.isFinite = true ∧ ∃ n : ℤ, exact x = n

def IsOdd (x : Float) : Prop :=
  x.isFinite = true ∧ ∃ n : ℤ, Odd n ∧ exact x = n

def IsEven (x : Float) : Prop :=
  x.isFinite = true ∧ ∃ n : ℤ, Even n ∧ exact x = n

section
variable {x base exponent : Float}

theorem IsOdd.isInteger (h : IsOdd x) : IsInteger x :=
  h.imp_right fun ⟨n, _, hn⟩ => ⟨n, hn⟩

theorem IsEven.isInteger (h : IsEven x) : IsInteger x :=
  h.imp_right fun ⟨n, _, hn⟩ => ⟨n, hn⟩

theorem IsEven.not_isOdd (h : IsEven x) : ¬ IsOdd x := by
  obtain ⟨-, n, heven, hn⟩ := h
  rintro ⟨-, m, hodd, hm⟩
  obtain rfl : n = m := by exact_mod_cast hn.symm.trans hm
  exact Int.not_odd_iff_even.mpr heven hodd

/-! ## Gaps -/

/-- The exact power of two finite doubles exists and is so large that it rounds to an infinity. -/
structure Overflows (base exponent : Float) : Prop where
  finite_base : base.isFinite = true
  finite_exponent : exponent.isFinite = true
  exists_power : 0 ≤ exact base ∨ IsInteger exponent
  large : (Double.overflow : ℝ) ≤ |(exact base : ℝ)| ^ (exact exponent : ℝ)

structure Pole (base exponent : Float) : Prop where
  finite_base : base.isFinite = true
  finite_exponent : exponent.isFinite = true
  base_zero : exact base = 0
  exponent_neg : exact exponent < 0

structure Fractional (base exponent : Float) : Prop where
  finite_base : base.isFinite = true
  finite_exponent : exponent.isFinite = true
  base_neg : exact base < 0
  not_integer : ¬ IsInteger exponent

/-- The power function fails in the gaps and nowhere else. -/
structure FailsInGaps (pow? : Float → Float → Except PowerGap Float) : Prop where
  overflow : ∀ base exponent, pow? base exponent = .error .overflow ↔ Overflows base exponent
  undefined : ∀ base exponent, pow? base exponent = .error .undefined ↔ Pole base exponent ∨ Fractional base exponent

theorem Pole.eq_zero (h : Pole base exponent) : base = Double.zero (isNegative base) := by
  have hrounds := Double.rounds_exact h.finite_base
  rw [h.base_zero] at hrounds
  obtain ⟨negative, rfl⟩ := hrounds.eq_zero
  cases negative <;> rfl

theorem Pole.neg (h : Pole base exponent) : Pole (-base) exponent where
  finite_base := Double.neg_isFinite h.finite_base
  finite_exponent := h.finite_exponent
  base_zero := by rw [Double.exact_neg h.finite_base, h.base_zero, neg_zero]
  exponent_neg := h.exponent_neg

theorem Pole.isNegative_neg (h : Pole base exponent) : isNegative (-base) = !isNegative base := by
  rw [h.eq_zero]
  cases isNegative base <;> rfl

theorem Overflows.exact_ne_zero (h : Overflows base exponent) : exact base ≠ 0 := by
  intro hzero
  have hlarge := h.large
  have hpower : |(exact base : ℝ)| ^ (exact exponent : ℝ) ≤ 1 := by
    rw [hzero, Rat.cast_zero, abs_zero]
    exact Real.zero_rpow_le_one _
  have hone : (1 : ℝ) < Double.overflow := by
    have hone : (1 : ℚ) < Double.overflow :=
      (one_le_zpow₀ (by norm_num) (by norm_num)).trans_lt
        (Double.two_zpow_le_largest.trans_lt Double.largest_lt_overflow)
    exact_mod_cast hone
  linarith

theorem Overflows.not_undefined (h : Overflows base exponent) : ¬ (Pole base exponent ∨ Fractional base exponent) := by
  rintro (hpole | hfractional)
  · exact h.exact_ne_zero hpole.base_zero
  · exact h.exists_power.elim hfractional.base_neg.not_ge hfractional.not_integer

theorem Overflows.neg (h : Overflows base exponent) (hinteger : IsInteger exponent) : Overflows (-base) exponent where
  finite_base := Double.neg_isFinite h.finite_base
  finite_exponent := h.finite_exponent
  exists_power := Or.inr hinteger
  large := by
    rw [Double.exact_neg h.finite_base, Rat.cast_neg, abs_neg]
    exact h.large

structure FillsGaps (power : Float → Float → Float) (base exponent : Float) : Prop where
  negative_overflow : Overflows base exponent → exact base < 0 → (power base exponent = infinity true ↔ IsOdd exponent) ∧
    (¬ IsOdd exponent → power base exponent = infinity false)
  positive_overflow : Overflows base exponent → 0 < exact base → power base exponent = infinity false
  odd_pole : Pole base exponent → IsOdd exponent → power base exponent = infinity (isNegative base)
  other_pole : Pole base exponent → ¬ IsOdd exponent → power base exponent = infinity false
  fractional : Fractional base exponent → power base exponent = Double.nan
  opposite_odd : Overflows base exponent ∨ Pole base exponent → IsOdd exponent →
    power (-base) exponent = -power base exponent
  opposite_even : Overflows base exponent ∨ Pole base exponent → IsEven exponent →
    power (-base) exponent = power base exponent

/-! ## The completed power -/

variable {pow? : Float → Float → Except PowerGap Float} (h : FailsInGaps pow?)
include h

theorem completePower_of_overflows (hgap : Overflows base exponent) :
    completePower pow? base exponent = infinity (base < 0 && Double.isOddInteger exponent) := by
  rw [completePower, (h.overflow base exponent).mpr hgap]
  rfl

theorem completePower_of_pole (hgap : Pole base exponent) :
    completePower pow? base exponent = infinity (Double.isOddInteger exponent && isNegative base) := by
  have hpole : (base == 0 && decide (exponent < 0)) = true := by
    rw [Bool.and_eq_true, Double.beq_zero_iff hgap.finite_base, decide_eq_true_iff, Double.lt_zero_iff hgap.finite_exponent]
    exact ⟨hgap.base_zero, hgap.exponent_neg⟩
  rw [completePower, (h.undefined base exponent).mpr (Or.inl hgap)]
  exact if_pos hpole

theorem completePower_of_fractional (hgap : Fractional base exponent) : completePower pow? base exponent = Double.nan := by
  have hpole : ¬ (base == 0 && decide (exponent < 0)) = true := by
    rw [Bool.and_eq_true, Double.beq_zero_iff hgap.finite_base]
    exact fun hzero => hgap.base_neg.ne hzero.1
  rw [completePower, (h.undefined base exponent).mpr (Or.inr hgap)]
  exact if_neg hpole

theorem completePower_neg_of_odd (hgap : Overflows base exponent ∨ Pole base exponent) (hodd : IsOdd exponent) :
    completePower pow? (-base) exponent = -completePower pow? base exponent := by
  have hparity : Double.isOddInteger exponent = true := Double.isOddInteger_iff.mpr hodd
  rcases hgap with hgap | hgap
  · have hopposite : decide (-base < 0) = !decide (base < 0) := by
      rw [← decide_not, decide_eq_decide, Double.lt_zero_iff (Double.neg_isFinite hgap.finite_base),
        Double.lt_zero_iff hgap.finite_base, Double.exact_neg hgap.finite_base, neg_lt_zero, not_lt]
      exact ⟨le_of_lt, fun hle => lt_of_le_of_ne hle hgap.exact_ne_zero.symm⟩
    rw [completePower_of_overflows h (hgap.neg hodd.isInteger), completePower_of_overflows h hgap, Double.neg_infinity,
      hparity, Bool.and_true, Bool.and_true, hopposite]
  · rw [completePower_of_pole h hgap.neg, completePower_of_pole h hgap, Double.neg_infinity, hparity, Bool.true_and,
      Bool.true_and, hgap.isNegative_neg]

theorem completePower_neg_of_even (hgap : Overflows base exponent ∨ Pole base exponent) (heven : IsEven exponent) :
    completePower pow? (-base) exponent = completePower pow? base exponent := by
  have hparity : Double.isOddInteger exponent = false :=
    Bool.eq_false_iff.mpr fun hodd => heven.not_isOdd (Double.isOddInteger_iff.mp hodd)
  rcases hgap with hgap | hgap
  · rw [completePower_of_overflows h (hgap.neg heven.isInteger), completePower_of_overflows h hgap, hparity, Bool.and_false,
      Bool.and_false]
  · rw [completePower_of_pole h hgap.neg, completePower_of_pole h hgap, hparity, Bool.false_and, Bool.false_and]

theorem FailsInGaps.fillsGaps (base exponent : Float) : FillsGaps (completePower pow?) base exponent where
  negative_overflow hgap hneg := by
    rw [completePower_of_overflows h hgap, decide_eq_true ((Double.lt_zero_iff hgap.finite_base).mpr hneg), Bool.true_and,
      IsOdd, ← Double.isOddInteger_iff]
    cases Double.isOddInteger exponent <;> decide
  positive_overflow hgap hpos := by
    rw [completePower_of_overflows h hgap, decide_eq_false (mt (Double.lt_zero_iff hgap.finite_base).mp hpos.not_gt),
      Bool.false_and]
  odd_pole hgap hodd := by
    rw [completePower_of_pole h hgap, Double.isOddInteger_iff.mpr hodd, Bool.true_and]
  other_pole hgap hodd := by
    rw [completePower_of_pole h hgap, Bool.eq_false_iff.mpr (mt Double.isOddInteger_iff.mp hodd), Bool.false_and]
  fractional := completePower_of_fractional h
  opposite_odd := completePower_neg_of_odd h
  opposite_even := completePower_neg_of_even h

omit h

/-! ## Any power -/

/-- Every power is the one that the incomplete function gives, or it lies in a gap and has the value that belongs there. -/
theorem completePower_fillsGaps (h : FailsInGaps pow?) (base exponent : Float) :
    (pow? base exponent = .ok (completePower pow? base exponent) ∨
      Overflows base exponent ∨ Pole base exponent ∨ Fractional base exponent) ∧
      FillsGaps (completePower pow?) base exponent := by
  refine ⟨?_, h.fillsGaps base exponent⟩
  cases hpower : pow? base exponent with
  | ok x =>
    left
    rw [completePower, hpower]
  | error gap =>
    right
    cases gap with
    | overflow => exact Or.inl ((h.overflow base exponent).mp hpower)
    | undefined => exact Or.inr ((h.undefined base exponent).mp hpower)

open Classical in
noncomputable def gapPower (base exponent : Float) : Except PowerGap Float :=
  if Overflows base exponent then .error .overflow
  else if Pole base exponent ∨ Fractional base exponent then .error .undefined
  else .ok (base.pow exponent)

theorem gapPower_failsInGaps : FailsInGaps gapPower where
  overflow base exponent := by
    unfold gapPower
    by_cases hoverflow : Overflows base exponent
    · simp [hoverflow]
    · rw [if_neg hoverflow]
      split <;> simp [hoverflow]
  undefined base exponent := by
    unfold gapPower
    by_cases hoverflow : Overflows base exponent
    · simpa [hoverflow] using hoverflow.not_undefined
    · rw [if_neg hoverflow]
      split <;> simp_all

/-- The power of minus a hundred with exponent 155 is beyond the doubles, and so is that of a hundred. -/
theorem completePower_fillsGaps_hundred :
    FailsInGaps gapPower ∧ Overflows (-100) 155 ∧ completePower gapPower (-100) 155 = infinity true ∧
      completePower gapPower 100 155 = infinity false := by
  have hbase : exact (-100) = -100 := by decide +kernel
  have hexponent : exact 155 = 155 := by decide +kernel
  have hodd : IsOdd 155 := ⟨rfl, 155, by decide, by rw [hexponent]; rfl⟩
  have hlarge : Double.overflow ≤ 100 ^ 155 := by
    decide +kernel
  have hoverflow : Overflows (-100) 155 := by
    refine ⟨rfl, rfl, Or.inr hodd.isInteger, ?_⟩
    rw [hbase, hexponent, Rat.cast_ofNat, Real.rpow_ofNat, Rat.cast_neg, Rat.cast_ofNat, abs_neg, Nat.abs_ofNat]
    exact_mod_cast hlarge
  obtain ⟨-, hfills⟩ := completePower_fillsGaps gapPower_failsInGaps (-100) 155
  have hnegative := (hfills.negative_overflow hoverflow (by rw [hbase]; norm_num)).1.mpr hodd
  have hopposite := hfills.opposite_odd (Or.inl hoverflow) hodd
  rw [hnegative, Double.neg_twice] at hopposite
  exact ⟨gapPower_failsInGaps, hoverflow, hnegative, hopposite⟩

end

end Reckoner.Expression
