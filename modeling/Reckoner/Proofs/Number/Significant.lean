import Reckoner.Proofs.Number.Decimal

/-!
# Correct rounding to significant digits

To round a number correctly is to take the multiple of a unit that is nearest to it, at a tie the one farther from zero.
There is one such multiple. A fraction rounded to significant digits is that multiple of the unit of its last digit.
-/

namespace Reckoner

set_option autoImplicit false

/-- A multiple of the unit, no other multiple nearer to the number, and none of those as near farther from zero. -/
structure NearestMultiple (unit x d : ℚ) : Prop where
  multiple : ∃ k : Int, d = k * unit
  nearest : ∀ k : Int, |d - x| ≤ |k * unit - x|
  away : ∀ k : Int, |k * unit - x| = |d - x| → |k * unit| ≤ |d|

namespace NearestMultiple

variable {unit x d d' : ℚ}

theorem unique (h : NearestMultiple unit x d) (h' : NearestMultiple unit x d') : d = d' := by
  obtain ⟨k, hk⟩ := h.multiple
  obtain ⟨k', hk'⟩ := h'.multiple
  have hdistance : |d' - x| = |d - x| := le_antisymm (hk ▸ h'.nearest k) (hk' ▸ h.nearest k')
  have hsize : |d| = |d'| := le_antisymm (hk ▸ h'.away k (hk ▸ hdistance.symm)) (hk' ▸ h.away k' (hk' ▸ hdistance))
  rcases abs_eq_abs.mp hsize with hsame | hopposite
  · exact hsame
  · have hsquares := (sq_eq_sq_iff_abs_eq_abs _ _).mpr hdistance
    have hzero : d' * x = 0 := by
      rw [hopposite] at hsquares
      linarith
    rcases mul_eq_zero.mp hzero with hd' | hx
    · rw [hopposite, hd', neg_zero]
    · have hleast := h'.nearest 0
      rw [hx, Int.cast_zero, zero_mul, sub_zero, sub_zero, abs_zero, abs_nonpos_iff] at hleast
      rw [hopposite, hleast, neg_zero]

theorem neg (h : NearestMultiple unit x d) : NearestMultiple unit (-x) (-d) := by
  have hreflect : ∀ y : ℚ, |y - -x| = |-y - x| := fun y => by
    rw [← abs_neg]
    congr 1
    ring
  have hcast : ∀ k : Int, -(k * unit) = ((-k : Int) : ℚ) * unit := fun k => by rw [Int.cast_neg, neg_mul]
  obtain ⟨k, hk⟩ := h.multiple
  refine ⟨⟨-k, by rw [hk, hcast]⟩, fun k' => ?_, fun k' htie => ?_⟩
  · rw [hreflect, hreflect, neg_neg, hcast]
    exact h.nearest _
  · rw [hreflect, hreflect, neg_neg, hcast] at htie
    rw [abs_neg, ← abs_neg (k' * unit), hcast]
    exact h.away _ htie

theorem close (hunit : 0 < unit) (h : NearestMultiple unit x d) : |d - x| ≤ unit / 2 := by
  have hround := abs_sub_round (x / unit)
  rw [abs_sub_comm] at hround
  calc |d - x| ≤ |round (x / unit) * unit - x| := h.nearest _
    _ = |round (x / unit) - x / unit| * unit := Double.abs_mul_sub hunit _ _
    _ ≤ 1 / 2 * unit := mul_le_mul_of_nonneg_right hround hunit.le
    _ = unit / 2 := by ring

/-- Of a positive number: from half a unit below the multiple on to less than half a unit above it. -/
theorem of_half {k : Nat} (hunit : 0 < unit) (hx : 0 ≤ x) (hlow : (k - 1 / 2) * unit ≤ x)
    (hhigh : x < (k + 1 / 2) * unit) : NearestMultiple unit x (k * unit) := by
  have hquotient : 0 ≤ x / unit := div_nonneg hx hunit.le
  rw [← le_div_iff₀ hunit] at hlow
  rw [← div_lt_iff₀ hunit] at hhigh
  have hhalf : |x / unit - k| ≤ 1 / 2 := abs_le.mpr ⟨by linarith, by linarith⟩
  refine ⟨⟨k, by rw [Int.cast_natCast]⟩, fun j => ?_, fun j htie => ?_⟩
  · rw [Double.abs_mul_sub hunit, Double.abs_mul_sub hunit]
    exact mul_le_mul_of_nonneg_right (Double.nearest_intCast_le (k := k) hhalf j) hunit.le
  · rw [Double.abs_mul_sub hunit, Double.abs_mul_sub hunit, mul_left_inj' hunit.ne'] at htie
    rw [abs_mul, abs_mul]
    refine mul_le_mul_of_nonneg_right ?_ (abs_nonneg unit)
    rw [Nat.abs_cast]
    rcases abs_eq_abs.mp htie with hsame | hopposite
    · rw [show (j : ℚ) = k by linarith, Nat.abs_cast]
    · have hlt : (j : ℚ) < k + 1 := by linarith
      have hle : (j : ℚ) ≤ k := by exact_mod_cast Int.lt_add_one_iff.mp (by exact_mod_cast hlt)
      exact abs_le.mpr ⟨by linarith, hle⟩

theorem self (hunit : 0 < unit) (k : Nat) : NearestMultiple unit (k * unit) (k * unit) :=
  of_half hunit (mul_nonneg (Nat.cast_nonneg _) hunit.le) (by linarith) (by linarith)

end NearestMultiple

namespace Decimal

/-- A fraction rounded to significant digits is rounded correctly. -/
theorem significant_nearestMultiple (count num : Nat) {den : Nat} (hden : 0 < den) :
    NearestMultiple (10 ^ (leadingExponent num den - count + 1)) (num / den) (significant count num den).exact := by
  obtain ⟨hlow, hhigh⟩ := significant_coefficient_half count num hden
  exact NearestMultiple.of_half (ten_zpow_pos _) (div_nonneg (Nat.cast_nonneg _) (Nat.cast_nonneg _)) hlow hhigh

end Decimal

end Reckoner
