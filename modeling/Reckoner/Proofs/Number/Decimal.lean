import Reckoner.Number.Decimal
import Reckoner.Proofs.Number.Rounding

/-!
# Decimal numbers as exact numbers

The number of digits of a natural number brackets it between powers of ten, and the leading exponent does so for a
positive fraction. Rounded to significant digits a fraction moves by at most half a unit of the last of them.
-/

namespace Reckoner.Decimal

set_option autoImplicit false

def exact (d : Decimal) : ℚ :=
  d.coefficient * 10 ^ d.exponent

/-! ## Powers of ten -/

theorem ten_zpow_pos (e : Int) : (0 : ℚ) < 10 ^ e := zpow_pos (by norm_num) e

theorem ten_zpow_add (a b : Int) : (10 : ℚ) ^ (a + b) = 10 ^ a * 10 ^ b := zpow_add₀ (by norm_num) a b

theorem ten_zpow_succ (e : Int) : (10 : ℚ) ^ (e + 1) = 10 * 10 ^ e := by rw [ten_zpow_add, zpow_one, mul_comm]

theorem ten_zpow_le {a b : Int} (h : a ≤ b) : (10 : ℚ) ^ a ≤ 10 ^ b := zpow_le_zpow_right₀ (by norm_num) h

theorem lt_of_ten_zpow_lt {a b : Int} (h : (10 : ℚ) ^ a < 10 ^ b) : a < b := (zpow_lt_zpow_iff_right₀ (by norm_num)).mp h

theorem scaleDown_ratio (num den : Nat) (e : Int) :
    (((scaleDown num den e).1 : ℚ) / (scaleDown num den e).2) = (num : ℚ) / den / 10 ^ e := by
  rw [← Double.pow_toNat_div 10 e]
  simp only [scaleDown]
  push_cast
  rw [div_div_eq_mul_div, div_mul_eq_mul_div, div_div]

theorem scaleDown_pos (num : Nat) {den : Nat} (hden : 0 < den) (e : Int) : 0 < (scaleDown num den e).2 :=
  Nat.mul_pos hden (Nat.pow_pos (by decide))

/-! ## Numbers of digits -/

theorem digitCount_pos (n : Nat) : 0 < digitCount n := Nat.length_toDigits_pos

theorem lt_pow_digitCount (n : Nat) : n < 10 ^ digitCount n :=
  (Nat.length_toDigits_le_iff (by decide) (digitCount_pos n)).mp (Nat.le_refl _)

theorem pow_digitCount_le {n : Nat} (h : 0 < n) : 10 ^ (digitCount n - 1) ≤ n := by
  rcases Nat.eq_or_lt_of_le (digitCount_pos n) with hone | hmore
  · rw [← hone]
    exact h
  · by_contra hlt
    have hle := (Nat.length_toDigits_le_iff (by decide) (by omega)).mpr (not_le.mp hlt)
    have hcount : (Nat.toDigits 10 n).length = digitCount n := rfl
    omega

/-- The leading exponent brackets a positive fraction between powers of ten. -/
theorem leadingExponent_spec {num den : Nat} (hnum : 0 < num) (hden : 0 < den) :
    (10 : ℚ) ^ leadingExponent num den ≤ num / den ∧ (num : ℚ) / den < 10 ^ (leadingExponent num den + 1) := by
  have hden' : (0 : ℚ) < den := by exact_mod_cast hden
  unfold leadingExponent
  split
  · next hle =>
    have hquotient : 0 < num / den := Nat.div_pos hle hden
    have hcount := digitCount_pos (num / den)
    have hexponent : ((digitCount (num / den) : Int) - 1) = ((digitCount (num / den) - 1 : Nat) : Int) := by omega
    constructor
    · rw [le_div_iff₀ hden', hexponent, zpow_natCast]
      have hbound : 10 ^ (digitCount (num / den) - 1) * den ≤ num :=
        (Nat.le_div_iff_mul_le hden).mp (pow_digitCount_le hquotient)
      exact_mod_cast hbound
    · rw [div_lt_iff₀ hden', sub_add_cancel, zpow_natCast]
      have hbound : num < 10 ^ digitCount (num / den) * den :=
        (Nat.div_lt_iff_lt_mul hden).mp (lt_pow_digitCount (num / den))
      exact_mod_cast hbound
  · next hlt =>
    have hquotient : 0 < (den - 1) / num := Nat.div_pos (by omega) hnum
    have hcount := digitCount_pos ((den - 1) / num)
    have hpos := ten_zpow_pos (digitCount ((den - 1) / num) : Int)
    constructor
    · rw [zpow_neg, le_div_iff₀ hden', inv_mul_le_iff₀ hpos, zpow_natCast]
      have hbound : den - 1 < 10 ^ digitCount ((den - 1) / num) * num :=
        (Nat.div_lt_iff_lt_mul hnum).mp (lt_pow_digitCount _)
      have hbound' : den ≤ 10 ^ digitCount ((den - 1) / num) * num := by omega
      exact_mod_cast hbound'
    · have hexponent : (-(digitCount ((den - 1) / num) : Int) + 1) = -((digitCount ((den - 1) / num) - 1 : Nat) : Int) := by
        omega
      rw [hexponent, zpow_neg, div_lt_iff₀ hden', lt_inv_mul_iff₀ (ten_zpow_pos _), zpow_natCast]
      have hbound : 10 ^ (digitCount ((den - 1) / num) - 1) * num ≤ den - 1 :=
        (Nat.le_div_iff_mul_le hnum).mp (pow_digitCount_le hquotient)
      have hbound' : 10 ^ (digitCount ((den - 1) / num) - 1) * num < den := by omega
      exact_mod_cast hbound'

theorem log_eq {x : ℚ} {e : Int} (hlow : 10 ^ e ≤ x) (hhigh : x < 10 ^ (e + 1)) : Int.log 10 x = e := by
  have hpos : 0 < x := (ten_zpow_pos e).trans_le hlow
  have hle : e ≤ Int.log 10 x := (Int.zpow_le_iff_le_log (by norm_num) hpos).mp (by exact_mod_cast hlow)
  have hlt : Int.log 10 x < e + 1 := (Int.lt_zpow_iff_log_lt (by norm_num) hpos).mp (by exact_mod_cast hhigh)
  omega

theorem leadingExponent_eq_log {num den : Nat} (hnum : 0 < num) (hden : 0 < den) :
    leadingExponent num den = Int.log 10 ((num : ℚ) / den) := by
  obtain ⟨hlow, hhigh⟩ := leadingExponent_spec hnum hden
  exact (log_eq hlow hhigh).symm

/-! ## Rounding on a grid -/

/-- An integer within a half of the scaled fraction is within half a step of the grid. -/
theorem grid_close {num den k : Nat} (e : Int)
    (h : |((scaleDown num den e).1 : ℚ) / (scaleDown num den e).2 - k| ≤ 1 / 2) :
    |(num : ℚ) / den - exact ⟨k, e⟩| ≤ 10 ^ e / 2 := by
  have hgrid := ten_zpow_pos e
  rw [scaleDown_ratio] at h
  rw [abs_sub_comm] at h ⊢
  rw [exact, Double.abs_mul_sub hgrid]
  linarith [mul_le_mul_of_nonneg_right h hgrid.le]

theorem roundHalfUp_bounds (num : Nat) {den : Nat} (hden : 0 < den) :
    (roundHalfUp num den : ℚ) - 1 / 2 ≤ num / den ∧ (num : ℚ) / den < roundHalfUp num den + 1 / 2 := by
  have hden' : (0 : ℚ) < den := by exact_mod_cast hden
  have hlow : roundHalfUp num den * (2 * den) ≤ 2 * num + den := Nat.div_mul_le_self _ _
  have hhigh : 2 * num + den < (roundHalfUp num den + 1) * (2 * den) :=
    (Nat.div_lt_iff_lt_mul (by omega)).mp (Nat.lt_succ_self _)
  generalize roundHalfUp num den = k at hlow hhigh
  have hlow' : (k : ℚ) * (2 * den) ≤ 2 * num + den := by exact_mod_cast hlow
  have hhigh' : (2 : ℚ) * num + den < (k + 1) * (2 * den) := by exact_mod_cast hhigh
  constructor
  · rw [le_div_iff₀ hden']
    linarith
  · rw [div_lt_iff₀ hden']
    linarith

theorem roundHalfUp_near (num : Nat) {den : Nat} (hden : 0 < den) : |(num : ℚ) / den - roundHalfUp num den| ≤ 1 / 2 := by
  obtain ⟨hbelow, habove⟩ := roundHalfUp_bounds num hden
  exact abs_le.mpr ⟨by linarith, by linarith⟩

theorem significant_close (count num : Nat) {den : Nat} (hden : 0 < den) :
    |(num : ℚ) / den - (significant count num den).exact| ≤ 10 ^ (leadingExponent num den - count + 1) / 2 :=
  grid_close _ (roundHalfUp_near _ (scaleDown_pos num hden _))

/-- The fraction is from half a unit of the last digit below the rounded number on to less than half a unit above. -/
theorem significant_coefficient_half (count num : Nat) {den : Nat} (hden : 0 < den) :
    ((significant count num den).coefficient - 1 / 2) * 10 ^ (leadingExponent num den - count + 1) ≤ (num : ℚ) / den ∧
      (num : ℚ) / den < ((significant count num den).coefficient + 1 / 2) * 10 ^ (leadingExponent num den - count + 1) := by
  have hunit := ten_zpow_pos (leadingExponent num den - count + 1)
  rw [← le_div_iff₀ hunit, ← div_lt_iff₀ hunit, ← scaleDown_ratio]
  exact roundHalfUp_bounds _ (scaleDown_pos num hden _)

theorem significant_coefficient_near (count num : Nat) {den : Nat} (hden : 0 < den) :
    |(num : ℚ) / den / 10 ^ (leadingExponent num den - count + 1) - (significant count num den).coefficient| ≤ 1 / 2 := by
  rw [← scaleDown_ratio]
  exact roundHalfUp_near _ (scaleDown_pos num hden _)

/-- The coefficient has the wanted number of digits, or it was rounded up to the next power of ten. -/
theorem significant_coefficient_bounds {count num den : Nat} (hcount : 0 < count) (hnum : 0 < num) (hden : 0 < den) :
    10 ^ (count - 1) ≤ (significant count num den).coefficient ∧ (significant count num den).coefficient ≤ 10 ^ count := by
  obtain ⟨hlow, hhigh⟩ := leadingExponent_spec hnum hden
  have hnear := significant_coefficient_near count num hden
  have hgrid := ten_zpow_pos (leadingExponent num den - count + 1)
  generalize (significant count num den).coefficient = k at *
  have hlow' : (10 : ℚ) ^ (count - 1) ≤ num / den / 10 ^ (leadingExponent num den - count + 1) := by
    rw [le_div_iff₀ hgrid, ← zpow_natCast, ← ten_zpow_add]
    exact (ten_zpow_le (by omega)).trans hlow
  have hhigh' : (num : ℚ) / den / 10 ^ (leadingExponent num den - count + 1) < 10 ^ count := by
    rw [div_lt_iff₀ hgrid, ← zpow_natCast, ← ten_zpow_add]
    exact hhigh.trans_le (ten_zpow_le (by omega))
  obtain ⟨hbelow, habove⟩ := abs_le.mp hnear
  constructor
  · have hlt : (10 : ℚ) ^ (count - 1) < k + 1 := by linarith
    have hlt' : 10 ^ (count - 1) < k + 1 := by exact_mod_cast hlt
    exact Nat.lt_succ_iff.mp hlt'
  · have hlt : (k : ℚ) < 10 ^ count + 1 := by linarith
    have hlt' : k < 10 ^ count + 1 := by exact_mod_cast hlt
    exact Nat.lt_succ_iff.mp hlt'

/-- A positive fraction does not vanish on the grid of one of its significant digits. -/
theorem significant_coefficient_pos {count num den : Nat} (hcount : 0 < count) (hnum : 0 < num) (hden : 0 < den) :
    0 < (significant count num den).coefficient :=
  (Nat.pow_pos (by decide)).trans_le (significant_coefficient_bounds hcount hnum hden).1

end Reckoner.Decimal
