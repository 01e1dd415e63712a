import Reckoner.Proofs.Number.Decimal
import Reckoner.Proofs.Number.Nearest

/-!
# Doubles next to powers of ten

Below a power of ten a number has one digit less in front, and a unit of its last digit is a tenth of the one above. So a
double above the power that is rounded to it in the greater unit need not agree with the double below that the power is read
as. Between the two there is at least one step of the doubles at the power. For the digits and the powers that occur this
leaves the double below within half the smaller unit, which is checked power by power.
-/

namespace Reckoner.Double

set_option autoImplicit false

variable {mantissa mantissa' : Nat} {exponent exponent' : Int} {x : ℚ}

/-! ## Nearest doubles and other doubles -/

theorem Nearest.le_of_le (h : Nearest mantissa exponent x) (hc : Canonical mantissa' exponent')
    (hle : x ≤ mantissa' * 2 ^ exponent') : (mantissa : ℚ) * 2 ^ exponent ≤ mantissa' * 2 ^ exponent' := by
  have hdistance := (le_abs_self _).trans (h.le hc)
  rw [abs_of_nonneg (sub_nonneg.mpr hle)] at hdistance
  linarith

theorem Nearest.ge_of_ge (h : Nearest mantissa exponent x) (hc : Canonical mantissa' exponent')
    (hge : (mantissa' : ℚ) * 2 ^ exponent' ≤ x) : (mantissa' : ℚ) * 2 ^ exponent' ≤ mantissa * 2 ^ exponent := by
  have hdistance := (neg_le_abs _).trans (h.le hc)
  rw [abs_of_nonpos (sub_nonpos.mpr hge)] at hdistance
  linarith

section
variable {target : Int}

/-- A double is at most the last grid point that is not above a number it is not above. -/
theorem Canonical.le_floor_mul (hc : Canonical mantissa exponent) (hnormal : target = leastExponent ∨ 2 ^ 52 * 2 ^ target ≤ x)
    (hle : (mantissa : ℚ) * 2 ^ exponent ≤ x) : (mantissa : ℚ) * 2 ^ exponent ≤ ⌊x / 2 ^ target⌋₊ * 2 ^ target := by
  have hpos := two_zpow_pos target
  rcases hc.on_grid_or_below target with ⟨j, hj⟩ | ⟨hleast, hbelow⟩
  · rw [hj] at hle ⊢
    refine mul_le_mul_of_nonneg_right ?_ hpos.le
    exact_mod_cast Nat.le_floor ((le_div_iff₀ hpos).mpr hle)
  · have hfloor : 2 ^ 52 ≤ ⌊x / 2 ^ target⌋₊ := by
      refine Nat.le_floor ((le_div_iff₀ hpos).mpr ?_)
      exact_mod_cast hnormal.resolve_left hleast.ne'
    have hfloor' : (2 : ℚ) ^ 52 ≤ ⌊x / 2 ^ target⌋₊ := by exact_mod_cast hfloor
    exact hbelow.trans (mul_le_mul_of_nonneg_right hfloor' hpos.le)

/-- A double above a number is at least the next grid point. -/
theorem Canonical.floor_succ_mul_le (hc : Canonical mantissa exponent)
    (hnormal : target = leastExponent ∨ 2 ^ 52 * 2 ^ target ≤ x) (hx : 0 ≤ x) (hlt : x < (mantissa : ℚ) * 2 ^ exponent) :
    ((⌊x / 2 ^ target⌋₊ : ℚ) + 1) * 2 ^ target ≤ mantissa * 2 ^ exponent := by
  have hpos := two_zpow_pos target
  rcases hc.on_grid_or_below target with ⟨j, hj⟩ | ⟨hleast, hbelow⟩
  · rw [hj] at hlt ⊢
    refine mul_le_mul_of_nonneg_right ?_ hpos.le
    exact_mod_cast (Nat.floor_lt (div_nonneg hx hpos.le)).mpr ((div_lt_iff₀ hpos).mpr hlt)
  · exact absurd (hlt.trans_le hbelow) (not_lt.mpr (hnormal.resolve_left hleast.ne'))

end

/-- Another double as near as the nearest one, on the other side of the number, is one step of its grid away. -/
theorem Nearest.step_of_tie (h : Nearest mantissa exponent x) (hc : Canonical mantissa' exponent')
    (hbelow : (mantissa' : ℚ) * 2 ^ exponent' < x)
    (htie : (mantissa : ℚ) * 2 ^ exponent - x = x - mantissa' * 2 ^ exponent') :
    (mantissa : ℚ) * 2 ^ exponent - mantissa' * 2 ^ exponent' = 2 ^ exponent' := by
  have hpos := two_zpow_pos exponent'
  have hless : (mantissa' : ℚ) * 2 ^ exponent' < mantissa * 2 ^ exponent := by linarith
  obtain ⟨j, hj⟩ : ∃ j : Nat, (mantissa : ℚ) * 2 ^ exponent = j * 2 ^ exponent' := by
    rcases h.canonical.on_grid_or_below exponent' with hgrid | ⟨hleast, hlow⟩
    · exact hgrid
    · have hnormal : (2 : ℚ) ^ 52 ≤ mantissa' := by exact_mod_cast hc.normal.resolve_right hleast.ne'
      exact absurd (hless.trans_le hlow) (not_lt.mpr (mul_le_mul_of_nonneg_right hnormal hpos.le))
  rw [hj] at hless htie ⊢
  have hsucc : mantissa' + 1 ≤ j := by exact_mod_cast lt_of_mul_lt_mul_right hless hpos.le
  rcases hsucc.eq_or_lt with rfl | hmore
  · push_cast
    ring
  · exfalso
    have hmore' : (mantissa' : ℚ) + 1 < j := by exact_mod_cast hmore
    have hcarry : exponent' = 971 → mantissa' + 1 < 2 ^ 53 := by
      rintro rfl
      have hle := h.canonical.le_largest
      rw [hj] at hle
      have hlast : (mantissa' : ℚ) + 1 < 2 ^ 53 := by linarith [le_of_mul_le_mul_right hle hpos]
      exact_mod_cast hlast
    have hnormal : exponent' = leastExponent ∨ 2 ^ 52 ≤ mantissa' + 1 :=
      hc.normal.symm.imp_right fun hlow => hlow.trans (Nat.le_succ _)
    obtain ⟨next, target, hnext, -, hvalue⟩ :=
      canonical_of_rounded hc.le_exponent hc.exponent_le hc.mantissa_lt hcarry hnormal
    have hnear := h.le hnext
    rw [hj, hvalue, htie, abs_of_pos (sub_pos.mpr hbelow)] at hnear
    push_cast at hnear
    have hstep : (mantissa' : ℚ) * 2 ^ exponent' < (mantissa' + 1) * 2 ^ exponent' :=
      mul_lt_mul_of_pos_right (lt_add_one _) hpos
    have hless' : ((mantissa' : ℚ) + 1) * 2 ^ exponent' < j * 2 ^ exponent' := mul_lt_mul_of_pos_right hmore' hpos
    rcases abs_cases (((mantissa' : ℚ) + 1) * 2 ^ exponent' - x) with ⟨heq, -⟩ | ⟨heq, -⟩ <;> linarith

/-! ## Powers of ten on the grid of the doubles -/

/-- The exponent of the doubles at a power of ten. -/
def powerExponent (lead : Int) : Int :=
  targetExponent (10 ^ lead.toNat) (10 ^ (-lead).toNat)

/-- A power of ten as a fraction, in steps of the doubles at the power. -/
def powerSteps (lead : Int) : Nat × Nat :=
  scaleDown (10 ^ lead.toNat) (10 ^ (-lead).toNat) (powerExponent lead)

/-- The steps of the double that the power is read as. -/
def powerMantissa (lead : Int) : Nat :=
  roundHalfEven (powerSteps lead).1 (powerSteps lead).2

/-- How far the power is from the double that it is read as, in the parts of a step. -/
def powerGap (lead : Int) : Nat :=
  ((powerSteps lead).1 - powerMantissa lead * (powerSteps lead).2 : Int).natAbs

/--
If the power can be read as a double below it, and the next double above is within half a unit of the last digit, then the
double below is within half a unit of the last digit of the numbers below the power.
-/
def PowerFits (digits : Nat) (lead : Int) : Prop :=
  (powerSteps lead).1 % (powerSteps lead).2 ≤ powerGap lead →
    2 * 10 ^ (digits - 1) * ((powerSteps lead).2 - (powerSteps lead).1 % (powerSteps lead).2) < (powerSteps lead).1 →
      2 * 10 ^ digits * powerGap lead ≤ (powerSteps lead).1

instance (digits : Nat) (lead : Int) : Decidable (PowerFits digits lead) :=
  inferInstanceAs (Decidable (_ → _ → _))

section
variable {digits : Nat} {lead : Int}

theorem power_ratio (lead : Int) : ((10 ^ lead.toNat : Nat) : ℚ) / (10 ^ (-lead).toNat : Nat) = 10 ^ lead := by
  push_cast
  exact pow_toNat_div 10 lead

theorem power_roundsAt (lead : Int) : RoundsAt (10 ^ lead) (powerExponent lead) (powerMantissa lead) := by
  rw [← power_ratio]
  exact roundsAt_targetExponent (Nat.pow_pos (by decide)) (Nat.pow_pos (by decide))

theorem powerSteps_pos (lead : Int) : 0 < (powerSteps lead).2 :=
  scaleDown_pos _ (Nat.pow_pos (by decide)) _

theorem powerSteps_ratio (lead : Int) :
    ((powerSteps lead).1 : ℚ) / (powerSteps lead).2 = 10 ^ lead / 2 ^ powerExponent lead := by
  rw [← power_ratio]
  exact scaleDown_ratio _ _ _

theorem two_mul_powerGap_le (lead : Int) : 2 * powerGap lead ≤ (powerSteps lead).2 := by
  obtain ⟨rest, hle, -, hsplit⟩ := roundHalfEven_rest (powerSteps lead).1 (powerSteps_pos lead)
  rw [powerGap, powerMantissa, mul_comm (roundHalfEven _ _ : Int)]
  rcases hsplit with hsplit | hsplit <;> zify at hsplit <;> omega

/-- At a normal double the steps are so small that up to fifteen digits fit. -/
theorem powerFits_of_normal (hdigits : digits ≤ 15) (hlead : -307 ≤ lead) : PowerFits digits lead := by
  have hpower : (2 : ℚ) ^ (-1022 : Int) ≤ 10 ^ lead := by
    have hlarge : 10 ^ 307 ≤ 2 ^ 1022 := by decide +kernel
    calc (2 : ℚ) ^ (-1022 : Int) ≤ 10 ^ (-307 : Int) := by
          rw [zpow_neg, zpow_neg, zpow_ofNat, zpow_ofNat]
          exact inv_anti₀ (pow_pos (by norm_num) _) (by exact_mod_cast hlarge)
      _ ≤ 10 ^ lead := zpow_le_zpow_right₀ (by norm_num) hlead
  have hnormal : (2 : ℚ) ^ 52 * 2 ^ powerExponent lead ≤ 10 ^ lead := by
    rcases (power_roundsAt lead).normal with hleast | hlarge
    · rw [hleast]
      exact (two_zpow_add 52 leastExponent).symm.le.trans hpower
    · exact hlarge
  have hsteps : 2 ^ 52 * (powerSteps lead).2 ≤ (powerSteps lead).1 := by
    rw [← le_div_iff₀ (two_zpow_pos _), ← powerSteps_ratio,
      le_div_iff₀ (by exact_mod_cast powerSteps_pos lead)] at hnormal
    exact_mod_cast hnormal
  intro _ _
  calc 2 * 10 ^ digits * powerGap lead = 10 ^ digits * (2 * powerGap lead) := by ring
    _ ≤ 2 ^ 52 * (powerSteps lead).2 := by
        refine Nat.mul_le_mul ?_ (two_mul_powerGap_le lead)
        exact (Nat.pow_le_pow_right (by decide) hdigits).trans (by norm_num)
    _ ≤ (powerSteps lead).1 := hsteps

/-- The powers of ten that numbers without an exponent start at, with up to seventeen digits. -/
theorem powerFits_fixed (hdigits : digits ≤ 17) (hlow : -10 ≤ lead) (hhigh : lead ≤ 14) : PowerFits digits lead := by
  have hmany : ∀ more < 2, ∀ k : Nat, k < 25 → PowerFits (16 + more) (k - 10) := by decide +kernel
  rcases Nat.lt_or_ge 15 digits with hlarge | hsmall
  · have hfits := hmany (digits - 16) (by omega) (lead + 10).toNat (by omega)
    rwa [Nat.add_sub_cancel' hlarge, Int.toNat_of_nonneg (by omega), add_sub_cancel_right] at hfits
  · exact powerFits_of_normal hsmall (by omega)

/-- The powers of ten in the range of the doubles, with seven digits. -/
theorem powerFits_seven (hlow : -324 ≤ lead) : PowerFits 7 lead := by
  have hsubnormal : ∀ k : Nat, k < 17 → PowerFits 7 (k - 324) := by decide +kernel
  rcases lt_or_ge lead (-307) with hsmall | hlarge
  · have hfits := hsubnormal (lead + 324).toNat (by omega)
    rwa [Int.toNat_of_nonneg (by omega), add_sub_cancel_right] at hfits
  · exact powerFits_of_normal (by decide) hlarge

/-! ## Doubles on both sides of a power -/

/-- The part of a step in which the power and the doubles next to it are counted. -/
def powerPart (lead : Int) : ℚ :=
  2 ^ powerExponent lead / (powerSteps lead).2

theorem powerPart_pos (lead : Int) : 0 < powerPart lead :=
  div_pos (two_zpow_pos _) (by exact_mod_cast powerSteps_pos lead)

theorem step_eq (lead : Int) : (2 : ℚ) ^ powerExponent lead = (powerSteps lead).2 * powerPart lead :=
  (mul_div_cancel₀ _ (by exact_mod_cast (powerSteps_pos lead).ne')).symm

theorem power_eq (lead : Int) : (10 : ℚ) ^ lead = (powerSteps lead).1 * powerPart lead := by
  have hratio := powerSteps_ratio lead
  rw [eq_div_iff (two_zpow_pos _).ne'] at hratio
  rw [← hratio, powerPart]
  ring

theorem powerFloor_mul_add (lead : Int) :
    (⌊(10 : ℚ) ^ lead / 2 ^ powerExponent lead⌋₊ : ℚ) * 2 ^ powerExponent lead +
      ((powerSteps lead).1 % (powerSteps lead).2 : Nat) * powerPart lead = 10 ^ lead := by
  have hsplit : ((powerSteps lead).2 : ℚ) * ((powerSteps lead).1 / (powerSteps lead).2 : Nat) +
      ((powerSteps lead).1 % (powerSteps lead).2 : Nat) = (powerSteps lead).1 := by
    exact_mod_cast Nat.div_add_mod (powerSteps lead).1 (powerSteps lead).2
  rw [← powerSteps_ratio, Nat.floor_div_eq_div, step_eq, power_eq, ← hsplit]
  ring

/-- A double above the power is at least what is left of a step away. -/
theorem above_power (hc : Canonical mantissa exponent) (habove : 10 ^ lead < (mantissa : ℚ) * 2 ^ exponent) :
    (((powerSteps lead).2 : ℚ) - ((powerSteps lead).1 % (powerSteps lead).2 : Nat)) * powerPart lead ≤
      mantissa * 2 ^ exponent - 10 ^ lead := by
  have hhigh := hc.floor_succ_mul_le (power_roundsAt lead).normal (Decimal.ten_zpow_pos lead).le habove
  have hsplit := powerFloor_mul_add lead
  have hstep := step_eq lead
  linarith

/-- A double below the power that it is read as is at least the rest of a step away, and at most the gap. -/
theorem below_power (h : Nearest mantissa exponent (10 ^ lead)) (hbelow : (mantissa : ℚ) * 2 ^ exponent < 10 ^ lead)
    (hrange : (10 : ℚ) ^ lead < overflow) :
    ((powerSteps lead).1 % (powerSteps lead).2 : Nat) * powerPart lead ≤ 10 ^ lead - mantissa * 2 ^ exponent ∧
      10 ^ lead - mantissa * 2 ^ exponent ≤ powerGap lead * powerPart lead := by
  have hlow := h.canonical.le_floor_mul (power_roundsAt lead).normal hbelow.le
  have hsplit := powerFloor_mul_add lead
  obtain ⟨nearest, target, hnearest, -, hvalue⟩ := (power_roundsAt lead).nearest hrange
  have hdistance := h.le hnearest.canonical
  rw [hvalue, abs_of_neg (sub_neg.mpr hbelow), neg_sub] at hdistance
  refine ⟨by linarith, hdistance.trans_eq ?_⟩
  rw [powerGap, Nat.cast_natAbs, step_eq, power_eq, ← mul_assoc, ← sub_mul, abs_mul, abs_of_pos (powerPart_pos lead),
    abs_sub_comm]
  push_cast
  rfl

/-- The unit of the last of some digits behind a power of ten. -/
theorem unit_mul_pow (hdigits : 0 < digits) (lead : Int) : (10 : ℚ) ^ (lead - digits + 1) * 10 ^ (digits - 1) = 10 ^ lead := by
  rw [← zpow_natCast, ← Decimal.ten_zpow_add]
  congr 1
  omega

/-- The next power in units of the last digit. -/
theorem next_power (digits : Nat) (lead : Int) : (10 : ℚ) ^ (lead + 1) = 10 ^ digits * 10 ^ (lead - digits + 1) := by
  rw [← zpow_natCast, ← Decimal.ten_zpow_add]
  congr 1
  omega

/--
Where a double above a power is within half a unit of the last digit, the double below that the power is read as is within
half a unit of the numbers below the power.
-/
theorem PowerFits.close_below (hfits : PowerFits digits lead) (hdigits : 0 < digits)
    (h : Nearest mantissa exponent (10 ^ lead)) (hbelow : (mantissa : ℚ) * 2 ^ exponent < 10 ^ lead)
    (hc : Canonical mantissa' exponent') (habove : 10 ^ lead < (mantissa' : ℚ) * 2 ^ exponent')
    (hclose : (mantissa' : ℚ) * 2 ^ exponent' - 10 ^ lead < 10 ^ (lead - digits + 1) / 2) :
    10 ^ lead - (mantissa : ℚ) * 2 ^ exponent ≤ 10 ^ (lead - digits + 1) / 20 := by
  obtain ⟨hrest, hgap⟩ := below_power h hbelow ((habove.trans_le hc.le_largest).trans largest_lt_overflow)
  have hnext := (above_power hc habove).trans_lt hclose
  have hpart := powerPart_pos lead
  have hunit := unit_mul_pow hdigits lead
  rw [power_eq lead] at hunit
  have hten : (0 : ℚ) < 10 ^ (digits - 1) := pow_pos (by norm_num) _
  have hless := (Nat.mod_lt (powerSteps lead).1 (powerSteps_pos lead)).le
  have hfirst : (powerSteps lead).1 % (powerSteps lead).2 ≤ powerGap lead := by
    exact_mod_cast le_of_mul_le_mul_right (hrest.trans hgap) hpart
  have hsecond : 2 * 10 ^ (digits - 1) * ((powerSteps lead).2 - (powerSteps lead).1 % (powerSteps lead).2) <
      (powerSteps lead).1 := by
    have hscaled := mul_lt_mul_of_pos_right hnext hten
    have hless' : (2 : ℚ) * 10 ^ (digits - 1) * ((powerSteps lead).2 - ((powerSteps lead).1 % (powerSteps lead).2 : Nat)) <
        (powerSteps lead).1 := by
      refine lt_of_mul_lt_mul_right ?_ hpart.le
      linarith
    rw [← Nat.cast_sub hless] at hless'
    exact_mod_cast hless'
  have hbound : (2 : ℚ) * 10 ^ digits * powerGap lead ≤ (powerSteps lead).1 := by exact_mod_cast hfits hfirst hsecond
  have hscaled := mul_le_mul_of_nonneg_right hbound hpart.le
  rw [← hunit, ← Nat.sub_add_cancel hdigits, pow_succ, Nat.sub_add_cancel hdigits] at hscaled
  have hfinal : powerGap lead * powerPart lead ≤ 10 ^ (lead - digits + 1) / 20 := by
    refine le_of_mul_le_mul_right ?_ hten
    linarith
  exact hgap.trans hfinal

end

end Reckoner.Double
