import Reckoner.Proofs.Display.Reread

/-!
# Doubles at the thresholds of the display

The upper threshold `10 ^ 15` is the number of a double, the lower one `10 ^ -10` lies a little below the double that it is
read as. A double on one side of a threshold is rounded to a number that is read as a double on the same side, unless the
rounded number is the threshold itself. The threshold is read as the double from which the other notation is used.
-/

namespace Reckoner.Display

open Double (Canonical Nearest content exact signedExact ofMagnitude magnitudeBits)

set_option autoImplicit false

variable {mantissa mantissa' : Nat} {exponent exponent' : Int}

/-! ## The thresholds -/

/-- The double that `10 ^ -10` is read as lies a little above it. -/
theorem scientificLower_exact : exact scientificLower = 7737125245533627 * 2 ^ (-86 : Int) := by
  have hcontent : content scientificLower = .finite false 7737125245533627 (-86) := rfl
  rw [Double.exact_of_content hcontent]
  simp only [signedExact, Bool.false_eq_true, if_false]
  norm_num

theorem scientificLower_bounds :
    (10 : ℚ) ^ (-10 : Int) < exact scientificLower ∧ exact scientificLower < 10 ^ (-10 : Int) + 10 ^ (-26 : Int) / 2 := by
  rw [scientificLower_exact]
  norm_num

theorem scientificLower_value : ((7737125245533627 : Nat) : ℚ) * 2 ^ (-86 : Int) = exact scientificLower := by
  rw [scientificLower_exact]
  norm_num

theorem scientificLower_canonical : Canonical 7737125245533627 (-86) := by
  refine ⟨by norm_num, Or.inl (by norm_num), by decide, by decide⟩

theorem scientificUpper_canonical : Canonical 8000000000000000 (-3) := by
  refine ⟨by norm_num, Or.inl (by norm_num), by decide, by decide⟩

theorem scientificUpper_value : ((8000000000000000 : Nat) : ℚ) * 2 ^ (-3 : Int) = 10 ^ (15 : Int) := by
  norm_num

/-- What `10 ^ 15` is read as. -/
theorem nearest_upper (h : Nearest mantissa exponent (10 ^ (15 : Int))) : (mantissa : ℚ) * 2 ^ exponent = 10 ^ (15 : Int) := by
  have hle := h.le_of_le scientificUpper_canonical scientificUpper_value.ge
  have hge := h.ge_of_ge scientificUpper_canonical scientificUpper_value.le
  rw [scientificUpper_value] at hle hge
  exact le_antisymm hle hge

/-- The next double below that one is below the power, and farther away from it. -/
theorem below_lower (hc : Canonical mantissa exponent) (hless : (mantissa : ℚ) * 2 ^ exponent < exact scientificLower) :
    (mantissa : ℚ) * 2 ^ exponent < 2 * 10 ^ (-10 : Int) - exact scientificLower := by
  have hpos := Double.two_zpow_pos (-86)
  have hnext : (mantissa : ℚ) * 2 ^ exponent ≤ 7737125245533626 * 2 ^ (-86 : Int) := by
    rcases hc.on_grid_or_below (-86) with ⟨j, hj⟩ | ⟨-, hlow⟩
    · rw [hj, scientificLower_exact] at hless
      have hj' : j < 7737125245533627 := by exact_mod_cast lt_of_mul_lt_mul_right hless hpos.le
      have hj'' : (j : ℚ) ≤ 7737125245533626 := by exact_mod_cast Nat.lt_succ_iff.mp hj'
      exact hj.trans_le (mul_le_mul_of_nonneg_right hj'' hpos.le)
    · exact hlow.trans (mul_le_mul_of_nonneg_right (by norm_num) hpos.le)
  refine hnext.trans_lt ?_
  rw [scientificLower_exact]
  norm_num

/-- What `10 ^ -10` is read as. -/
theorem nearest_lower (h : Nearest mantissa exponent (10 ^ (-10 : Int))) :
    (mantissa : ℚ) * 2 ^ exponent = exact scientificLower := by
  have hle := h.le_of_le scientificLower_canonical (scientificLower_value ▸ scientificLower_bounds.1.le)
  have hdistance := h.le scientificLower_canonical
  rw [scientificLower_value] at hle hdistance
  refine hle.eq_or_lt.resolve_right fun hless => ?_
  have hfar := below_lower h.canonical hless
  rw [abs_of_pos (sub_pos.mpr scientificLower_bounds.1)] at hdistance
  have hnear := (neg_le_abs _).trans hdistance
  linarith

theorem upper_rounds {digits : Nat} (hdigits : 0 < digits) :
    NearestMultiple (lastUnit digits (10 ^ (15 : Int))) (10 ^ (15 : Int)) (10 ^ (15 : Int)) := by
  have hunit := Decimal.ten_zpow_pos (15 - (digits : Int) + 1)
  have hself := NearestMultiple.self hunit (10 ^ (digits - 1))
  push_cast at hself
  rw [mul_comm, Double.unit_mul_pow hdigits] at hself
  rwa [lastUnit_eq le_rfl (zpow_lt_zpow_right₀ (by norm_num) (by decide))]

/-- Rounded to at most seventeen digits, the double that the lower threshold is read as is the threshold. -/
theorem lower_rounds {digits : Nat} (hdigits : 0 < digits) (hle : digits ≤ 17) :
    NearestMultiple (lastUnit digits (exact scientificLower)) (exact scientificLower) (10 ^ (-10 : Int)) := by
  obtain ⟨hbelow, habove⟩ := scientificLower_bounds
  have hunit := Decimal.ten_zpow_pos (-10 - (digits : Int) + 1)
  have hpower : (10 : ℚ) ^ (-10 : Int) = (10 ^ (digits - 1) : Nat) * 10 ^ (-10 - (digits : Int) + 1) := by
    push_cast
    rw [mul_comm, Double.unit_mul_pow hdigits]
  have hnext : exact scientificLower < 10 ^ (-10 + 1 : Int) := by
    rw [scientificLower_exact]
    norm_num
  have hleast : (10 : ℚ) ^ (-26 : Int) ≤ 10 ^ (-10 - (digits : Int) + 1) := Decimal.ten_zpow_le (by omega)
  rw [lastUnit_eq hbelow.le hnext]
  have hpos := (Decimal.ten_zpow_pos (-10)).trans hbelow
  rw [hpower] at hbelow habove ⊢
  generalize (10 : ℚ) ^ (-10 - (digits : Int) + 1) = unit at *
  generalize (10 : ℚ) ^ (-26 : Int) = least at *
  generalize 10 ^ (digits - 1) = units at *
  exact NearestMultiple.of_half hunit hpos.le (by linarith) (by linarith)

/-! ## Parts of doubles -/

/-- The sign, the mantissa and the exponent of a finite double other than zero. -/
structure Parts (x : Float) (negative : Bool) (mantissa : Nat) (exponent : Int) : Prop where
  finite : x.isFinite = true
  content : content x = .finite negative mantissa exponent
  canonical : Canonical mantissa exponent
  pos : 0 < mantissa

theorem parts_ofMagnitude (negative : Bool) (hc : Canonical mantissa exponent) (hm : 0 < mantissa) :
    Parts (ofMagnitude negative (magnitudeBits mantissa exponent)) negative mantissa exponent :=
  ⟨Double.isFinite_ofMagnitude negative hc, Double.content_ofMagnitude negative hc, hc, hm⟩

section
variable {x : Float} {negative : Bool}

theorem Parts.value_pos (h : Parts x negative mantissa exponent) : (0 : ℚ) < mantissa * 2 ^ exponent :=
  Double.signedExact_pos h.pos exponent

theorem Parts.usesExponent_iff (h : Parts x negative mantissa exponent) : usesExponent x = true ↔
    (10 : ℚ) ^ (15 : Int) ≤ mantissa * 2 ^ exponent ∨ (mantissa : ℚ) * 2 ^ exponent < exact scientificLower := by
  rw [Display.usesExponent_iff h.finite, Double.exact_of_content h.content, Double.abs_signedExact, ne_eq,
    Double.signedExact_eq_zero, zpow_ofNat]
  exact or_congr_right (and_iff_left h.pos.ne')

end

/-! ## Staying on one side of a threshold -/

namespace Reread

variable {digits units : Nat} {lead : Int}

theorem lt_power (h : Reread digits mantissa exponent lead units mantissa' exponent') {n : Int} (hn : lead < n)
    (hne : (units : ℚ) * 10 ^ (lead - digits + 1) ≠ 10 ^ n) : (mantissa' : ℚ) * 2 ^ exponent' < 10 ^ n := by
  have hunit := Decimal.ten_zpow_pos (lead - digits + 1)
  have hdigits := h.digits_pos
  have hclose := (abs_le.mp h.close).2
  obtain ⟨j, hj⟩ := Int.eq_ofNat_of_zero_le (show 0 ≤ n - (lead - digits + 1) by omega)
  have hpower : (10 : ℚ) ^ n = (10 ^ j : Nat) * 10 ^ (lead - digits + 1) := by
    push_cast
    rw [← zpow_natCast, ← hj, ← Decimal.ten_zpow_add, sub_add_cancel]
  rw [hpower] at hne ⊢
  have hle : units ≤ 10 ^ j := h.high.trans (Nat.pow_le_pow_right (by decide) (by omega))
  have hless : units + 1 ≤ 10 ^ j := lt_of_le_of_ne hle fun heq => hne (by rw [heq])
  have hless' : (units : ℚ) + 1 ≤ (10 ^ j : Nat) := by exact_mod_cast hless
  have hscaled := mul_le_mul_of_nonneg_right hless' hunit.le
  linarith

theorem lead_le_units (h : Reread digits mantissa exponent lead units mantissa' exponent') :
    (10 : ℚ) ^ lead ≤ units * 10 ^ (lead - digits + 1) := by
  rw [h.lead_eq]
  exact mul_le_mul_of_nonneg_right (by exact_mod_cast h.low) (Decimal.ten_zpow_pos _).le

theorem lower_le (h : Reread digits mantissa exponent lead units mantissa' exponent') (hdigits : digits ≤ 17)
    (hlow : exact scientificLower ≤ mantissa * 2 ^ exponent) : exact scientificLower ≤ mantissa' * 2 ^ exponent' := by
  obtain ⟨hbelow, habove⟩ := scientificLower_bounds
  have hlead : -10 < lead + 1 :=
    Decimal.lt_of_ten_zpow_lt (hbelow.trans_le (hlow.trans h.lt_lead.le))
  have hunits := h.lead_le_units
  rcases le_or_gt (exact scientificLower) (units * 10 ^ (lead - digits + 1)) with hle | hless
  · rw [← scientificLower_value] at hle ⊢
    exact h.nearest.ge_of_ge scientificLower_canonical hle
  · have hsame : lead = -10 := by
      by_contra hne
      have hnine : (10 : ℚ) ^ (-9 : Int) ≤ 10 ^ lead := Decimal.ten_zpow_le (by omega)
      norm_num at hnine habove
      linarith
    subst hsame
    have hpower : (units : ℚ) * 10 ^ (-10 - (digits : Int) + 1) = 10 ^ (-10 : Int) := by
      by_contra hne
      have hunit : (10 : ℚ) ^ (-26 : Int) ≤ 10 ^ (-10 - (digits : Int) + 1) :=
        Decimal.ten_zpow_le (by omega)
      have hmore : 10 ^ (digits - 1) + 1 ≤ units := by
        refine lt_of_le_of_ne h.low fun heq => hne ?_
        rw [h.lead_eq, ← heq]
        push_cast
        rfl
      have hmore' : (10 : ℚ) ^ (digits - 1) + 1 ≤ units := by exact_mod_cast hmore
      have hscaled := mul_le_mul_of_nonneg_right hmore' (Decimal.ten_zpow_pos (-10 - (digits : Int) + 1)).le
      rw [add_mul, ← h.lead_eq] at hscaled
      have hpos := Decimal.ten_zpow_pos (-26)
      generalize (10 : ℚ) ^ (-26 : Int) = least at *
      generalize (10 : ℚ) ^ (-10 : Int) = power at *
      linarith
    have hnearest := h.nearest
    rw [hpower] at hnearest
    exact (nearest_lower hnearest).ge

/-- Without an exponent and not rounded to the upper threshold, a double is read as one without an exponent. -/
theorem fixed_again (h : Reread digits mantissa exponent lead units mantissa' exponent') (hdigits : digits ≤ 17)
    (hfixed : ¬ ((10 : ℚ) ^ (15 : Int) ≤ mantissa * 2 ^ exponent ∨ (mantissa : ℚ) * 2 ^ exponent < exact scientificLower))
    (hne : (units : ℚ) * 10 ^ (lead - digits + 1) ≠ 10 ^ (15 : Int)) :
    ¬ ((10 : ℚ) ^ (15 : Int) ≤ mantissa' * 2 ^ exponent' ∨ (mantissa' : ℚ) * 2 ^ exponent' < exact scientificLower) := by
  rw [not_or, not_le, not_lt] at hfixed ⊢
  have hlead : lead < 15 := Decimal.lt_of_ten_zpow_lt (h.lead_le.trans_lt hfixed.1)
  exact ⟨h.lt_power hlead hne, h.lower_le hdigits hfixed.2⟩

/-- With an exponent and not rounded to the lower threshold, a double is read as one with an exponent. -/
theorem scientific_again (h : Reread digits mantissa exponent lead units mantissa' exponent')
    (hexponent : (10 : ℚ) ^ (15 : Int) ≤ mantissa * 2 ^ exponent ∨ (mantissa : ℚ) * 2 ^ exponent < exact scientificLower)
    (hne : (units : ℚ) * 10 ^ (lead - digits + 1) ≠ 10 ^ (-10 : Int)) :
    (10 : ℚ) ^ (15 : Int) ≤ mantissa' * 2 ^ exponent' ∨ (mantissa' : ℚ) * 2 ^ exponent' < exact scientificLower := by
  refine hexponent.imp (fun hlarge => ?_) fun hsmall => ?_
  · have hlead : 15 < lead + 1 := Decimal.lt_of_ten_zpow_lt (hlarge.trans_lt h.lt_lead)
    have hpower : (10 : ℚ) ^ (15 : Int) ≤ 10 ^ lead := Decimal.ten_zpow_le (by omega)
    have hge := h.nearest.ge_of_ge scientificUpper_canonical (scientificUpper_value.le.trans (hpower.trans h.lead_le_units))
    rwa [scientificUpper_value] at hge
  · have hbelow := below_lower h.canonical hsmall
    have hlower := scientificLower_bounds.1
    have hlead : lead < -10 := by
      refine Decimal.lt_of_ten_zpow_lt (h.lead_le.trans_lt ?_)
      linarith
    exact (h.lt_power hlead hne).trans hlower

end Reread

end Reckoner.Display
