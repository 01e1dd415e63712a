import Reckoner.Proofs.Number.Order

/-!
# The nearest double

Among the finite doubles none is nearer to a decimal number than the one that it is read as, as long as the number is
not beyond the largest double.
-/

namespace Reckoner.Double

set_option autoImplicit false

variable {mantissa : Nat} {exponent : Int} {x : ℚ}

/-- No finite double that is not negative lies nearer to the number. -/
structure Nearest (mantissa : Nat) (exponent : Int) (x : ℚ) : Prop where
  canonical : Canonical mantissa exponent
  le : ∀ {mantissa' : Nat} {exponent' : Int}, Canonical mantissa' exponent' →
    |mantissa * 2 ^ exponent - x| ≤ |mantissa' * 2 ^ exponent' - x|

/-- The largest finite double. -/
def largest : ℚ :=
  (2 ^ 53 - 1) * 2 ^ (971 : Int)

/-- Halfway between the largest double and the next power of two; from here on numbers round to an infinity. -/
def overflow : ℚ :=
  (2 ^ 53 - 1 / 2) * 2 ^ (971 : Int)

theorem largest_lt_overflow : largest < overflow :=
  mul_lt_mul_of_pos_right (by norm_num) (two_zpow_pos _)

/-- Beside the largest double there is room for what is less than half a unit of it. -/
theorem largest_add_lt_overflow : largest + 2 ^ (-971 : Int) < overflow := by
  have hgap : overflow = largest + 2 ^ (970 : Int) := by
    have hsplit : (2 : ℚ) ^ (971 : Int) = 2 * 2 ^ (970 : Int) := two_zpow_add 1 970
    rw [overflow, largest, hsplit]
    ring
  rw [hgap]
  exact add_lt_add_right (zpow_lt_zpow_right₀ (by norm_num) (by decide)) largest

theorem two_zpow_le_largest : (2 : ℚ) ^ (1023 : Int) ≤ largest := by
  rw [largest, show (1023 : Int) = 52 + 971 by rfl, two_zpow_add]
  exact mul_le_mul_of_nonneg_right (by norm_num) (two_zpow_pos _).le

theorem Canonical.le_largest (hc : Canonical mantissa exponent) : (mantissa : ℚ) * 2 ^ exponent ≤ largest := by
  have hsucc : (mantissa : ℚ) + 1 ≤ 2 ^ 53 := by exact_mod_cast hc.mantissa_lt
  have hmantissa : (mantissa : ℚ) ≤ 2 ^ 53 - 1 := by linarith
  exact mul_le_mul hmantissa (two_zpow_le hc.exponent_le) (two_zpow_pos _).le (by norm_num)

/-! ## Grids -/

/-- A double lies on the grid of an exponent, or below the numbers that have the exponent. -/
theorem Canonical.on_grid_or_below {mantissa' : Nat} {exponent' : Int} (hc : Canonical mantissa' exponent') (target : Int) :
    (∃ j : Nat, (mantissa' : ℚ) * 2 ^ exponent' = j * 2 ^ target) ∨
      leastExponent < target ∧ (mantissa' : ℚ) * 2 ^ exponent' ≤ 2 ^ 52 * 2 ^ target := by
  rcases le_or_gt target exponent' with hle | hlt
  · refine Or.inl ⟨mantissa' * 2 ^ (exponent' - target).toNat, ?_⟩
    push_cast
    rw [mul_assoc, ← zpow_natCast, ← two_zpow_add, Int.toNat_of_nonneg (by omega), sub_add_cancel]
  · refine Or.inr ⟨lt_of_le_of_lt hc.le_exponent hlt, ?_⟩
    have hmantissa : (mantissa' : ℚ) ≤ 2 ^ 53 := by exact_mod_cast hc.mantissa_lt.le
    calc (mantissa' : ℚ) * 2 ^ exponent' ≤ 2 ^ 53 * 2 ^ exponent' :=
          mul_le_mul_of_nonneg_right hmantissa (two_zpow_pos _).le
      _ = 2 ^ 52 * 2 ^ (exponent' + 1) := by
          rw [two_zpow_add]
          norm_num
          ring
      _ ≤ 2 ^ 52 * 2 ^ target := mul_le_mul_of_nonneg_left (two_zpow_le (by omega)) (by norm_num)

/-- The nearest number on the grid of its exponent is nearest to a number among all doubles. -/
theorem abs_sub_le_of_grid {k : Nat} {target : Int} (hnear : |x / 2 ^ target - k| ≤ 1 / 2)
    (hnormal : target = leastExponent ∨ 2 ^ 52 * 2 ^ target ≤ x) {mantissa' : Nat} {exponent' : Int}
    (hc : Canonical mantissa' exponent') : |k * 2 ^ target - x| ≤ |mantissa' * 2 ^ exponent' - x| := by
  have hpos := two_zpow_pos target
  have hgrid : ∀ j : Nat, |(k : ℚ) * 2 ^ target - x| ≤ |j * 2 ^ target - x| := fun j => by
    rw [abs_mul_sub hpos, abs_mul_sub hpos]
    exact mul_le_mul_of_nonneg_right (nearest_intCast_le (k := k) hnear j) hpos.le
  rcases hc.on_grid_or_below target with ⟨j, hj⟩ | ⟨hleast, hbelow⟩
  · rw [hj]
    exact hgrid j
  · have hlow := hnormal.resolve_left hleast.ne'
    calc |k * 2 ^ target - x| ≤ |((2 ^ 52 : Nat) : ℚ) * 2 ^ target - x| := hgrid _
      _ = x - 2 ^ 52 * 2 ^ target := by
          push_cast
          rw [abs_of_nonpos (by linarith)]
          ring
      _ ≤ x - mantissa' * 2 ^ exponent' := by linarith
      _ ≤ |mantissa' * 2 ^ exponent' - x| := by
          rw [abs_sub_comm]
          exact le_abs_self _

/-- A mantissa that was rounded up to a power of two carries into the next exponent. -/
theorem canonical_of_rounded {k : Nat} {target : Int} (hleast : leastExponent ≤ target) (htop : target ≤ 971)
    (hk : k ≤ 2 ^ 53) (hcarry : target = 971 → k < 2 ^ 53) (hnormal : target = leastExponent ∨ 2 ^ 52 ≤ k) :
    ∃ mantissa exponent, Canonical mantissa exponent ∧
      magnitudeBits mantissa exponent = (target - leastExponent).toNat * 2 ^ 52 + k ∧
      (mantissa : ℚ) * 2 ^ exponent = k * 2 ^ target := by
  rcases Nat.lt_or_eq_of_le hk with hlt | rfl
  · exact ⟨k, target, ⟨hlt, hnormal.symm, hleast, htop⟩, rfl, rfl⟩
  · have hroom : target ≠ 971 := fun htarget => absurd (hcarry htarget) (Nat.lt_irrefl _)
    refine ⟨2 ^ 52, target + 1, ⟨by norm_num, Or.inl le_rfl, by omega, by omega⟩, ?_, ?_⟩
    · unfold magnitudeBits
      omega
    · rw [two_zpow_add]
      norm_num
      ring

/-! ## Rounding at the exponent of a number -/

/--
The exponent at which a number has a mantissa of fifty-three bits, or of fewer at the least exponent, and the integer that
the mantissa is rounded to: the nearest one, at a tie an even one.
-/
structure RoundsAt (x : ℚ) (target : Int) (k : Nat) : Prop where
  least : leastExponent ≤ target
  lt : x < 2 ^ 53 * 2 ^ target
  normal : target = leastExponent ∨ 2 ^ 52 * 2 ^ target ≤ x
  near : |x / 2 ^ target - k| ≤ 1 / 2
  even : |x / 2 ^ target - k| = 1 / 2 → k % 2 = 0

theorem roundsAt_targetExponent {num den : Nat} (hnum : 0 < num) (hden : 0 < den) :
    RoundsAt (num / den) (targetExponent num den) (roundHalfEven (scaleDown num den (targetExponent num den)).1
      (scaleDown num den (targetExponent num den)).2) := by
  obtain ⟨hleast, hlt, hnormal⟩ := targetExponent_spec hnum hden
  have hratio := scaleDown_ratio num den (targetExponent num den)
  obtain ⟨hnear, heven⟩ := roundHalfEven_near (scaleDown num den (targetExponent num den)).1
    (scaleDown_pos num hden (targetExponent num den))
  rw [hratio] at hnear heven
  exact ⟨hleast, hlt, hnormal, hnear, heven⟩

namespace RoundsAt

variable {target : Int} {k : Nat}

theorem exponent_le {target' : Int} {k' : Nat} (h : RoundsAt x target k) (h' : RoundsAt x target' k') :
    target' ≤ target := by
  by_contra hlt
  have hlow := h'.normal.resolve_left (by have := h.least; omega)
  have hhigh : (2 : ℚ) ^ 53 * 2 ^ target ≤ 2 ^ 52 * 2 ^ target' := by
    calc (2 : ℚ) ^ 53 * 2 ^ target = 2 ^ 52 * 2 ^ (target + 1) := by
          rw [two_zpow_add]
          norm_num
          ring
      _ ≤ 2 ^ 52 * 2 ^ target' := mul_le_mul_of_nonneg_left (two_zpow_le (by omega)) (by norm_num)
  exact absurd h.lt (not_lt.mpr (hhigh.trans hlow))

/-- Rounding adds at most a half, so the mantissa keeps its number of bits or becomes the next power of two. -/
theorem mantissa_le (h : RoundsAt x target k) : k ≤ 2 ^ 53 := by
  have hquotient : x / 2 ^ target < 2 ^ 53 := (div_lt_iff₀ (two_zpow_pos target)).mpr h.lt
  obtain ⟨hlow, -⟩ := abs_le.mp h.near
  have hlt : (k : ℚ) < 2 ^ 53 + 1 := by linarith
  have hlt' : k < 2 ^ 53 + 1 := by exact_mod_cast hlt
  omega

theorem le_mantissa (h : RoundsAt x target k) : target = leastExponent ∨ 2 ^ 52 ≤ k := by
  refine h.normal.imp_right fun hlarge => ?_
  have hquotient : 2 ^ 52 ≤ x / 2 ^ target := (le_div_iff₀ (two_zpow_pos target)).mpr hlarge
  obtain ⟨-, hhigh⟩ := abs_le.mp h.near
  have hlt : (2 : ℚ) ^ 52 < k + 1 := by linarith
  have hlt' : 2 ^ 52 < k + 1 := by exact_mod_cast hlt
  omega

theorem nearest (h : RoundsAt x target k) (hrange : x < overflow) :
    ∃ mantissa exponent, Nearest mantissa exponent x ∧ magnitudeBits mantissa exponent = magnitudeBits k target ∧
      (mantissa : ℚ) * 2 ^ exponent = k * 2 ^ target := by
  have htop : target ≤ 971 := by
    rcases h.normal with heq | hlarge
    · rw [heq]
      decide
    · have hpower : (2 : ℚ) ^ (52 + target) < 2 ^ (53 + 971 : Int) := by
        calc (2 : ℚ) ^ (52 + target) = 2 ^ 52 * 2 ^ target := two_zpow_add 52 target
          _ < overflow := hlarge.trans_lt hrange
          _ < 2 ^ 53 * 2 ^ (971 : Int) := mul_lt_mul_of_pos_right (by norm_num) (two_zpow_pos _)
          _ = 2 ^ (53 + 971 : Int) := (two_zpow_add 53 971).symm
      have := (zpow_lt_zpow_iff_right₀ (by norm_num : (1 : ℚ) < 2)).mp hpower
      omega
  have hcarry : target = 971 → k < 2 ^ 53 := by
    rintro rfl
    have hquotient : x / 2 ^ (971 : Int) < 2 ^ 53 - 1 / 2 := (div_lt_iff₀ (two_zpow_pos _)).mpr hrange
    obtain ⟨hlow, -⟩ := abs_le.mp h.near
    have hlt : (k : ℚ) < 2 ^ 53 := by linarith
    exact_mod_cast hlt
  obtain ⟨mantissa, exponent, hc, hbits, hvalue⟩ := canonical_of_rounded h.least htop h.mantissa_le hcarry h.le_mantissa
  refine ⟨mantissa, exponent, ⟨hc, fun hc' => ?_⟩, hbits, hvalue⟩
  rw [hvalue]
  exact abs_sub_le_of_grid h.near h.normal hc'

/-- From the overflow on the bits of a rounded number are at least those of an infinity. -/
theorem infinityBits_le (h : RoundsAt x target k) (hrange : overflow ≤ x) : infinityBits ≤ magnitudeBits k target := by
  have hinfinity : infinityBits = 2047 * 2 ^ 52 := rfl
  have hleast : leastExponent = -1074 := rfl
  have htop : 971 ≤ target := by
    by_contra hlow
    have hle : (2 : ℚ) ^ 53 * 2 ^ target ≤ overflow := by
      calc (2 : ℚ) ^ 53 * 2 ^ target = 2 ^ 52 * 2 ^ (target + 1) := by
            rw [two_zpow_add]
            norm_num
            ring
        _ ≤ 2 ^ 52 * 2 ^ (971 : Int) := mul_le_mul_of_nonneg_left (two_zpow_le (by omega)) (by norm_num)
        _ ≤ overflow := mul_le_mul_of_nonneg_right (by norm_num) (two_zpow_pos _).le
    exact absurd h.lt (not_lt.mpr (hle.trans hrange))
  have hnormal : 2 ^ 52 ≤ k := h.le_mantissa.resolve_left (by omega)
  unfold magnitudeBits
  rcases htop.eq_or_lt with rfl | hmore
  · have hquotient : 2 ^ 53 - 1 / 2 ≤ x / 2 ^ (971 : Int) := (le_div_iff₀ (two_zpow_pos _)).mpr hrange
    have hround : k = 2 ^ 53 := by
      by_contra hne
      have hlast : k + 1 ≤ 2 ^ 53 := by
        have := h.mantissa_le
        omega
      have hlast' : (k : ℚ) + 1 ≤ 2 ^ 53 := by exact_mod_cast hlast
      obtain ⟨-, hhigh⟩ := abs_le.mp h.near
      have htie : x / 2 ^ (971 : Int) - k = 1 / 2 := by linarith
      have hk : (k : ℚ) + 1 = 2 ^ 53 := by linarith
      have hk' : k + 1 = 2 ^ 53 := by exact_mod_cast hk
      have heven := h.even (by rw [htie]; norm_num)
      omega
    omega
  · omega

end RoundsAt

/-! ## Fractions and decimal numbers -/

/-- The bits that a fraction is rounded to, by whatever way the exponent and the mantissa were found. -/
theorem nearestBits_eq_of_roundsAt {num den k : Nat} {target : Int} (hnum : 0 < num) (hden : 0 < den)
    (h : RoundsAt (num / den) target k) : nearestBits num den = min (magnitudeBits k target) infinityBits := by
  have hspec := roundsAt_targetExponent hnum hden
  obtain rfl : targetExponent num den = target := le_antisymm (h.exponent_le hspec) (hspec.exponent_le h)
  have hratio := scaleDown_ratio num den (targetExponent num den)
  have hround := roundHalfEven_eq (scaleDown_pos num hden (targetExponent num den)) (hratio ▸ h.near) (hratio ▸ h.even)
  exact congrArg (fun m => min (magnitudeBits m (targetExponent num den)) infinityBits) hround

theorem nearestBits_nearest {num den : Nat} (hnum : 0 < num) (hden : 0 < den) (hrange : (num : ℚ) / den < overflow) :
    ∃ mantissa exponent, Nearest mantissa exponent (num / den) ∧ nearestBits num den = magnitudeBits mantissa exponent := by
  have hspec := roundsAt_targetExponent hnum hden
  obtain ⟨mantissa, exponent, hnearest, hbits, -⟩ := hspec.nearest hrange
  refine ⟨mantissa, exponent, hnearest, ?_⟩
  rw [nearestBits_eq_of_roundsAt hnum hden hspec, ← hbits, min_eq_left (magnitudeBits_lt hnearest.canonical).le]

/-- To a number of at most half the least double zero is nearest. -/
theorem nearest_zero (h : 0 ≤ x) (hsmall : x ≤ 2 ^ (-1075 : Int)) : Nearest 0 leastExponent x := by
  refine ⟨⟨by norm_num, Or.inr rfl, le_rfl, by decide⟩, fun {mantissa' exponent'} hc => ?_⟩
  rw [Nat.cast_zero, zero_mul, zero_sub, abs_neg, abs_of_nonneg h]
  rcases Nat.eq_zero_or_pos mantissa' with rfl | hpos
  · rw [Nat.cast_zero, zero_mul, zero_sub, abs_neg, abs_of_nonneg h]
  · have hone : (1 : ℚ) ≤ mantissa' := by exact_mod_cast hpos
    have hleast : (2 : ℚ) ^ (-1074 : Int) ≤ mantissa' * 2 ^ exponent' :=
      (two_zpow_le hc.le_exponent).trans (le_mul_of_one_le_left (two_zpow_pos _).le hone)
    have hdouble : (2 : ℚ) ^ (-1074 : Int) = 2 * 2 ^ (-1075 : Int) := by
      rw [show (-1074 : Int) = 1 + -1075 by rfl, two_zpow_add, zpow_one]
    calc x ≤ mantissa' * 2 ^ exponent' - x := by linarith
      _ ≤ |mantissa' * 2 ^ exponent' - x| := le_abs_self _

theorem ofDecimal_nearest (negative : Bool) {coefficient : Nat} {e : Int}
    (hrange : (coefficient : ℚ) * 10 ^ e ≤ largest) :
    ∃ mantissa exponent, Nearest mantissa exponent (coefficient * 10 ^ e) ∧
      ofDecimal negative coefficient e = ofMagnitude negative (magnitudeBits mantissa exponent) := by
  have hten : (0 : ℚ) < 10 ^ e := zpow_pos (by norm_num) e
  have hnonneg : (0 : ℚ) ≤ coefficient * 10 ^ e := mul_nonneg (Nat.cast_nonneg _) hten.le
  unfold ofDecimal
  split
  · next hzero =>
    refine ⟨0, leastExponent, nearest_zero hnonneg ?_, rfl⟩
    rw [hzero, Nat.cast_zero, zero_mul]
    exact (two_zpow_pos _).le
  · next hcoefficient =>
    have hpos : 0 < coefficient := Nat.pos_of_ne_zero hcoefficient
    split
    · next hlarge =>
      exfalso
      have hone : (1 : ℚ) ≤ coefficient := by exact_mod_cast hpos
      have hpower : (10 : ℚ) ^ (400 : Int) ≤ 10 ^ e := zpow_le_zpow_right₀ (by norm_num) hlarge.le
      have hproduct : (10 : ℚ) ^ e ≤ coefficient * 10 ^ e := le_mul_of_one_le_left hten.le hone
      have htop : largest < 2 ^ (1200 : Int) := by
        calc largest < 2 ^ 53 * 2 ^ (971 : Int) := mul_lt_mul_of_pos_right (by norm_num) (two_zpow_pos _)
          _ = 2 ^ (53 + 971 : Int) := (two_zpow_add 53 971).symm
          _ ≤ 2 ^ (1200 : Int) := two_zpow_le (by decide)
      exact absurd htop (not_lt.mpr (two_zpow_le_ten.trans (hpower.trans (hproduct.trans hrange))))
    · split
      · next hsmall =>
        exact ⟨0, leastExponent, nearest_zero hnonneg (decimal_lt_half_least hsmall).le, rfl⟩
      · have hnum : 0 < coefficient * 10 ^ e.toNat := Nat.mul_pos hpos (Nat.pow_pos (by decide))
        have hden : 0 < 10 ^ (-e).toNat := Nat.pow_pos (by decide)
        rw [← decimal_ratio coefficient e] at hrange ⊢
        obtain ⟨mantissa, exponent, hnearest, hbits⟩ := nearestBits_nearest hnum hden (hrange.trans_lt largest_lt_overflow)
        exact ⟨mantissa, exponent, hnearest, by rw [nearest, if_neg hnum.ne', hbits]⟩

end Reckoner.Double
