import Reckoner.Proofs.Number.Bits

/-!
# Rounding to the nearest double

An exact number rounds to `mantissa * 2 ^ exponent` when it lies between the midpoints to the neighbouring
doubles; a midpoint itself rounds to an even mantissa. Below a power of two the doubles are twice as dense, and the
midpoint is closer. `nearestBits` and `ofDecimal` give the double that the exact number rounds to.
-/

namespace Reckoner.Double

set_option autoImplicit false

/-! ## Powers with integer exponents -/

theorem pow_toNat_div (b : ℚ) (e : Int) : b ^ e.toNat / b ^ (-e).toNat = b ^ e := by
  rcases le_total 0 e with h | h
  · have hneg : (-e).toNat = 0 := by omega
    rw [hneg, pow_zero, div_one, ← zpow_natCast, Int.toNat_of_nonneg h]
  · have hpos : e.toNat = 0 := by omega
    rw [hpos, pow_zero, one_div, ← zpow_natCast, Int.toNat_of_nonneg (by omega), zpow_neg, inv_inv]

theorem scaleDown_ratio (num den : Nat) (e : Int) :
    (((scaleDown num den e).1 : ℚ) / (scaleDown num den e).2) = (num : ℚ) / den / 2 ^ e := by
  rw [← pow_toNat_div 2 e]
  simp only [scaleDown]
  push_cast
  rw [div_div_eq_mul_div, div_mul_eq_mul_div, div_div]

theorem scaleDown_pos (num : Nat) {den : Nat} (hden : 0 < den) (e : Int) : 0 < (scaleDown num den e).2 :=
  Nat.mul_pos hden (Nat.two_pow_pos _)

/-! ## The nearest integer -/

/-- In units of a grid a point of it is as far from a number as the scaled number is from an integer. -/
theorem abs_mul_sub {unit : ℚ} (hunit : 0 < unit) (y x : ℚ) : |y * unit - x| = |y - x / unit| * unit := by
  rw [← abs_of_pos hunit, ← abs_mul, abs_of_pos hunit, sub_mul, div_mul_cancel₀ _ hunit.ne']

/-- No other integer is nearer to a number than one within a half of it. -/
theorem nearest_intCast_le {y : ℚ} {k : Int} (h : |y - k| ≤ 1 / 2) (j : Int) : |k - y| ≤ |j - y| := by
  rw [abs_sub_comm] at h
  by_cases hsame : j = k
  · rw [hsame]
  · have hapart : (1 : ℚ) ≤ |(j : ℚ) - k| := by exact_mod_cast Int.one_le_abs (sub_ne_zero.mpr hsame)
    have htriangle : |(j : ℚ) - k| ≤ |j - y| + |k - y| := by
      rw [abs_sub_comm (k : ℚ) y]
      exact abs_sub_le _ _ _
    linarith

/-- A fraction is its nearest integer, up to a rest of at most a half on either side. -/
theorem roundHalfEven_rest (num : Nat) {den : Nat} (hden : 0 < den) :
    ∃ rest : Nat, 2 * rest ≤ den ∧ (2 * rest = den → roundHalfEven num den % 2 = 0) ∧
      (num = den * roundHalfEven num den + rest ∨ num + rest = den * roundHalfEven num den) := by
  have hsplit := Nat.div_add_mod num den
  have hlt := Nat.mod_lt num hden
  have hsucc : den * (num / den + 1) = den * (num / den) + den := by rw [Nat.mul_add, Nat.mul_one]
  unfold roundHalfEven
  simp only
  split
  · exact ⟨num % den, by omega, by omega, Or.inl (by omega)⟩
  · split
    · exact ⟨den - num % den, by omega, by omega, Or.inr (by omega)⟩
    · rcases Nat.mod_two_eq_zero_or_one (num / den) with h | h
      · rw [h, Nat.add_zero]
        exact ⟨num % den, by omega, fun _ => h, Or.inl (by omega)⟩
      · rw [h]
        exact ⟨den - num % den, by omega, by omega, Or.inr (by omega)⟩

theorem roundHalfEven_near (num : Nat) {den : Nat} (hden : 0 < den) :
    |(num : ℚ) / den - roundHalfEven num den| ≤ 1 / 2 ∧
      (|(num : ℚ) / den - roundHalfEven num den| = 1 / 2 → roundHalfEven num den % 2 = 0) := by
  have hden' : (0 : ℚ) < den := by exact_mod_cast hden
  obtain ⟨rest, hle, htie, hsplit⟩ := roundHalfEven_rest num hden
  have hdistance : |(num : ℚ) / den - roundHalfEven num den| = rest / den := by
    have hrest : (0 : ℚ) ≤ rest / den := by positivity
    rcases hsplit with hsplit | hsplit
    · have hnum : (num : ℚ) = den * roundHalfEven num den + rest := by exact_mod_cast hsplit
      have hdifference : (num : ℚ) / den - roundHalfEven num den = rest / den := by
        rw [hnum]
        field_simp
        ring
      rw [hdifference, abs_of_nonneg hrest]
    · have hnum : (num : ℚ) = den * roundHalfEven num den - rest := by
        rw [eq_sub_iff_add_eq]
        exact_mod_cast hsplit
      have hdifference : (num : ℚ) / den - roundHalfEven num den = -(rest / den) := by
        rw [hnum]
        field_simp
        ring
      rw [hdifference, abs_neg, abs_of_nonneg hrest]
  have hle' : (2 * rest : ℚ) ≤ den := by exact_mod_cast hle
  rw [hdistance]
  refine ⟨by rw [div_le_iff₀ hden']; linarith, fun heq => htie ?_⟩
  rw [div_eq_iff hden'.ne'] at heq
  have htwice : (2 * rest : ℚ) = den := by linarith
  exact_mod_cast htwice

theorem roundHalfEven_eq {num den k : Nat} (hden : 0 < den) (h : |(num : ℚ) / den - k| ≤ 1 / 2)
    (htie : |(num : ℚ) / den - k| = 1 / 2 → k % 2 = 0) : roundHalfEven num den = k := by
  obtain ⟨hnear, htie'⟩ := roundHalfEven_near num hden
  generalize roundHalfEven num den = k' at hnear htie'
  generalize (num : ℚ) / den = x at h htie hnear htie'
  obtain ⟨hlow, hhigh⟩ := abs_le.mp h
  obtain ⟨hlow', hhigh'⟩ := abs_le.mp hnear
  have hle : (k' : ℚ) ≤ k + 1 := by linarith
  have hge : (k : ℚ) ≤ k' + 1 := by linarith
  have hle' : k' ≤ k + 1 := by exact_mod_cast hle
  have hge' : k ≤ k' + 1 := by exact_mod_cast hge
  rcases Nat.lt_trichotomy k' k with hlt | heq | hgt
  · obtain rfl : k = k' + 1 := by omega
    push_cast at *
    have heven := htie (by rw [abs_of_nonpos] <;> linarith)
    have heven' := htie' (by rw [abs_of_nonneg] <;> linarith)
    omega
  · exact heq
  · obtain rfl : k' = k + 1 := by omega
    push_cast at *
    have heven := htie (by rw [abs_of_nonneg] <;> linarith)
    have heven' := htie' (by rw [abs_of_nonpos] <;> linarith)
    omega

/-! ## The exponent of a fraction -/

theorem two_zpow_pos (e : Int) : (0 : ℚ) < 2 ^ e := zpow_pos (by norm_num) e

theorem two_zpow_le {a b : Int} (h : a ≤ b) : (2 : ℚ) ^ a ≤ 2 ^ b := zpow_le_zpow_right₀ (by norm_num) h

theorem two_zpow_add (a b : Int) : (2 : ℚ) ^ (a + b) = 2 ^ a * 2 ^ b := zpow_add₀ (by norm_num) a b

/-- A fraction lies within a factor of two of the quotient of the leading powers of two. -/
theorem log2_ratio {num den : Nat} (hnum : 0 < num) (hden : 0 < den) :
    (2 : ℚ) ^ ((num.log2 : Int) - den.log2 - 1) ≤ num / den ∧ (num : ℚ) / den < 2 ^ ((num.log2 : Int) - den.log2 + 1) := by
  have hden' : (0 : ℚ) < den := by exact_mod_cast hden
  have hnumLow : (2 : ℚ) ^ (num.log2 : Int) ≤ num := by
    rw [zpow_natCast]
    exact_mod_cast Nat.log2_self_le hnum.ne'
  have hnumHigh : (num : ℚ) < 2 ^ ((num.log2 : Int) + 1) := by
    rw [← Nat.cast_succ, zpow_natCast]
    exact_mod_cast Nat.lt_log2_self
  have hdenLow : (2 : ℚ) ^ (den.log2 : Int) ≤ den := by
    rw [zpow_natCast]
    exact_mod_cast Nat.log2_self_le hden.ne'
  have hdenHigh : (den : ℚ) < 2 ^ ((den.log2 : Int) + 1) := by
    rw [← Nat.cast_succ, zpow_natCast]
    exact_mod_cast Nat.lt_log2_self
  constructor
  · rw [le_div_iff₀ hden']
    calc (2 : ℚ) ^ ((num.log2 : Int) - den.log2 - 1) * den
        ≤ 2 ^ ((num.log2 : Int) - den.log2 - 1) * 2 ^ ((den.log2 : Int) + 1) :=
          mul_le_mul_of_nonneg_left hdenHigh.le (two_zpow_pos _).le
      _ = 2 ^ (num.log2 : Int) := by
          rw [← two_zpow_add]
          congr 1
          ring
      _ ≤ num := hnumLow
  · rw [div_lt_iff₀ hden']
    calc (num : ℚ) < 2 ^ ((num.log2 : Int) + 1) := hnumHigh
      _ = 2 ^ ((num.log2 : Int) - den.log2 + 1) * 2 ^ (den.log2 : Int) := by
          rw [← two_zpow_add]
          congr 1
          ring
      _ ≤ 2 ^ ((num.log2 : Int) - den.log2 + 1) * den := mul_le_mul_of_nonneg_left hdenLow (two_zpow_pos _).le

/-- At the target exponent the mantissa has fifty-three bits, or fewer at the least exponent. -/
theorem targetExponent_spec {num den : Nat} (hnum : 0 < num) (hden : 0 < den) :
    leastExponent ≤ targetExponent num den ∧ (num : ℚ) / den < 2 ^ 53 * 2 ^ targetExponent num den ∧
      (targetExponent num den = leastExponent ∨ (2 : ℚ) ^ 52 * 2 ^ targetExponent num den ≤ num / den) := by
  obtain ⟨hlow, hhigh⟩ := log2_ratio hnum hden
  unfold targetExponent
  simp only
  generalize hguess : max ((num.log2 : Int) - den.log2 - 53) leastExponent = guess
  have hguessPos := two_zpow_pos guess
  have hratio := scaleDown_ratio num den guess
  have hscaledPos := scaleDown_pos num hden guess
  have hscaledPos' : (0 : ℚ) < (scaleDown num den guess).2 := by exact_mod_cast hscaledPos
  have hquotient : (scaleDown num den guess).1 / (scaleDown num den guess).2 < 2 ^ 53 ↔
      (num : ℚ) / den < 2 ^ 53 * 2 ^ guess := by
    rw [Nat.div_lt_iff_lt_mul hscaledPos, ← div_lt_iff₀ hguessPos, ← hratio, div_lt_iff₀ hscaledPos']
    exact_mod_cast Iff.rfl
  split
  · next hsmall =>
    refine ⟨by omega, hquotient.mp hsmall, ?_⟩
    by_cases hleast : guess = leastExponent
    · exact Or.inl hleast
    · right
      have hexponent : (num.log2 : Int) - den.log2 - 1 = 52 + guess := by omega
      rw [hexponent, two_zpow_add] at hlow
      exact_mod_cast hlow
  · next hlarge =>
    rw [hquotient, not_lt] at hlarge
    have hsucc : (2 : ℚ) ^ (guess + 1) = 2 ^ guess * 2 := by rw [two_zpow_add, zpow_one]
    refine ⟨by omega, ?_, Or.inr ?_⟩
    · calc (num : ℚ) / den < 2 ^ ((num.log2 : Int) - den.log2 + 1) := hhigh
        _ ≤ 2 ^ (53 + (guess + 1)) := two_zpow_le (by omega)
        _ = 2 ^ 53 * 2 ^ (guess + 1) := by
            rw [two_zpow_add]
            norm_num
    · rw [hsucc]
      linarith

/-! ## Numbers that round to a double -/

/-- How far below a mantissa its numbers reach, in units of the last place. -/
def lowerGap (mantissa : Nat) (exponent : Int) : ℚ :=
  if mantissa = 2 ^ 52 ∧ leastExponent < exponent then 1 / 4 else 1 / 2

/-- The number rounds to the double `mantissa * 2 ^ exponent`. -/
structure RoundsTo (mantissa : Nat) (exponent : Int) (x : ℚ) : Prop where
  lower : (mantissa - lowerGap mantissa exponent) * 2 ^ exponent ≤ x
  upper : x ≤ (mantissa + 1 / 2) * 2 ^ exponent
  tie : x = (mantissa - lowerGap mantissa exponent) * 2 ^ exponent ∨ x = (mantissa + 1 / 2) * 2 ^ exponent →
    mantissa % 2 = 0

theorem lowerGap_le (mantissa : Nat) (exponent : Int) : lowerGap mantissa exponent ≤ 1 / 2 := by
  unfold lowerGap
  split <;> norm_num

section
variable {mantissa : Nat} {exponent : Int} {x : ℚ}

theorem RoundsTo.lt (hc : Canonical mantissa exponent) (h : RoundsTo mantissa exponent x) :
    x < 2 ^ 53 * 2 ^ exponent := by
  have hmantissa : (mantissa : ℚ) + 1 ≤ 2 ^ 53 := by exact_mod_cast hc.mantissa_lt
  calc x ≤ (mantissa + 1 / 2) * 2 ^ exponent := h.upper
    _ < 2 ^ 53 * 2 ^ exponent := mul_lt_mul_of_pos_right (by linarith) (two_zpow_pos exponent)

/-- At the exponent of the double the mantissa is the nearest integer. -/
theorem RoundsTo.near (h : RoundsTo mantissa exponent x) :
    |x / 2 ^ exponent - mantissa| ≤ 1 / 2 ∧ (|x / 2 ^ exponent - mantissa| = 1 / 2 → mantissa % 2 = 0) := by
  have hpos := two_zpow_pos exponent
  have hgap := lowerGap_le mantissa exponent
  have hlow : (mantissa : ℚ) - lowerGap mantissa exponent ≤ x / 2 ^ exponent := (le_div_iff₀ hpos).mpr h.lower
  have hhigh : x / 2 ^ exponent ≤ mantissa + 1 / 2 := (div_le_iff₀ hpos).mpr h.upper
  refine ⟨abs_le.mpr ⟨by linarith, by linarith⟩, fun heq => h.tie ?_⟩
  rcases abs_eq (by norm_num : (0 : ℚ) ≤ 1 / 2) |>.mp heq with hup | hdown
  · right
    rw [← div_eq_iff hpos.ne']
    linarith
  · left
    rw [← div_eq_iff hpos.ne']
    linarith

/-- Below the least mantissa of an exponent only the numbers close to the power of two remain. -/
theorem RoundsTo.below (hc : Canonical mantissa exponent) (h : RoundsTo mantissa exponent x)
    (hleast : leastExponent < exponent) (hbelow : x < 2 ^ 52 * 2 ^ exponent) :
    mantissa = 2 ^ 52 ∧ (2 ^ 52 - 1 / 4) * 2 ^ exponent ≤ x := by
  have hpos := two_zpow_pos exponent
  have hgap := lowerGap_le mantissa exponent
  have hlower := h.lower
  have hlt : (mantissa : ℚ) - lowerGap mantissa exponent < 2 ^ 52 :=
    lt_of_mul_lt_mul_right (lt_of_le_of_lt hlower hbelow) hpos.le
  have hlt' : (mantissa : ℚ) < 2 ^ 52 + 1 := by linarith
  have hlt'' : mantissa < 2 ^ 52 + 1 := by exact_mod_cast hlt'
  have hnormal : 2 ^ 52 ≤ mantissa := hc.normal.resolve_right hleast.ne'
  obtain rfl : mantissa = 2 ^ 52 := by omega
  refine ⟨rfl, ?_⟩
  rw [lowerGap, if_pos ⟨rfl, hleast⟩] at hlower
  exact_mod_cast hlower

/-- A fraction below the exponent of its double lies just below a power of two and is rounded up to it. -/
theorem RoundsTo.rounds_up {num den : Nat} {target : Int} (h : RoundsTo mantissa exponent (num / den)) (hden : 0 < den)
    (hc : Canonical mantissa exponent) (hleast : leastExponent ≤ target) (hlt : (num : ℚ) / den < 2 ^ 53 * 2 ^ target)
    (hless : target < exponent) :
    mantissa = 2 ^ 52 ∧ exponent = target + 1 ∧
      roundHalfEven (scaleDown num den target).1 (scaleDown num den target).2 = 2 ^ 53 := by
  have hpos := two_zpow_pos target
  have hdouble : (2 : ℚ) * 2 ^ target ≤ 2 ^ exponent := by
    have hle := two_zpow_le (show target + 1 ≤ exponent by omega)
    rw [two_zpow_add, zpow_one] at hle
    linarith
  have hbelow : (num : ℚ) / den < 2 ^ 52 * 2 ^ exponent := by linarith
  obtain ⟨hmantissa, hclose⟩ := h.below hc (by omega) hbelow
  have hsucc : exponent = target + 1 := by
    by_contra hne
    have hle := two_zpow_le (show target + 2 ≤ exponent by omega)
    rw [two_zpow_add] at hle
    norm_num at hle hclose hlt
    linarith
  refine ⟨hmantissa, hsucc, roundHalfEven_eq (scaleDown_pos num hden target) ?_ (fun _ => by norm_num)⟩
  have hlow : (2 : ℚ) ^ 53 - 1 / 2 ≤ num / den / 2 ^ target := by
    rw [le_div_iff₀ hpos]
    rw [hsucc, two_zpow_add, zpow_one] at hclose
    linarith
  have hhigh : (num : ℚ) / den / 2 ^ target < 2 ^ 53 := (div_lt_iff₀ hpos).mpr hlt
  rw [scaleDown_ratio]
  push_cast
  exact abs_le.mpr ⟨by linarith, by linarith⟩

theorem nearestBits_eq {num den : Nat} (hnum : 0 < num) (hden : 0 < den) (hc : Canonical mantissa exponent)
    (h : RoundsTo mantissa exponent (num / den)) : nearestBits num den = magnitudeBits mantissa exponent := by
  obtain ⟨hleast, hlt, hnormal⟩ := targetExponent_spec hnum hden
  have hbits := magnitudeBits_lt hc
  have hratio := scaleDown_ratio num den (targetExponent num den)
  have hscaled := scaleDown_pos num hden (targetExponent num den)
  unfold nearestBits
  simp only
  generalize targetExponent num den = target at *
  rcases lt_trichotomy target exponent with hless | rfl | hgreater
  · obtain ⟨rfl, rfl, hround⟩ := h.rounds_up hden hc hleast hlt hless
    rw [hround]
    unfold magnitudeBits at hbits ⊢
    omega
  · obtain ⟨hnear, htie⟩ := h.near
    have hround := roundHalfEven_eq hscaled (hratio ▸ hnear) (hratio ▸ htie)
    rw [hround]
    unfold magnitudeBits at hbits ⊢
    omega
  · exfalso
    have hdouble : (2 : ℚ) * 2 ^ exponent ≤ 2 ^ target := by
      have hle := two_zpow_le (show exponent + 1 ≤ target by omega)
      rw [two_zpow_add, zpow_one] at hle
      linarith
    have hlow := hnormal.resolve_left (by have := hc.le_exponent; omega)
    have hhigh := h.lt hc
    linarith

/-! ## Decimal numbers -/

theorem RoundsTo.pos (hm : 0 < mantissa) (h : RoundsTo mantissa exponent x) : 2 ^ (exponent - 1) ≤ x := by
  have hgap := lowerGap_le mantissa exponent
  have hone : (1 : ℚ) ≤ mantissa := by exact_mod_cast hm
  calc (2 : ℚ) ^ (exponent - 1) = 1 / 2 * 2 ^ exponent := by
        rw [zpow_sub₀ (by norm_num), zpow_one]
        ring
    _ ≤ (mantissa - lowerGap mantissa exponent) * 2 ^ exponent :=
        mul_le_mul_of_nonneg_right (by linarith) (two_zpow_pos exponent).le
    _ ≤ x := h.lower

/-- A power of ten beyond the range of the doubles, in both directions. -/
theorem two_zpow_le_ten : (2 : ℚ) ^ (1200 : Int) ≤ 10 ^ (400 : Int) := by
  have hthird : (2 : ℚ) ^ (1200 : Int) = (2 ^ 3) ^ (400 : Nat) := by
    rw [← pow_mul]
    rfl
  rw [hthird]
  exact pow_le_pow_left₀ (by norm_num) (by norm_num) 400

/-- Beyond the largest power of ten lies no number that rounds to a finite double. -/
theorem exponent_le_of_roundsTo (hc : Canonical mantissa exponent) {coefficient : Nat} {e : Int}
    (hcoefficient : 0 < coefficient) (h : RoundsTo mantissa exponent (coefficient * 10 ^ e)) : e ≤ 400 := by
  by_contra hlarge
  have hlt := h.lt hc
  have hone : (1 : ℚ) ≤ coefficient := by exact_mod_cast hcoefficient
  have hpower : (10 : ℚ) ^ (400 : Int) ≤ 10 ^ e := zpow_le_zpow_right₀ (by norm_num) (by omega)
  have htop : (2 : ℚ) ^ 53 * 2 ^ exponent ≤ 2 ^ (1200 : Int) := by
    rw [← zpow_natCast, ← two_zpow_add]
    exact two_zpow_le (by have := hc.exponent_le; push_cast; omega)
  have hpos : (0 : ℚ) < 10 ^ e := zpow_pos (by norm_num) e
  have hproduct : (10 : ℚ) ^ e ≤ coefficient * 10 ^ e := le_mul_of_one_le_left hpos.le hone
  exact not_lt.mpr (htop.trans (two_zpow_le_ten.trans (hpower.trans hproduct))) hlt

/-- Below the smallest power of ten lie only numbers of less than half the least double. -/
theorem decimal_lt_half_least {coefficient : Nat} {e : Int} (hsmall : e < -(400 + (coefficient.log2 : Int))) :
    (coefficient : ℚ) * 10 ^ e < 2 ^ (-1075 : Int) := by
  have hcoefficient : (coefficient : ℚ) < 2 ^ (coefficient.log2 + 1) := by exact_mod_cast Nat.lt_log2_self
  have hten : (2 : ℚ) ^ coefficient.log2 ≤ 10 ^ coefficient.log2 := pow_le_pow_left₀ (by norm_num) (by norm_num) _
  have hpower : (10 : ℚ) ^ e ≤ 10 ^ (-400 : Int) / 10 ^ coefficient.log2 := by
    calc (10 : ℚ) ^ e ≤ 10 ^ (-400 - (coefficient.log2 : Int)) := zpow_le_zpow_right₀ (by norm_num) (by omega)
      _ = 10 ^ (-400 : Int) / 10 ^ coefficient.log2 := by rw [zpow_sub₀ (by norm_num), zpow_natCast]
  have hpos10 : (0 : ℚ) < 10 ^ coefficient.log2 := by positivity
  have hbound : (10 : ℚ) ^ (-400 : Int) ≤ 2 ^ (-1200 : Int) := by
    rw [zpow_neg, zpow_neg]
    exact inv_anti₀ (two_zpow_pos _) two_zpow_le_ten
  calc (coefficient : ℚ) * 10 ^ e
      ≤ 2 ^ (coefficient.log2 + 1) * (10 ^ (-400 : Int) / 10 ^ coefficient.log2) :=
        mul_le_mul hcoefficient.le hpower (by positivity) (by positivity)
    _ = 2 ^ coefficient.log2 / 10 ^ coefficient.log2 * (2 * 10 ^ (-400 : Int)) := by
        rw [pow_succ]
        ring
    _ ≤ 1 * (2 * 10 ^ (-400 : Int)) :=
        mul_le_mul_of_nonneg_right ((div_le_one hpos10).mpr hten) (by positivity)
    _ ≤ 2 * 2 ^ (-1200 : Int) := by linarith
    _ < 2 ^ (-1075 : Int) := by
        rw [← zpow_one_add₀ (by norm_num)]
        exact zpow_lt_zpow_right₀ (by norm_num) (by norm_num)

/-- Below the smallest power of ten lies no number that rounds to a positive double. -/
theorem le_exponent_of_roundsTo (hc : Canonical mantissa exponent) (hm : 0 < mantissa) {coefficient : Nat} {e : Int}
    (h : RoundsTo mantissa exponent (coefficient * 10 ^ e)) : -(400 + (coefficient.log2 : Int)) ≤ e := by
  by_contra hsmall
  have hpos := h.pos hm
  have hleast : (2 : ℚ) ^ (-1075 : Int) ≤ 2 ^ (exponent - 1) := two_zpow_le (by
    have hle := hc.le_exponent
    have heq : leastExponent = -1074 := rfl
    omega)
  exact not_lt.mpr (hleast.trans hpos) (decimal_lt_half_least (not_le.mp hsmall))

theorem decimal_ratio (coefficient : Nat) (e : Int) :
    ((coefficient * 10 ^ e.toNat : Nat) : ℚ) / (10 ^ (-e).toNat : Nat) = coefficient * 10 ^ e := by
  push_cast
  rw [mul_div_assoc, pow_toNat_div]

theorem ofDecimal_eq (negative : Bool) (hc : Canonical mantissa exponent) (hm : 0 < mantissa) {coefficient : Nat}
    {e : Int} (h : RoundsTo mantissa exponent (coefficient * 10 ^ e)) :
    ofDecimal negative coefficient e = ofMagnitude negative (magnitudeBits mantissa exponent) := by
  have hcoefficient : 0 < coefficient := by
    rw [Nat.pos_iff_ne_zero]
    rintro rfl
    have hpos := h.pos hm
    rw [Nat.cast_zero, zero_mul] at hpos
    exact absurd (two_zpow_pos (exponent - 1)) (not_lt.mpr hpos)
  have hnum : 0 < coefficient * 10 ^ e.toNat := by positivity
  have hden : 0 < 10 ^ (-e).toNat := by positivity
  have hratio := decimal_ratio coefficient e
  have hlow := le_exponent_of_roundsTo hc hm h
  have hhigh := exponent_le_of_roundsTo hc hcoefficient h
  rw [ofDecimal, if_neg hcoefficient.ne', if_neg (by omega), if_neg (by omega), nearest, if_neg hnum.ne',
    nearestBits_eq hnum hden hc (hratio ▸ h)]

end

end Reckoner.Double
