import Reckoner.Proofs.Number.Rounded

/-!
# Arithmetic on finite doubles

The sum, the difference, the product and the quotient of two finite doubles are the exact results rounded once. A mantissa
that is shifted to the right keeps a round bit and a sticky bit, and these two tell on which side of the middle between two
mantissas the exact number lies.
-/

namespace Reckoner.Double

open Float.Model (Format UnpackedFloat totalExponent)
open Float.Model.UnpackedFloat (Sign Accuracy ExtendedMantissa)

set_option autoImplicit false

/-! ## Mantissas with a round bit and a sticky bit -/

/-- The mantissa and the round bit are the number cut off behind them; the sticky bit tells whether anything was cut off. -/
structure Represents (m : ExtendedMantissa) (x : ℚ) : Prop where
  lower : m.mantissa + m.roundBit.toNat / 2 ≤ x
  upper : x < m.mantissa + m.roundBit.toNat / 2 + 1 / 2
  sticky : m.stickyBit = false ↔ x = m.mantissa + m.roundBit.toNat / 2

theorem represents_exact (m : Nat) : Represents (.ofMantissaAndAccuracy m .exact) m := by
  refine ⟨?_, ?_, ?_⟩ <;> simp [ExtendedMantissa.ofMantissaAndAccuracy]

theorem represents_inexact (mantissa : Nat) {roundBit : Bool} {rest : ℚ} (hlow : roundBit.toNat / 2 < rest)
    (hhigh : rest < roundBit.toNat / 2 + 1 / 2) : Represents ⟨mantissa, roundBit, true⟩ (mantissa + rest) := by
  refine ⟨by dsimp only; linarith, by dsimp only; linarith, ⟨fun h => absurd h.symm Bool.false_ne_true, fun h => ?_⟩⟩
  dsimp only at h
  linarith

/-- A quotient of integers is its integer part with the accuracy of the rest. -/
theorem represents_fraction (num : Nat) {den : Nat} (hden : 0 < den) :
    Represents (.ofMantissaAndAccuracy (num / den) (UnpackedFloat.accuracyOfFraction (num % den) den)) (num / den) := by
  have hden' : (0 : ℚ) < den := by exact_mod_cast hden
  have hsplit : (num : ℚ) / den = (num / den : Nat) + (num % den : Nat) / den := by
    rw [div_eq_iff hden'.ne', add_mul, div_mul_cancel₀ _ hden'.ne']
    exact_mod_cast (Nat.div_add_mod' num den).symm
  have hrest : ((num % den : Nat) : ℚ) / den < 1 := (div_lt_one hden').mpr (by exact_mod_cast Nat.mod_lt num hden)
  have hnonneg : (0 : ℚ) ≤ (num % den : Nat) / den := div_nonneg (Nat.cast_nonneg _) hden'.le
  rw [hsplit]
  unfold UnpackedFloat.accuracyOfFraction
  split
  · next hzero =>
    rw [hzero, Nat.cast_zero, zero_div, add_zero]
    exact represents_exact _
  · next hpositive =>
    have hpos : (0 : ℚ) < (num % den : Nat) / den := div_pos (by exact_mod_cast Nat.pos_of_ne_zero hpositive) hden'
    rcases lt_trichotomy (2 * (num % den)) den with hless | heq | hgreater
    · have hhalf : ((num % den : Nat) : ℚ) / den < 1 / 2 := by
        rw [div_lt_iff₀ hden']
        have : (2 * (num % den : Nat) : ℚ) < den := by exact_mod_cast hless
        linarith
      rw [Nat.compare_eq_lt.mpr hless]
      exact represents_inexact _ (by simpa using hpos) (by simpa using hhalf)
    · have hhalf : ((num % den : Nat) : ℚ) / den = 1 / 2 := by
        rw [div_eq_iff hden'.ne']
        have : (2 * (num % den : Nat) : ℚ) = den := by exact_mod_cast heq
        linarith
      rw [Nat.compare_eq_eq.mpr heq, hhalf]
      refine ⟨?_, ?_, ?_⟩ <;> simp [ExtendedMantissa.ofMantissaAndAccuracy]
    · have hhalf : 1 / 2 < ((num % den : Nat) : ℚ) / den := by
        rw [lt_div_iff₀ hden']
        have : (den : ℚ) < 2 * (num % den : Nat) := by exact_mod_cast hgreater
        linarith
      rw [Nat.compare_eq_gt.mpr hgreater]
      refine represents_inexact _ (by simpa using hhalf) ?_
      rw [Bool.toNat_true, Nat.cast_one]
      linarith

namespace Represents

variable {m : ExtendedMantissa} {x : ℚ}

/-- A shift by one place moves the last bit to the round bit and the round bit to the sticky bit. -/
theorem shiftRightOne (h : Represents m x) : Represents m.shiftRightOne (x / 2) := by
  obtain ⟨mantissa, roundBit, stickyBit⟩ := m
  obtain ⟨hlower, hupper, hsticky⟩ := h
  have hsplit : (mantissa : ℚ) = 2 * (mantissa / 2 : Nat) + (mantissa % 2 : Nat) := by
    exact_mod_cast (Nat.div_add_mod mantissa 2).symm
  have hbit : ((mantissa % 2 != 0 : Bool).toNat : ℚ) = (mantissa % 2 : Nat) := by
    rcases Nat.mod_two_eq_zero_or_one mantissa with heven | hodd
    · rw [heven]; rfl
    · rw [hodd]; rfl
  have hround : ((roundBit.toNat : Nat) : ℚ) = 0 ∨ (roundBit.toNat : ℚ) = 1 := by cases roundBit <;> simp
  dsimp only at hlower hupper hsticky
  refine ⟨?_, ?_, ?_⟩
  · change ((mantissa / 2 : Nat) : ℚ) + ((mantissa % 2 != 0 : Bool).toNat : ℚ) / 2 ≤ x / 2
    rw [hbit]
    rcases hround with hzero | hone <;> linarith
  · change x / 2 < ((mantissa / 2 : Nat) : ℚ) + ((mantissa % 2 != 0 : Bool).toNat : ℚ) / 2 + 1 / 2
    rw [hbit]
    rcases hround with hzero | hone <;> linarith
  · change (roundBit || stickyBit) = false ↔ x / 2 = ((mantissa / 2 : Nat) : ℚ) + ((mantissa % 2 != 0 : Bool).toNat : ℚ) / 2
    rw [hbit]
    cases roundBit with
    | false =>
      rw [Bool.false_or, hsticky, Bool.toNat_false, Nat.cast_zero]
      constructor <;> intro heq <;> linarith
    | true =>
      rw [Bool.toNat_true, Nat.cast_one] at hlower
      refine ⟨fun h => absurd h (by rw [Bool.true_or]; decide), fun heq => ?_⟩
      linarith

theorem shiftRight (h : Represents m x) (count : Nat) : Represents (m >>> count) (x / 2 ^ count) := by
  change Represents (Nat.repeat ExtendedMantissa.shiftRightOne count m) _
  induction count with
  | zero => rwa [pow_zero, div_one]
  | succ count ih =>
    rw [pow_succ, ← div_div]
    exact ih.shiftRightOne

/-- The rounded mantissa is the nearest integer, an even one at a tie. -/
theorem roundedMantissa (h : Represents m x) :
    |x - m.roundedMantissa| ≤ 1 / 2 ∧ (|x - m.roundedMantissa| = 1 / 2 → m.roundedMantissa % 2 = 0) := by
  obtain ⟨mantissa, roundBit, stickyBit⟩ := m
  obtain ⟨hlower, hupper, hsticky⟩ := h
  cases roundBit <;> cases stickyBit <;>
    simp only [Bool.toNat_false, Bool.toNat_true, Nat.cast_zero, Nat.cast_one] at hlower hupper hsticky
  · have heq : x = mantissa := by linarith [hsticky.mp trivial]
    change |x - mantissa| ≤ 1 / 2 ∧ (|x - mantissa| = 1 / 2 → mantissa % 2 = 0)
    rw [heq, sub_self, abs_zero]
    norm_num
  · have hne : x ≠ mantissa := fun heq => absurd (hsticky.mpr (by linarith)) (by decide)
    have hlt : |x - mantissa| < 1 / 2 := abs_lt.mpr ⟨by linarith, by linarith⟩
    exact ⟨hlt.le, fun heq => absurd heq hlt.ne⟩
  · have heq : x = mantissa + 1 / 2 := by linarith [hsticky.mp trivial]
    change |x - (mantissa + mantissa % 2 : Nat)| ≤ 1 / 2 ∧
      (|x - (mantissa + mantissa % 2 : Nat)| = 1 / 2 → (mantissa + mantissa % 2) % 2 = 0)
    refine ⟨?_, fun _ => by omega⟩
    rw [heq]
    rcases Nat.mod_two_eq_zero_or_one mantissa with heven | hodd
    · rw [heven, add_zero, add_sub_cancel_left]
      norm_num
    · rw [hodd]
      push_cast
      rw [add_sub_add_left_eq_sub]
      norm_num
  · have hne : x ≠ mantissa + 1 / 2 := fun heq => absurd (hsticky.mpr heq) (by decide)
    have hmore : mantissa + 1 / 2 < x := lt_of_le_of_ne hlower hne.symm
    have hlt : |x - (mantissa + 1 : Nat)| < 1 / 2 := by
      push_cast
      exact abs_lt.mpr ⟨by linarith, by linarith⟩
    exact ⟨hlt.le, fun heq => absurd heq hlt.ne⟩

end Represents

/-! ## Packing rounded mantissas -/

theorem pack_unpack (x : Float) : Float.ofModel (Float.Model.pack x.toModel.unpack) = x :=
  ofBits_toBits x

theorem pack_zero (negative : Bool) : Float.ofModel (Float.Model.pack (.zero (signOf negative))) = zero negative := by
  cases negative <;> rfl

theorem pack_infinity (negative : Bool) :
    Float.ofModel (Float.Model.pack (.infinity (signOf negative))) = infinity negative := by
  cases negative <;> rfl

/-- The packed form of a mantissa of at most fifty-three bits; beyond the largest exponent it is an infinity. -/
theorem pack_unpacked (negative : Bool) {mantissa : Nat} {exponent : Int} (hlt : mantissa < 2 ^ 53)
    (hleast : leastExponent ≤ exponent) (hnormal : 2 ^ 52 ≤ mantissa ∨ exponent = leastExponent) :
    Float.ofModel (Float.Model.pack (unpacked negative mantissa exponent)) =
      ofMagnitude negative (min (magnitudeBits mantissa exponent) infinityBits) := by
  have hinfinity : infinityBits = 2047 * 2 ^ 52 := rfl
  have hvalue : leastExponent = -1074 := rfl
  rcases le_or_gt exponent 971 with htop | hlarge
  · have hc : Canonical mantissa exponent := ⟨hlt, hnormal, hleast, htop⟩
    rw [min_eq_left (magnitudeBits_lt hc).le, ← unpack_ofMagnitude negative hc, pack_unpack]
  · have hmantissa : 2 ^ 52 ≤ mantissa := hnormal.resolve_right (by omega)
    have hbits : infinityBits ≤ magnitudeBits mantissa exponent := by
      unfold magnitudeBits
      omega
    have hpacked : UnpackedFloat.pack Format.binary64 (unpacked negative mantissa exponent) =
        UnpackedFloat.packedInfinity Format.binary64 (signOf negative) := by
      rw [unpacked, dif_pos (by omega)]
      simp only [UnpackedFloat.pack]
      refine if_pos ?_
      change 2048 ≤ (exponent + 1023 + 52).toNat + 1
      omega
    rw [min_eq_right hbits]
    refine Eq.trans ?_ (pack_infinity negative)
    simp only [Float.Model.pack, hpacked]
    rfl

theorem model_targetExponent (mantissa : Nat) (exponent : Int) :
    Format.binary64.targetExponent (totalExponent mantissa exponent) =
      max ((mantissa.log2 : Int) + exponent - 52) leastExponent := by
  change max ((mantissa.log2 : Int) + 1 + exponent - 53) (-1074) = _
  have hvalue : leastExponent = -1074 := rfl
  omega

theorem mantissa_ofMantissaAndAccuracy (m : Nat) (acc : Accuracy) :
    (ExtendedMantissa.ofMantissaAndAccuracy m acc).mantissa = m := by
  rcases acc with _ | (_ | _ | _) <;> rfl

theorem Represents.bounds {m : Nat} {acc : Accuracy} {x : ℚ} (h : Represents (.ofMantissaAndAccuracy m acc) x) :
    (m : ℚ) ≤ x ∧ x < m + 1 := by
  have hlower := h.lower
  have hupper := h.upper
  have hnonneg : (0 : ℚ) ≤ ((ExtendedMantissa.ofMantissaAndAccuracy m acc).roundBit.toNat : Nat) := Nat.cast_nonneg _
  have hle : ((ExtendedMantissa.ofMantissaAndAccuracy m acc).roundBit.toNat : ℚ) ≤ 1 := by
    exact_mod_cast Bool.toNat_le _
  rw [mantissa_ofMantissaAndAccuracy] at hlower hupper
  constructor <;> linarith

/-- Shifting a mantissa to the exponent at which it has fifty-three bits, or to the least one, rounds it there. -/
theorem roundsAt_shift {m : Nat} {e target : Int} {acc : Accuracy} {x : ℚ}
    (h : Represents (.ofMantissaAndAccuracy m acc) (x / 2 ^ e)) (htarget : max ((m.log2 : Int) + e - 52) leastExponent = target)
    (he : e ≤ target) :
    RoundsAt x target (ExtendedMantissa.ofMantissaAndAccuracy m acc >>> (target - e).toNat).roundedMantissa := by
  obtain ⟨hlow, hhigh⟩ := h.bounds
  rw [le_div_iff₀ (two_zpow_pos e)] at hlow
  rw [div_lt_iff₀ (two_zpow_pos e)] at hhigh
  have hshift : Represents (ExtendedMantissa.ofMantissaAndAccuracy m acc >>> (target - e).toNat) (x / 2 ^ target) := by
    have hsplit : (2 : ℚ) ^ target = 2 ^ e * 2 ^ (target - e).toNat := by
      rw [← zpow_natCast, ← two_zpow_add, Int.toNat_of_nonneg (by omega), add_sub_cancel]
    rw [hsplit, ← div_div]
    exact h.shiftRight _
  refine ⟨by omega, ?_, ?_, hshift.roundedMantissa.1, hshift.roundedMantissa.2⟩
  · have hbits : (m : ℚ) + 1 ≤ 2 ^ (m.log2 + 1) := by exact_mod_cast Nat.lt_log2_self
    calc x < (m + 1) * 2 ^ e := hhigh
      _ ≤ 2 ^ (m.log2 + 1) * 2 ^ e := mul_le_mul_of_nonneg_right hbits (two_zpow_pos e).le
      _ = 2 ^ ((m.log2 + 1 : Nat) + e) := by rw [two_zpow_add, zpow_natCast]
      _ ≤ 2 ^ (53 + target) := two_zpow_le (by omega)
      _ = 2 ^ 53 * 2 ^ target := two_zpow_add 53 target
  · refine or_iff_not_imp_left.mpr fun hne => ?_
    have hexponent : (m.log2 : Int) + e = 52 + target := by omega
    have hpos : m ≠ 0 := by
      rintro rfl
      rw [Nat.log2_zero] at hexponent
      omega
    have hbits : (2 : ℚ) ^ m.log2 ≤ m := by exact_mod_cast Nat.log2_self_le hpos
    calc (2 : ℚ) ^ 52 * 2 ^ target = 2 ^ (52 + target) := (two_zpow_add 52 target).symm
      _ = 2 ^ m.log2 * 2 ^ e := by rw [← hexponent, two_zpow_add, zpow_natCast]
      _ ≤ m * 2 ^ e := mul_le_mul_of_nonneg_right hbits (two_zpow_pos e).le
      _ ≤ x := hlow

theorem shiftToTargetExponent_eq {m : Nat} {e target : Int} (acc : Accuracy)
    (htarget : max ((m.log2 : Int) + e - 52) leastExponent = target) (he : e ≤ target) :
    UnpackedFloat.shiftToTargetExponent Format.binary64 m e acc =
      (ExtendedMantissa.ofMantissaAndAccuracy m acc >>> (target - e).toNat, target) := by
  simp only [UnpackedFloat.shiftToTargetExponent, UnpackedFloat.shiftToExponent, model_targetExponent, htarget]
  rw [Int.toNat_of_nonneg (by omega), add_sub_cancel]

/-- A mantissa that was rounded up to the next power of two is shifted once more; every other one stays. -/
theorem shiftToTargetExponent_carry {k : Nat} {target : Int} (hleast : leastExponent ≤ target) (hle : k ≤ 2 ^ 53)
    (hnormal : target = leastExponent ∨ 2 ^ 52 ≤ k) :
    ∃ mantissa exponent, mantissa < 2 ^ 53 ∧ leastExponent ≤ exponent ∧
      (2 ^ 52 ≤ mantissa ∨ exponent = leastExponent) ∧ magnitudeBits mantissa exponent = magnitudeBits k target ∧
      (UnpackedFloat.shiftToTargetExponent Format.binary64 k target .exact).1.mantissa = mantissa ∧
      (UnpackedFloat.shiftToTargetExponent Format.binary64 k target .exact).2 = exponent := by
  have hvalue : leastExponent = -1074 := rfl
  rcases Nat.lt_or_eq_of_le hle with hlt | rfl
  · have hbits : k.log2 ≤ 52 := by
      by_cases hk : k = 0
      · rw [hk, Nat.log2_zero]
        decide
      · exact Nat.lt_succ_iff.mp ((Nat.log2_lt hk).mpr hlt)
    have htarget : max ((k.log2 : Int) + target - 52) leastExponent = target := by
      rcases hnormal with rfl | hlarge
      · omega
      · have hbits' : 52 ≤ k.log2 := (Nat.le_log2 (by omega)).mpr hlarge
        omega
    rw [shiftToTargetExponent_eq .exact htarget le_rfl, sub_self]
    exact ⟨k, target, hlt, hleast, hnormal.symm, rfl, rfl, rfl⟩
  · have htarget : max (((2 ^ 53 : Nat).log2 : Int) + target - 52) leastExponent = target + 1 := by
      rw [Nat.log2_two_pow]
      omega
    rw [shiftToTargetExponent_eq .exact htarget (by omega), add_sub_cancel_left]
    refine ⟨2 ^ 52, target + 1, by norm_num, by omega, Or.inl le_rfl, ?_, rfl, rfl⟩
    unfold magnitudeBits
    omega

/-! ## Rounding in the model -/

theorem roundWithAccuracy_spec (negative : Bool) {m : Nat} {e target : Int} {acc : Accuracy} {x : ℚ} (hx : 0 < x)
    (h : Represents (.ofMantissaAndAccuracy m acc) (x / 2 ^ e)) (htarget : max ((m.log2 : Int) + e - 52) leastExponent = target)
    (he : e ≤ target) :
    Rounds (Float.ofModel (Float.Model.pack (UnpackedFloat.roundWithAccuracy Format.binary64 (signOf negative) m e acc)))
      (if negative then -x else x) := by
  have hround := roundsAt_shift h htarget he
  obtain ⟨mantissa, exponent, hlt, hleast, hnormal, hbits, hmantissa, hexponent⟩ :=
    shiftToTargetExponent_carry hround.least hround.mantissa_le hround.le_mantissa
  have hresult : UnpackedFloat.roundWithAccuracy Format.binary64 (signOf negative) m e acc =
      unpacked negative mantissa exponent := by
    simp only [UnpackedFloat.roundWithAccuracy, shiftToTargetExponent_eq acc htarget he, hmantissa, hexponent, unpacked]
    by_cases hzero : mantissa = 0
    · rw [dif_pos hzero, dif_neg (by omega)]
    · rw [dif_neg hzero, dif_pos (by omega)]
  have habs : |if negative then -x else x| = x := by
    cases negative with
    | false => exact abs_of_pos hx
    | true => exact (abs_neg x).trans (abs_of_pos hx)
  have hsign : decide ((if negative then -x else x) < 0) = negative := by
    cases negative with
    | false => exact decide_eq_false (not_lt.mpr hx.le)
    | true => exact decide_eq_true (neg_lt_zero.mpr hx)
  have hne : (if negative then -x else x) ≠ 0 := abs_pos.mp (by rw [habs]; exact hx)
  have hrounds := rounds_of_roundsAt hne (habs.symm ▸ hround)
  rw [hsign] at hrounds
  rw [hresult, pack_unpacked negative hlt hleast hnormal, hbits]
  exact hrounds

theorem log2_shiftLeft {m : Nat} (hm : 0 < m) (count : Nat) : (m <<< count).log2 = m.log2 + count := by
  have hlow := Nat.mul_le_mul_right (2 ^ count) (Nat.log2_self_le hm.ne')
  have hhigh := Nat.mul_lt_mul_of_pos_right (Nat.lt_log2_self (n := m)) (Nat.two_pow_pos count)
  rw [← Nat.pow_add] at hlow hhigh
  rw [Nat.shiftLeft_eq]
  refine (Nat.log2_eq_iff (Nat.mul_pos hm (Nat.two_pow_pos count)).ne').mpr ⟨hlow, ?_⟩
  rwa [Nat.add_right_comm]

theorem cast_shiftLeft (m count : Nat) (e : Int) : ((m <<< count : Nat) : ℚ) * 2 ^ (e - count) = m * 2 ^ e := by
  rw [Nat.shiftLeft_eq]
  push_cast
  rw [mul_assoc, ← zpow_natCast, ← two_zpow_add, add_sub_cancel]

/-- A mantissa with too few bits is shifted to the left before it is rounded; its number stays the same. -/
theorem round_spec (negative : Bool) {m : Nat} (hm : 0 < m) (e : Int) :
    Rounds (Float.ofModel (Float.Model.pack (UnpackedFloat.round Format.binary64 (signOf negative) m e)))
      (signedExact negative m e) := by
  obtain ⟨target, htarget⟩ : ∃ target, max ((m.log2 : Int) + e - 52) leastExponent = target := ⟨_, rfl⟩
  simp only [UnpackedFloat.round, UnpackedFloat.decreaseExponent, model_targetExponent, htarget]
  generalize hcount : (e - target).toNat = count
  rw [signedExact, ← cast_shiftLeft m count e]
  have hshifted : max (((m <<< count).log2 : Int) + (e - count) - 52) leastExponent = target := by
    rw [log2_shiftLeft hm]
    omega
  refine roundWithAccuracy_spec negative ?_ ?_ hshifted (by omega)
  · exact mul_pos (by rw [Nat.shiftLeft_eq]; exact_mod_cast Nat.mul_pos hm (Nat.two_pow_pos count)) (two_zpow_pos _)
  · rw [mul_div_cancel_right₀ _ (two_zpow_pos _).ne']
    exact represents_exact _

theorem normalize_spec (n e : Int) :
    Rounds (Float.ofModel (Float.Model.pack (UnpackedFloat.normalize Format.binary64 n e .positive))) (n * 2 ^ e) := by
  unfold UnpackedFloat.normalize
  rcases lt_trichotomy n 0 with hneg | rfl | hpos
  · rw [compare_lt_iff_lt.mpr hneg]
    have hcast : ((-n).toNat : ℚ) = -n := by exact_mod_cast Int.toNat_of_nonneg (by omega)
    have hspec := round_spec true (m := (-n).toNat) (by omega) e
    rwa [signedExact, if_pos rfl, hcast, neg_mul, neg_neg] at hspec
  · rw [compare_eq_iff_eq.mpr rfl, Int.cast_zero, zero_mul]
    exact Rounds.of_zero false
  · rw [compare_gt_iff_gt.mpr hpos]
    have hcast : (n.toNat : ℚ) = n := by exact_mod_cast Int.toNat_of_nonneg hpos.le
    have hspec := round_spec false (m := n.toNat) (by omega) e
    rwa [signedExact, if_neg Bool.false_ne_true, hcast] at hspec

/-! ## The operations -/

section
variable {x y : Float}

theorem unpack_of_isFinite (hx : x.isFinite = true) : ∃ negative mantissa exponent, Canonical mantissa exponent ∧
    x.toModel.unpack = unpacked negative mantissa exponent ∧ exact x = signedExact negative mantissa exponent := by
  obtain ⟨negative, mantissa, exponent, -, hc, rfl⟩ := content_of_isFinite hx
  exact ⟨negative, mantissa, exponent, hc, unpack_ofMagnitude negative hc, exact_ofMagnitude negative hc⟩

theorem signedExact_eq_apply (negative : Bool) (m : Nat) (e : Int) :
    signedExact negative m e = ((signOf negative).apply m : Int) * 2 ^ e := by
  cases negative with
  | false => rfl
  | true =>
    change -((m : ℚ) * 2 ^ e) = ((-(m : Int) : Int) : ℚ) * 2 ^ e
    push_cast
    exact (neg_mul _ _).symm

theorem signedExact_shiftLeft (negative : Bool) (m : Nat) {e least : Int} (h : least ≤ e) :
    signedExact negative m e = signedExact negative (m <<< (e - least).toNat) least := by
  have hcast := cast_shiftLeft m (e - least).toNat e
  rw [Int.toNat_of_nonneg (by omega), sub_sub_cancel] at hcast
  rw [signedExact, signedExact, hcast]

theorem rounds_exact (hx : x.isFinite = true) : Rounds x (exact x) := by
  obtain ⟨negative, m, e, -, hc, rfl⟩ := content_of_isFinite hx
  rw [exact_ofMagnitude negative hc]
  rcases Nat.eq_zero_or_pos m with rfl | hm
  · obtain rfl : e = leastExponent := hc.normal.resolve_left (by norm_num)
    rw [signedExact_zero]
    exact Rounds.of_zero negative
  · have hat : RoundsAt |signedExact negative m e| e m := by
      have hpos := two_zpow_pos e
      rw [abs_signedExact]
      refine ⟨hc.le_exponent, mul_lt_mul_of_pos_right (by exact_mod_cast hc.mantissa_lt) hpos,
        hc.normal.symm.imp_right fun hlarge => mul_le_mul_of_nonneg_right (by exact_mod_cast hlarge) hpos.le, ?_, ?_⟩ <;>
        rw [mul_div_cancel_right₀ _ hpos.ne', sub_self, abs_zero]
      · norm_num
      · norm_num
    have hsign : decide (signedExact negative m e < 0) = negative := by
      cases negative with
      | false => exact decide_eq_false (not_lt.mpr (signedExact_pos hm e).le)
      | true => exact decide_eq_true (signedExact_neg hm e)
    have hrounds := rounds_of_roundsAt (fun hzero => hm.ne' (signedExact_eq_zero.mp hzero)) hat
    rwa [hsign, min_eq_left (magnitudeBits_lt hc).le] at hrounds

theorem rounds_add (hx : x.isFinite = true) (hy : y.isFinite = true) : Rounds (x + y) (exact x + exact y) := by
  obtain ⟨negative, m, e, hc, hunpack, hexact⟩ := unpack_of_isFinite hx
  obtain ⟨negative', m', e', hc', hunpack', hexact'⟩ := unpack_of_isFinite hy
  have hsum : x + y = Float.ofModel (Float.Model.pack
      (UnpackedFloat.add Format.binary64 x.toModel.unpack y.toModel.unpack)) := rfl
  rcases Nat.eq_zero_or_pos m with rfl | hm
  · rw [hexact, signedExact_zero, zero_add]
    rcases Nat.eq_zero_or_pos m' with rfl | hm'
    · rw [hexact', signedExact_zero, hsum, hunpack, hunpack']
      cases negative <;> cases negative'
      · exact Rounds.of_zero false
      · exact Rounds.of_zero false
      · exact Rounds.of_zero false
      · exact Rounds.of_zero true
    · have hkeep : x + y = y := by
        rw [hsum, hunpack]
        conv_rhs => rw [← pack_unpack y]
        rw [hunpack', unpacked, unpacked, dif_pos hm']
        rfl
      rw [hkeep]
      exact rounds_exact hy
  · rcases Nat.eq_zero_or_pos m' with rfl | hm'
    · have hkeep : x + y = x := by
        rw [hsum, hunpack']
        conv_rhs => rw [← pack_unpack x]
        rw [hunpack, unpacked, unpacked, dif_pos hm]
        rfl
      rw [hkeep, hexact', signedExact_zero, add_zero]
      exact rounds_exact hx
    · have hvalue : exact x + exact y = ((signOf negative).apply (m <<< (e - min e e').toNat : Nat) +
          (signOf negative').apply (m' <<< (e' - min e e').toNat : Nat) : Int) * 2 ^ min e e' := by
        rw [hexact, hexact', signedExact_shiftLeft negative m (min_le_left e e'),
          signedExact_shiftLeft negative' m' (min_le_right e e'), signedExact_eq_apply, signedExact_eq_apply,
          Int.cast_add, add_mul]
      rw [hvalue, hsum, hunpack, hunpack', unpacked, unpacked, dif_pos hm, dif_pos hm']
      exact normalize_spec _ _

theorem unpack_neg (hy : y.isFinite = true) : (-y).toModel.unpack = y.toModel.unpack.neg := by
  obtain ⟨negative, m, e, -, hc, rfl⟩ := content_of_isFinite hy
  rw [neg_ofMagnitude negative (magnitudeBits_lt hc).le, unpack_ofMagnitude _ hc, unpack_ofMagnitude _ hc, unpacked, unpacked,
    signOf_not]
  split <;> rfl

theorem neg_isFinite (hy : y.isFinite = true) : (-y).isFinite = true := by
  obtain ⟨negative, m, e, -, hc, rfl⟩ := content_of_isFinite hy
  rw [neg_ofMagnitude negative (magnitudeBits_lt hc).le]
  exact isFinite_ofMagnitude _ hc

theorem exact_neg (hy : y.isFinite = true) : exact (-y) = -exact y := by
  obtain ⟨negative, m, e, -, hc, rfl⟩ := content_of_isFinite hy
  rw [neg_ofMagnitude negative (magnitudeBits_lt hc).le, exact_ofMagnitude _ hc, exact_ofMagnitude _ hc]
  cases negative with
  | false => rfl
  | true => exact (neg_neg _).symm

theorem rounds_sub (hx : x.isFinite = true) (hy : y.isFinite = true) : Rounds (x - y) (exact x - exact y) := by
  have hdifference : x - y = x + -y := by
    change Float.ofModel (Float.Model.pack (UnpackedFloat.sub Format.binary64 x.toModel.unpack y.toModel.unpack)) =
      Float.ofModel (Float.Model.pack (UnpackedFloat.add Format.binary64 x.toModel.unpack (-y).toModel.unpack))
    rw [unpack_neg hy, unpacked_sub_eq]
  rw [hdifference, sub_eq_add_neg, ← exact_neg hy]
  exact rounds_add hx (neg_isFinite hy)

theorem signOf_mul (negative negative' : Bool) : signOf negative * signOf negative' = signOf (negative != negative') := by
  cases negative <;> cases negative' <;> rfl

theorem signOf_div (negative negative' : Bool) : signOf negative / signOf negative' = signOf (negative != negative') := by
  cases negative <;> cases negative' <;> rfl

theorem signedExact_mul (negative negative' : Bool) (m m' : Nat) (e e' : Int) :
    signedExact negative m e * signedExact negative' m' e' = signedExact (negative != negative') (m * m') (e + e') := by
  have hproduct : (m : ℚ) * 2 ^ e * (m' * 2 ^ e') = (m * m' : Nat) * 2 ^ (e + e') := by
    rw [two_zpow_add, Nat.cast_mul, mul_mul_mul_comm]
  unfold signedExact
  rw [← hproduct]
  cases negative <;> cases negative' <;> simp

/-- The product of two mantissas, one of which has fifty-three bits, or both of which are at the least exponent. -/
theorem product_exponent_le {m m' : Nat} {e e' : Int} (hc : Canonical m e) (hc' : Canonical m' e') (hm : 0 < m)
    (hm' : 0 < m') : e + e' ≤ max (((m * m').log2 : Int) + (e + e') - 52) leastExponent := by
  have hlarge : 2 ^ 52 ≤ m * m' → 52 ≤ (m * m').log2 := (Nat.le_log2 (Nat.mul_pos hm hm').ne').mpr
  have hvalue : leastExponent = -1074 := rfl
  rcases hc.normal with hnormal | hleast
  · have := hlarge (hnormal.trans (Nat.le_mul_of_pos_right m hm'))
    omega
  · rcases hc'.normal with hnormal' | hleast'
    · have := hlarge (hnormal'.trans (Nat.le_mul_of_pos_left m' hm))
      omega
    · omega

theorem rounds_mul (hx : x.isFinite = true) (hy : y.isFinite = true) : Rounds (x * y) (exact x * exact y) := by
  obtain ⟨negative, m, e, hc, hunpack, hexact⟩ := unpack_of_isFinite hx
  obtain ⟨negative', m', e', hc', hunpack', hexact'⟩ := unpack_of_isFinite hy
  have hproduct : x * y = Float.ofModel (Float.Model.pack
      (UnpackedFloat.mul Format.binary64 x.toModel.unpack y.toModel.unpack)) := rfl
  rw [hexact, hexact', signedExact_mul, hproduct, hunpack, hunpack']
  by_cases hpos : 0 < m ∧ 0 < m'
  · obtain ⟨hm, hm'⟩ := hpos
    rw [unpacked, unpacked, dif_pos hm, dif_pos hm']
    simp only [UnpackedFloat.mul, signOf_mul]
    refine roundWithAccuracy_spec _ (mul_pos (by exact_mod_cast Nat.mul_pos hm hm') (two_zpow_pos _)) ?_ rfl
      (product_exponent_le hc hc' hm hm')
    rw [mul_div_cancel_right₀ _ (two_zpow_pos _).ne']
    exact represents_exact _
  · have hresult : UnpackedFloat.mul Format.binary64 (unpacked negative m e) (unpacked negative' m' e') =
        .zero (signOf (negative != negative')) := by
      rw [← signOf_mul, unpacked, unpacked]
      by_cases hm : 0 < m
      · rw [dif_pos hm, dif_neg fun hm' => hpos ⟨hm, hm'⟩]
        rfl
      · rw [dif_neg hm]
        split <;> rfl
    have hzero : m * m' = 0 := by
      rw [Nat.mul_eq_zero]
      omega
    rw [hresult, hzero, signedExact_zero, pack_zero]
    exact Rounds.of_zero _

theorem signedExact_div (negative negative' : Bool) (m m' : Nat) (e e' : Int) :
    signedExact negative m e / signedExact negative' m' e' =
      if negative != negative' then -((m : ℚ) * 2 ^ e / (m' * 2 ^ e')) else (m : ℚ) * 2 ^ e / (m' * 2 ^ e') := by
  unfold signedExact
  cases negative <;> cases negative' <;> simp [neg_div, div_neg]

/-- A quotient of mantissas has at least the difference of their numbers of bits, less one bit. -/
theorem log2_quotient {m m' : Nat} (hm : 0 < m) (hm' : 0 < m') {count : Nat} (h : m'.log2 + 1 + count ≤ m.log2) :
    count ≤ (m / m').log2 := by
  have hlow : 2 ^ (m'.log2 + 1 + count) ≤ m := (Nat.le_log2 hm.ne').mp h
  have hhigh : m' ≤ 2 ^ (m'.log2 + 1) := Nat.lt_log2_self.le
  have hquotient : 2 ^ count ≤ m / m' := by
    rw [Nat.le_div_iff_mul_le hm', Nat.mul_comm]
    calc m' * 2 ^ count ≤ 2 ^ (m'.log2 + 1) * 2 ^ count := Nat.mul_le_mul_right _ hhigh
      _ = 2 ^ (m'.log2 + 1 + count) := (Nat.pow_add _ _ _).symm
      _ ≤ m := hlow
  exact (Nat.le_log2 (Nat.lt_of_lt_of_le (Nat.two_pow_pos count) hquotient).ne').mpr hquotient

/-- The dividend is shifted until the quotient has enough bits in front of the point. -/
theorem divCore_spec {m m' : Nat} (hm : 0 < m) (hm' : 0 < m') (e e' : Int) :
    ∃ quotient exponent acc, UnpackedFloat.divCore Format.binary64 m e m' e' = (quotient, exponent, acc) ∧
      Represents (.ofMantissaAndAccuracy quotient acc) ((m : ℚ) * 2 ^ e / (m' * 2 ^ e') / 2 ^ exponent) ∧
      exponent ≤ max ((quotient.log2 : Int) + exponent - 52) leastExponent := by
  have hvalue : leastExponent = -1074 := rfl
  have htarget : Format.binary64.targetExponent (totalExponent m e - totalExponent m' e') =
      max ((m.log2 : Int) + e - (m'.log2 + e') - 53) leastExponent := by
    change max ((m.log2 : Int) + 1 + e - ((m'.log2 : Int) + 1 + e') - 53) (-1074) = _
    omega
  refine ⟨_, _, _, rfl, ?_, ?_⟩
  all_goals
    rw [htarget]
    generalize hexponent : min (e - e') (max ((m.log2 : Int) + e - (m'.log2 + e') - 53) leastExponent) = exponent
    generalize hcount : (e - e' - exponent).toNat = count
  · have hratio : (m : ℚ) * 2 ^ e / (m' * 2 ^ e') / 2 ^ exponent = ((m <<< count : Nat) : ℚ) / m' := by
      have hshift := cast_shiftLeft m count (e - e')
      have hsplit : (2 : ℚ) ^ e = 2 ^ (e - e') * 2 ^ e' := by rw [← two_zpow_add, sub_add_cancel]
      rw [show e - e' - (count : Int) = exponent by omega] at hshift
      rw [hsplit, ← mul_assoc, mul_div_mul_right _ _ (two_zpow_pos e').ne', ← hshift, div_right_comm,
        mul_div_cancel_right₀ _ (two_zpow_pos exponent).ne']
    rw [hratio]
    exact represents_fraction _ hm'
  · rcases le_or_gt exponent leastExponent with hleast | hmore
    · exact hleast.trans (le_max_right _ _)
    · have hbits : 52 ≤ (m <<< count / m').log2 := by
        refine log2_quotient (by rw [Nat.shiftLeft_eq]; exact Nat.mul_pos hm (Nat.two_pow_pos count)) hm' ?_
        rw [log2_shiftLeft hm]
        omega
      omega

theorem rounds_div (hx : x.isFinite = true) (hy : y.isFinite = true) (hne : exact y ≠ 0) :
    Rounds (x / y) (exact x / exact y) := by
  obtain ⟨negative, m, e, hc, hunpack, hexact⟩ := unpack_of_isFinite hx
  obtain ⟨negative', m', e', hc', hunpack', hexact'⟩ := unpack_of_isFinite hy
  have hquotient : x / y = Float.ofModel (Float.Model.pack
      (UnpackedFloat.div Format.binary64 x.toModel.unpack y.toModel.unpack)) := rfl
  have hm' : 0 < m' := Nat.pos_of_ne_zero fun hzero => hne (by rw [hexact']; exact signedExact_eq_zero.mpr hzero)
  rw [hexact, hexact', signedExact_div, hquotient, hunpack, hunpack', unpacked, unpacked, dif_pos hm']
  rcases Nat.eq_zero_or_pos m with rfl | hm
  · rw [dif_neg (Nat.lt_irrefl 0), Nat.cast_zero, zero_mul, zero_div, neg_zero, ite_self]
    simp only [UnpackedFloat.div, signOf_div, pack_zero]
    exact Rounds.of_zero _
  · rw [dif_pos hm]
    obtain ⟨quotient, exponent, acc, hcore, hrepresents, hexponent⟩ := divCore_spec hm hm' e e'
    simp only [UnpackedFloat.div, signOf_div, hcore]
    refine roundWithAccuracy_spec _ (div_pos (mul_pos ?_ (two_zpow_pos e)) (mul_pos ?_ (two_zpow_pos e'))) hrepresents rfl
      hexponent
    · exact_mod_cast hm
    · exact_mod_cast hm'

theorem div_isFinite (hx : x.isFinite = true) (hy : y.isFinite = true) (h : 1 ≤ |exact y|) : (x / y).isFinite = true := by
  have hne : exact y ≠ 0 := abs_pos.mp (zero_lt_one.trans_le h)
  rw [(rounds_div hx hy hne).isFinite_iff, abs_div]
  calc |exact x| / |exact y| ≤ |exact x| := div_le_self (abs_nonneg _) h
    _ ≤ largest := abs_exact_le hx
    _ < overflow := largest_lt_overflow

/-! ## Infinities and not-a-number -/

theorem not_isFinite_of_isNaN (h : x.isNaN = true) : x.isFinite = false := by
  by_contra hfinite
  exact absurd h (by rw [isNaN_of_isFinite (by simpa using hfinite)]; decide)

theorem isNaN_mul (h : x.isNaN = true) : (x * y).isNaN = true := by
  have hproduct : (x * y).isNaN = (UnpackedFloat.mul Format.binary64 x.toModel.unpack y.toModel.unpack).isNaN :=
    isNaN_pack _
  change x.toModel.unpack.isNaN = true at h
  rw [hproduct]
  cases hx : x.toModel.unpack with
  | notANumber => rfl
  | _ => rw [hx] at h; contradiction

theorem isNaN_zero_mul (negative : Bool) (h : y.isFinite = false) : (zero negative * y).isNaN = true := by
  have hproduct : (zero negative * y).isNaN =
      (UnpackedFloat.mul Format.binary64 (zero negative).toModel.unpack y.toModel.unpack).isNaN := isNaN_pack _
  have hzero : (zero negative).toModel.unpack = .zero (signOf negative) := by cases negative <;> rfl
  change y.toModel.unpack.isFinite = false at h
  rw [hproduct, hzero]
  cases hy : y.toModel.unpack with
  | notANumber => rfl
  | infinity sign => rfl
  | _ => rw [hy] at h; contradiction

/-- An infinity is divided into an infinity or not-a-number. -/
theorem not_isFinite_infinity_div (negative : Bool) (y : Float) : (infinity negative / y).isFinite = false := by
  have hquotient : infinity negative / y =
      Float.ofModel (Float.Model.pack (UnpackedFloat.div Format.binary64 (infinity negative).toModel.unpack y.toModel.unpack)) := rfl
  have hresult : UnpackedFloat.div Format.binary64 (.infinity (signOf negative)) y.toModel.unpack = .notANumber ∨
      ∃ sign, UnpackedFloat.div Format.binary64 (.infinity (signOf negative)) y.toModel.unpack = .infinity sign := by
    cases y.toModel.unpack with
    | notANumber => exact Or.inl rfl
    | infinity sign => exact Or.inl rfl
    | zero sign => exact Or.inr ⟨_, rfl⟩
    | finite sign mantissa exponent hpos => exact Or.inr ⟨_, rfl⟩
  rw [hquotient, unpack_infinity]
  rcases hresult with hnan | ⟨sign, hinfinite⟩
  · rw [hnan]
    exact not_isFinite_of_isNaN (isNaN_pack _)
  · rw [hinfinite]
    cases sign <;> rfl

theorem isNaN_infinity_div_infinity (negative negative' : Bool) : (infinity negative / infinity negative').isNaN = true := by
  cases negative <;> cases negative' <;> rfl

theorem div_infinity (hx : x.isFinite = true) (negative : Bool) : ∃ negative', x / infinity negative = zero negative' := by
  obtain ⟨negative', m, e, hc, hunpack, -⟩ := unpack_of_isFinite hx
  have hquotient : x / infinity negative =
      Float.ofModel (Float.Model.pack (UnpackedFloat.div Format.binary64 x.toModel.unpack (infinity negative).toModel.unpack)) := rfl
  refine ⟨negative' != negative, ?_⟩
  rw [hquotient, unpack_infinity, hunpack, unpacked, ← pack_zero, ← signOf_div]
  split <;> rfl

theorem infinity_add (hy : y.isFinite = true) (negative : Bool) : infinity negative + y = infinity negative := by
  have hsum : infinity negative + y =
      Float.ofModel (Float.Model.pack (UnpackedFloat.add Format.binary64 (infinity negative).toModel.unpack y.toModel.unpack)) := rfl
  change y.toModel.unpack.isFinite = true at hy
  rw [hsum, unpack_infinity, ← pack_infinity]
  cases hy' : y.toModel.unpack with
  | notANumber => rw [hy'] at hy; contradiction
  | infinity sign => rw [hy'] at hy; contradiction
  | _ => rfl

end

/-! ## Numbers with short mantissas -/

/-- A number with a mantissa of at most fifty-three bits is that of a double, unless its exponent is out of range. -/
theorem exists_exact {m : Nat} {e : Int} (hlt : m < 2 ^ 53) (hleast : leastExponent ≤ e) (htop : e ≤ 971) :
    ∃ z : Float, z.isFinite = true ∧ exact z = m * 2 ^ e := by
  rcases Nat.eq_zero_or_pos m with rfl | hm
  · exact ⟨zero false, (exact_zero_of false).1, by rw [(exact_zero_of false).2, Nat.cast_zero, zero_mul]⟩
  · have hbits : m.log2 ≤ 52 := Nat.lt_succ_iff.mp ((Nat.log2_lt hm.ne').mpr hlt)
    obtain ⟨least, hshift⟩ : ∃ least, max (e - (52 - m.log2 : Nat)) leastExponent = least := ⟨_, rfl⟩
    have hlow : least ≤ e := by omega
    have hlog : (m <<< (e - least).toNat).log2 = m.log2 + (e - least).toNat := log2_shiftLeft hm _
    have hpos : m <<< (e - least).toNat ≠ 0 := by
      rw [Nat.shiftLeft_eq]
      exact (Nat.mul_pos hm (Nat.two_pow_pos _)).ne'
    have hc : Canonical (m <<< (e - least).toNat) least := by
      refine ⟨(Nat.log2_lt hpos).mp (by omega), ?_, by omega, by omega⟩
      by_cases hend : least = leastExponent
      · exact Or.inr hend
      · exact Or.inl ((Nat.le_log2 hpos).mp (by omega))
    refine ⟨_, isFinite_ofMagnitude false hc, ?_⟩
    rw [exact_ofMagnitude false hc, ← signedExact_shiftLeft false m hlow, signedExact, if_neg Bool.false_ne_true]

theorem exists_exact_two_zpow {e : Int} (hleast : leastExponent ≤ e) (htop : e ≤ 971) :
    ∃ z : Float, z.isFinite = true ∧ exact z = 2 ^ e := by
  obtain ⟨z, hz, hexact⟩ := exists_exact (m := 1) (by decide) hleast htop
  exact ⟨z, hz, by rw [hexact, Nat.cast_one, one_mul]⟩

theorem exact_on_grid {x : Float} (hx : x.isFinite = true) : ∃ k : Int, exact x = k * 2 ^ leastExponent := by
  obtain ⟨negative, m, e, hc, -, hexact⟩ := unpack_of_isFinite hx
  rw [hexact, signedExact_shiftLeft negative m hc.le_exponent, signedExact_eq_apply]
  exact ⟨_, rfl⟩

theorem exact_sub_on_grid {x y : Float} (hx : x.isFinite = true) (hy : y.isFinite = true) :
    ∃ k : Int, exact x - exact y = k * 2 ^ leastExponent := by
  obtain ⟨k, hk⟩ := exact_on_grid hx
  obtain ⟨k', hk'⟩ := exact_on_grid hy
  exact ⟨k - k', by rw [hk, hk', Int.cast_sub, sub_mul]⟩

/-- A multiple of the least double that is below the least normal one is that of a double. -/
theorem exists_exact_of_subnormal {k : Int} {q : ℚ} (hgrid : q = k * 2 ^ leastExponent) (hnonneg : 0 ≤ q)
    (hsmall : q < 2 ^ (-1022 : Int)) : ∃ z : Float, z.isFinite = true ∧ exact z = q := by
  have hleast := two_zpow_pos leastExponent
  have hsplit : (2 : ℚ) ^ (-1022 : Int) = 2 ^ 52 * 2 ^ leastExponent := two_zpow_add 52 leastExponent
  rw [hgrid] at hnonneg
  rw [hgrid, hsplit] at hsmall
  have hpos : 0 ≤ k := by exact_mod_cast nonneg_of_mul_nonneg_left hnonneg hleast
  have hshort : k < 2 ^ 52 := by exact_mod_cast lt_of_mul_lt_mul_right hsmall hleast.le
  obtain ⟨z, hz, hexact⟩ := exists_exact (m := k.toNat) (e := leastExponent) (by omega) le_rfl (by decide)
  have hcast : ((k.toNat : Nat) : ℚ) = k := by exact_mod_cast Int.toNat_of_nonneg hpos
  exact ⟨z, hz, by rw [hexact, hcast, hgrid]⟩

theorem rounds_ofInt (n : Int) : Rounds (ofInt n) n := by
  refine Or.inl ?_
  simp only [rounded, ofInt, Rat.num_intCast, Rat.den_intCast, Int.cast_lt_zero]

theorem exact_ofInt {k : Nat} (hk : k < 2 ^ 53) : (ofInt k).isFinite = true ∧ exact (ofInt k) = k := by
  obtain ⟨z, hz, hexact⟩ := exists_exact hk (by decide : leastExponent ≤ 0) (by decide)
  rw [zpow_zero, mul_one] at hexact
  have hrounds := rounds_ofInt k
  rw [Int.cast_natCast, ← hexact] at hrounds
  rw [← hexact]
  exact Rounds.of_exact hz hrounds

end Reckoner.Double
