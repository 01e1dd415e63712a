import Reckoner.Proofs.Number.Nearest
import Reckoner.Proofs.Number.Special

/-!
# Rounded numbers

`rounded` is the double nearest to an exact number of either sign and any size; from the overflow on it is an infinity.
Rounding keeps the order, leaves the number of a double as it is and moves a number that becomes a normal double by at
most one part in `2 ^ 53`.
-/

namespace Reckoner.Double

open Float.Model (UnpackedFloat)

set_option autoImplicit false

/-! ## The order with infinities -/

section
variable {x y : Float}

theorem le_iff_compare : x ≤ y ↔ (x.toModel.unpack.compare y.toModel.unpack).any (·.isLE) = true :=
  decide_eq_true_iff

theorem isNaN_of_le (h : x ≤ y) : x.isNaN = false ∧ y.isNaN = false := by
  rw [le_iff_compare] at h
  change x.toModel.unpack.isNaN = false ∧ y.toModel.unpack.isNaN = false
  cases hx : x.toModel.unpack with
  | notANumber => rw [hx] at h; contradiction
  | _ =>
    cases hy : y.toModel.unpack with
    | notANumber => rw [hx, hy] at h; cases h
    | _ => exact ⟨rfl, rfl⟩

theorem infinity_le (h : x.isNaN = false) : infinity true ≤ x := by
  change x.toModel.unpack.isNaN = false at h
  rw [le_iff_compare, unpack_infinity]
  cases hx : x.toModel.unpack with
  | notANumber => rw [hx] at h; contradiction
  | infinity sign => cases sign <;> rfl
  | _ => rfl

theorem le_infinity (h : x.isNaN = false) : x ≤ infinity false := by
  change x.toModel.unpack.isNaN = false at h
  rw [le_iff_compare, unpack_infinity]
  cases hx : x.toModel.unpack with
  | notANumber => rw [hx] at h; contradiction
  | infinity sign => cases sign <;> rfl
  | _ => rfl

theorem not_infinity_le (h : y.isFinite = true) : ¬ infinity false ≤ y := by
  change y.toModel.unpack.isFinite = true at h
  rw [le_iff_compare, unpack_infinity]
  cases hy : y.toModel.unpack with
  | notANumber => rw [hy] at h; contradiction
  | infinity sign => rw [hy] at h; contradiction
  | _ => exact Bool.false_ne_true

theorem not_le_infinity (h : x.isFinite = true) : ¬ x ≤ infinity true := by
  change x.toModel.unpack.isFinite = true at h
  rw [le_iff_compare, unpack_infinity]
  cases hx : x.toModel.unpack with
  | notANumber => rw [hx] at h; contradiction
  | infinity sign => rw [hx] at h; contradiction
  | _ => exact Bool.false_ne_true

theorem finite_or_infinity (h : x.isNaN = false) : x.isFinite = true ∨ ∃ negative, x = infinity negative := by
  cases hfinite : x.isFinite with
  | true => exact Or.inl rfl
  | false =>
    rcases special_of_not_isFinite hfinite with rfl | hinfinity
    · exact absurd h (by decide)
    · exact Or.inr hinfinity

theorem isFinite_of_between {low high : Float} (hlow : low.isFinite = true) (hhigh : high.isFinite = true) (h : low ≤ x)
    (h' : x ≤ high) : x.isFinite = true := by
  rcases finite_or_infinity (isNaN_of_le h').1 with hfinite | ⟨negative, rfl⟩
  · exact hfinite
  · cases negative with
    | true => exact absurd h (not_le_infinity hlow)
    | false => exact absurd h' (not_infinity_le hhigh)

end

/-! ## Rounding -/

/-- The double nearest to an exact number. -/
def rounded (q : ℚ) : Float :=
  nearest (q < 0) q.num.natAbs q.den

/-- The double is the exact number rounded; where that is a zero, it may have either sign. -/
def Rounds (x : Float) (q : ℚ) : Prop :=
  x = rounded q ∨ q = 0 ∧ x = zero true

theorem natAbs_div_den (q : ℚ) : (q.num.natAbs : ℚ) / q.den = |q| := by
  conv_rhs => rw [← Rat.num_div_den q, abs_div]
  rw [Nat.cast_natAbs, Int.cast_abs, Nat.abs_cast]

theorem rounded_zero : rounded 0 = zero false := rfl

theorem rounded_eq {q : ℚ} (h : q ≠ 0) : rounded q = ofMagnitude (q < 0) (nearestBits q.num.natAbs q.den) := by
  rw [rounded, nearest, if_neg (Int.natAbs_ne_zero.mpr (Rat.num_ne_zero.mpr h))]

/-- However the exponent and the mantissa of a number are found, they give the rounded number. -/
theorem rounds_of_roundsAt {q : ℚ} {target : Int} {k : Nat} (hq : q ≠ 0) (h : RoundsAt |q| target k) :
    Rounds (ofMagnitude (q < 0) (min (magnitudeBits k target) infinityBits)) q := by
  have hnum : 0 < q.num.natAbs := Int.natAbs_pos.mpr (Rat.num_ne_zero.mpr hq)
  rw [← natAbs_div_den] at h
  rw [Rounds, rounded_eq hq, nearestBits_eq_of_roundsAt hnum q.den_pos h]
  exact Or.inl rfl

theorem rounded_nearest {q : ℚ} (hq : q ≠ 0) (hrange : |q| < overflow) :
    ∃ mantissa exponent, Nearest mantissa exponent |q| ∧
      rounded q = ofMagnitude (q < 0) (magnitudeBits mantissa exponent) := by
  have hnum : 0 < q.num.natAbs := Int.natAbs_pos.mpr (Rat.num_ne_zero.mpr hq)
  rw [← natAbs_div_den] at hrange ⊢
  obtain ⟨mantissa, exponent, hnearest, hbits⟩ := nearestBits_nearest hnum q.den_pos hrange
  exact ⟨mantissa, exponent, hnearest, by rw [rounded_eq hq, hbits]⟩

theorem rounded_of_overflow {q : ℚ} (hrange : overflow ≤ |q|) : rounded q = infinity (q < 0) := by
  have hpos : 0 < overflow := mul_pos (by norm_num) (two_zpow_pos _)
  have hq : q ≠ 0 := abs_pos.mp (hpos.trans_le hrange)
  have hnum : 0 < q.num.natAbs := Int.natAbs_pos.mpr (Rat.num_ne_zero.mpr hq)
  have hspec := roundsAt_targetExponent hnum q.den_pos
  rw [← natAbs_div_den] at hrange
  rw [rounded_eq hq, nearestBits_eq_of_roundsAt hnum q.den_pos hspec, min_eq_right (hspec.infinityBits_le hrange)]
  rfl

theorem exact_zero_of (negative : Bool) : (zero negative).isFinite = true ∧ exact (zero negative) = 0 := by
  have hc : Canonical 0 leastExponent := ⟨by norm_num, Or.inr rfl, le_rfl, by decide⟩
  have hzero : zero negative = ofMagnitude negative (magnitudeBits 0 leastExponent) := rfl
  rw [hzero, exact_ofMagnitude negative hc, signedExact_zero]
  exact ⟨isFinite_ofMagnitude negative hc, rfl⟩

/-- A number with the sign of an exact number is as far from it as their sizes are apart. -/
theorem abs_signedExact_sub_self (q : ℚ) (mantissa : Nat) (exponent : Int) :
    |signedExact (q < 0) mantissa exponent - q| = abs (mantissa * 2 ^ exponent - |q|) := by
  rcases lt_or_ge q 0 with hneg | hnonneg
  · rw [decide_eq_true hneg, abs_of_neg hneg]
    change |-(_ : ℚ) - q| = _
    rw [← abs_neg]
    congr 1
    ring
  · rw [decide_eq_false (not_lt.mpr hnonneg), abs_of_nonneg hnonneg]
    rfl

namespace Rounds

variable {x y : Float} {p q : ℚ}

theorem of_zero (negative : Bool) : Rounds (zero negative) 0 := by
  cases negative with
  | false => exact Or.inl rfl
  | true => exact Or.inr ⟨rfl, rfl⟩

theorem eq_zero (h : Rounds x 0) : ∃ negative, x = zero negative := by
  rcases h with rfl | ⟨-, rfl⟩
  · exact ⟨false, rounded_zero⟩
  · exact ⟨true, rfl⟩

theorem eq_rounded (h : Rounds x q) (hq : q ≠ 0) : x = rounded q :=
  h.resolve_right fun hzero => hq hzero.1

/-- Below the overflow the rounded number is finite, and no finite double is nearer. -/
theorem nearest (h : Rounds x q) (hrange : |q| < overflow) :
    x.isFinite = true ∧ ∀ {z : Float}, z.isFinite = true → |exact x - q| ≤ |exact z - q| := by
  by_cases hq : q = 0
  · subst hq
    obtain ⟨negative, rfl⟩ := h.eq_zero
    obtain ⟨hfinite, hexact⟩ := exact_zero_of negative
    refine ⟨hfinite, fun _ => ?_⟩
    rw [hexact, sub_zero, abs_zero]
    exact abs_nonneg _
  · obtain ⟨mantissa, exponent, hnearest, hbits⟩ := rounded_nearest hq hrange
    rw [h.eq_rounded hq, hbits]
    refine ⟨isFinite_ofMagnitude _ hnearest.canonical, fun {z} hz => ?_⟩
    obtain ⟨negative, mantissa', exponent', -, hc', rfl⟩ := content_of_isFinite hz
    rw [exact_ofMagnitude _ hnearest.canonical, exact_ofMagnitude _ hc', abs_signedExact_sub_self]
    calc abs (mantissa * 2 ^ exponent - |q|) ≤ abs (mantissa' * 2 ^ exponent' - |q|) := hnearest.le hc'
      _ = abs (|signedExact negative mantissa' exponent'| - |q|) := by rw [abs_signedExact]
      _ ≤ |signedExact negative mantissa' exponent' - q| := abs_abs_sub_abs_le _ _

theorem eq_infinity (h : Rounds x q) (hrange : overflow ≤ |q|) : x = infinity (q < 0) := by
  have hpos : 0 < overflow := mul_pos (by norm_num) (two_zpow_pos _)
  rw [h.eq_rounded (abs_pos.mp (hpos.trans_le hrange)), rounded_of_overflow hrange]

theorem isFinite_iff (h : Rounds x q) : x.isFinite = true ↔ |q| < overflow := by
  refine ⟨fun hfinite => ?_, fun hrange => (h.nearest hrange).1⟩
  by_contra hlarge
  have hinf := isInf_of_isFinite hfinite
  rw [h.eq_infinity (not_lt.mp hlarge), isInf_infinity] at hinf
  exact absurd hinf (by decide)

theorem isNaN_eq (h : Rounds x q) : x.isNaN = false := by
  rcases lt_or_ge |q| overflow with hrange | hlarge
  · exact isNaN_of_isFinite (h.nearest hrange).1
  · rw [h.eq_infinity hlarge]
    generalize decide (q < 0) = negative
    cases negative <;> rfl

/-- Of two numbers the smaller one is not nearer to the greater of two doubles. -/
theorem exact_le_of_lt (hp : Rounds x p) (hq : Rounds y q) (hx : x.isFinite = true) (hy : y.isFinite = true) (h : p < q) :
    exact x ≤ exact y := by
  have hnear := (hp.nearest (hp.isFinite_iff.mp hx)).2 hy
  have hnear' := (hq.nearest (hq.isFinite_iff.mp hy)).2 hx
  by_contra hless
  rw [not_le] at hless
  have habove : exact x + exact y ≤ 2 * p := by
    have hsquares := sq_le_sq.mpr hnear
    by_contra hbelow
    nlinarith
  have hbelow : 2 * q ≤ exact x + exact y := by
    have hsquares := sq_le_sq.mpr hnear'
    by_contra habove'
    nlinarith
  linarith

theorem mono (hp : Rounds x p) (hq : Rounds y q) (h : p ≤ q) : x ≤ y := by
  have hpos : 0 < overflow := mul_pos (by norm_num) (two_zpow_pos _)
  rcases lt_or_ge |p| overflow with hsmall | hlarge
  · rcases lt_or_ge |q| overflow with hsmall' | hlarge'
    · have hx := (hp.nearest hsmall).1
      have hy := (hq.nearest hsmall').1
      rw [le_iff hx hy]
      rcases h.eq_or_lt with rfl | hlt
      · by_cases hzero : p = 0
        · subst hzero
          obtain ⟨negative, rfl⟩ := hp.eq_zero
          obtain ⟨negative', rfl⟩ := hq.eq_zero
          rw [(exact_zero_of negative).2, (exact_zero_of negative').2]
        · rw [hp.eq_rounded hzero, hq.eq_rounded hzero]
      · exact hp.exact_le_of_lt hq hx hy hlt
    · have hpositive : ¬ q < 0 := by
        intro hneg
        rw [abs_of_neg hneg] at hlarge'
        have := neg_abs_le p
        linarith
      rw [hq.eq_infinity hlarge', decide_eq_false hpositive]
      exact le_infinity hp.isNaN_eq
  · rcases lt_or_ge p 0 with hneg | hnonneg
    · rw [hp.eq_infinity hlarge, decide_eq_true hneg]
      exact infinity_le hq.isNaN_eq
    · have hlarge' : overflow ≤ |q| := hlarge.trans (by rw [abs_of_nonneg hnonneg, abs_of_nonneg (hnonneg.trans h)]; exact h)
      rw [hq.eq_infinity hlarge', decide_eq_false (not_lt.mpr (hnonneg.trans h))]
      exact le_infinity hp.isNaN_eq

theorem exact_mono (hp : Rounds x p) (hq : Rounds y q) (hx : x.isFinite = true) (hy : y.isFinite = true) (h : p ≤ q) :
    exact x ≤ exact y :=
  (le_iff hx hy).mp (hp.mono hq h)

end Rounds

/-! ## Numbers of doubles -/

section
variable {x z : Float} {q : ℚ}

theorem abs_exact_le (hz : z.isFinite = true) : |exact z| ≤ largest := by
  obtain ⟨negative, mantissa, exponent, -, hc, rfl⟩ := content_of_isFinite hz
  rw [exact_ofMagnitude negative hc, abs_signedExact]
  exact hc.le_largest

theorem Rounds.of_exact (hz : z.isFinite = true) (h : Rounds x (exact z)) : x.isFinite = true ∧ exact x = exact z := by
  have hrange : |exact z| < overflow := (abs_exact_le hz).trans_lt largest_lt_overflow
  obtain ⟨hfinite, hnearest⟩ := h.nearest hrange
  have hdistance := hnearest hz
  rw [sub_self, abs_zero, abs_nonpos_iff, sub_eq_zero] at hdistance
  exact ⟨hfinite, hdistance⟩

theorem Rounds.exact_le (h : Rounds x q) (hx : x.isFinite = true) (hz : z.isFinite = true) (hle : q ≤ exact z) :
    exact x ≤ exact z := by
  obtain ⟨hfinite, hexact⟩ := Rounds.of_exact hz (Or.inl rfl : Rounds (rounded (exact z)) (exact z))
  rw [← hexact]
  exact h.exact_mono (Or.inl rfl) hx hfinite hle

theorem Rounds.le_exact (h : Rounds x q) (hx : x.isFinite = true) (hz : z.isFinite = true) (hle : exact z ≤ q) :
    exact z ≤ exact x := by
  obtain ⟨hfinite, hexact⟩ := Rounds.of_exact hz (Or.inl rfl : Rounds (rounded (exact z)) (exact z))
  rw [← hexact]
  exact Rounds.exact_mono (Or.inl rfl) h hfinite hx hle

theorem Rounds.lt_exact (h : Rounds x q) (hx : x.isFinite = true) (hz : z.isFinite = true) (hlt : exact x < exact z) :
    q < exact z :=
  not_le.mp fun hle => absurd hlt (not_lt.mpr (h.le_exact hx hz hle))

/-- A number that becomes a normal double moves by at most half a unit of the last of its fifty-three bits. -/
theorem Rounds.error (h : Rounds x q) (hx : x.isFinite = true) (hnormal : 2 ^ (-1022 : Int) ≤ |exact x|) :
    |exact x - q| ≤ 2 ^ (-53 : Int) * |exact x| := by
  have hq : q ≠ 0 := by
    rintro rfl
    obtain ⟨negative, rfl⟩ := h.eq_zero
    rw [(exact_zero_of negative).2, abs_zero] at hnormal
    exact absurd (two_zpow_pos _) (not_lt.mpr hnormal)
  have hnum : 0 < q.num.natAbs := Int.natAbs_pos.mpr (Rat.num_ne_zero.mpr hq)
  have hat := roundsAt_targetExponent hnum q.den_pos
  rw [natAbs_div_den] at hat
  generalize targetExponent q.num.natAbs q.den = target at hat
  generalize roundHalfEven _ _ = k at hat
  obtain ⟨mantissa, exponent, hnearest, hbits, hvalue⟩ := hat.nearest (h.isFinite_iff.mp hx)
  have hpos := two_zpow_pos target
  have hexact : x = ofMagnitude (q < 0) (magnitudeBits mantissa exponent) := by
    rw [h.eq_rounded hq, ← (rounds_of_roundsAt hq hat).eq_rounded hq, ← hbits,
      min_eq_left (magnitudeBits_lt hnearest.canonical).le]
  rw [hexact, exact_ofMagnitude _ hnearest.canonical, abs_signedExact, hvalue] at hnormal
  rw [hexact, exact_ofMagnitude _ hnearest.canonical, abs_signedExact_sub_self, abs_signedExact, hvalue]
  have hk : (2 : ℚ) ^ 52 ≤ k := by
    rcases hat.le_mantissa with rfl | hlarge
    · have hsplit : (2 : ℚ) ^ (-1022 : Int) = 2 ^ 52 * 2 ^ leastExponent := (two_zpow_add 52 leastExponent)
      rw [hsplit] at hnormal
      exact le_of_mul_le_mul_right hnormal hpos
    · exact_mod_cast hlarge
  have hnear := hat.near
  rw [abs_sub_comm] at hnear
  calc abs (k * 2 ^ target - |q|) = |k - |q| / 2 ^ target| * 2 ^ target := abs_mul_sub hpos _ _
    _ ≤ 1 / 2 * 2 ^ target := mul_le_mul_of_nonneg_right hnear hpos.le
    _ = 2 ^ (-53 : Int) * (2 ^ 52 * 2 ^ target) := by
        norm_num
        ring
    _ ≤ 2 ^ (-53 : Int) * (k * 2 ^ target) :=
        mul_le_mul_of_nonneg_left (mul_le_mul_of_nonneg_right hk hpos.le) (two_zpow_pos _).le

theorem Rounds.exact_nonneg (h : Rounds x q) (hx : x.isFinite = true) (hq : 0 ≤ q) : 0 ≤ exact x := by
  have hzero := h.le_exact hx (z := 0) rfl (by rw [exact_zero]; exact hq)
  rwa [exact_zero] at hzero

end

end Reckoner.Double
