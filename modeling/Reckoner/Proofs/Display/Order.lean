import Reckoner.Proofs.Display.Again

/-!
# The order of displayed numbers

Rounding to a unit keeps the order. The unit of a shown number depends on its leading power of ten alone, and rounding leads
neither below that power nor above the next one. So the numbers shown are in the order of the doubles, whatever the notations
of the two are. The text of the opposite of a positive double is its text behind a minus sign.
-/

namespace Reckoner

open Double (content exact signedExact)

set_option autoImplicit false

/-! ## Rounding -/

namespace NearestMultiple

variable {unit x y d e : ℚ}

theorem mono (hunit : 0 < unit) (hd : NearestMultiple unit x d) (he : NearestMultiple unit y e) (hle : x ≤ y) : d ≤ e := by
  by_contra hless
  obtain ⟨k, hk⟩ := hd.multiple
  obtain ⟨j, hj⟩ := he.multiple
  have hlt : j < k := by
    rw [hk, hj, not_le] at hless
    exact_mod_cast lt_of_mul_lt_mul_right hless hunit.le
  have hstep : ((j : ℚ) + 1) * unit ≤ k * unit := mul_le_mul_of_nonneg_right (by exact_mod_cast hlt) hunit.le
  rw [add_mul, one_mul, ← hk, ← hj] at hstep
  have hbelow := (abs_le.mp (hd.close hunit)).2
  have habove := (abs_le.mp (he.close hunit)).1
  obtain rfl : x = y := by linarith
  exact hless (hd.unique he).le

/-- Between two powers of ten that are multiples of the unit, the multiple stays between them. -/
theorem in_decade {digits : Nat} (hdigits : 0 < digits) {lead : Int} (h : NearestMultiple (10 ^ (lead - digits + 1)) x d)
    (hlow : 10 ^ lead ≤ x) (hhigh : x < 10 ^ (lead + 1)) : 10 ^ lead ≤ d ∧ d ≤ 10 ^ (lead + 1) := by
  have hunit := Decimal.ten_zpow_pos (lead - digits + 1)
  have hfirst : ((10 ^ (digits - 1) : Nat) : ℚ) * 10 ^ (lead - digits + 1) = 10 ^ lead := by
    push_cast
    rw [mul_comm, Double.unit_mul_pow hdigits]
  have hnext : ((10 ^ digits : Nat) : ℚ) * 10 ^ (lead - digits + 1) = 10 ^ (lead + 1) := by
    push_cast
    rw [← zpow_natCast, ← Decimal.ten_zpow_add]
    congr 1
    omega
  have hself := NearestMultiple.self hunit (10 ^ (digits - 1))
  have hself' := NearestMultiple.self hunit (10 ^ digits)
  rw [hfirst] at hself
  rw [hnext] at hself'
  exact ⟨hself.mono hunit h hlow, h.mono hunit hself' hhigh.le⟩

end NearestMultiple

namespace Display

/-! ## Units of shown numbers -/

/-- The digits that a number with the leading power of ten is shown with. -/
def digitsAt (s : Settings) (lead : Int) : Nat :=
  if 15 ≤ lead ∨ lead < -10 then scientificPlaces + 1 else s.significantDigits

theorem digitsAt_pos (s : Settings) (lead : Int) : 0 < digitsAt s lead := by
  unfold digitsAt
  split
  · exact Nat.succ_pos _
  · exact significantDigits_pos s

/-- The unit of the last digit that a number is shown with. -/
def shownUnit (s : Settings) (x : ℚ) : ℚ :=
  10 ^ (Int.log 10 |x| - digitsAt s (Int.log 10 |x|) + 1)

theorem shownUnit_neg (s : Settings) (x : ℚ) : shownUnit s (-x) = shownUnit s x := by
  rw [shownUnit, abs_neg, shownUnit]

theorem shown_mono (s : Settings) {x y d e : ℚ} (hx : 0 < x) (hle : x ≤ y) (hd : NearestMultiple (shownUnit s x) x d)
    (he : NearestMultiple (shownUnit s y) y e) : d ≤ e := by
  have hy := hx.trans_le hle
  obtain ⟨hlow, hhigh⟩ := log_bounds hx.ne'
  obtain ⟨hlow', hhigh'⟩ := log_bounds hy.ne'
  unfold shownUnit at hd he
  rw [abs_of_pos hx] at hd hlow hhigh
  rw [abs_of_pos hy] at he hlow' hhigh'
  have hlead : Int.log 10 x < Int.log 10 y + 1 :=
    Decimal.lt_of_ten_zpow_lt (hlow.trans_lt (hle.trans_lt hhigh'))
  rcases Int.lt_or_eq_of_le (Int.lt_add_one_iff.mp hlead) with hless | hsame
  · calc d ≤ 10 ^ (Int.log 10 x + 1) := (hd.in_decade (digitsAt_pos s _) hlow hhigh).2
      _ ≤ 10 ^ Int.log 10 y := Decimal.ten_zpow_le hless
      _ ≤ e := (he.in_decade (digitsAt_pos s _) hlow' hhigh').1
  · rw [hsame] at hd
    exact hd.mono (Decimal.ten_zpow_pos _) he hle

/-! ## Notations -/

/-- No double lies between the lower threshold and the double that it is read as. -/
theorem lt_lower_iff {x : Float} (hx : x.isFinite = true) :
    |exact x| < exact scientificLower ↔ |exact x| < 10 ^ (-10 : Int) := by
  obtain ⟨hbelow, -⟩ := scientificLower_bounds
  obtain ⟨negative, mantissa, exponent, hcontent, hc, -⟩ := Double.content_of_isFinite hx
  rw [Double.exact_of_content hcontent, Double.abs_signedExact]
  refine ⟨fun h => ?_, fun h => h.trans hbelow⟩
  have hfar := below_lower hc h
  linarith

theorem usesExponent_iff_size {x : Float} (hx : x.isFinite = true) :
    usesExponent x = true ↔ 10 ^ 15 ≤ |exact x| ∨ exact x ≠ 0 ∧ |exact x| < 10 ^ (-10 : Int) := by
  rw [usesExponent_iff hx, lt_lower_iff hx, and_comm]

theorem usesExponent_iff_log {x : Float} (hx : x.isFinite = true) (hne : exact x ≠ 0) :
    usesExponent x = true ↔ 15 ≤ Int.log 10 |exact x| ∨ Int.log 10 |exact x| < -10 := by
  obtain ⟨hlow, hhigh⟩ := log_bounds hne
  rw [usesExponent_iff_size hx, and_iff_right hne, ← zpow_ofNat]
  refine or_congr ⟨fun h => ?_, fun h => (Decimal.ten_zpow_le h).trans hlow⟩
    ⟨fun h => Decimal.lt_of_ten_zpow_lt (hlow.trans_lt h), fun h => hhigh.trans_le (Decimal.ten_zpow_le h)⟩
  exact Int.lt_add_one_iff.mp (Decimal.lt_of_ten_zpow_lt (h.trans_lt hhigh))

/-- The unit of the last digit shown is one for all doubles between two powers of ten. -/
theorem lastUnit_shown (s : Settings) {x : Float} (hx : x.isFinite = true) (hne : exact x ≠ 0) :
    lastUnit (shownDigits s x) (exact x) = shownUnit s (exact x) := by
  have hdigits : shownDigits s x = digitsAt s (Int.log 10 |exact x|) := by
    rw [shownDigits_eq s hx, digitsAt]
    exact if_congr (usesExponent_iff_log hx hne) rfl rfl
  rw [lastUnit, shownUnit, hdigits]

/-- What a finite double is shown as: zero as zero, any other one as the nearest multiple of its unit. -/
theorem shown_exact (s : Settings) {x : Float} (hx : x.isFinite = true) :
    ∃ d : ℚ, shownExact? (format s x) = some d ∧
      (exact x = 0 ∧ d = 0 ∨ exact x ≠ 0 ∧ NearestMultiple (shownUnit s (exact x)) (exact x) d ∧
        (0 < d ↔ 0 < exact x) ∧ d ≠ 0) := by
  by_cases hne : exact x = 0
  · refine ⟨0, ?_, Or.inl ⟨hne, rfl⟩⟩
    rw [format_of_exact_zero s hx hne]
    decide +kernel
  · obtain ⟨d, hread, hcorrect, hsign, hzero⟩ := shownExact?_correct s hx hne
    exact ⟨d, hread, Or.inr ⟨hne, lastUnit_shown s hx hne ▸ hcorrect, hsign, hzero⟩⟩

theorem shown_ordered (s : Settings) {x y : Float} (hx : x.isFinite = true) (hy : y.isFinite = true)
    (hle : exact x ≤ exact y) :
    ∃ d e : ℚ, shownExact? (format s x) = some d ∧ shownExact? (format s y) = some e ∧ d ≤ e := by
  obtain ⟨d, hd, hx'⟩ := shown_exact s hx
  obtain ⟨e, he, hy'⟩ := shown_exact s hy
  refine ⟨d, e, hd, he, ?_⟩
  have hnonpos : ∀ {r t : ℚ}, (0 < t ↔ 0 < r) → r ≤ 0 → t ≤ 0 := fun h hr => not_lt.mp (mt h.mp hr.not_gt)
  rcases hx' with ⟨hx0, rfl⟩ | ⟨hxne, hdx, hdsign, hdne⟩
  · rcases hy' with ⟨-, rfl⟩ | ⟨hyne, -, hesign, -⟩
    · exact le_refl 0
    · exact (hesign.mpr (lt_of_le_of_ne (hx0 ▸ hle) hyne.symm)).le
  · rcases hy' with ⟨hy0, rfl⟩ | ⟨hyne, hey, hesign, hene⟩
    · exact hnonpos hdsign (hy0 ▸ hle)
    · rcases lt_or_gt_of_ne hxne with hxneg | hxpos
      · rcases lt_or_gt_of_ne hyne with hyneg | hypos
        · have hey' := shownUnit_neg s (exact y) ▸ hey.neg
          have hdx' := shownUnit_neg s (exact x) ▸ hdx.neg
          exact neg_le_neg_iff.mp (shown_mono s (neg_pos.mpr hyneg) (neg_le_neg hle) hey' hdx')
        · exact (hnonpos hdsign hxneg.le).trans (hesign.mpr hypos).le
      · exact shown_mono s hxpos hle hdx hey

/-! ## Opposites -/

theorem withSeparators_minus (n : Expression.Numeral) :
    withSeparators (signedText true n.text) = '-' :: withSeparators (signedText false n.text) := by
  simp only [withSeparators, groupThousands_numeral]
  cases Literal.int? (n.text.takeWhile (· != '.')) <;> rfl

theorem fixed_minus (s : Settings) {mantissa : Nat} (hm : 0 < mantissa) (exponent : Int) :
    withSeparators (fixed s.significantDigits true mantissa exponent) =
      '-' :: withSeparators (fixed s.significantDigits false mantissa exponent) := by
  obtain ⟨hnum, hden⟩ := fraction_pos hm exponent
  obtain ⟨n, htext, -⟩ := Decimal.positional_exact (rounded s.significantDigits mantissa exponent)
    (Decimal.significant_coefficient_pos (significantDigits_pos s) hnum hden)
  have hfixed : ∀ negative, fixed s.significantDigits negative mantissa exponent = signedText negative n.text := by
    intro negative
    rw [htext]
    rfl
  rw [hfixed, hfixed]
  exact withSeparators_minus n

theorem format_minus (s : Settings) {x : Float} (hx : 0 < x) : format s (-x) = "-" ++ format s x := by
  have htext : formatChars s (-x) = '-' :: formatChars s x → format s (-x) = "-" ++ format s x := by
    intro h
    rw [format, format, h]
    exact (String.ofList_append : String.ofList (['-'] ++ formatChars s x) = _)
  cases hfinite : x.isFinite with
  | false =>
    rcases Double.special_of_not_isFinite hfinite with rfl | ⟨negative, rfl⟩
    · exact absurd hx (by decide +kernel)
    · cases negative with
      | false => exact htext rfl
      | true => exact absurd hx (by decide +kernel)
  | true =>
    have hpos := (Double.lt_iff rfl hfinite).mp hx
    obtain ⟨negative, mantissa, exponent, hcontent, hc, hbits⟩ := Double.content_of_isFinite hfinite
    rw [Double.exact_zero, Double.exact_of_content hcontent] at hpos
    have hm : 0 < mantissa := Nat.pos_of_ne_zero fun hzero => hpos.ne' (Double.signedExact_eq_zero.mpr hzero)
    cases negative with
    | true => exact absurd hpos (Double.signedExact_neg hm exponent).not_gt
    | false =>
      have hparts : Parts x false mantissa exponent := ⟨hfinite, hcontent, hc, hm⟩
      have hopposite : -x = Double.ofMagnitude true (Double.magnitudeBits mantissa exponent) :=
        hbits ▸ Double.neg_ofMagnitude false (Double.magnitudeBits_lt hc).le
      have hparts' := parts_ofMagnitude true hc hm
      rw [← hopposite] at hparts'
      have hsame : usesExponent (-x) = usesExponent x :=
        Bool.eq_iff_iff.mpr (hparts'.usesExponent_iff.trans hparts.usesExponent_iff.symm)
      apply htext
      rw [formatChars_of_pos s hm hparts'.content, formatChars_of_pos s hm hcontent, hsame]
      split
      · rfl
      · split
        · exact fixed_minus s hm exponent
        · rfl

/--
The numbers that finite doubles are shown as are in the order of the doubles, and the opposite of a positive double is shown
behind a minus sign.
-/
theorem format_ordered (s : Settings) :
    (∀ x y : Float, x.isFinite = true → y.isFinite = true → x ≤ y →
      ∃ d e : ℚ, shownExact? (format s x) = some d ∧ shownExact? (format s y) = some e ∧ d ≤ e) ∧
    ∀ x : Float, 0 < x → format s (-x) = "-" ++ format s x :=
  ⟨fun _ _ hx hy hle => shown_ordered s hx hy ((Double.le_iff hx hy).mp hle), fun _ hx => format_minus s hx⟩

/-- With three digits the largest integer below `10 ^ 15` is shown as that power, without the exponent that the power has. -/
theorem format_ordered_carry :
    format { precision := 3 } 999999999999999 = "1,000,000,000,000,000" ∧
      format { precision := 3 } 1e15 = "1.000000e+15" ∧
      ∃ d e : ℚ, shownExact? "1,000,000,000,000,000" = some d ∧ shownExact? "1.000000e+15" = some e ∧ d ≤ e := by
  have hfixed : format { precision := 3 } 999999999999999 = "1,000,000,000,000,000" := by decide +kernel
  have hscientific : format { precision := 3 } 1e15 = "1.000000e+15" := by decide +kernel
  have hordered := (format_ordered { precision := 3 }).1 999999999999999 1e15 rfl rfl (by decide +kernel)
  rw [hfixed, hscientific] at hordered
  exact ⟨hfixed, hscientific, hordered⟩

end Display

end Reckoner
