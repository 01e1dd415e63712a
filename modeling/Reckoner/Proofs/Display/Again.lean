import Reckoner.Proofs.Display.Threshold

/-!
# Texts of numbers read off a display

Texts depend on the notation, the sign and the rounded number only. So the double that a display is read as shows the same
text, unless rounding led to a threshold and with it to the other notation. That happens to four numbers: to `10 ^ 15` without
an exponent, to `10 ^ -10` with one, and to their opposites.
-/

namespace Reckoner.Display

open Double (Nearest PowerFits content exact)

set_option autoImplicit false

variable {x y : Float} {negative : Bool} {mantissa mantissa' : Nat} {exponent exponent' : Int}

/-! ## Texts of rounded numbers -/

/-- The text of a rounded number, with or without an exponent. -/
def shownText (s : Settings) (withExponent negative : Bool) (d : Decimal) : List Char :=
  if withExponent then signedText negative (d.scientific scientificPlaces)
  else if s.thousandsSeparator then withSeparators (signedText negative d.positional)
  else signedText negative d.positional

theorem shownText_congr (s : Settings) (withExponent negative : Bool) {d d' : Decimal} (hd : 0 < d.coefficient)
    (hd' : 0 < d'.coefficient) (h : d.exact = d'.exact) :
    shownText s withExponent negative d = shownText s withExponent negative d' := by
  rw [shownText, shownText, Decimal.positional_congr hd hd' h, Decimal.scientific_congr _ hd hd' h]

/-- A double is shown like any decimal number that it is rounded to. -/
theorem formatChars_eq (s : Settings) (hx : Parts x negative mantissa exponent) {d : Decimal} (hd : 0 < d.coefficient)
    (h : (rounded (shownDigits s x) mantissa exponent).exact = d.exact) :
    formatChars s x = shownText s (usesExponent x) negative d := by
  obtain ⟨hnum, hden⟩ := fraction_pos hx.pos exponent
  have hpos := Decimal.significant_coefficient_pos (shownDigits_pos s hx.finite) hnum hden
  rw [← shownText_congr s (usesExponent x) negative hpos hd h, formatChars_of_pos s hx.pos hx.content, shownText,
    shownDigits_eq s hx.finite]
  split <;> rfl

/-! ## Where the notation changes -/

/-- The texts that are shown again in the other notation, and how. -/
def crossings : List (String × String) :=
  [("1000000000000000", "1.000000e+15"), ("1,000,000,000,000,000", "1.000000e+15"), ("1.000000e-10", "0.0000000001"),
    ("-1000000000000000", "-1.000000e+15"), ("-1,000,000,000,000,000", "-1.000000e+15"), ("-1.000000e-10", "-0.0000000001")]

/-- The text of the number that a display is read as. -/
def shownAgain (text : String) : String :=
  (crossings.lookup text).getD text

theorem shownAgain_upper (s : Settings) (negative : Bool) :
    shownAgain (String.ofList (shownText s false negative ⟨1, 15⟩)) = String.ofList (shownText s true negative ⟨1, 15⟩) := by
  simp only [shownText]
  cases s.thousandsSeparator <;> cases negative <;> decide

theorem shownAgain_lower (s : Settings) (negative : Bool) :
    shownAgain (String.ofList (shownText s true negative ⟨1, -10⟩)) = String.ofList (shownText s false negative ⟨1, -10⟩) := by
  simp only [shownText]
  cases s.thousandsSeparator <;> cases negative <;> decide

theorem mem_exponent_iff (s : Settings) (hx : Parts x negative mantissa exponent) :
    'e' ∈ formatChars s x ↔ usesExponent x = true := by
  rw [formatChars_of_pos s hx.pos hx.content]
  split
  · next hexponent =>
    obtain ⟨n, back, htext, -, -⟩ := scientific_numeral negative mantissa exponent
    rw [htext]
    exact iff_of_true (List.mem_append_right _ List.mem_cons_self) hexponent
  · next hfixed =>
    obtain ⟨n, -, htext⟩ := fixed_numeral s negative hx.pos exponent
    refine iff_of_false (fun hmem => ?_) hfixed
    have hkept : 'e' ∈ (_ : List Char).filter (· != ',') := List.mem_filter.mpr ⟨hmem, rfl⟩
    rw [htext] at hkept
    have hnumeral : 'e' ∈ n.text := by
      cases negative with
      | true => exact (List.mem_cons.mp hkept).resolve_left (by decide)
      | false => exact hkept
    exact absurd (n.all_numeral _ hnumeral) (by decide)

theorem abs_signed (negative : Bool) {size : ℚ} (h : 0 ≤ size) : |if negative then -size else size| = size := by
  cases negative with
  | true => exact (abs_neg size).trans (abs_of_nonneg h)
  | false => exact abs_of_nonneg h

/-- A text that changes has an exponent and stands for a number of the size of the lower threshold, or has none and stands
for one of the size of the upper threshold. -/
theorem crossings_exact : ∀ pair ∈ crossings, ∃ d : ℚ, shownExact? pair.1 = some d ∧
    (|d| = 10 ^ (-10 : Int) ∧ 'e' ∈ pair.1.toList ∨ |d| = 10 ^ (15 : Int) ∧ 'e' ∉ pair.1.toList) := by
  have hread : ∀ pair ∈ crossings, ∃ (negative : Bool) (scaled : Literal.Scaled),
      Literal.real? (pair.1.toList.filter (· != ',')) = some (.finite negative scaled) ∧
        (scaled = ⟨1000000, -16⟩ ∧ 'e' ∈ pair.1.toList ∨ scaled = ⟨1000000000000000, 0⟩ ∧ 'e' ∉ pair.1.toList) := by
    simp only [crossings, List.forall_mem_cons]
    refine ⟨⟨false, _, rfl, ?_⟩, ⟨false, _, rfl, ?_⟩, ⟨false, _, rfl, ?_⟩, ⟨true, _, rfl, ?_⟩, ⟨true, _, rfl, ?_⟩,
      ⟨true, _, rfl, ?_⟩, List.forall_mem_nil _⟩ <;> decide
  intro pair hpair
  obtain ⟨negative, scaled, hreal, hscaled⟩ := hread pair hpair
  refine ⟨_, by rw [shownExact?, hreal]; rfl, ?_⟩
  rw [abs_signed _ (mul_nonneg (Nat.cast_nonneg _) (Decimal.ten_zpow_pos _).le)]
  rcases hscaled with ⟨rfl, hmem⟩ | ⟨rfl, hmem⟩
  · exact Or.inl ⟨by norm_num, hmem⟩
  · exact Or.inr ⟨by norm_num, hmem⟩

theorem shownAgain_eq_self {text : String} (h : ∀ pair ∈ crossings, pair.1 ≠ text) : shownAgain text = text := by
  have hnone : crossings.lookup text = none :=
    List.lookup_eq_none_iff.mpr fun pair hpair => by simpa using (h pair hpair).symm
  rw [shownAgain, hnone]
  rfl

/-- Rounding does not lead to a threshold at which the notation changes. -/
def Stays (s : Settings) (x : Float) (mantissa : Nat) (exponent : Int) : Prop :=
  (rounded (shownDigits s x) mantissa exponent).exact ≠ if usesExponent x then 10 ^ (-10 : Int) else 10 ^ (15 : Int)

/-- The text of a double that is not rounded to such a threshold is not one that changes. -/
theorem shownAgain_format (s : Settings) (hx : Parts x negative mantissa exponent) (hstays : Stays s x mantissa exponent) :
    shownAgain (format s x) = format s x := by
  refine shownAgain_eq_self fun pair hpair heq => ?_
  obtain ⟨d, hread, hkind⟩ := crossings_exact pair hpair
  have hpos := (rounded_half (shownDigits_pos s hx.finite) hx.pos exponent).1
  rw [heq, shownExact?_format (formatChars_shows s hx.finite hx.pos hx.content)] at hread
  have hsize : |d| = (rounded (shownDigits s x) mantissa exponent).exact := by
    rw [← Option.some.inj hread, abs_signed negative hpos.le]
  rw [heq, format, String.toList_ofList, mem_exponent_iff s hx, hsize] at hkind
  rcases hkind with ⟨hpower, hexponent⟩ | ⟨hpower, hfixed⟩
  · exact hstays (hpower.trans (if_pos hexponent).symm)
  · exact hstays (hpower.trans (if_neg hfixed).symm)

/-! ## Showing again what was read -/

theorem ten_zpow_le_least : (10 : ℚ) ^ (-324 : Int) ≤ 2 ^ (-1074 : Int) := by
  have hpower : 2 ^ 1074 ≤ 10 ^ 324 := by decide +kernel
  rw [zpow_neg, zpow_neg, zpow_ofNat, zpow_ofNat]
  exact inv_anti₀ (pow_pos (by norm_num) _) (by exact_mod_cast hpower)

/-- The powers of ten below shown doubles are among those that are checked. -/
theorem powerFits_shown (s : Settings) (hx : Parts x negative mantissa exponent) :
    PowerFits (shownDigits s x) (Int.log 10 ((mantissa : ℚ) * 2 ^ exponent)) := by
  rw [shownDigits_eq s hx.finite]
  split
  · refine Double.powerFits_seven ((Int.zpow_le_iff_le_log (by norm_num) hx.value_pos).mp ?_)
    have hone : (1 : ℚ) ≤ mantissa := by exact_mod_cast hx.pos
    calc ((10 : Nat) : ℚ) ^ (-324 : Int) ≤ 2 ^ (-1074 : Int) := ten_zpow_le_least
      _ ≤ 2 ^ exponent := Double.two_zpow_le hx.canonical.le_exponent
      _ ≤ mantissa * 2 ^ exponent := le_mul_of_one_le_left (Double.two_zpow_pos _).le hone
  · next hfixed =>
    rw [hx.usesExponent_iff, not_or, not_le, not_lt] at hfixed
    refine Double.powerFits_fixed (significantDigits_le s) ((Int.zpow_le_iff_le_log (by norm_num) hx.value_pos).mp ?_)
      (Int.lt_add_one_iff.mp ((Int.lt_zpow_iff_log_lt (by norm_num) hx.value_pos).mp ?_))
    · exact_mod_cast scientificLower_bounds.1.le.trans hfixed.2
    · exact_mod_cast hfixed.1

section
variable (s : Settings) (hx : Parts x negative mantissa exponent) (hy : Parts y negative mantissa' exponent')
  (h : Nearest mantissa' exponent' (rounded (shownDigits s x) mantissa exponent).exact)
include hx hy h

/-- What is not rounded to a threshold is read as a double with the same notation. -/
theorem usesExponent_again (hstays : Stays s x mantissa exponent) : usesExponent y = usesExponent x := by
  have hreread := reread_of_nearest (shownDigits_pos s hx.finite) hx.canonical hx.pos h
  rw [Stays, rounded_exact _ hx.pos] at hstays
  rw [Bool.eq_iff_iff, hy.usesExponent_iff]
  by_cases hexponent : usesExponent x = true
  · rw [if_pos hexponent] at hstays
    exact iff_of_true (hreread.scientific_again (hx.usesExponent_iff.mp hexponent) hstays) hexponent
  · rw [if_neg hexponent] at hstays
    rw [hx.usesExponent_iff] at hexponent
    exact iff_of_false (hreread.fixed_again (shownDigits_le s hx.finite) hexponent hstays)
      (fun h => hexponent (hx.usesExponent_iff.mp h))

theorem format_again_same (hstays : Stays s x mantissa exponent) : format s y = shownAgain (format s x) := by
  have hnotation := usesExponent_again s hx hy h hstays
  have hdigits : shownDigits s y = shownDigits s x := by
    rw [shownDigits_eq s hy.finite, shownDigits_eq s hx.finite, hnotation]
  have hagain := rounded_again (shownDigits_pos s hx.finite) hx.canonical hx.pos (powerFits_shown s hx) h
  obtain ⟨hnum, hden⟩ := fraction_pos hx.pos exponent
  have hpos := Decimal.significant_coefficient_pos (shownDigits_pos s hx.finite) hnum hden
  rw [shownAgain_format s hx hstays, format, format, formatChars_eq s hx hpos rfl,
    formatChars_eq s hy hpos (by rw [hdigits]; exact hagain), hnotation]

theorem format_again_upper (hfixed : usesExponent x = false)
    (hpower : (rounded (shownDigits s x) mantissa exponent).exact = 10 ^ (15 : Int)) :
    format s y = shownAgain (format s x) := by
  rw [hpower] at h
  have hvalue := nearest_upper h
  have hunit : (⟨1, 15⟩ : Decimal).exact = 10 ^ (15 : Int) := by rw [Decimal.exact, Nat.cast_one, one_mul]
  have hexponent : usesExponent y = true := hy.usesExponent_iff.mpr (Or.inl hvalue.ge)
  have hcorrect := rounded_correct (shownDigits s y) hy.pos exponent'
  rw [hvalue] at hcorrect
  have hagain := hcorrect.unique (upper_rounds (shownDigits_pos s hy.finite))
  rw [format, format, formatChars_eq s hx Nat.one_pos (hpower.trans hunit.symm),
    formatChars_eq s hy Nat.one_pos (hagain.trans hunit.symm), hfixed, hexponent, shownAgain_upper]

theorem format_again_lower (hexponent : usesExponent x = true)
    (hpower : (rounded (shownDigits s x) mantissa exponent).exact = 10 ^ (-10 : Int)) :
    format s y = shownAgain (format s x) := by
  rw [hpower] at h
  have hvalue := nearest_lower h
  have hunit : (⟨1, -10⟩ : Decimal).exact = 10 ^ (-10 : Int) := by rw [Decimal.exact, Nat.cast_one, one_mul]
  have hfixed : usesExponent y = false := by
    rw [← Bool.not_eq_true, hy.usesExponent_iff, hvalue, not_or, not_le, scientificLower_exact]
    norm_num
  have hcorrect := rounded_correct (shownDigits s y) hy.pos exponent'
  rw [hvalue] at hcorrect
  have hagain := hcorrect.unique (lower_rounds (shownDigits_pos s hy.finite) (shownDigits_le s hy.finite))
  rw [format, format, formatChars_eq s hx Nat.one_pos (hpower.trans hunit.symm),
    formatChars_eq s hy Nat.one_pos (hagain.trans hunit.symm), hfixed, hexponent, shownAgain_lower]

/-- What a display is read as is shown again with the text that the table of changes says. -/
theorem format_again : format s y = shownAgain (format s x) := by
  by_cases hstays : Stays s x mantissa exponent
  · exact format_again_same s hx hy h hstays
  · rw [Stays, not_not] at hstays
    cases hexponent : usesExponent x with
    | true => exact format_again_lower s hx hy h hexponent (hstays.trans (if_pos hexponent))
    | false => exact format_again_upper s hx hy h hexponent (hstays.trans (if_neg (by rw [hexponent]; decide)))

end

/-- The text of a finite double is read as a finite double, whose text is that of the first one or its change. -/
theorem number?_again (s : Settings) (hx : x.isFinite = true) :
    ∃ y : Float, number? (format s x) = some y ∧ y.isFinite = true ∧ format s y = shownAgain (format s x) := by
  obtain ⟨negative, mantissa, exponent, hcontent, hc, -⟩ := Double.content_of_isFinite hx
  by_cases hm : 0 < mantissa
  · obtain ⟨mantissa', exponent', hnearest, hread⟩ :=
      (formatChars_shows s hx hm hcontent).float? (shown_le_largest s hx hc hm hcontent)
    have hy := parts_ofMagnitude negative hnearest.canonical
      (mantissa_pos_of_nearest (shownDigits_pos s hx) hc hm hnearest)
    exact ⟨_, (number?_format s x).trans hread, hy.finite, format_again s ⟨hx, hcontent, hc, hm⟩ hy hnearest⟩
  · have hzero : exact x = 0 := by
      rw [Double.exact_of_content hcontent]
      exact Double.signedExact_eq_zero.mpr (by omega)
    refine ⟨0, ?_, rfl, ?_⟩
    · rw [format_of_exact_zero s hx hzero]
      decide +kernel
    · rw [format_of_exact_zero s hx hzero, format_zero]
      decide

end Reckoner.Display
