import Reckoner.Proofs.Display.Order
import Reckoner.Proofs.Number.Groups

/-!
# The shape of displayed numbers

A finite double is shown in one of two notations. With an exponent its text has one digit other than zero, a point, six digits
and an exponent of two or three digits. Without one its text is tidy behind an optional minus sign, has no more significant
digits than the settings ask for, and may have its integer part in groups of three. Without the commas of the groups every
text is what it would be without groups.
-/

namespace Reckoner

open Double (content exact signedExact)
open Literal (isDigit natOfDigits maxIntegerDigits)

set_option autoImplicit false

/-! ## Significant digits of a text -/

/-- Digits without the zeros in front and at the end. -/
def trimZeros (ds : List Char) : List Char :=
  Decimal.dropZeros (ds.dropWhile (· == '0'))

/-- The digits of a number text from the first to the last one other than zero. -/
def significantOf (text : List Char) : List Char :=
  trimZeros (text.filter isDigit)

theorem trimZeros_zeros_append (count : Nat) (ds : List Char) : trimZeros (List.replicate count '0' ++ ds) = trimZeros ds := by
  rw [trimZeros, List.dropWhile_append_of_pos, trimZeros]
  intro c hc
  rw [List.eq_of_mem_replicate hc]
  rfl

theorem trimZeros_append_zeros (ds : List Char) (count : Nat) : trimZeros (ds ++ List.replicate count '0') = trimZeros ds := by
  induction count with
  | zero => rw [List.replicate_zero, List.append_nil]
  | succ count ih =>
    rw [List.replicate_succ', ← List.append_assoc, ← ih, trimZeros, List.dropWhile_append]
    split
    · next hzeros =>
      rw [trimZeros, List.isEmpty_iff.mp hzeros]
      rfl
    · exact Decimal.dropZeros_append_zero _

theorem length_trimZeros_le (ds : List Char) : (trimZeros ds).length ≤ ds.length := by
  unfold trimZeros Decimal.dropZeros
  rw [List.length_reverse]
  calc ((ds.dropWhile (· == '0')).reverse.dropWhile (· == '0')).length
      ≤ (ds.dropWhile (· == '0')).reverse.length := (List.dropWhile_sublist _).length_le
    _ = (ds.dropWhile (· == '0')).length := List.length_reverse
    _ ≤ ds.length := (List.dropWhile_sublist _).length_le

namespace Decimal

theorem filter_withFraction {whole fraction : List Char} (hw : ∀ c ∈ whole, isDigit c = true)
    (hf : ∀ c ∈ fraction, isDigit c = true) :
    ∃ count, (withFraction whole fraction).filter isDigit ++ List.replicate count '0' = whole ++ fraction := by
  obtain ⟨count, hsplit⟩ := eq_dropZeros_append fraction
  have hkept : ∀ c ∈ dropZeros fraction, isDigit c = true := fun c hc => hf c (mem_of_mem_dropZeros hc)
  refine ⟨count, ?_⟩
  have hfilter : (withFraction whole fraction).filter isDigit = whole ++ dropZeros fraction := by
    unfold withFraction
    split
    · next hempty => rw [hempty, List.append_nil, List.filter_eq_self.mpr hw]
    · rw [List.filter_append, List.filter_eq_self.mpr hw, List.filter_cons_of_neg (by decide), List.filter_eq_self.mpr hkept]
  rw [hfilter, List.append_assoc, ← hsplit]

/-- The digits of a positional text are those of the coefficient, apart from zeros in front and at the end. -/
theorem trimZeros_positional (d : Decimal) (h : 0 < d.coefficient) :
    significantOf d.positional = trimZeros (digits d.coefficient) := by
  have hdigits : ∀ c ∈ digits d.coefficient, isDigit c = true := fun c hc => isDigit_of_mem_digits hc
  have hzeros : ∀ count : Nat, ∀ c ∈ List.replicate count '0', isDigit c = true := fun count c hc => by
    rw [List.eq_of_mem_replicate hc]
    rfl
  unfold significantOf positional
  simp only
  split
  · rw [if_neg h.ne', List.filter_append, List.filter_eq_self.mpr hdigits, List.filter_eq_self.mpr (hzeros _),
      trimZeros_append_zeros]
  · generalize hpadding : (-d.exponent).toNat + 1 - (digits d.coefficient).length = padding
    have hall : ∀ c ∈ List.replicate padding '0' ++ digits d.coefficient, isDigit c = true :=
      List.forall_mem_append.mpr ⟨hzeros padding, hdigits⟩
    obtain ⟨count, hfilter⟩ := filter_withFraction
      (fun c hc => hall c (List.mem_of_mem_take hc)) (fun c hc => hall c (List.mem_of_mem_drop hc))
    rw [List.take_append_drop] at hfilter
    rw [← trimZeros_append_zeros _ count, hfilter, trimZeros_zeros_append]

/-- A coefficient of so many digits, or the next power of ten, has no more significant digits. -/
theorem length_significantOf_le {count : Nat} (hcount : 0 < count) {d : Decimal} (hlow : 10 ^ (count - 1) ≤ d.coefficient)
    (hhigh : d.coefficient ≤ 10 ^ count) : (significantOf d.positional).length ≤ count := by
  obtain ⟨places, rfl⟩ : ∃ places, count = places + 1 := ⟨count - 1, by omega⟩
  obtain ⟨k, zeros, hdigits, hlength⟩ := leading_digits hlow hhigh
  rw [trimZeros_positional d ((Nat.pow_pos (by decide)).trans_le hlow), hdigits, trimZeros_append_zeros]
  exact (length_trimZeros_le _).trans hlength.le

end Decimal

theorem TidyWhole.le_exact {whole fraction : List Char} (h : TidyWhole whole) (hf : TidyFraction fraction)
    {n : Expression.Numeral} (htext : n.text = whole ++ fraction) : (natOfDigits whole : ℚ) ≤ n.exact := by
  cases hf with
  | none =>
    rw [List.append_nil] at htext
    rw [Expression.Numeral.exact_of_digits (htext ▸ h.digits), htext]
  | @point places hplaces =>
    have hsplit : 10 ^ places.length * natOfDigits whole ≤ natOfDigits (whole ++ places) := by
      have happend : natOfDigits (whole ++ places) = 10 ^ places.length * natOfDigits whole + natOfDigits places :=
        (Nat.ofDigitChars_append 0).trans Nat.ofDigitChars_eq_ofDigitChars_zero
      exact happend ▸ Nat.le_add_right _ _
    have hsplit' : (10 : ℚ) ^ places.length * natOfDigits whole ≤ natOfDigits (whole ++ places) := by exact_mod_cast hsplit
    rw [Expression.Numeral.exact_of_point htext h.digits, zpow_neg, zpow_natCast, ← div_eq_mul_inv,
      le_div_iff₀ (pow_pos (by norm_num) _), mul_comm]
    exact hsplit'

/-- A tidy integer part has more digits than a power of ten only if it is at least as large. -/
theorem TidyWhole.length_le {whole : List Char} (h : TidyWhole whole) {count : Nat} (hcount : 0 < count)
    (hless : natOfDigits whole < 10 ^ count) : whole.length ≤ count := by
  have hlength := (Nat.length_toDigits_le_iff (by decide) hcount).mpr hless
  change (Decimal.digits (natOfDigits whole)).length ≤ count at hlength
  rwa [h.digits_natOfDigits] at hlength

namespace Display

/-! ## Shapes -/

/-- One digit other than zero, a point, six digits and an exponent of two or three digits, behind an optional minus sign. -/
structure ScientificText (text : List Char) : Prop where
  parts : ∃ (negative : Bool) (lead : Char) (places : List Char) (sign : Char) (power : List Char),
    text = signedText negative (lead :: '.' :: places ++ 'e' :: sign :: power) ∧
      isDigit lead = true ∧ lead ≠ '0' ∧ places.length = 6 ∧ (∀ c ∈ places, isDigit c = true) ∧
      (sign = '+' ∨ sign = '-') ∧ (power.length = 2 ∨ power.length = 3) ∧ ∀ c ∈ power, isDigit c = true

/--
An integer part without needless zeros, in groups or not, and perhaps a fraction part that does not end in a zero, behind an
optional minus sign; with no more significant digits than the count.
-/
structure FixedText (separators : Bool) (count : Nat) (text : List Char) : Prop where
  parts : ∃ (negative : Bool) (whole shown fraction : List Char), text = signedText negative (shown ++ fraction) ∧
    TidyWhole whole ∧ TidyFraction fraction ∧ if separators then Grouped whole shown else shown = whole
  not_minus_zero : text ≠ ['-', '0']
  span_le : (significantOf text).length ≤ count

theorem ScientificText.mem {text : List Char} (h : ScientificText text) : 'e' ∈ text ∧ ',' ∉ text := by
  obtain ⟨negative, lead, places, sign, power, rfl, hlead, -, -, hplaces, hsign, -, hpower⟩ := h.parts
  have hdigit : ∀ c, isDigit c = true → c ≠ ',' := by
    rintro c hc rfl
    exact absurd hc (by decide)
  have hsign' : sign ≠ ',' := by
    rcases hsign with rfl | rfl <;> decide
  have hbody : ∀ c ∈ lead :: '.' :: places ++ 'e' :: sign :: power, c ≠ ',' := by
    simp only [List.cons_append, List.forall_mem_cons, List.forall_mem_append]
    exact ⟨hdigit lead hlead, by decide, fun c hc => hdigit c (hplaces c hc), by decide, hsign',
      fun c hc => hdigit c (hpower c hc)⟩
  have hmem : 'e' ∈ lead :: '.' :: places ++ 'e' :: sign :: power := List.mem_append_right _ List.mem_cons_self
  cases negative with
  | false => exact ⟨hmem, fun hcomma => hbody _ hcomma rfl⟩
  | true =>
    refine ⟨List.mem_cons_of_mem _ hmem, fun hcomma => ?_⟩
    rcases List.mem_cons.mp hcomma with hminus | hcomma
    · exact absurd hminus (by decide)
    · exact hbody _ hcomma rfl

theorem FixedText.filter {separators : Bool} {count : Nat} {text : List Char} (h : FixedText separators count text) :
    ∃ negative whole fraction, text.filter (· != ',') = signedText negative (whole ++ fraction) ∧ TidyWhole whole ∧
      TidyFraction fraction := by
  obtain ⟨negative, whole, shown, fraction, rfl, hwhole, hfraction, hshown⟩ := h.parts
  refine ⟨negative, whole, fraction, ?_, hwhole, hfraction⟩
  have hfilter : shown.filter (· != ',') = whole := by
    cases separators with
    | false =>
      obtain rfl : shown = whole := hshown
      exact filter_comma hwhole.no_comma
    | true => exact Grouped.filter hshown hwhole.no_comma
  rw [filter_signedText, List.filter_append, hfilter, filter_comma hfraction.no_comma]

theorem FixedText.not_scientific {separators : Bool} {count : Nat} {text : List Char} (h : FixedText separators count text) :
    ¬ ScientificText text := by
  intro hscientific
  obtain ⟨negative, whole, fraction, hfilter, hwhole, hfraction⟩ := h.filter
  have hmem : 'e' ∈ text.filter (· != ',') := List.mem_filter.mpr ⟨hscientific.mem.1, rfl⟩
  have hfractionMem : 'e' ∉ fraction := by
    intro hmem
    cases hfraction with
    | none => exact absurd hmem List.not_mem_nil
    | point hplaces =>
      rcases List.mem_cons.mp hmem with hpoint | hmem
      · exact absurd hpoint (by decide)
      · exact absurd (hplaces.digits _ hmem) (by decide)
  have hbody : 'e' ∉ whole ++ fraction := by
    intro hmem
    rcases List.mem_append.mp hmem with hmem | hmem
    · exact absurd (hwhole.digits _ hmem) (by decide)
    · exact hfractionMem hmem
  rw [hfilter] at hmem
  cases negative with
  | false => exact hbody hmem
  | true =>
    rcases List.mem_cons.mp hmem with hminus | hmem
    · exact absurd hminus (by decide)
    · exact hbody hmem

/-! ## With an exponent -/

section
variable {x : Float} {negative : Bool} {mantissa : Nat} {exponent : Int}

/-- Of a double that is shown with an exponent the leading power of ten has two or three digits, and so has the next one. -/
theorem leading_of_exponent (hx : Parts x negative mantissa exponent) (hexponent : usesExponent x = true) :
    15 ≤ Int.log 10 ((mantissa : ℚ) * 2 ^ exponent) ∧ Int.log 10 ((mantissa : ℚ) * 2 ^ exponent) ≤ 308 ∨
      -324 ≤ Int.log 10 ((mantissa : ℚ) * 2 ^ exponent) ∧ Int.log 10 ((mantissa : ℚ) * 2 ^ exponent) < -10 := by
  have habs : |exact x| = mantissa * 2 ^ exponent := by
    rw [Double.exact_of_content hx.content, Double.abs_signedExact]
  have hne : exact x ≠ 0 := exact_ne_zero_of_exponent hx.finite hexponent
  obtain ⟨hlow, hhigh⟩ := log_bounds hne
  have hnotation := (usesExponent_iff_log hx.finite hne).mp hexponent
  rw [habs] at hlow hhigh hnotation
  have hleast : (2 : ℚ) ^ (-1074 : Int) ≤ mantissa * 2 ^ exponent := by
    calc (2 : ℚ) ^ (-1074 : Int) ≤ 2 ^ exponent := Double.two_zpow_le hx.canonical.le_exponent
      _ ≤ mantissa * 2 ^ exponent := le_mul_of_one_le_left (Double.two_zpow_pos _).le (by exact_mod_cast hx.pos)
  have habove := Decimal.lt_of_ten_zpow_lt (hlow.trans_lt (hx.canonical.le_largest.trans_lt largest_lt_ten_zpow))
  have hbelow := Decimal.lt_of_ten_zpow_lt ((ten_zpow_le_least.trans hleast).trans_lt hhigh)
  omega

/-- The exponent shown is the leading power of ten of the double or, where rounding carries, the next one. -/
theorem scientificExponent_rounded (hm : 0 < mantissa) (exponent : Int) :
    (rounded (scientificPlaces + 1) mantissa exponent).scientificExponent = Int.log 10 ((mantissa : ℚ) * 2 ^ exponent) ∨
      (rounded (scientificPlaces + 1) mantissa exponent).scientificExponent =
        Int.log 10 ((mantissa : ℚ) * 2 ^ exponent) + 1 := by
  obtain ⟨hnum, hden⟩ := fraction_pos hm exponent
  obtain ⟨hlow, hhigh⟩ := Decimal.significant_coefficient_bounds (Nat.succ_pos scientificPlaces) hnum hden
  have hexponent : (rounded (scientificPlaces + 1) mantissa exponent).exponent =
      Int.log 10 ((mantissa : ℚ) * 2 ^ exponent) - 6 := by
    rw [← fraction_ratio, ← Decimal.leadingExponent_eq_log hnum hden]
    change Decimal.leadingExponent _ _ - ((scientificPlaces + 1 : Nat) : Int) + 1 = _
    rw [show scientificPlaces = 6 from rfl]
    omega
  change 10 ^ 6 ≤ (rounded (scientificPlaces + 1) mantissa exponent).coefficient at hlow
  change (rounded (scientificPlaces + 1) mantissa exponent).coefficient ≤ 10 ^ 7 at hhigh
  have hcount : Decimal.digitCount (rounded (scientificPlaces + 1) mantissa exponent).coefficient = 7 ∨
      Decimal.digitCount (rounded (scientificPlaces + 1) mantissa exponent).coefficient = 8 := by
    have hpos : 0 < (rounded (scientificPlaces + 1) mantissa exponent).coefficient := by omega
    have habove := (Nat.pow_lt_pow_iff_right (by decide : 1 < 10)).mp (hlow.trans_lt (Decimal.lt_pow_digitCount _))
    have hbelow := (Nat.pow_le_pow_iff_right (by decide : 1 < 10)).mp ((Decimal.pow_digitCount_le hpos).trans hhigh)
    omega
  rw [Decimal.scientificExponent, hexponent]
  omega

/-- An exponent between 10 and 999 or between their opposites is written with two or three digits. -/
theorem exponentMark_shape {e : Int} (hlow : 10 ≤ e.natAbs) (hhigh : e.natAbs < 1000) :
    ∃ (sign : Char) (power : List Char), Decimal.exponentMark 1 e = 'e' :: sign :: power ∧ (sign = '+' ∨ sign = '-') ∧
      (power.length = 2 ∨ power.length = 3) ∧ ∀ c ∈ power, isDigit c = true := by
  have hpos := Decimal.digitCount_pos e.natAbs
  have habove := (Nat.pow_lt_pow_iff_right (by decide : 1 < 10)).mp
    ((show 10 ^ 1 ≤ e.natAbs from hlow).trans_lt (Decimal.lt_pow_digitCount _))
  have hbelow := (Nat.pow_lt_pow_iff_right (by decide : 1 < 10)).mp
    ((Decimal.pow_digitCount_le (by omega)).trans_lt (show e.natAbs < 10 ^ 3 from hhigh))
  have hmark : Decimal.exponentMark 1 e = 'e' :: (if e < 0 then '-' else '+') :: Decimal.digits e.natAbs := by
    have hnone : 1 - (Decimal.digits e.natAbs).length = 0 := by
      unfold Decimal.digitCount at hpos
      omega
    rw [Decimal.exponentMark]
    simp only [hnone, List.replicate_zero, List.nil_append]
  unfold Decimal.digitCount at hpos habove hbelow
  refine ⟨_, _, hmark, ?_, by omega, fun c hc => Decimal.isDigit_of_mem_digits hc⟩
  split
  · exact Or.inr rfl
  · exact Or.inl rfl

theorem scientific_shape (hx : Parts x negative mantissa exponent) (hexponent : usesExponent x = true) :
    ScientificText (scientific negative mantissa exponent) := by
  obtain ⟨hnum, hden⟩ := fraction_pos hx.pos exponent
  have hcoefficient := Decimal.significant_coefficient_pos (Nat.succ_pos scientificPlaces) hnum hden
  have hleading := leading_of_exponent hx hexponent
  have hshown := scientificExponent_rounded hx.pos exponent
  obtain ⟨sign, power, hmark, hsign, hlength, hpower⟩ :=
    exponentMark_shape (e := (rounded (scientificPlaces + 1) mantissa exponent).scientificExponent) (by omega) (by omega)
  have hscientific : scientific negative mantissa exponent =
      signedText negative ((rounded (scientificPlaces + 1) mantissa exponent).scientific scientificPlaces) := rfl
  have hhead := Decimal.head?_digits hcoefficient
  have hdigits : ∀ c ∈ Decimal.digits (rounded (scientificPlaces + 1) mantissa exponent).coefficient ++
      List.replicate scientificPlaces '0', isDigit c = true := by
    refine List.forall_mem_append.mpr ⟨fun c hc => Decimal.isDigit_of_mem_digits hc, fun c hc => ?_⟩
    rw [List.eq_of_mem_replicate hc]
    rfl
  rw [hscientific, Decimal.scientific, hmark]
  change (Decimal.digits (rounded (scientificPlaces + 1) mantissa exponent).coefficient).head? ≠ some '0' at hhead
  cases hds : Decimal.digits (rounded (scientificPlaces + 1) mantissa exponent).coefficient with
  | nil => exact absurd hds Nat.toDigits_ne_nil
  | cons lead more =>
    rw [hds] at hhead hdigits
    obtain ⟨hlead, hmore⟩ := List.forall_mem_cons.mp hdigits
    refine ⟨negative, lead, (more ++ List.replicate scientificPlaces '0').take scientificPlaces, sign, power, rfl, hlead, ?_, ?_,
      fun c hc => hmore c (List.mem_of_mem_take hc), hsign, hlength, hpower⟩
    · rintro rfl
      exact hhead rfl
    · rw [List.length_take, List.length_append, List.length_replicate]
      exact Nat.min_eq_left (Nat.le_add_left _ _)

/-! ## Without an exponent -/

/-- The fixed notation of a double below the upper threshold, in parts; its integer part has at most sixteen digits. -/
theorem fixed_parts (s : Settings) (hx : Parts x negative mantissa exponent) (hfixed : usesExponent x = false) :
    ∃ whole fraction, fixed s.significantDigits negative mantissa exponent = signedText negative (whole ++ fraction) ∧
      TidyWhole whole ∧ TidyFraction fraction ∧ whole.length ≤ maxIntegerDigits ∧
      (significantOf (whole ++ fraction)).length ≤ s.significantDigits := by
  have hdigits := significantDigits_pos s
  obtain ⟨hnum, hden⟩ := fraction_pos hx.pos exponent
  obtain ⟨hlow, hhigh⟩ := Decimal.significant_coefficient_bounds hdigits hnum hden
  have hcoefficient := Decimal.significant_coefficient_pos hdigits hnum hden
  obtain ⟨n, htext, hexact⟩ := Decimal.positional_exact (rounded s.significantDigits mantissa exponent) hcoefficient
  obtain ⟨whole, fraction, hparts, hwhole, hfraction⟩ :=
    (Decimal.positional_tidy (rounded s.significantDigits mantissa exponent) hcoefficient).parts
  have hspan := Decimal.length_significantOf_le hdigits hlow hhigh
  change (significantOf (rounded s.significantDigits mantissa exponent).positional).length ≤ _ at hspan
  rw [hparts] at hspan
  refine ⟨whole, fraction, ?_, hwhole, hfraction, ?_, hspan⟩
  · rw [← hparts]
    rfl
  · have hsize := abs_lt_of_fixed hx.finite hfixed
    rw [Double.exact_of_content hx.content, Double.abs_signedExact] at hsize
    have hhalf := (abs_le.mp (rounded_half hdigits hx.pos exponent).2).1
    have hle := hwhole.le_exact hfraction (htext.trans hparts)
    rw [hexact] at hle
    have hless : (natOfDigits whole : ℚ) < 10 ^ 16 := by linarith
    have hlength := hwhole.length_le (by decide : 0 < 16) (by exact_mod_cast hless)
    exact hlength.trans (by decide)

theorem significantOf_filter (text : List Char) : significantOf (text.filter (· != ',')) = significantOf text := by
  rw [significantOf, List.filter_filter, significantOf]
  congr 1
  refine List.filter_congr fun c _ => ?_
  by_cases hc : isDigit c = true
  · have hne : c ≠ ',' := by
      rintro rfl
      exact absurd hc (by decide)
    simp [hc, hne]
  · simp [hc]

theorem significantOf_signedText (negative : Bool) (text : List Char) :
    significantOf (signedText negative text) = significantOf text := by
  cases negative <;> rfl

theorem fixed_shape (s : Settings) (hx : Parts x negative mantissa exponent) (hfixed : usesExponent x = false) :
    FixedText s.thousandsSeparator s.significantDigits (formatChars s x) := by
  obtain ⟨whole, fraction, htext, hwhole, hfraction, hlength, hspan⟩ := fixed_parts s hx hfixed
  have hchars := formatChars_of_pos s hx.pos hx.content
  rw [hfixed, if_neg Bool.false_ne_true, htext] at hchars
  have hshown : formatChars s x =
      signedText negative ((if s.thousandsSeparator then Radix.groupDigits whole else whole) ++ fraction) := by
    rw [hchars]
    split
    · rw [withSeparators, groupThousands_parts negative hwhole hfraction hlength]
    · rfl
  have hplain : (formatChars s x).filter (· != ',') = signedText negative (whole ++ fraction) := by
    rw [hshown]
    split
    · exact filter_groups negative hwhole hfraction
    · rw [filter_signedText, List.filter_append, filter_comma hwhole.no_comma, filter_comma hfraction.no_comma]
  refine ⟨⟨negative, whole, _, fraction, hshown, hwhole, hfraction, ?_⟩, fun hminus => ?_, ?_⟩
  · split
    · exact groupDigits_grouped hwhole.nonempty
    · rfl
  · have hne : exact x ≠ 0 := by
      rw [Double.exact_of_content hx.content, ne_eq, Double.signedExact_eq_zero]
      exact hx.pos.ne'
    obtain ⟨d, hread, -, -, hzero⟩ := shownExact?_correct s hx.finite hne
    rw [format, hminus] at hread
    exact hzero (Option.some.inj (hread.symm.trans (by decide +kernel)))
  · rw [← significantOf_filter, hplain, significantOf_signedText]
    exact hspan

end

theorem parts_or_zero {x : Float} (hx : x.isFinite = true) :
    (∃ negative mantissa exponent, Parts x negative mantissa exponent) ∨ exact x = 0 := by
  obtain ⟨negative, mantissa, exponent, hcontent, hc, -⟩ := Double.content_of_isFinite hx
  rcases Nat.eq_zero_or_pos mantissa with hm | hm
  · exact Or.inr (Double.exact_of_content hcontent ▸ Double.signedExact_eq_zero.mpr hm)
  · exact Or.inl ⟨negative, mantissa, exponent, hx, hcontent, hc, hm⟩

theorem formatChars_zero (s : Settings) {x : Float} (hx : x.isFinite = true) (hzero : exact x = 0) :
    formatChars s x = ['0'] := by
  have hformat := congrArg String.toList (format_of_exact_zero s hx hzero)
  rwa [format, String.toList_ofList] at hformat

/-- The shape of the text of a finite double, by the size of the double. -/
theorem shape_of_size (s : Settings) {x : Float} (hx : x.isFinite = true) :
    if usesExponent x then ScientificText (formatChars s x)
    else FixedText s.thousandsSeparator s.significantDigits (formatChars s x) := by
  rcases parts_or_zero hx with ⟨negative, mantissa, exponent, hparts⟩ | hzero
  · split
    · next hexponent =>
      rw [formatChars_of_pos s hparts.pos hparts.content, if_pos hexponent]
      exact scientific_shape hparts hexponent
    · next hfixed => exact fixed_shape s hparts (Bool.not_eq_true _ ▸ hfixed)
  · rw [if_neg (fun hexponent => exact_ne_zero_of_exponent hx hexponent hzero), formatChars_zero s hx hzero]
    have hwhole : TidyWhole ['0'] := ⟨by simp [isDigit], by simp, fun _ => rfl⟩
    refine ⟨⟨false, ['0'], ['0'], [], rfl, hwhole, .none, ?_⟩, by decide, Nat.zero_le _⟩
    split
    · exact groupDigits_grouped hwhole.nonempty
    · rfl

/-! ## With and without groups -/

theorem formatChars_ungrouped (s : Settings) (x : Float) :
    (formatChars { s with thousandsSeparator := true } x).filter (· != ',') =
      formatChars { s with thousandsSeparator := false } x := by
  cases hx : x.isFinite with
  | false =>
    rcases Double.special_of_not_isFinite hx with rfl | ⟨negative, rfl⟩
    · rfl
    · cases negative <;> rfl
  | true =>
    rcases parts_or_zero hx with ⟨negative, mantissa, exponent, hparts⟩ | hzero
    · rw [formatChars_of_pos _ hparts.pos hparts.content, formatChars_of_pos _ hparts.pos hparts.content]
      cases hexponent : usesExponent x with
      | true => exact filter_comma (scientific_shape hparts hexponent).mem.2
      | false =>
        obtain ⟨whole, fraction, htext, hwhole, hfraction, hlength, -⟩ := fixed_parts s hparts hexponent
        change (withSeparators (fixed s.significantDigits negative mantissa exponent)).filter (· != ',') =
          fixed s.significantDigits negative mantissa exponent
        rw [htext, withSeparators, groupThousands_parts negative hwhole hfraction hlength]
        exact filter_groups negative hwhole hfraction
    · rw [formatChars_zero _ hx hzero, formatChars_zero _ hx hzero]
      rfl

theorem withoutCommas_format (s : Settings) (x : Float) :
    withoutCommas (format { s with thousandsSeparator := true } x) = format { s with thousandsSeparator := false } x := by
  rw [withoutCommas, format, String.toList_ofList, formatChars_ungrouped, format]

theorem withoutCommas_formatExact (s : Settings) (negative : Bool) (x : Float) :
    withoutCommas (formatExact { s with thousandsSeparator := true } negative x) =
      formatExact { s with thousandsSeparator := false } negative x := by
  unfold formatExact
  split
  · exact withoutCommas_format s x
  · cases negative <;> decide

theorem withoutCommas_formatDatum (s : Settings) (d : Datum) :
    withoutCommas (formatDatum { s with thousandsSeparator := true } d) =
      formatDatum { s with thousandsSeparator := false } d := by
  unfold formatDatum
  split
  · exact withoutCommas_formatExact s _ _
  · exact withoutCommas_format s _
  · exact withoutCommas_formatExact s _ _
  · decide

/--
A finite double is shown with an exponent exactly if it is `10 ^ 15` or more in size or, other than zero, below `10 ^ -10`, and
otherwise without one, in the precision held between 1 and 17 and with groups if they are wanted. Without its commas every text
is the one without groups, and so are texts of the shape with any number of places whose integer part is put into groups.
-/
theorem format_shape (s : Settings) :
    (∀ x : Float, x.isFinite = true →
      (ScientificText (format s x).toList ↔ 10 ^ 15 ≤ |exact x| ∨ 0 < |exact x| ∧ |exact x| < 10 ^ (-10 : Int)) ∧
      (FixedText s.thousandsSeparator (min (max s.precision 1) 17).toNat (format s x).toList ↔
        ¬ (10 ^ 15 ≤ |exact x| ∨ 0 < |exact x| ∧ |exact x| < 10 ^ (-10 : Int)))) ∧
    (∀ d : Datum, withoutCommas (formatDatum { s with thousandsSeparator := true } d) =
      formatDatum { s with thousandsSeparator := false } d) ∧
    ∀ (negative : Bool) (whole fraction : List Char), TidyWhole whole → TidyFraction fraction →
      whole.length ≤ maxIntegerDigits → ∃ grouped,
        groupThousands (signedText negative (whole ++ fraction)) = .ok grouped ∧
          grouped.filter (· != ',') = signedText negative (whole ++ fraction) := by
  refine ⟨fun x hx => ?_, withoutCommas_formatDatum s, fun negative whole fraction hwhole hfraction hlength =>
    ⟨_, groupThousands_parts negative hwhole hfraction hlength, filter_groups negative hwhole hfraction⟩⟩
  have hshape := shape_of_size s hx
  have hsize := usesExponent_iff_size hx
  rw [← abs_pos] at hsize
  rw [format, String.toList_ofList, ← hsize]
  cases hexponent : usesExponent x with
  | true =>
    rw [hexponent, if_pos rfl] at hshape
    exact ⟨iff_of_true hshape rfl, iff_of_false (fun hfixed => hfixed.not_scientific hshape) fun h => h rfl⟩
  | false =>
    rw [hexponent, if_neg Bool.false_ne_true] at hshape
    exact ⟨iff_of_false hshape.not_scientific Bool.false_ne_true, iff_of_true hshape Bool.false_ne_true⟩

/-- The upper threshold is shown with an exponent, and `-1234.5` with a comma that can be taken out again. -/
theorem format_shape_upper :
    (1e15 : Float).isFinite = true ∧ format {} 1e15 = "1.000000e+15" ∧ ScientificText "1.000000e+15".toList ∧
      ∃ grouped, groupThousands ['-', '1', '2', '3', '4', '.', '5'] = .ok grouped ∧
        grouped.filter (· != ',') = ['-', '1', '2', '3', '4', '.', '5'] := by
  have htext : format {} 1e15 = "1.000000e+15" := by decide +kernel
  have hsize : (10 : ℚ) ^ 15 ≤ |exact 1e15| := (scientificUpper_exact.2.symm.le).trans (le_abs_self _)
  have hwhole : TidyWhole ['1', '2', '3', '4'] := ⟨by simp [isDigit], by simp, by simp⟩
  have hfraction : TidyFraction ['.', '5'] := .point ⟨by simp [isDigit], by simp, by simp⟩
  obtain ⟨hshape, -, hgroups⟩ := format_shape {}
  refine ⟨rfl, htext, ?_, hgroups true ['1', '2', '3', '4'] ['.', '5'] hwhole hfraction (by decide)⟩
  exact htext ▸ (hshape 1e15 rfl).1.mpr (Or.inl hsize)

end Display

end Reckoner
