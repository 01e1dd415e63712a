import Reckoner.Proofs.Expression.Reader
import Reckoner.Proofs.Number.Literal

/-!
# Numbers with an exponent read back

The tolerant reading knows exponents. It takes a numeral, behind a minus sign or not, and the exponent mark behind it, as
the double nearest to the product of the two. The scientific text of a decimal number with enough digits is such a numeral
and its mark, and the product is the decimal number.
-/

namespace Reckoner

open Expression (Numeral NoNumeral isDigit_iff numeral_cases)

set_option autoImplicit false

/-! ## Readings of numerals -/

namespace Literal

variable {back : List Char}

theorem split_digits {front : List Char} (hfront : ∀ c ∈ front, isDigit c = true)
    (hback : ∀ c ∈ back.head?, isDigit c = false) :
    (front ++ back).takeWhile isDigit = front ∧ (front ++ back).dropWhile isDigit = back := by
  rw [List.takeWhile_append_of_pos hfront, List.dropWhile_append_of_pos hfront]
  cases back with
  | nil => exact ⟨List.append_nil _, rfl⟩
  | cons c back =>
    have hc : ¬ isDigit c = true := by simp [hback c rfl]
    rw [List.takeWhile_cons_of_neg hc, List.dropWhile_cons_of_neg hc, List.append_nil]
    exact ⟨rfl, rfl⟩

/-- A numeral is split off a text as its digits and its places. -/
theorem takeMantissa_numeral (n : Numeral) (hstop : NoNumeral back) :
    takeMantissa (n.text ++ back) = some (⟨natOfDigits (n.text.filter isDigit), -(n.places : Int)⟩, back) := by
  have hback : ∀ c ∈ back.head?, isDigit c = false := fun c hc => by
    have hnumeral := hstop c hc
    by_contra hdigit
    rw [Expression.isNumeral_of_isDigit (by simpa using hdigit)] at hnumeral
    contradiction
  obtain ⟨c, more, hcons, -⟩ := n.text_cons
  rcases numeral_cases n.all_numeral with hd | ⟨whole, fraction, htext, hw, -⟩
  · obtain ⟨hdigits, hplaces⟩ := Numeral.parts_digits hd
    obtain ⟨htake, hdrop⟩ := split_digits hd hback
    have hempty : n.text.isEmpty = false := by rw [hcons]; rfl
    simp only [takeMantissa, htake, hdrop]
    rw [hdigits, hplaces]
    split
    · next rest =>
      exact absurd (hstop '.' rfl) (by decide)
    · simp [scaled?, hempty]
  · have hf := Numeral.digits_of_point htext
    obtain ⟨hdigits, hplaces⟩ := Numeral.parts_point htext hw hf
    have hpoint : ∀ c ∈ ('.' :: (fraction ++ back)).head?, isDigit c = false := by
      intro c hc
      rw [← Option.mem_some_iff.mp hc]
      decide
    have hsplit := split_digits hw hpoint
    obtain ⟨htake, hdrop⟩ := split_digits hf hback
    have hsome : (whole.isEmpty && fraction.isEmpty) = false := by
      rw [← Bool.not_eq_true, Bool.and_eq_true, List.isEmpty_iff, List.isEmpty_iff]
      rintro ⟨rfl, rfl⟩
      obtain ⟨d, hd, hdigit⟩ := n.some_digit
      rw [htext, List.nil_append, List.mem_singleton] at hd
      exact absurd (hd ▸ hdigit) (by decide)
    rw [hdigits, hplaces, htext, List.append_assoc, List.cons_append]
    simp only [takeMantissa, hsplit.1, hsplit.2, htake, hdrop, scaled?, hsome]
    rfl

theorem takeSign_numeral (negative : Bool) (n : Numeral) (back : List Char) :
    takeSign (signedText negative (n.text ++ back)) = (negative, n.text ++ back) := by
  cases negative with
  | true => rfl
  | false =>
    obtain ⟨c, rest, htext, hnumeral⟩ := n.text_cons
    rw [htext, List.cons_append]
    simp only [signedText, Bool.false_eq_true, if_false]
    unfold takeSign
    split
    · next heq =>
      obtain ⟨rfl, -⟩ := List.cons.inj heq
      contradiction
    · next heq =>
      obtain ⟨rfl, -⟩ := List.cons.inj heq
      contradiction
    · rfl

/-- A text that starts with a numeral is neither not-a-number nor an infinity. -/
theorem real?_numeral (negative : Bool) (n : Numeral) (hstop : NoNumeral back) :
    real? (signedText negative (n.text ++ back)) = (exponent? back).map fun e =>
      .finite negative ⟨natOfDigits (n.text.filter isDigit), -(n.places : Int) + e⟩ := by
  obtain ⟨c, rest, htext, hnumeral⟩ := n.text_cons
  have hword : ∀ (d : Char) (word : List Char), Expression.isNumeral d = false →
      (Text.lower (n.text ++ back) == d :: word) = false := by
    intro d word hd
    rw [beq_eq_false_iff_ne, htext, Text.lower, List.cons_append, List.map_cons, Expression.toLower_of_isNumeral hnumeral]
    intro heq
    rw [← (List.cons.inj heq).1, hnumeral] at hd
    contradiction
  rw [real?, takeSign_numeral]
  simp only [hword 'n' _ rfl, hword 'i' _ rfl, Bool.or_false, Bool.false_eq_true, if_false]
  rw [unsigned?, takeMantissa_numeral n hstop]
  simp only [Option.map_map]
  rfl

theorem plain_numeral (n : Numeral) : Plain n.text := by
  intro c hc
  rcases (Expression.isNumeral_iff c).mp (n.all_numeral c hc) with hdigit | hpoint
  · have hsingle : ∀ d ∈ [c], isDigit d = true := List.forall_mem_singleton.mpr hdigit
    exact plain_digits hsingle c (List.mem_singleton_self c)
  · rw [hpoint]
    decide

/-- A numeral and an exponent are read as the double nearest to their product. -/
theorem float?_numeral (negative : Bool) (n : Numeral) {e : Int} (hstop : NoNumeral back) (hplain : Plain back)
    (hback : exponent? back = some e) : float? (signedText negative (n.text ++ back)) =
      some (Double.ofDecimal negative (natOfDigits (n.text.filter isDigit)) (-(n.places : Int) + e)) := by
  have hall : Plain (signedText negative (n.text ++ back)) :=
    plain_signedText negative (List.forall_mem_append.mpr ⟨plain_numeral n, hplain⟩)
  rw [float?, tolerantReal?, plainForm?_plain hall, Option.bind_some, real?_numeral negative n hstop, hback]
  rfl

/-! ## Exponent marks -/

theorem exponentMark_digits (width : Nat) (e : Int) :
    ∀ c ∈ List.replicate (width - (Decimal.digits e.natAbs).length) '0' ++ Decimal.digits e.natAbs, isDigit c = true := by
  intro c hc
  rcases List.mem_append.mp hc with hzero | hdigit
  · rw [List.eq_of_mem_replicate hzero]
    rfl
  · exact Decimal.isDigit_of_mem_digits hdigit

theorem plain_exponentMark (width : Nat) (e : Int) : Plain (Decimal.exponentMark width e) := by
  have hdigits := plain_digits (exponentMark_digits width e)
  have hsign : ∀ c ∈ [if e < 0 then '-' else '+'], c.toNat < 128 ∧ Text.isWhiteSpace c = false ∧ c ≠ '_' := by
    split <;> simp [Text.isWhiteSpace]
  exact List.forall_mem_cons.mpr ⟨by decide, List.forall_mem_append.mpr ⟨hsign, hdigits⟩⟩

theorem exponent?_exponentMark (width : Nat) (e : Int) : exponent? (Decimal.exponentMark width e) = some e := by
  have hdigits := List.all_eq_true.mpr (exponentMark_digits width e)
  have hvalue : natOfDigits (List.replicate (width - (Decimal.digits e.natAbs).length) '0' ++ Decimal.digits e.natAbs) =
      e.natAbs := by
    rw [Decimal.natOfDigits_zeros_append, Decimal.natOfDigits_digits]
  have hne : List.replicate (width - (Decimal.digits e.natAbs).length) '0' ++ Decimal.digits e.natAbs ≠ [] :=
    List.append_ne_nil_of_right_ne_nil _ Nat.toDigits_ne_nil
  simp only [Decimal.exponentMark, exponent?]
  generalize List.replicate (width - (Decimal.digits e.natAbs).length) '0' ++ Decimal.digits e.natAbs = text at *
  have hsign : takeSign ((if e < 0 then '-' else '+') :: text) = (decide (e < 0), text) := by
    by_cases hnegative : e < 0
    · rw [if_pos hnegative, decide_eq_true hnegative]
      rfl
    · rw [if_neg hnegative, decide_eq_false hnegative]
      rfl
  have hsigned : Double.signed (decide (e < 0)) e.natAbs = e := by
    simp only [Double.signed, decide_eq_true_eq]
    split <;> omega
  simp [signedDigits?, hsign, hne, hdigits, hvalue, hsigned]

end Literal

/-! ## Scientific texts -/

namespace Decimal

theorem digits_ten_mul {k : Nat} (h : 0 < k) : digits (10 * k) = digits k ++ ['0'] :=
  (Nat.toDigits_append_toDigits (by decide) h (by decide : 0 < 10)).symm

/-- A coefficient of one more digit than there are places, or the next power of ten, starts with so many digits. -/
theorem leading_digits {places coefficient : Nat} (hlow : 10 ^ places ≤ coefficient)
    (hhigh : coefficient ≤ 10 ^ (places + 1)) :
    ∃ k zeros : Nat, digits coefficient = digits k ++ List.replicate zeros '0' ∧ digitCount k = places + 1 := by
  have hcount : ∀ k, 10 ^ places ≤ k → k < 10 ^ (places + 1) → digitCount k = places + 1 := by
    intro k hk hk'
    refine le_antisymm ((Nat.length_toDigits_le_iff (by decide) (by omega)).mpr hk') ?_
    by_contra hless
    exact absurd (lt_pow_digitCount k) (not_lt.mpr ((Nat.pow_le_pow_right (by decide) (by omega)).trans hk))
  rcases Nat.lt_or_eq_of_le hhigh with hlt | rfl
  · exact ⟨coefficient, 0, (List.append_nil _).symm, hcount _ hlow hlt⟩
  · refine ⟨10 ^ places, 1, ?_, hcount _ le_rfl (Nat.pow_lt_pow_right (by decide) (Nat.lt_succ_self _))⟩
    rw [pow_succ, mul_comm, digits_ten_mul (Nat.pow_pos (by decide))]
    rfl

/-- The scientific text of a decimal number is a numeral and the exponent; their product is the number. -/
theorem scientific_exact {places : Nat} {d : Decimal} (hlow : 10 ^ places ≤ d.coefficient)
    (hhigh : d.coefficient ≤ 10 ^ (places + 1)) :
    ∃ n : Numeral, d.scientific places = n.text ++ exponentMark 1 d.scientificExponent ∧
      n.exact * 10 ^ d.scientificExponent = d.exact := by
  obtain ⟨k, zeros, hdigits, hcount⟩ := leading_digits hlow hhigh
  have hcoefficient : d.coefficient = k * 10 ^ zeros := by
    rw [← natOfDigits_digits d.coefficient, hdigits, natOfDigits_append_zeros, natOfDigits_digits]
  have hexponent : d.scientificExponent = (places : Int) + zeros + d.exponent := by
    rw [scientificExponent, digitCount, hdigits, List.length_append, List.length_replicate, ← digitCount, hcount]
    push_cast
    ring
  have hall : ∀ c ∈ digits k, Literal.isDigit c = true := fun c hc => isDigit_of_mem_digits hc
  have hvalue := natOfDigits_digits k
  unfold digitCount at hcount
  rw [scientific, hdigits, List.append_assoc]
  generalize digits k = ds at *
  cases ds with
  | nil => contradiction
  | cons lead more =>
    have hlead : ∀ c ∈ [lead], Literal.isDigit c = true := fun c hc => hall c (by simpa using Or.inl (List.mem_singleton.mp hc))
    have hmore : ∀ c ∈ more, Literal.isDigit c = true := fun c hc => hall c (List.mem_cons_of_mem _ hc)
    have hlength : more.length = places := Nat.succ.inj hcount
    refine ⟨ofParts [lead] more (by simp) hlead hmore, ?_, ?_⟩
    · simp only [List.cons_append, ← hlength, List.take_left]
      rfl
    · rw [exact_ofParts, List.singleton_append, hvalue, hlength, hexponent, exact, hcoefficient, ten_zpow_add, ten_zpow_add,
        zpow_natCast, zpow_natCast, zpow_neg, zpow_natCast]
      push_cast
      field_simp

/-! ## Equal numbers have equal texts -/

/-- What one more zero at the end of the coefficient leaves alone depends on the exact number only. -/
theorem congr_of_step {α : Type} {f : Decimal → α} (hstep : ∀ (c : Nat) (e : Int), 0 < c → f ⟨10 * c, e - 1⟩ = f ⟨c, e⟩)
    {d d' : Decimal} (hd : 0 < d.coefficient) (hd' : 0 < d'.coefficient) (h : d.exact = d'.exact) : f d = f d' := by
  have hshift : ∀ (count c : Nat) (e : Int), 0 < c → f ⟨c * 10 ^ count, e - count⟩ = f ⟨c, e⟩ := by
    intro count c e hc
    induction count with
    | zero => rw [pow_zero, mul_one, Nat.cast_zero, sub_zero]
    | succ count ih =>
      have hcoefficient : c * 10 ^ (count + 1) = 10 * (c * 10 ^ count) := by ring
      have hexponent : e - (count + 1 : Nat) = e - count - 1 := by
        push_cast
        ring
      rw [hcoefficient, hexponent, hstep _ _ (Nat.mul_pos hc (Nat.pow_pos (by decide))), ih]
  have hzeros : ∀ {d d' : Decimal}, 0 < d'.coefficient → d.exact = d'.exact → d.exponent ≤ d'.exponent → f d = f d' := by
    intro d d' hd' h hle
    obtain ⟨count, hcount⟩ := Int.eq_ofNat_of_zero_le (sub_nonneg.mpr hle)
    have hexponent : d.exponent = d'.exponent - count := by omega
    have hcoefficient : d.coefficient = d'.coefficient * 10 ^ count := by
      have hpos := ten_zpow_pos d.exponent
      have hsplit : (10 : ℚ) ^ d'.exponent = 10 ^ count * 10 ^ d.exponent := by
        rw [← zpow_natCast, ← ten_zpow_add]
        congr 1
        omega
      rw [exact, exact, hsplit, ← mul_assoc, mul_left_inj' hpos.ne'] at h
      exact_mod_cast h
    rw [← hshift count d'.coefficient d'.exponent hd', ← hcoefficient, ← hexponent]
  rcases le_total d.exponent d'.exponent with hle | hle
  · exact hzeros hd' h hle
  · exact (hzeros hd h.symm hle).symm

theorem dropZeros_append_zero (text : List Char) : dropZeros (text ++ ['0']) = dropZeros text := by
  rw [dropZeros, List.reverse_append]
  rfl

theorem withFraction_append_zero (whole fraction : List Char) :
    withFraction whole (fraction ++ ['0']) = withFraction whole fraction := by
  rw [withFraction, dropZeros_append_zero, withFraction]

/-- The positional text shows no zeros at the end of a fraction. -/
theorem positional_step (c : Nat) (e : Int) (hc : 0 < c) : positional ⟨10 * c, e - 1⟩ = positional ⟨c, e⟩ := by
  have hten : 10 * c ≠ 0 := by omega
  simp only [positional, digits_ten_mul hc, if_neg hten, if_neg hc.ne']
  have hcount : 0 < (digits c).length := digitCount_pos c
  have hlength : (digits c ++ ['0']).length = (digits c).length + 1 := List.length_append
  rcases lt_trichotomy e 0 with hneg | rfl | hpos
  · have hplaces : (-(e - 1)).toNat = (-e).toNat + 1 := by omega
    have hpadding : (-e).toNat + 1 + 1 - (digits c ++ ['0']).length = (-e).toNat + 1 - (digits c).length := by omega
    rw [if_neg (by omega), if_neg (by omega), hplaces, hpadding, ← List.append_assoc]
    generalize List.replicate ((-e).toNat + 1 - (digits c).length) '0' ++ digits c = padded
    rw [List.length_append, List.length_singleton, Nat.add_sub_add_right, List.take_append_of_le_length (Nat.sub_le _ _),
      List.drop_append_of_le_length (Nat.sub_le _ _), withFraction_append_zero]
  · have hpadding : 1 + 1 - ((digits c).length + 1) = 0 := by omega
    simp [hpadding, withFraction, dropZeros]
  · have hzeros : e.toNat = 1 + (e - 1).toNat := by omega
    rw [if_pos (by omega), if_pos hpos.le, hzeros, List.append_assoc, ← List.replicate_append_replicate]
    rfl

theorem scientific_step (places c : Nat) (e : Int) (hc : 0 < c) :
    scientific places ⟨10 * c, e - 1⟩ = scientific places ⟨c, e⟩ := by
  have hexponent : scientificExponent ⟨10 * c, e - 1⟩ = scientificExponent ⟨c, e⟩ := by
    simp only [scientificExponent, digitCount, digits_ten_mul hc, List.length_append, List.length_singleton]
    push_cast
    ring
  simp only [scientific, digits_ten_mul hc, hexponent, List.append_assoc]
  cases hdigits : digits c with
  | nil => exact absurd hdigits Nat.toDigits_ne_nil
  | cons lead more =>
    have hzeros : ['0'] ++ List.replicate places '0' = List.replicate places '0' ++ ['0'] :=
      List.replicate_succ.symm.trans List.replicate_succ'
    have htake : (more ++ (List.replicate places '0' ++ ['0'])).take places = (more ++ List.replicate places '0').take places := by
      rw [← List.append_assoc, List.take_append_of_le_length]
      rw [List.length_append, List.length_replicate]
      exact Nat.le_add_left _ _
    simp only [List.cons_append, hzeros, htake]

theorem positional_congr {d d' : Decimal} (hd : 0 < d.coefficient) (hd' : 0 < d'.coefficient) (h : d.exact = d'.exact) :
    d.positional = d'.positional :=
  congr_of_step positional_step hd hd' h

theorem scientific_congr (places : Nat) {d d' : Decimal} (hd : 0 < d.coefficient) (hd' : 0 < d'.coefficient)
    (h : d.exact = d'.exact) : d.scientific places = d'.scientific places :=
  congr_of_step (scientific_step places) hd hd' h

end Decimal

end Reckoner
