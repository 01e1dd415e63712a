import Reckoner.Proofs.Expression.Word
import Reckoner.Proofs.Number.Shortest

/-!
# Positional texts read back

The positional text of a decimal number is a numeral that stands for the same exact number. The positional text of
a finite double is such a numeral behind an optional minus sign, and it reads back as the double, bit for bit.
-/

namespace Reckoner

open Expression (Numeral isNumeral)
open Literal (isDigit natOfDigits)

set_option autoImplicit false

/-! ## Numerals as exact numbers -/

def Expression.Numeral.exact (n : Numeral) : ℚ :=
  natOfDigits (n.text.filter isDigit) * 10 ^ (-(n.places : Int))

namespace Expression

theorem Numeral.exact_of_digits {n : Numeral} (h : ∀ c ∈ n.text, isDigit c = true) : n.exact = natOfDigits n.text := by
  obtain ⟨hdigits, hplaces⟩ := Numeral.parts_digits h
  rw [Numeral.exact, hdigits, hplaces, Nat.cast_zero, neg_zero, zpow_zero, mul_one]

theorem Numeral.exact_of_point {n : Numeral} {whole fraction : List Char} (htext : n.text = whole ++ '.' :: fraction)
    (hw : ∀ c ∈ whole, isDigit c = true) : n.exact = natOfDigits (whole ++ fraction) * 10 ^ (-(fraction.length : Int)) := by
  obtain ⟨hdigits, hplaces⟩ := Numeral.parts_point htext hw (Numeral.digits_of_point htext)
  rw [Numeral.exact, hdigits, hplaces]

end Expression

namespace Decimal

theorem isDigit_of_mem_digits {n : Nat} {c : Char} (h : c ∈ digits n) : isDigit c = true := by
  have hdigit : c.isDigit = true := Nat.isDigit_of_mem_toDigits (by decide) (by decide) h
  rw [Expression.isDigit_iff]
  simpa [Char.isDigit, UInt32.le_iff_toNat_le] using hdigit

theorem natOfDigits_digits (n : Nat) : natOfDigits (digits n) = n :=
  Nat.ofDigitChars_ten_toDigits

theorem natOfDigits_append_zeros (text : List Char) (count : Nat) :
    natOfDigits (text ++ List.replicate count '0') = natOfDigits text * 10 ^ count := by
  rw [natOfDigits, Nat.ofDigitChars_append, Nat.ofDigitChars_replicate_zero, Nat.mul_comm]
  rfl

theorem natOfDigits_zeros_append (count : Nat) (text : List Char) :
    natOfDigits (List.replicate count '0' ++ text) = natOfDigits text := by
  rw [natOfDigits, Nat.ofDigitChars_append, Nat.ofDigitChars_replicate_zero, Nat.mul_zero]
  rfl

/-! ## Texts with a fraction part -/

/-- Dropping zeros takes zeros away at the end and nothing else. -/
theorem eq_dropZeros_append (text : List Char) :
    ∃ count, text = dropZeros text ++ List.replicate count '0' := by
  have hzeros : text.reverse.takeWhile (· == '0') =
      List.replicate (text.reverse.takeWhile (· == '0')).length '0' :=
    List.eq_replicate_of_mem fun c hc => by simpa using List.mem_takeWhile_imp hc
  refine ⟨(text.reverse.takeWhile (· == '0')).length, ?_⟩
  have hsplit := congrArg List.reverse (List.takeWhile_append_dropWhile (p := (· == '0')) (l := text.reverse))
  rw [List.reverse_append, List.reverse_reverse, hzeros, List.reverse_replicate] at hsplit
  exact hsplit.symm

theorem mem_of_mem_dropZeros {text : List Char} {c : Char} (hc : c ∈ dropZeros text) : c ∈ text := by
  obtain ⟨count, hsplit⟩ := eq_dropZeros_append text
  rw [hsplit]
  exact List.mem_append_left _ hc

variable {whole fraction : List Char}

theorem count_point_digits {text : List Char} (h : ∀ c ∈ text, isDigit c = true) : text.count '.' = 0 :=
  List.count_eq_zero.mpr (Expression.point_not_mem h)

def ofDigits (text : List Char) (hne : text ≠ []) (h : ∀ c ∈ text, isDigit c = true) : Numeral where
  text := text
  all_numeral c hc := Expression.isNumeral_of_isDigit (h c hc)
  some_digit := ⟨text.head hne, List.head_mem hne, h _ (List.head_mem hne)⟩
  one_point := by rw [count_point_digits h]; exact Nat.zero_le 1

def ofParts (whole fraction : List Char) (hne : whole ≠ []) (hw : ∀ c ∈ whole, isDigit c = true)
    (hf : ∀ c ∈ fraction, isDigit c = true) : Numeral where
  text := whole ++ '.' :: fraction
  all_numeral c hc := by
    rcases List.mem_append.mp hc with hmem | hmem
    · exact Expression.isNumeral_of_isDigit (hw c hmem)
    · rcases List.mem_cons.mp hmem with rfl | hmem
      · rfl
      · exact Expression.isNumeral_of_isDigit (hf c hmem)
  some_digit := ⟨whole.head hne, List.mem_append_left _ (List.head_mem hne), hw _ (List.head_mem hne)⟩
  one_point := by
    rw [List.count_append, List.count_cons_self, count_point_digits hw, count_point_digits hf]

theorem exact_ofDigits {text : List Char} (hne : text ≠ []) (h : ∀ c ∈ text, isDigit c = true) :
    (ofDigits text hne h).exact = natOfDigits text :=
  Numeral.exact_of_digits h

theorem exact_ofParts (hne : whole ≠ []) (hw : ∀ c ∈ whole, isDigit c = true)
    (hf : ∀ c ∈ fraction, isDigit c = true) :
    (ofParts whole fraction hne hw hf).exact = natOfDigits (whole ++ fraction) * 10 ^ (-(fraction.length : Int)) :=
  Numeral.exact_of_point rfl hw

/-- Dropping the closing zeros of a fraction part leaves a numeral for the same number. -/
theorem withFraction_exact (hne : whole ≠ []) (hw : ∀ c ∈ whole, isDigit c = true)
    (hf : ∀ c ∈ fraction, isDigit c = true) :
    ∃ n : Numeral, n.text = withFraction whole fraction ∧
      n.exact = natOfDigits (whole ++ fraction) * 10 ^ (-(fraction.length : Int)) := by
  obtain ⟨count, hsplit⟩ := eq_dropZeros_append fraction
  have hkept : ∀ c ∈ dropZeros fraction, isDigit c = true := fun c hc => hf c (mem_of_mem_dropZeros hc)
  have hvalue : (natOfDigits (whole ++ fraction) : ℚ) * 10 ^ (-(fraction.length : Int)) =
      natOfDigits (whole ++ dropZeros fraction) * 10 ^ (-((dropZeros fraction).length : Int)) := by
    have hlength : (fraction.length : Int) = (dropZeros fraction).length + count := by
      have h := congrArg List.length hsplit
      rw [List.length_append, List.length_replicate] at h
      exact_mod_cast h
    have hdigits : natOfDigits (whole ++ fraction) = natOfDigits (whole ++ dropZeros fraction) * 10 ^ count := by
      rw [← natOfDigits_append_zeros, List.append_assoc, ← hsplit]
    rw [hlength, hdigits, neg_add, ten_zpow_add, zpow_neg _ (count : Int), zpow_natCast]
    push_cast
    field_simp
  rw [hvalue]
  unfold withFraction
  split
  · next hempty =>
    refine ⟨ofDigits whole hne hw, rfl, ?_⟩
    rw [exact_ofDigits, hempty]
    simp
  · exact ⟨ofParts whole (dropZeros fraction) hne hw hkept, rfl, exact_ofParts hne hw hkept⟩

theorem positional_exact (d : Decimal) (h : 0 < d.coefficient) :
    ∃ n : Numeral, n.text = d.positional ∧ n.exact = d.exact := by
  have hdigits : ∀ c ∈ digits d.coefficient, isDigit c = true := fun c hc => isDigit_of_mem_digits hc
  have hzeros : ∀ (count : Nat), ∀ c ∈ List.replicate count '0', isDigit c = true := fun count c hc => by
    rw [List.eq_of_mem_replicate hc]
    rfl
  unfold positional
  simp only
  split
  · next hexponent =>
    rw [if_neg h.ne']
    have hall : ∀ c ∈ digits d.coefficient ++ List.replicate d.exponent.toNat '0', isDigit c = true := fun c hc =>
      (List.mem_append.mp hc).elim (hdigits c) (hzeros _ c)
    have hne : digits d.coefficient ++ List.replicate d.exponent.toNat '0' ≠ [] :=
      List.append_ne_nil_of_left_ne_nil Nat.toDigits_ne_nil _
    refine ⟨ofDigits _ hne hall, rfl, ?_⟩
    rw [exact_ofDigits, natOfDigits_append_zeros, natOfDigits_digits, exact]
    push_cast
    rw [← zpow_natCast, Int.toNat_of_nonneg hexponent]
  · next hexponent =>
    have hlength : (List.replicate ((-d.exponent).toNat + 1 - (digits d.coefficient).length) '0' ++
        digits d.coefficient).length = max (digits d.coefficient).length ((-d.exponent).toNat + 1) := by
      rw [List.length_append, List.length_replicate]
      omega
    have hvalue : natOfDigits (List.replicate ((-d.exponent).toNat + 1 - (digits d.coefficient).length) '0' ++
        digits d.coefficient) = d.coefficient := by
      rw [natOfDigits_zeros_append, natOfDigits_digits]
    have hall : ∀ c ∈ List.replicate ((-d.exponent).toNat + 1 - (digits d.coefficient).length) '0' ++
        digits d.coefficient, isDigit c = true := fun c hc =>
      (List.mem_append.mp hc).elim (hzeros _ c) (hdigits c)
    generalize List.replicate ((-d.exponent).toNat + 1 - (digits d.coefficient).length) '0' ++ digits d.coefficient =
      padded at hlength hvalue hall
    have hne : padded.take (padded.length - (-d.exponent).toNat) ≠ [] := by
      rw [← List.length_pos_iff, List.length_take]
      omega
    obtain ⟨n, htext, hn⟩ := @withFraction_exact _ (padded.drop (padded.length - (-d.exponent).toNat)) hne
      (fun c hc => hall c (List.mem_of_mem_take hc)) (fun c hc => hall c (List.mem_of_mem_drop hc))
    refine ⟨n, htext, ?_⟩
    have hplaces : ((padded.drop (padded.length - (-d.exponent).toNat)).length : Int) = -d.exponent := by
      rw [List.length_drop]
      omega
    rw [hn, List.take_append_drop, hvalue, hplaces, neg_neg]
    rfl

end Decimal

namespace Double

variable {mantissa : Nat} {exponent : Int}

theorem numeral_value (hc : Canonical mantissa exponent) (hm : 0 < mantissa) {n : Numeral}
    (h : RoundsTo mantissa exponent n.exact) : n.value = ofMagnitude false (magnitudeBits mantissa exponent) :=
  ofDecimal_eq false hc hm h

theorem coefficient_pos (hm : 0 < mantissa) {d : Decimal} (h : RoundsTo mantissa exponent d.exact) :
    0 < d.coefficient := by
  rw [Nat.pos_iff_ne_zero]
  intro hzero
  have hpos := h.pos hm
  rw [Decimal.exact, hzero, Nat.cast_zero, zero_mul] at hpos
  exact absurd (two_zpow_pos (exponent - 1)) (not_lt.mpr hpos)

def zeroNumeral : Numeral :=
  Decimal.ofDigits ['0'] (by decide) (by simp [isDigit])

theorem zeroNumeral_value : zeroNumeral.value = zero false := by
  have hdigits : natOfDigits (zeroNumeral.text.filter isDigit) = 0 := by decide
  rw [Numeral.value, hdigits, ofDecimal, if_pos rfl]

/-- The positional text of a finite double is a numeral, behind a minus sign or not, that reads back as it. -/
theorem positional_reads_back {x : Float} (h : x.isFinite = true) :
    ∃ (negative : Bool) (n : Numeral), positional x = signedText negative n.text ∧
      x = if negative then -n.value else n.value := by
  obtain ⟨negative, mantissa, exponent, hcontent, hc, hx⟩ := content_of_isFinite h
  have hsigned : ∀ n : Numeral, n.value = ofMagnitude false (magnitudeBits mantissa exponent) →
      x = if negative then -n.value else n.value := by
    intro n hn
    rw [hn, neg_ofMagnitude false (magnitudeBits_lt hc).le, hx]
    cases negative <;> rfl
  by_cases hm : mantissa = 0
  · subst hm
    have hleast : exponent = leastExponent := hc.normal.resolve_left (by norm_num)
    refine ⟨negative, zeroNumeral, ?_, hsigned _ ?_⟩
    · rw [positional, hcontent]
      rfl
    · rw [zeroNumeral_value, hleast]
      rfl
  · have hpos : 0 < mantissa := Nat.pos_of_ne_zero hm
    have hrounds := shortest_roundsTo hc hpos
    obtain ⟨n, htext, hexact⟩ := Decimal.positional_exact _ (coefficient_pos hpos hrounds)
    refine ⟨negative, n, ?_, hsigned n (numeral_value hc hpos (hexact ▸ hrounds))⟩
    rw [positional, hcontent, htext]
    split
    · contradiction
    · contradiction
    · next heq => exact absurd (Content.finite.inj heq).2.1 hm
    · next heq =>
      obtain ⟨rfl, rfl, rfl⟩ := Content.finite.inj heq
      rfl

end Double

end Reckoner
